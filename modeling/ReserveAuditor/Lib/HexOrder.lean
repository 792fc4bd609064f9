import ReserveAuditor.Lib.Hex

/-! The texts that are hexadecimal, and their order. The digits are ordered as their values,
so that lower-case texts are ordered as the bytes they encode. -/
namespace Hex

/-! ### Digits in either case -/

/-- A digit in either case. -/
def IsCaseDigit (c : Char) : Prop :=
  ('0' ≤ c ∧ c ≤ '9') ∨ ('a' ≤ c ∧ c ≤ 'f') ∨ ('A' ≤ c ∧ c ≤ 'F')

theorem isCaseDigit_iff (c : Char) : IsCaseDigit c ↔ ∃ n, value? c = some n := by
  unfold IsCaseDigit value?
  split
  · simp [*]
  · split
    · simp [*]
    · split <;> simp [*]

/-- Lower-casing a digit gives a lower-case digit. -/
theorem isDigit_toLower_iff (c : Char) : IsDigit c.toLower ↔ IsCaseDigit c := by
  simp only [isCaseDigit_iff, value?_eq_some, IsDigit]

/-- Twice as many digits as bytes decode, and nothing else. -/
theorem exists_decode_iff (cs : List Char) (n : ℕ) :
    (∃ bs, decode cs = some bs ∧ bs.length = n) ↔
      cs.length = 2*n ∧ ∀ c ∈ cs, IsCaseDigit c := by
  simp only [decode_eq_some]
  constructor
  · rintro ⟨bs,hbs,rfl⟩
    refine ⟨by rw [← length_encodeChars, ← hbs, List.length_map],fun c hc => ?_⟩
    -- decoding succeeds exactly on texts that lower-case to an encoding
    have hmem : c.toLower ∈ encodeChars bs := by
      rw [← hbs]
      exact List.mem_map_of_mem hc
    exact (isDigit_toLower_iff c).mp (isDigit_of_mem_encodeChars hmem)
  · rintro ⟨hlen,hcs⟩
    have hmap : ∀ c ∈ cs.map Char.toLower, IsDigit c := by
      intro c hc
      obtain ⟨c',hc',rfl⟩ := List.mem_map.mp hc
      exact (isDigit_toLower_iff c').mpr (hcs c' hc')
    obtain ⟨bs,hbs,henc⟩ := exists_encodeChars (by rw [List.length_map, hlen]) hmap
    exact ⟨bs,henc.symm,hbs⟩

/-! ### Order -/

/-- Where the elements' comparison agrees with `<`, so does that of lists. -/
theorem compare_list_eq_lt {α : Type} [Ord α] [Std.LawfulEqOrd α] [LT α]
    (hlt : ∀ a b : α, compare a b = .lt ↔ a < b) (as bs : List α) :
    compare as bs = .lt ↔ as < bs := by
  induction as generalizing bs with
  | nil => cases bs <;> simp
  | cons a as ih =>
    cases bs with
    | nil => simp
    | cons b bs =>
      rw [List.compare_cons_cons, Ordering.then_eq_lt, List.cons_lt_cons_iff, hlt, ih,
        Std.compare_eq_iff_eq]

/-- Texts are ordered as their characters. -/
theorem compare_toList (s t : String) : compare s t = compare s.toList t.toList := by
  have hlt : compare s.toList t.toList = .lt ↔ s < t :=
    compare_list_eq_lt (fun a b => compareOfLessAndEq_eq_lt) s.toList t.toList
  have heq : compare s.toList t.toList = .eq ↔ s = t := by
    rw [Std.compare_eq_iff_eq, String.toList_inj]
  change compareOfLessAndEq s t = _
  simp only [compareOfLessAndEq, ← hlt, ← heq]
  cases compare s.toList t.toList <;> rfl

theorem compare_digit : ∀ m < 16, ∀ n < 16, compare (digit m) (digit n) = compare m n := by
  decide

/-- Numbers are ordered by their quotients, then by their remainders. -/
theorem compare_div_then_mod (k m n : ℕ) :
    (compare (m/k) (n/k)).then (compare (m%k) (n%k)) = compare m n := by
  rcases lt_trichotomy (m/k) (n/k) with h | h | h
  · have hlt : m < n := Nat.lt_of_not_le fun hle => not_le.mpr h (Nat.div_le_div_right hle)
    rw [Nat.compare_eq_lt.mpr h, Nat.compare_eq_lt.mpr hlt]
    rfl
  -- with equal quotients both numbers are the remainders, shifted by the same amount
  · have hm := Nat.div_add_mod m k
    have hn := Nat.div_add_mod n k
    rw [← h] at hn
    rw [h, Nat.compare_eq_eq.mpr rfl, Ordering.eq_then]
    calc
      compare (m%k) (n%k) = compare (k*(m/k)+m%k) (k*(m/k)+n%k) := by
        simp only [Nat.compare_eq_ite_lt, Nat.add_lt_add_iff_left]
      _ = compare m n := by rw [hm, hn]
  · have hlt : n < m := Nat.lt_of_not_le fun hle => not_le.mpr h (Nat.div_le_div_right hle)
    rw [Nat.compare_eq_gt.mpr h, Nat.compare_eq_gt.mpr hlt]
    rfl

theorem compare_toNat (a b : UInt8) : compare a.toNat b.toNat = compare a b := by
  change _ = compareOfLessAndEq a b
  simp only [Nat.compare_eq_ite_lt, compareOfLessAndEq, UInt8.lt_iff_toNat_lt, ← UInt8.toNat_inj]
  rcases lt_trichotomy a.toNat b.toNat with h | h | h
  · rw [if_pos h, if_pos h]
  · simp only [h, lt_irrefl, if_false, if_true]
  · simp only [h, h.not_gt, h.ne', if_false, if_true]

/-- The texts of byte strings are ordered as the byte strings. -/
theorem compare_encodeChars (as bs : List UInt8) :
    compare (encodeChars as) (encodeChars bs) = compare as bs := by
  induction as generalizing bs with
  | nil => cases bs <;> rfl
  | cons a as ih =>
    cases bs with
    | nil => rfl
    | cons b bs =>
      have ha : a.toNat < 256 := a.toNat_lt
      have hb : b.toNat < 256 := b.toNat_lt
      change compare (digit (a.toNat/16) :: digit (a.toNat%16) :: encodeChars as)
        (digit (b.toNat/16) :: digit (b.toNat%16) :: encodeChars bs) = _
      -- the two digits of the first byte decide as its quotient and remainder by 16 do
      rw [List.compare_cons_cons, List.compare_cons_cons, List.compare_cons_cons, ih,
        compare_digit _ (by omega) _ (by omega), compare_digit _ (by omega) _ (by omega),
        ← Ordering.then_assoc, compare_div_then_mod, compare_toNat]

end Hex
