import Mathlib.Tactic

/-! Hexadecimal text. Encoding writes lower-case digits; decoding takes either case. -/
namespace Hex

def digit (n : ℕ) : Char :=
  ['0','1','2','3','4','5','6','7','8','9','a','b','c','d','e','f'].getD n '0'

def value? (c : Char) : Option ℕ :=
  if '0' ≤ c ∧ c ≤ '9' then some (c.toNat-48)
  else if 'a' ≤ c ∧ c ≤ 'f' then some (c.toNat-87)
  else if 'A' ≤ c ∧ c ≤ 'F' then some (c.toNat-55)
  else none

def encodeByte (b : UInt8) : List Char := [digit (b.toNat/16),digit (b.toNat%16)]

def encodeChars (bs : List UInt8) : List Char := bs.flatMap encodeByte

/-- The text of a byte string. -/
def encode (bs : List UInt8) : String := String.ofList (encodeChars bs)

/-- The bytes of a text: none for an odd length or a character that is no digit. -/
def decode : List Char → Option (List UInt8)
  | [] => some []
  | [_] => none
  | c :: d :: cs => do
    let hi ← value? c
    let lo ← value? d
    let bs ← decode cs
    pure (UInt8.ofNat (16*hi+lo) :: bs)

theorem value_digit (n : ℕ) (hn : n < 16) : value? (digit n) = some n := by
  revert n
  decide

theorem decode_encodeChars (bs : List UInt8) : decode (encodeChars bs) = some bs := by
  induction bs with
  | nil => rfl
  | cons b bs ih =>
    have hb : b.toNat < 256 := b.toNat_lt
    have hbyte : UInt8.ofNat (16*(b.toNat/16)+b.toNat%16) = b := by
      rw [Nat.div_add_mod]
      exact UInt8.ofNat_toNat
    change decode (digit (b.toNat/16) :: digit (b.toNat%16) :: encodeChars bs) = _
    simp only [decode, value_digit _ (show b.toNat/16 < 16 by omega),
      value_digit _ (show b.toNat%16 < 16 by omega), ih, Option.bind_eq_bind, Option.bind_some,
      hbyte, Option.pure_def]

theorem encode_injective : Function.Injective encode := by
  intro a b hab
  have hc : encodeChars a = encodeChars b := String.ofList_injective hab
  have hd := congrArg decode hc
  rw [decode_encodeChars, decode_encodeChars] at hd
  exact Option.some.inj hd

/-! ### Letter case -/

theorem digit_lt (n : ℕ) : (digit n).toNat < 128 := by
  unfold digit
  rcases Nat.lt_or_ge n 16 with h | h
  · revert n
    decide
  · rw [List.getD_eq_getElem?_getD, List.getElem?_eq_none (by simpa using h)]
    decide

/-- What a digit is worth does not depend on its case. -/
theorem value?_eq_some (c : Char) (n : ℕ) : value? c = some n ↔ n < 16 ∧ c.toLower = digit n := by
  -- both sides are about ASCII, where the two agree by inspection
  have hascii : ∀ i < 128, ∀ k < 16,
      value? (Char.ofNat i) = some k ↔ (Char.ofNat i).toLower = digit k := by
    decide
  have hvalue : ∀ i < 128, (value? (Char.ofNat i)).all (· < 16) = true := by decide
  constructor
  · intro h
    have hc : c.toNat < 128 := by
      unfold value? at h
      split at h
      · rename_i hc
        exact Nat.lt_of_le_of_lt (UInt32.le_iff_toNat_le.mp hc.2) (by decide)
      · split at h
        · rename_i hc
          exact Nat.lt_of_le_of_lt (UInt32.le_iff_toNat_le.mp hc.2) (by decide)
        · split at h
          · rename_i hc
            exact Nat.lt_of_le_of_lt (UInt32.le_iff_toNat_le.mp hc.2) (by decide)
          · simp at h
    have hn : n < 16 := by simpa [h] using hvalue _ hc
    exact ⟨hn,by simpa using (hascii _ hc n hn).mp (by simpa using h)⟩
  · rintro ⟨hn,h⟩
    have hc : c.toNat < 128 := by
      -- lower-casing changes no character but the capital letters
      by_cases hu : c.val ≥ 'A'.val ∧ c.val ≤ 'Z'.val
      · exact Nat.lt_of_le_of_lt (UInt32.le_iff_toNat_le.mp hu.2) (by decide)
      · rw [show c = digit n from (dif_neg hu).symm.trans h]
        exact digit_lt n
    simpa using (hascii _ hc n hn).mpr (by simpa using h)

/-- The texts that decode to a byte string are its lower-case text in any case. -/
theorem decode_eq_some (cs : List Char) (bs : List UInt8) :
    decode cs = some bs ↔ cs.map Char.toLower = encodeChars bs := by
  induction cs using decode.induct generalizing bs with
  | case1 =>
    cases bs <;> simp [decode, encodeChars, encodeByte]
  | case2 c =>
    cases bs <;> simp [decode, encodeChars, encodeByte]
  | case3 c d cs ih =>
    cases bs with
    | nil => simp [decode, encodeChars, Option.bind_eq_some_iff]
    | cons b bs =>
      have hb : b.toNat < 256 := b.toNat_lt
      have hchars : encodeChars (b :: bs) =
          digit (b.toNat/16) :: digit (b.toNat%16) :: encodeChars bs := rfl
      -- the digits of a byte are its quotient and its remainder by 16
      simp only [decode, Option.bind_eq_bind, Option.bind_eq_some_iff, Option.pure_def,
        Option.some.injEq, List.cons.injEq, hchars, List.map_cons, value?_eq_some]
      constructor
      · rintro ⟨hi,⟨hhi,hc⟩,lo,⟨hlo,hd⟩,bs',hbs,hbyte,rfl⟩
        have hval : b.toNat = 16*hi+lo := by
          rw [← hbyte, UInt8.toNat_ofNat_of_lt' (show 16*hi+lo < 256 by omega)]
        refine ⟨?_,?_,(ih bs').mp hbs⟩
        · rw [hc, show b.toNat/16 = hi by omega]
        · rw [hd, show b.toNat%16 = lo by omega]
      · rintro ⟨hc,hd,hbs⟩
        refine ⟨b.toNat/16,⟨by omega,hc⟩,b.toNat%16,⟨by omega,hd⟩,bs,(ih bs).mpr hbs,?_,rfl⟩
        rw [Nat.div_add_mod]
        exact UInt8.ofNat_toNat

/-- A lower-case digit. -/
def IsDigit (c : Char) : Prop := ∃ n < 16, c = digit n

theorem isDigit_of_mem_encodeChars {bs : List UInt8} {c : Char} (h : c ∈ encodeChars bs) :
    IsDigit c := by
  obtain ⟨b,-,hc⟩ := List.mem_flatMap.mp h
  have hb : b.toNat < 256 := b.toNat_lt
  rcases List.mem_cons.mp hc with rfl | hc
  · exact ⟨_,by omega,rfl⟩
  · exact ⟨_,Nat.mod_lt _ (by norm_num),List.mem_singleton.mp hc⟩

theorem length_encodeChars (bs : List UInt8) : (encodeChars bs).length = 2*bs.length := by
  induction bs with
  | nil => rfl
  | cons b bs ih =>
    change (encodeChars bs).length+1+1 = _
    rw [ih, List.length_cons]
    ring

/-- An even number of lower-case digits is the text of some bytes. -/
theorem exists_encodeChars {n : ℕ} {cs : List Char} (hlen : cs.length = 2*n)
    (hcs : ∀ c ∈ cs, IsDigit c) : ∃ bs, bs.length = n ∧ encodeChars bs = cs := by
  induction n generalizing cs with
  | zero => exact ⟨[],rfl,(List.eq_nil_of_length_eq_zero hlen).symm⟩
  | succ n ih =>
    match cs, hlen with
    | c :: d :: cs, hlen =>
      -- two digits at a time
      obtain ⟨hi,hhi,rfl⟩ := hcs c (by simp)
      obtain ⟨lo,hlo,rfl⟩ := hcs d (by simp)
      have hcs' : cs.length = 2*n := by
        simp only [List.length_cons] at hlen
        omega
      obtain ⟨bs,hbs,rfl⟩ := ih hcs' fun x hx => hcs x (by simp [hx])
      have hval : (UInt8.ofNat (16*hi+lo)).toNat = 16*hi+lo :=
        UInt8.toNat_ofNat_of_lt' (show 16*hi+lo < 256 by omega)
      refine ⟨UInt8.ofNat (16*hi+lo) :: bs,by simp [hbs],?_⟩
      change digit _ :: digit _ :: encodeChars bs = _
      rw [hval, show (16*hi+lo)/16 = hi by omega, show (16*hi+lo)%16 = lo by omega]

end Hex
