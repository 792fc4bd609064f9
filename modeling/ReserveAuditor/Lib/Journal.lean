import Mathlib.Tactic

/-! Journals: lists that only grow at their end, and what is read from them by a number that never
decreases along them. -/
namespace Relational

variable {α : Type} {p q : α → Prop} {old mid new : List α}

/-! ### Growth -/

/-- The list grew at its end, by elements with the property. -/
def Appended (p : α → Prop) (old new : List α) : Prop :=
  ∃ more, new = old ++ more ∧ ∀ a ∈ more, p a

namespace Appended

theorem refl (p : α → Prop) (l : List α) : Appended p l l := ⟨[],by simp⟩

theorem of_eq (h : new = old) : Appended p old new := h ▸ refl p old

theorem trans (h : Appended p old mid) (h' : Appended p mid new) : Appended p old new := by
  obtain ⟨more,rfl,hmore⟩ := h
  obtain ⟨more',rfl,hmore'⟩ := h'
  refine ⟨more ++ more',List.append_assoc _ _ _,fun a ha => ?_⟩
  exact (List.mem_append.mp ha).elim (hmore a) (hmore' a)

theorem mono (h : Appended p old new) (hpq : ∀ a, p a → q a) : Appended q old new := by
  obtain ⟨more,rfl,hmore⟩ := h
  exact ⟨more,rfl,fun a ha => hpq a (hmore a ha)⟩

theorem isPrefix (h : Appended p old new) : old <+: new := by
  obtain ⟨more,rfl,-⟩ := h
  exact List.prefix_append old more

/-- A query that no new element answers has the answers that it had. -/
theorem filter_eq (h : Appended p old new) {f : α → Bool} (hf : ∀ a, p a → f a = false) :
    new.filter f = old.filter f := by
  obtain ⟨more,rfl,hmore⟩ := h
  have hnone : more.filter f = [] :=
    List.filter_eq_nil_iff.mpr fun a ha => by simp [hf a (hmore a ha)]
  rw [List.filter_append, hnone, List.append_nil]

theorem find?_eq (h : Appended p old new) {f : α → Bool} (hf : ∀ a, p a → f a = false) :
    new.find? f = old.find? f := by
  rw [← List.head?_filter, ← List.head?_filter, h.filter_eq hf]

end Appended

/-! ### Groups -/

variable {l : List α} {number : α → ℕ} {n : ℕ}

/-- The number never decreases along the list. -/
def Ordered (number : α → ℕ) (l : List α) : Prop := l.Pairwise fun a b => number a ≤ number b

/-- What comes first in a list comes first when the list is split. -/
theorem filter_append_rest {f : α → Bool} (h : l.Pairwise fun a b => f b = true → f a = true) :
    l.filter f ++ l.filter (fun a => !f a) = l := by
  induction l with
  | nil => rfl
  | cons a l ih =>
    obtain ⟨hfirst,hl⟩ := List.pairwise_cons.mp h
    cases hf : f a with
    | true => simpa [hf] using ih hl
    | false =>
      -- behind an element of the rest there is only the rest
      have hrest : ∀ b ∈ l, f b = false := by
        intro b hb
        by_contra hne
        simp [hfirst b hb (by simpa using hne)] at hf
      rw [List.filter_eq_nil_iff.mpr (by simpa [hf] using hrest),
        List.filter_eq_self.mpr (by simpa [hf] using hrest), List.nil_append]

theorem Ordered.filter_lt_succ (h : Ordered number l) (n : ℕ) :
    l.filter (fun a => decide (number a < n+1)) =
      l.filter (fun a => decide (number a < n)) ++ l.filter (fun a => decide (number a = n)) := by
  have hsplit := filter_append_rest (f := fun a => decide (number a < n))
    (l := l.filter fun a => decide (number a < n+1)) <|
      (h.filter _).imp fun {a b} hle hb => by simpa using hle.trans_lt (by simpa using hb)
  rw [← hsplit, List.filter_filter, List.filter_filter]
  congr 1
  · refine List.filter_congr fun a _ => ?_
    rw [Bool.eq_iff_iff]
    simp only [Bool.and_eq_true, decide_eq_true_eq]
    omega
  · refine List.filter_congr fun a _ => ?_
    rw [Bool.eq_iff_iff]
    simp only [Bool.and_eq_true, Bool.not_eq_true', decide_eq_false_iff_not, decide_eq_true_eq]
    omega

/-- The groups of all numbers, one after the other, are the list. -/
theorem Ordered.flatMap_groups (h : Ordered number l) (hlt : ∀ a ∈ l, number a < n) :
    (List.range n).flatMap (fun k => l.filter fun a => decide (number a = k)) = l := by
  have hall (n : ℕ) : (List.range n).flatMap (fun k => l.filter fun a => decide (number a = k)) =
      l.filter fun a => decide (number a < n) := by
    induction n with
    | zero => simp
    | succ n ih =>
      rw [List.range_succ, List.flatMap_append, ih, List.flatMap_singleton, h.filter_lt_succ]
  rw [hall, List.filter_eq_self.mpr fun a ha => decide_eq_true (hlt a ha)]

/-- Elements of the greatest number keep the order. -/
theorem Ordered.append (h : Ordered number old) (hold : ∀ a ∈ old, number a < n+1)
    {more : List α} (hmore : ∀ a ∈ more, number a = n) : Ordered number (old ++ more) := by
  refine List.pairwise_append.mpr ⟨h,?_,fun a ha b hb => ?_⟩
  · refine List.pairwise_of_forall_mem_list fun a ha b hb => ?_
    rw [hmore a ha, hmore b hb]
  · rw [hmore b hb]
    exact Nat.lt_succ_iff.mp (hold a ha)

end Relational
