import Mathlib.Tactic

/-! Accounts that never go below zero: a charge of more than there is takes what there is and
counts as an overdraft. -/
namespace Account

/-- A movement on the account of a key. -/
inductive Entry (K : Type) where
  | deposit (k : K) (amount : ℕ)
  | charge (k : K) (amount : ℕ)
deriving DecidableEq

variable {K : Type} [DecidableEq K]

namespace Entry

/-- The balances after the entry. -/
def apply (b : K → ℕ) : Entry K → K → ℕ
  | deposit k a => Function.update b k (b k+a)
  | charge k a => Function.update b k (b k-a)

/-- 1 for a charge of more than there is. -/
def overdraft (b : K → ℕ) : Entry K → ℕ
  | deposit _ _ => 0
  | charge k a => if b k < a then 1 else 0

def depositOn (k : K) : Entry K → ℕ
  | deposit k' a => if k' = k then a else 0
  | charge _ _ => 0

def chargeOn (k : K) : Entry K → ℕ
  | deposit _ _ => 0
  | charge k' a => if k' = k then a else 0

theorem le_apply (b : K → ℕ) (e : Entry K) (k : K) :
    b k+e.depositOn k ≤ e.apply b k+e.chargeOn k := by
  cases e with
  | deposit k' a =>
    by_cases h : k = k'
    · subst h
      simp [apply, depositOn, chargeOn]
    · simp [apply, depositOn, chargeOn, h, Ne.symm h]
  | charge k' a =>
    by_cases h : k = k'
    · subst h
      -- the charge may stop at zero, which only leaves more behind
      simp only [apply, depositOn, chargeOn, Function.update_self, if_true]
      omega
    · simp [apply, depositOn, chargeOn, h, Ne.symm h]

/-- An entry keeps the books balanced exactly when it is no overdraft. -/
theorem overdraft_eq_zero_iff (b : K → ℕ) (e : Entry K) :
    e.overdraft b = 0 ↔ ∀ k, b k+e.depositOn k = e.apply b k+e.chargeOn k := by
  cases e with
  | deposit k' a =>
    refine iff_of_true rfl fun k => ?_
    by_cases h : k = k'
    · subst h
      simp [apply, depositOn, chargeOn]
    · simp [apply, depositOn, chargeOn, h, Ne.symm h]
  | charge k' a =>
    simp only [overdraft, ite_eq_right_iff, one_ne_zero, imp_false, not_lt]
    constructor
    · intro hle k
      by_cases h : k = k'
      · subst h
        simp only [apply, depositOn, chargeOn, Function.update_self, if_true]
        omega
      · simp [apply, depositOn, chargeOn, h, Ne.symm h]
    · intro h
      have hk := h k'
      simp only [apply, depositOn, chargeOn, Function.update_self, if_true] at hk
      omega

end Entry

/-- The balances after all entries. -/
def post (b : K → ℕ) (es : List (Entry K)) : K → ℕ := es.foldl Entry.apply b

def overdrafts : (K → ℕ) → List (Entry K) → ℕ
  | _, [] => 0
  | b, e :: es => e.overdraft b+overdrafts (e.apply b) es

def deposited (k : K) (es : List (Entry K)) : ℕ := (es.map (Entry.depositOn k)).sum

def charged (k : K) (es : List (Entry K)) : ℕ := (es.map (Entry.chargeOn k)).sum

@[simp] theorem post_cons (b : K → ℕ) (e : Entry K) (es : List (Entry K)) :
    post b (e :: es) = post (e.apply b) es := rfl

@[simp] theorem post_nil (b : K → ℕ) : post b [] = b := rfl

@[simp] theorem deposited_nil (k : K) : deposited k [] = 0 := rfl

@[simp] theorem charged_nil (k : K) : charged k [] = 0 := rfl

@[simp] theorem deposited_cons (k : K) (e : Entry K) (es : List (Entry K)) :
    deposited k (e :: es) = e.depositOn k+deposited k es := rfl

@[simp] theorem charged_cons (k : K) (e : Entry K) (es : List (Entry K)) :
    charged k (e :: es) = e.chargeOn k+charged k es := rfl

theorem post_append (b : K → ℕ) (es es' : List (Entry K)) :
    post b (es ++ es') = post (post b es) es' := by
  simp only [post, List.foldl_append]

theorem overdrafts_append (b : K → ℕ) (es es' : List (Entry K)) :
    overdrafts b (es ++ es') = overdrafts b es+overdrafts (post b es) es' := by
  induction es generalizing b with
  | nil => simp [overdrafts]
  | cons e es ih => simp only [List.cons_append, overdrafts, ih, post_cons, Nat.add_assoc]

theorem deposited_append (k : K) (es es' : List (Entry K)) :
    deposited k (es ++ es') = deposited k es+deposited k es' := by
  simp [deposited]

theorem charged_append (k : K) (es es' : List (Entry K)) :
    charged k (es ++ es') = charged k es+charged k es' := by
  simp [charged]

/-- What is there and what was charged make up for what there was and what was deposited. -/
theorem le_post (b : K → ℕ) (es : List (Entry K)) (k : K) :
    b k+deposited k es ≤ post b es k+charged k es := by
  induction es generalizing b with
  | nil => simp
  | cons e es ih =>
    have hone := e.le_apply b k
    have hrest := ih (e.apply b)
    simp only [post_cons, deposited_cons, charged_cons]
    omega

/-- There was no overdraft exactly when the books are balanced for every key. -/
theorem overdrafts_eq_zero_iff (b : K → ℕ) (es : List (Entry K)) :
    overdrafts b es = 0 ↔ ∀ k, b k+deposited k es = post b es k+charged k es := by
  induction es generalizing b with
  | nil => simp [overdrafts]
  | cons e es ih =>
    rw [overdrafts, Nat.add_eq_zero_iff, e.overdraft_eq_zero_iff, ih]
    simp only [post_cons, deposited_cons, charged_cons]
    constructor
    · rintro ⟨hone,hrest⟩ k
      have hk := hone k
      have hk' := hrest k
      omega
    · intro h
      -- each part can only gain on its books, so a balanced whole has balanced parts
      refine ⟨fun k => ?_,fun k => ?_⟩ <;>
        have hk := h k <;>
        have hone := e.le_apply b k <;>
        have hrest := le_post (e.apply b) es k <;>
        omega

/-- No balance ever reaches the limit. -/
def Below (limit : ℕ) (b : K → ℕ) (es : List (Entry K)) : Prop :=
  ∀ es' k, es' <+: es → post b es' k < limit

theorem Below.left {limit : ℕ} {b : K → ℕ} {es es' : List (Entry K)}
    (h : Below limit b (es ++ es')) : Below limit b es :=
  fun xs k hxs => h xs k (hxs.trans (List.prefix_append _ _))

theorem Below.right {limit : ℕ} {b : K → ℕ} {es es' : List (Entry K)}
    (h : Below limit b (es ++ es')) : Below limit (post b es) es' := by
  intro xs k hxs
  rw [← post_append]
  exact h (es ++ xs) k ((List.prefix_append_right_inj es).mpr hxs)

theorem Below.cons {limit : ℕ} {b : K → ℕ} {e : Entry K} {es : List (Entry K)}
    (h : Below limit b (e :: es)) : (∀ k, e.apply b k < limit) ∧ Below limit (e.apply b) es := by
  have happ : Below limit b ([e] ++ es) := h
  exact ⟨fun k => h [e] k (List.prefix_append [e] es),happ.right⟩

theorem Entry.apply_le (b : K → ℕ) (e : Entry K) (k : K) : e.apply b k ≤ b k+e.depositOn k := by
  cases e with
  | deposit k' a =>
    by_cases h : k = k'
    · subst h
      simp [apply, depositOn]
    · simp [apply, h]
  | charge k' a =>
    by_cases h : k = k'
    · subst h
      simp [apply, depositOn]
    · simp [apply, depositOn, h]

theorem post_le (b : K → ℕ) (es : List (Entry K)) (k : K) : post b es k ≤ b k+deposited k es := by
  induction es generalizing b with
  | nil => simp
  | cons e es ih =>
    have hone := e.apply_le b k
    have hrest := ih (e.apply b)
    rw [post_cons, deposited_cons]
    omega

/-- Balances stay below what all deposits together stay below. -/
theorem below_of_deposited {limit : ℕ} {b : K → ℕ} {es : List (Entry K)}
    (h : ∀ k, b k+deposited k es < limit) : Below limit b es := by
  rintro es' k ⟨rest,rfl⟩
  have hle := post_le b es' k
  have hk := h k
  rw [deposited_append] at hk
  omega

/-! ### Only deposits, or only charges -/

theorem Entry.apply_of_chargeOn_eq_zero {e : Entry K} (h : ∀ k, e.chargeOn k = 0) (b : K → ℕ)
    (k : K) : e.apply b k = b k+e.depositOn k := by
  cases e with
  | deposit k' a =>
    by_cases hk : k = k'
    · subst hk
      simp [apply, depositOn]
    · simp [apply, depositOn, hk, Ne.symm hk]
  | charge k' a =>
    have ha : a = 0 := by simpa [chargeOn] using h k'
    simp [apply, depositOn, ha]

theorem Entry.apply_of_depositOn_eq_zero {e : Entry K} (h : ∀ k, e.depositOn k = 0) (b : K → ℕ)
    (k : K) : e.apply b k = b k-e.chargeOn k := by
  cases e with
  | deposit k' a =>
    have ha : a = 0 := by simpa [depositOn] using h k'
    simp [apply, chargeOn, ha]
  | charge k' a =>
    by_cases hk : k = k'
    · subst hk
      simp [apply, chargeOn]
    · simp [apply, chargeOn, hk, Ne.symm hk]

theorem post_deposits {es : List (Entry K)} (h : ∀ k, charged k es = 0) (b : K → ℕ) (k : K) :
    post b es k = b k+deposited k es := by
  induction es generalizing b with
  | nil => rfl
  | cons e es ih =>
    have hsplit (k : K) := Nat.add_eq_zero_iff.mp ((charged_cons k e es).symm.trans (h k))
    rw [post_cons, ih (fun k => (hsplit k).2), e.apply_of_chargeOn_eq_zero (fun k => (hsplit k).1),
      deposited_cons, Nat.add_assoc]

/-- Deposits overdraw nothing. -/
theorem overdrafts_deposits {es : List (Entry K)} (h : ∀ k, charged k es = 0) (b : K → ℕ) :
    overdrafts b es = 0 := by
  refine (overdrafts_eq_zero_iff b es).mpr fun k => ?_
  rw [post_deposits h, h, Nat.add_zero]

/-- Charges that stop at zero one after the other take as much as one charge of their sum. -/
theorem post_charges {es : List (Entry K)} (h : ∀ k, deposited k es = 0) (b : K → ℕ) (k : K) :
    post b es k = b k-charged k es := by
  induction es generalizing b with
  | nil => rfl
  | cons e es ih =>
    have hsplit (k : K) := Nat.add_eq_zero_iff.mp ((deposited_cons k e es).symm.trans (h k))
    rw [post_cons, ih (fun k => (hsplit k).2), e.apply_of_depositOn_eq_zero (fun k => (hsplit k).1),
      charged_cons, Nat.sub_sub]

/-- Deposits stay below a limit exactly when they end below it. -/
theorem below_deposits_iff {limit : ℕ} {b : K → ℕ} {es : List (Entry K)}
    (h : ∀ k, charged k es = 0) : Below limit b es ↔ ∀ k, b k+deposited k es < limit := by
  refine ⟨fun hb k => ?_,below_of_deposited⟩
  rw [← post_deposits h]
  exact hb es k List.prefix_rfl

end Account
