import Mathlib.Tactic

/-! Relational tables with an integer primary key that the store assigns and with
uniqueness constraints. A table carries its constraints, so that a table that breaks one
of them cannot be built; rows are only ever added. -/
namespace Relational

/-- Rows of type `ρ`: the primary key (absent on an object that was never stored), and
the columns of a uniqueness constraint that two rows break together, if there is one. -/
class Record (ρ : Type) where
  id : ρ → Option ℕ
  withId : ρ → ℕ → ρ
  clash : ρ → ρ → Option String
  id_withId : ∀ r n, id (withId r n) = some n
  clash_withId : ∀ a r n, clash a (withId r n) = clash a r

variable {ρ : Type} [Record ρ]

def key (r : ρ) : ℕ := (Record.id r).getD 0

theorem forall₂_map_eq {α β γ : Type} {R : α → β → Prop} {f : α → γ} {g : β → γ} {as : List α}
    {bs : List β} (h : List.Forall₂ R as bs) (hfg : ∀ a b, R a b → g b = f a) :
    bs.map g = as.map f := by
  induction h with
  | nil => rfl
  | cons hab _ ih => rw [List.map_cons, List.map_cons, ih, hfg _ _ hab]

/-- Two different members of a pairwise related list are related one way or the other. -/
theorem pairwise_apart {α : Type} {R : α → α → Prop} {l : List α} (h : l.Pairwise R) {a b : α}
    (ha : a ∈ l) (hb : b ∈ l) (hne : a ≠ b) : R a b ∨ R b a := by
  have hsymm : Std.Symm (fun x y => R x y ∨ R y x) := ⟨fun _ _ => Or.symm⟩
  have hp : l.Pairwise (fun x y => R x y ∨ R y x) := h.imp Or.inl
  exact hp.forall ha hb hne

/-- `ORDER BY f DESC LIMIT 1`: the first row with the largest value in a column. -/
def maxBy {α : Type} (f : α → ℤ) : List α → Option α
  | [] => none
  | a :: as => match maxBy f as with
    | none => some a
    | some b => if f a < f b then some b else some a

theorem maxBy_eq_none {α : Type} (f : α → ℤ) (l : List α) : maxBy f l = none ↔ l = [] := by
  cases l with
  | nil => simp [maxBy]
  | cons a as =>
    simp only [maxBy, reduceCtorEq, iff_false]
    split
    · simp
    · split <;> simp

theorem maxBy_eq_some {α : Type} {f : α → ℤ} {l : List α} {a : α} (h : maxBy f l = some a) :
    a ∈ l ∧ ∀ b ∈ l, f b ≤ f a := by
  induction l generalizing a with
  | nil => simp [maxBy] at h
  | cons x xs ih =>
    rw [maxBy] at h
    split at h
    · rename_i hn
      rw [(maxBy_eq_none f xs).mp hn]
      simp_all
    · rename_i b hb
      obtain ⟨hm,hle⟩ := ih hb
      split at h
      -- only a larger value later in the list takes the place of the first one
      · rename_i hlt
        obtain rfl := Option.some.inj h
        refine ⟨List.mem_cons_of_mem x hm,fun y hy => ?_⟩
        rcases List.mem_cons.mp hy with rfl | hy
        · exact hlt.le
        · exact hle y hy
      · rename_i hlt
        obtain rfl := Option.some.inj h
        refine ⟨List.mem_cons_self,fun y hy => ?_⟩
        rcases List.mem_cons.mp hy with rfl | hy
        · exact le_rfl
        · exact (hle y hy).trans (not_lt.mp hlt)

structure Table (ρ : Type) [Record ρ] where
  rows : List ρ
  keyed : ∀ r ∈ rows, Record.id r = some (key r)
  increasing : rows.Pairwise (fun a b => key a < key b)
  unique : rows.Pairwise (fun a b => Record.clash a b = none)

namespace Table

@[ext] theorem ext {t t' : Table ρ} (h : t.rows = t'.rows) : t = t' := by
  cases t
  cases t'
  cases h
  rfl

def empty : Table ρ := ⟨[], by simp, by simp, by simp⟩

/-- The store numbers a new row one past the largest key in use. -/
def nextKey (t : Table ρ) : ℕ := (t.rows.map key).foldr max 0+1

theorem key_lt_nextKey (t : Table ρ) (r : ρ) (hr : r ∈ t.rows) : key r < t.nextKey := by
  have hmax (l : List ℕ) (n : ℕ) (hn : n ∈ l) : n ≤ l.foldr max 0 := by
    induction l with
    | nil => simp at hn
    | cons a l ih =>
      rcases List.mem_cons.mp hn with rfl | hn
      · exact le_max_left _ _
      · exact (ih hn).trans (le_max_right _ _)
  exact Nat.lt_succ_of_le (hmax _ _ (List.mem_map_of_mem hr))

theorem key_withId (r : ρ) (n : ℕ) : key (Record.withId r n) = n := by
  simp [key, Record.id_withId]

/-- Add a row under the next key. -/
def append (t : Table ρ) (r : ρ) (h : ∀ x ∈ t.rows, Record.clash x r = none) : Table ρ where
  rows := t.rows ++ [Record.withId r t.nextKey]
  keyed := by
    intro x hx
    rcases List.mem_append.mp hx with hx | hx
    · exact t.keyed x hx
    · rw [List.mem_singleton.mp hx, key_withId, Record.id_withId]
  increasing := by
    refine List.pairwise_append.mpr ⟨t.increasing, by simp, ?_⟩
    intro x hx y hy
    rw [List.mem_singleton.mp hy, key_withId]
    exact t.key_lt_nextKey x hx
  unique := by
    refine List.pairwise_append.mpr ⟨t.unique, by simp, ?_⟩
    intro x hx y hy
    rw [List.mem_singleton.mp hy, Record.clash_withId]
    exact h x hx

/-- `INSERT`: the new key, or the columns of the constraint the row would break. -/
def insert (t : Table ρ) (r : ρ) : Except String (ℕ × Table ρ) :=
  if h : ∀ x ∈ t.rows, Record.clash x r = none then .ok (t.nextKey,t.append r h)
  else .error ((t.rows.findSome? (fun x => Record.clash x r)).getD "")

theorem insert_eq_ok (t t' : Table ρ) (r : ρ) (n : ℕ) : t.insert r = .ok (n,t') ↔
    (∀ x ∈ t.rows, Record.clash x r = none) ∧ n = t.nextKey ∧
      t'.rows = t.rows ++ [Record.withId r n] := by
  unfold insert
  split
  · rename_i h
    simp only [Except.ok.injEq, Prod.mk.injEq, Table.ext_iff, append]
    constructor
    · rintro ⟨rfl,ht⟩
      exact ⟨h,rfl,ht.symm⟩
    · rintro ⟨_,rfl,ht⟩
      exact ⟨rfl,ht.symm⟩
  · rename_i h
    simp [h]

theorem eq_of_id_eq (t : Table ρ) {a b : ρ} (ha : a ∈ t.rows) (hb : b ∈ t.rows)
    (h : Record.id a = Record.id b) : a = b := by
  have hk : key a = key b := by simp only [key, h]
  by_contra hne
  rcases pairwise_apart t.increasing ha hb hne with hlt | hlt <;> omega

theorem id_ne_of_append {t : Table ρ} {old new : List ρ} (h : t.rows = old ++ new) {a b : ρ}
    (ha : a ∈ old) (hb : b ∈ new) : Record.id a ≠ Record.id b := by
  have hp := t.increasing
  rw [h, List.pairwise_append] at hp
  intro hid
  have hlt : key a < key b := hp.2.2 a ha b hb
  simp only [key, hid, lt_irrefl] at hlt

theorem ids_nodup (t : Table ρ) : (t.rows.map Record.id).Nodup := by
  rw [List.Nodup, List.pairwise_map]
  refine t.increasing.imp fun {a b} hlt hid => ?_
  simp only [key, hid, lt_irrefl] at hlt

theorem ids_nodup_of_append {t : Table ρ} {old new : List ρ} (h : t.rows = old ++ new) :
    (new.map Record.id).Nodup := by
  refine t.ids_nodup.sublist ?_
  rw [h, List.map_append]
  exact List.sublist_append_right _ _

theorem clash_of_append {t : Table ρ} {old new : List ρ} (h : t.rows = old ++ new) {a b : ρ}
    (ha : a ∈ old) (hb : b ∈ new) : Record.clash a b = none := by
  have hp := t.unique
  rw [h, List.pairwise_append] at hp
  exact hp.2.2 a ha b hb

/-- The row with a given key. -/
def find (t : Table ρ) (n : ℕ) : Option ρ := t.rows.find? (fun r => decide (Record.id r = some n))

theorem find_eq_some (t : Table ρ) (n : ℕ) (r : ρ) :
    t.find n = some r ↔ r ∈ t.rows ∧ Record.id r = some n := by
  constructor
  · intro h
    exact ⟨List.mem_of_find?_eq_some h, by simpa using List.find?_some h⟩
  · rintro ⟨hr,hn⟩
    obtain ⟨x,hx⟩ : ∃ x, t.find n = some x := by
      apply Option.isSome_iff_exists.mp
      exact List.find?_isSome.mpr ⟨r,hr,by simpa using hn⟩
    -- the search may stop at another row, but the key has only one
    have hid : Record.id x = some n := by simpa using List.find?_some hx
    rw [hx, t.eq_of_id_eq (List.mem_of_find?_eq_some hx) hr (hid.trans hn.symm)]

/-- Rows that are added do not hide the rows that are there. -/
theorem find_append {t t' : Table ρ} {new : List ρ} (h : t'.rows = t.rows ++ new) {n : ℕ} {r : ρ}
    (hr : t.find n = some r) : t'.find n = some r := by
  obtain ⟨hm,hid⟩ := (t.find_eq_some n r).mp hr
  refine (t'.find_eq_some n r).mpr ⟨?_,hid⟩
  rw [h]
  exact List.mem_append_left new hm

theorem mem_append {t t' : Table ρ} {r : ρ} (h : t'.rows = t.rows ++ [r]) : r ∈ t'.rows := by
  rw [h]
  exact List.mem_append_right _ (List.mem_singleton.mpr rfl)

/-- The row that was appended is found under its key. -/
theorem find_last {t t' : Table ρ} {r : ρ} {n : ℕ} (h : t'.rows = t.rows ++ [r])
    (hid : Record.id r = some n) : t'.find n = some r :=
  (t'.find_eq_some n r).mpr ⟨mem_append h,hid⟩

/-- A key that is not found with more rows is not found with fewer. -/
theorem find_none_of_grown {t t' : Table ρ} (h : t.rows <+: t'.rows) {n : ℕ}
    (hn : t'.find n = none) : t.find n = none := by
  obtain ⟨new,hnew⟩ := h
  cases hr : t.find n with
  | none => rfl
  | some r => exact absurd (find_append hnew.symm hr) (by simp [hn])

/-- The keys of rows that were added were not in use. -/
theorem find_none_of_new {t t' : Table ρ} {new : List ρ} (h : t'.rows = t.rows ++ new) {r : ρ}
    (hr : r ∈ new) : t.find (key r) = none := by
  have hp := t'.increasing
  rw [h, List.pairwise_append] at hp
  cases hx : t.find (key r) with
  | none => rfl
  | some x =>
    obtain ⟨hmem,hid⟩ := (t.find_eq_some _ x).mp hx
    have hlt : key x < key r := hp.2.2 x hmem r hr
    have hkey : key x = key r := by rw [key, hid, Option.getD_some]
    omega

theorem clash_of_ne (t : Table ρ) {a b : ρ} (ha : a ∈ t.rows) (hb : b ∈ t.rows) (hne : a ≠ b) :
    Record.clash a b = none ∨ Record.clash b a = none :=
  pairwise_apart t.unique ha hb hne

/-! ### New values of a unique column -/

/-- Values that a column does not hold yet, and that are pairwise different. -/
structure NewKeys {κ : Type} (col : ρ → κ) (t : Table ρ) (ks : List κ) : Prop where
  nodup : ks.Nodup
  fresh : ∀ r ∈ t.rows, col r ∉ ks

section NewKeys
variable {κ : Type} {col : ρ → κ} {t t' : Table ρ} {ks : List κ}

theorem NewKeys.head {k : κ} (h : NewKeys col t (k :: ks)) : ∀ r ∈ t.rows, col r ≠ k :=
  fun r hr he => h.fresh r hr (List.mem_cons.mpr (Or.inl he))

/-- One of the values is stored, and the others are still new. -/
theorem NewKeys.tail {k : κ} {r : ρ} (h : NewKeys col t (k :: ks)) (hk : col r = k)
    (ht : t'.rows = t.rows ++ [r]) : NewKeys col t' ks := by
  obtain ⟨hnot,hnodup⟩ := List.nodup_cons.mp h.nodup
  refine ⟨hnodup,fun x hx => ?_⟩
  rw [ht] at hx
  rcases List.mem_append.mp hx with hx | hx
  · exact fun hmem => h.fresh x hx (List.mem_cons_of_mem k hmem)
  · rwa [List.mem_singleton.mp hx, hk]

theorem NewKeys.perm {ks' : List κ} (h : NewKeys col t ks) (hp : ks'.Perm ks) : NewKeys col t ks' :=
  ⟨hp.nodup_iff.mpr h.nodup,fun r hr hmem => h.fresh r hr (hp.mem_iff.mp hmem)⟩

/-- The values of rows that were added, in a column that a constraint keeps unique. -/
theorem newKeys_of_append (col : ρ → κ) {rows : List ρ} (ht : t'.rows = t.rows ++ rows)
    (hcol : ∀ a b, Record.clash a b = none → col a ≠ col b) : NewKeys col t (rows.map col) := by
  have hp := t'.unique
  rw [ht, List.pairwise_append] at hp
  refine ⟨?_,fun x hx hmem => ?_⟩
  · rw [List.Nodup, List.pairwise_map]
    exact hp.2.1.imp (hcol _ _)
  · obtain ⟨r,hr,he⟩ := List.mem_map.mp hmem
    exact hcol x r (hp.2.2 x hx r hr) he.symm

theorem insert_returns (t : Table ρ) {r : ρ} (h : ∀ x ∈ t.rows, Record.clash x r = none) :
    ∃ t', t.insert r = .ok (t.nextKey,t') ∧ t'.rows = t.rows ++ [Record.withId r t.nextKey] :=
  ⟨t.append r h,(insert_eq_ok _ _ _ _).mpr ⟨h,rfl,rfl⟩,rfl⟩

end NewKeys

end Table

theorem id_of_find? {ρ : Type} [Record ρ] {t : Table ρ} {p : ρ → Bool} {r : ρ}
    (h : t.rows.find? p = some r) : Record.id r = some (key r) :=
  t.keyed r (List.mem_of_find?_eq_some h)

/-- What a search among the free rows finds is stored, has the key that is asked for and is free. -/
theorem found_of_find? {ρ κ : Type} [Record ρ] [DecidableEq κ] {t : Table ρ} {keyOf : ρ → κ} {k : κ}
    {taken : ρ → Bool} {r : ρ}
    (h : t.rows.find? (fun x => decide (keyOf x = k) && !taken x) = some r) :
    r ∈ t.rows ∧ keyOf r = k ∧ taken r = false := by
  have hp := List.find?_some h
  simp only [Bool.and_eq_true, decide_eq_true_eq, Bool.not_eq_true'] at hp
  exact ⟨List.mem_of_find?_eq_some h,hp⟩

/-- Amounts that different members of `rows` bound add up to at most the sum over `rows`. -/
theorem sum_le_of_nodup {α β : Type} {l : List α} {rows : List β} {f : α → β} {g : α → ℕ} {h : β → ℕ}
    (hn : (l.map f).Nodup) (hl : ∀ a ∈ l, f a ∈ rows ∧ g a ≤ h (f a)) :
    (l.map g).sum ≤ (rows.map h).sum := by
  have hsub : l.map f ⊆ rows := by
    intro b hb
    obtain ⟨a,ha,rfl⟩ := List.mem_map.mp hb
    exact (hl a ha).1
  obtain ⟨l',hperm,hl'⟩ := hn.subperm hsub
  calc
    (l.map g).sum ≤ (l.map (h ∘ f)).sum := List.sum_le_sum fun a ha => (hl a ha).2
    _ = ((l.map f).map h).sum := by rw [List.map_map]
    _ = (l'.map h).sum := ((hperm.map h).sum_eq).symm
    _ ≤ (rows.map h).sum := (hl'.map h).sum_le_sum fun _ _ => Nat.zero_le _

end Relational
