import ReserveAuditor.Lib.Table

/-! Listings of tables: pages that are read until one is empty, and the rows of a table split into
those that another table refers to and the rest. -/
namespace Relational

variable {α β : Type}

/-! ### Pages -/

/-- The pages up to the first empty one make up the list. -/
def Paged (page : ℕ → List α) (rows : List α) : Prop :=
  ∃ n, (∀ i < n, page i ≠ []) ∧ page n = [] ∧ (List.range n).flatMap page = rows

/-- Every request for a page is answered, and the pages make up the list. -/
def AllPaged {ε : Type} (page : ℕ → Except ε (List α)) (rows : List α) : Prop :=
  ∃ pages, (∀ i, page i = .ok (pages i)) ∧ Paged pages rows

theorem flatMap_pages (rows : List α) (p n : ℕ) :
    (List.range n).flatMap (fun i => (rows.drop (i*p)).take p) = rows.take (n*p) := by
  induction n with
  | zero => simp
  | succ n ih =>
    rw [List.range_succ, List.flatMap_append, ih, List.flatMap_singleton, Nat.succ_mul,
      List.take_add]

/-- Pages of `p` rows, where only offsets up to the one past the last page matter. -/
theorem paged_of_windows {page : ℕ → List α} {rows : List α} {p : ℕ} (hp : 0 < p)
    (h : ∀ i, i*p < rows.length+p → page i = (rows.drop (i*p)).take p) : Paged page rows := by
  -- the first empty page starts at or after the end, but less than a page after it
  obtain ⟨n,hlast,hend⟩ : ∃ n, rows.length ≤ n*p ∧ n*p < rows.length+p := by
    have hmod := Nat.div_add_mod (rows.length+p-1) p
    have hlt := Nat.mod_lt (rows.length+p-1) hp
    refine ⟨(rows.length+p-1)/p,?_,?_⟩ <;> rw [Nat.mul_comm] <;> omega
  have hbefore (i : ℕ) (hi : i < n) : i*p < rows.length := by
    have hle : (i+1)*p ≤ n*p := Nat.mul_le_mul_right p hi
    rw [Nat.succ_mul] at hle
    omega
  refine ⟨n,fun i hi hnil => ?_,?_,?_⟩
  · rw [h i ((hbefore i hi).trans (by omega)), List.take_eq_nil_iff, List.drop_eq_nil_iff] at hnil
    have hlt := hbefore i hi
    omega
  · rw [h n hend, List.drop_eq_nil_of_le hlast, List.take_nil]
  · calc
      (List.range n).flatMap page =
          (List.range n).flatMap (fun i => (rows.drop (i*p)).take p) :=
        List.flatMap_congr fun i hi => h i ((hbefore i (List.mem_range.mp hi)).trans (by omega))
      _ = rows.take (n*p) := flatMap_pages rows p n
      _ = rows := List.take_of_length_le hlast

/-! ### Rows that are referred to -/

/-- Every row is in exactly one of the two lists, and once. -/
structure Splits (rows listed rest : List α) : Prop where
  perm : (listed ++ rest).Perm rows
  once : (listed ++ rest).Nodup

/-- A sum over the rows is the sum over the two lists. -/
theorem Splits.sum {rows listed rest : List α} (h : Splits rows listed rest) (f : α → ℕ) :
    (rows.map f).sum = (listed.map f).sum+(rest.map f).sum := by
  rw [← (h.perm.map f).sum_eq, List.map_append, List.sum_append]

/-- Where both halves of each pair weigh the same, two sets of rows only differ by what is in no
pair. -/
theorem Splits.balance {γ : Type} {pairs : List γ} {left : γ → α} {right : γ → β} {as as' : List α}
    {bs bs' : List β} (ha : Splits as (pairs.map left) as') (hb : Splits bs (pairs.map right) bs')
    (f : α → ℕ) (g : β → ℕ) (h : ∀ p ∈ pairs, f (left p) = g (right p)) :
    (as.map f).sum+(bs'.map g).sum = (bs.map g).sum+(as'.map f).sum := by
  have hpairs : (pairs.map left).map f = (pairs.map right).map g := by
    rw [List.map_map, List.map_map]
    exact List.map_congr_left h
  rw [ha.sum f, hb.sum g, hpairs]
  omega

/-- The listed rows and the rest, answered at different times: what was listed in between is in
neither answer if the listing was answered first, and once too often if it was answered last. -/
theorem Splits.apart {rows listed rest listed' : List α} (h : Splits rows listed rest)
    (hgrow : listed <+: listed' ∨ listed' <+: listed) :
    (listed' ++ rest ++ listed.drop listed'.length).Perm (rows ++ listed'.drop listed.length) := by
  rcases hgrow with ⟨more,rfl⟩ | ⟨more,rfl⟩
  · rw [List.drop_left, List.drop_of_length_le (List.length_append ▸ Nat.le_add_right _ _),
      List.append_nil, List.append_assoc]
    have hswap : (listed ++ (more ++ rest)).Perm (listed ++ rest ++ more) := by
      rw [List.append_assoc]
      exact List.perm_append_comm.append_left listed
    exact hswap.trans (h.perm.append_right more)
  · rw [List.drop_left, List.drop_of_length_le (List.length_append ▸ Nat.le_add_right _ _),
      List.append_nil]
    have hswap : (listed' ++ rest ++ more).Perm (listed' ++ more ++ rest) := by
      rw [List.append_assoc, List.append_assoc]
      exact List.perm_append_comm.append_left listed'
    exact hswap.trans h.perm

/-- Where each new pair has a new half, the rest loses a row only to a new row of the other side. -/
theorem Splits.rest_until {γ : Type} {pairs pairs' : List γ} {left : γ → α} {right : γ → β}
    {as as' rest rest' : List α} {bs : List β} (h : Splits as (pairs.map left) rest)
    (h' : Splits as' (pairs'.map left) rest') (hsub : as ⊆ as')
    (hnew : ∀ p ∈ pairs', p ∈ pairs ∨ left p ∉ as ∨ right p ∉ bs) :
    ∀ a ∈ rest, a ∈ rest' ∨ ∃ p ∈ pairs', left p = a ∧ right p ∉ bs := by
  intro a ha
  have hstored : a ∈ as := h.perm.subset (List.mem_append_right _ ha)
  have hsplit : a ∈ pairs'.map left ++ rest' := h'.perm.symm.subset (hsub hstored)
  rcases List.mem_append.mp hsplit with hpaired | hrest
  · obtain ⟨p,hp,rfl⟩ := List.mem_map.mp hpaired
    rcases hnew p hp with hold | hleft | hright
    -- it was in no pair before
    · exact absurd rfl ((List.nodup_append.mp h.once).2.2 _ (List.mem_map_of_mem hold) _ ha)
    · exact absurd hstored hleft
    · exact Or.inr ⟨p,hp,rfl,hright⟩
  · exact Or.inl hrest

variable {ρ : Type} [Record ρ] {t : Table ρ} {n : ℕ}

theorem Table.rows_nodup (t : Table ρ) : t.rows.Nodup := List.Nodup.of_map Record.id t.ids_nodup

/-- A table whose keys are bounded has no more rows than that. -/
theorem Table.length_le (h : ∀ r ∈ t.rows, key r < n) : t.rows.length ≤ n := by
  have hkeys : (t.rows.map key).Nodup := by
    rw [List.Nodup, List.pairwise_map]
    exact t.increasing.imp fun hlt => hlt.ne
  have hsub : t.rows.map key ⊆ List.range n := by
    intro k hk
    obtain ⟨r,hr,rfl⟩ := List.mem_map.mp hk
    exact List.mem_range.mpr (h r hr)
  simpa using (hkeys.subperm hsub).length_le

/-- The rows that a join finds and those that no joined row refers to. -/
theorem splits_of_join {joined : List β} {side : β → ρ} {ref : β → ℕ} {referred : ρ → Bool}
    (hfind : ∀ p ∈ joined, t.find (ref p) = some (side p)) (honce : (joined.map ref).Nodup)
    (hreferred : ∀ r ∈ t.rows, referred r = true ↔ ∃ p ∈ joined, Record.id r = some (ref p)) :
    Splits t.rows (joined.map side) (t.rows.filter fun r => !referred r) := by
  have hstored (p : β) (hp : p ∈ joined) : side p ∈ t.rows ∧ Record.id (side p) = some (ref p) :=
    (t.find_eq_some _ _).mp (hfind p hp)
  have hsides : (joined.map side).Nodup := by
    refine List.Nodup.of_map Record.id ?_
    -- the joined rows have the ids that they are joined by, and these are different
    have hrefs := honce.map (Option.some_injective ℕ)
    rw [List.map_map] at hrefs ⊢
    exact (List.map_congr_left fun p hp => (hstored p hp).2.symm) ▸ hrefs
  have honce : (joined.map side ++ t.rows.filter fun r => !referred r).Nodup := by
    refine List.nodup_append.mpr ⟨hsides,t.rows_nodup.filter _,?_⟩
    rintro r hr r' hr' rfl
    obtain ⟨p,hp,rfl⟩ := List.mem_map.mp hr
    obtain ⟨hmem,hnot⟩ := List.mem_filter.mp hr'
    rw [(hreferred _ hmem).mpr ⟨p,hp,(hstored p hp).2⟩] at hnot
    exact absurd hnot (by decide)
  refine ⟨(List.perm_ext_iff_of_nodup honce t.rows_nodup).mpr fun r => ?_,honce⟩
  rw [List.mem_append, List.mem_map, List.mem_filter]
  constructor
  · rintro (⟨p,hp,rfl⟩ | ⟨hr,-⟩)
    · exact (hstored p hp).1
    · exact hr
  · intro hr
    cases href : referred r with
    | false => exact Or.inr ⟨hr,rfl⟩
    | true =>
      obtain ⟨p,hp,hid⟩ := (hreferred r hr).mp href
      exact Or.inl ⟨p,hp,t.eq_of_id_eq (hstored p hp).1 hr ((hstored p hp).2.trans hid.symm)⟩

end Relational
