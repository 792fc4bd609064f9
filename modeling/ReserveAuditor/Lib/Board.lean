import Mathlib.Tactic

/-! Matching two streams of arrivals one to one. Members of the two sides have names,
which links refer to, and keys, which a search goes by; a search looks at the first
unlinked member with the right key and gives up when that one does not fit. -/
namespace Matching
set_option linter.unusedSectionVars false

/-- What tells members of the two sides apart, and which pairs belong together. -/
structure Sides (L R I J K : Type) where
  nameL : L → I
  nameR : R → J
  keyL : L → K
  keyR : R → K
  fits : L → R → Bool
  key_of_fits : ∀ l r, fits l r = true → keyL l = keyR r

/-- The members that arrived, in order, and the links made between them. -/
structure Board (L R I J : Type) where
  lefts : List L
  rights : List R
  links : List (I × J)

namespace Board
variable {L R I J K : Type} [DecidableEq I] [DecidableEq J] [DecidableEq K]
variable (S : Sides L R I J K) (b : Board L R I J)

def LinkedL (i : I) : Prop := i ∈ b.links.map Prod.fst

def LinkedR (j : J) : Prop := j ∈ b.links.map Prod.snd

instance (i : I) : Decidable (b.LinkedL i) := inferInstanceAs (Decidable (_ ∈ _))

instance (j : J) : Decidable (b.LinkedR j) := inferInstanceAs (Decidable (_ ∈ _))

def addLefts (ls : List L) : Board L R I J := { b with lefts := b.lefts ++ ls }

def addRight (r : R) : Board L R I J := { b with rights := b.rights ++ [r] }

def link (l : L) (r : R) : Board L R I J :=
  { b with links := b.links ++ [(S.nameL l,S.nameR r)] }

/-- The right member that a search for the key `k` looks at. -/
def candidateR (k : K) : Option R :=
  b.rights.find? (fun r => decide (S.keyR r = k) && !decide (b.LinkedR (S.nameR r)))

/-- The left member that a search for the key `k` looks at. -/
def candidateL (k : K) : Option L :=
  b.lefts.find? (fun l => decide (S.keyL l = k) && !decide (b.LinkedL (S.nameL l)))

/-- Look for a partner of the left member `l`. -/
def matchLeft (l : L) : Board L R I J :=
  if b.LinkedL (S.nameL l) then b
  else match b.candidateR S (S.keyL l) with
    | none => b
    | some r => if S.fits l r then b.link S l r else b

/-- Look for a partner of the right member `r`. -/
def matchRight (r : R) : Board L R I J :=
  if b.LinkedR (S.nameR r) then b
  else match b.candidateL S (S.keyR r) with
    | none => b
    | some l => if S.fits l r then b.link S l r else b

/-- A right member arrives and looks for its partner at once. -/
def arriveRight (r : R) : Board L R I J := (b.addRight r).matchRight S r

/-- Left members arrive together; then each looks for its partner in turn. -/
def arriveLefts (ls : List L) : Board L R I J := ls.foldl (matchLeft S) (b.addLefts ls)

@[simp] theorem link_lefts (l : L) (r : R) : (b.link S l r).lefts = b.lefts := rfl
@[simp] theorem link_rights (l : L) (r : R) : (b.link S l r).rights = b.rights := rfl
@[simp] theorem link_links (l : L) (r : R) :
    (b.link S l r).links = b.links ++ [(S.nameL l,S.nameR r)] := rfl

@[simp] theorem linkedL_link (l : L) (r : R) (i : I) :
    (b.link S l r).LinkedL i ↔ b.LinkedL i ∨ i = S.nameL l := by
  simp [LinkedL]

@[simp] theorem linkedR_link (l : L) (r : R) (j : J) :
    (b.link S l r).LinkedR j ↔ b.LinkedR j ∨ j = S.nameR r := by
  simp [LinkedR]

variable {S b}

theorem candidateR_eq_some {k : K} {r : R} (h : b.candidateR S k = some r) :
    r ∈ b.rights ∧ S.keyR r = k ∧ ¬b.LinkedR (S.nameR r) := by
  have hp := List.find?_some h
  simp only [Bool.and_eq_true, decide_eq_true_eq, Bool.not_eq_true', decide_eq_false_iff_not] at hp
  exact ⟨List.mem_of_find?_eq_some h,hp⟩

theorem candidateL_eq_some {k : K} {l : L} (h : b.candidateL S k = some l) :
    l ∈ b.lefts ∧ S.keyL l = k ∧ ¬b.LinkedL (S.nameL l) := by
  have hp := List.find?_some h
  simp only [Bool.and_eq_true, decide_eq_true_eq, Bool.not_eq_true', decide_eq_false_iff_not] at hp
  exact ⟨List.mem_of_find?_eq_some h,hp⟩

theorem candidateR_of_mem {k : K} {r : R} (hr : r ∈ b.rights) (hk : S.keyR r = k)
    (hu : ¬b.LinkedR (S.nameR r)) : ∃ r', b.candidateR S k = some r' := by
  apply Option.isSome_iff_exists.mp
  exact List.find?_isSome.mpr ⟨r,hr,by simp [hk,hu]⟩

theorem candidateL_of_mem {k : K} {l : L} (hl : l ∈ b.lefts) (hk : S.keyL l = k)
    (hu : ¬b.LinkedL (S.nameL l)) : ∃ l', b.candidateL S k = some l' := by
  apply Option.isSome_iff_exists.mp
  exact List.find?_isSome.mpr ⟨l,hl,by simp [hk,hu]⟩

/-- A search changes nothing or links two unlinked members that fit. -/
theorem matchLeft_cases (S : Sides L R I J K) (b : Board L R I J) (l : L) :
    b.matchLeft S l = b ∨
    ∃ r, b.candidateR S (S.keyL l) = some r ∧ ¬b.LinkedL (S.nameL l) ∧ S.fits l r = true ∧
      b.matchLeft S l = b.link S l r := by
  unfold matchLeft
  split
  · exact Or.inl rfl
  · rename_i hl
    split
    · exact Or.inl rfl
    · rename_i r hr
      split
      · rename_i hf
        exact Or.inr ⟨r,hr,hl,hf,rfl⟩
      · exact Or.inl rfl

theorem matchRight_cases (S : Sides L R I J K) (b : Board L R I J) (r : R) :
    b.matchRight S r = b ∨
    ∃ l, b.candidateL S (S.keyR r) = some l ∧ ¬b.LinkedR (S.nameR r) ∧ S.fits l r = true ∧
      b.matchRight S r = b.link S l r := by
  unfold matchRight
  split
  · exact Or.inl rfl
  · rename_i hr
    split
    · exact Or.inl rfl
    · rename_i l hl
      split
      · rename_i hf
        exact Or.inr ⟨l,hl,hr,hf,rfl⟩
      · exact Or.inl rfl

theorem matchLeft_lefts (l : L) : (b.matchLeft S l).lefts = b.lefts := by
  rcases matchLeft_cases S b l with h | ⟨r,_,_,_,h⟩ <;> simp [h]

theorem matchLeft_rights (l : L) : (b.matchLeft S l).rights = b.rights := by
  rcases matchLeft_cases S b l with h | ⟨r,_,_,_,h⟩ <;> simp [h]

theorem matchRight_lefts (r : R) : (b.matchRight S r).lefts = b.lefts := by
  rcases matchRight_cases S b r with h | ⟨l,_,_,_,h⟩ <;> simp [h]

theorem matchRight_rights (r : R) : (b.matchRight S r).rights = b.rights := by
  rcases matchRight_cases S b r with h | ⟨l,_,_,_,h⟩ <;> simp [h]

/-! ### Links are sound and one to one -/

/-- Names tell members apart, links refer to members, no member is linked twice, and
linked members fit. -/
structure Sound (S : Sides L R I J K) (b : Board L R I J) : Prop where
  namesL : ∀ l ∈ b.lefts, ∀ l' ∈ b.lefts, S.nameL l = S.nameL l' → l = l'
  namesR : ∀ r ∈ b.rights, ∀ r' ∈ b.rights, S.nameR r = S.nameR r' → r = r'
  refs : ∀ p ∈ b.links, (∃ l ∈ b.lefts, S.nameL l = p.1) ∧ ∃ r ∈ b.rights, S.nameR r = p.2
  nodupL : (b.links.map Prod.fst).Nodup
  nodupR : (b.links.map Prod.snd).Nodup
  fit : ∀ l ∈ b.lefts, ∀ r ∈ b.rights, (S.nameL l,S.nameR r) ∈ b.links → S.fits l r = true

theorem Sound.exists_of_linkedL (h : Sound S b) {l : L}
    (hk : b.LinkedL (S.nameL l)) : ∃ r ∈ b.rights, (S.nameL l,S.nameR r) ∈ b.links := by
  obtain ⟨p,hp,hpl⟩ := List.mem_map.mp hk
  obtain ⟨-,r,hr,hpr⟩ := h.refs p hp
  refine ⟨r,hr,?_⟩
  rwa [← hpl, hpr]

theorem Sound.exists_of_linkedR (h : Sound S b) {r : R}
    (hk : b.LinkedR (S.nameR r)) : ∃ l ∈ b.lefts, (S.nameL l,S.nameR r) ∈ b.links := by
  obtain ⟨p,hp,hpr⟩ := List.mem_map.mp hk
  obtain ⟨⟨l,hl,hpl⟩,-⟩ := h.refs p hp
  refine ⟨l,hl,?_⟩
  rwa [← hpr, hpl]

theorem linkedL_of_mem {l : L} {r : R} (h : (S.nameL l,S.nameR r) ∈ b.links) :
    b.LinkedL (S.nameL l) := List.mem_map_of_mem (f := Prod.fst) h

theorem Sound.link (h : Sound S b) {l : L} {r : R} (hl : l ∈ b.lefts) (hr : r ∈ b.rights)
    (hul : ¬b.LinkedL (S.nameL l)) (hur : ¬b.LinkedR (S.nameR r)) (hf : S.fits l r = true) :
    Sound S (b.link S l r) where
  namesL := h.namesL
  namesR := h.namesR
  refs := by
    intro p hp
    rcases List.mem_append.mp hp with hp | hp
    · exact h.refs p hp
    · rw [List.mem_singleton.mp hp]
      exact ⟨⟨l,hl,rfl⟩,r,hr,rfl⟩
  nodupL := by
    rw [link_links, List.map_append]
    exact List.nodup_append'.mpr ⟨h.nodupL, by simp, by simpa [LinkedL] using hul⟩
  nodupR := by
    rw [link_links, List.map_append]
    exact List.nodup_append'.mpr ⟨h.nodupR, by simp, by simpa [LinkedR] using hur⟩
  fit := by
    intro l' hl' r' hr' hp
    rcases List.mem_append.mp hp with hp | hp
    · exact h.fit l' hl' r' hr' hp
    · obtain ⟨hnl,hnr⟩ := Prod.mk.inj (List.mem_singleton.mp hp)
      -- the new link is between the two themselves, as names tell members apart
      rw [h.namesL l' hl' l hl hnl, h.namesR r' hr' r hr hnr]
      exact hf

theorem Sound.matchLeft (h : Sound S b) {l : L} (hl : l ∈ b.lefts) :
    Sound S (b.matchLeft S l) := by
  rcases matchLeft_cases S b l with he | ⟨r,hc,hu,hf,he⟩
  · rwa [he]
  · obtain ⟨hr,-,hur⟩ := candidateR_eq_some hc
    rw [he]
    exact h.link hl hr hu hur hf

theorem Sound.matchRight (h : Sound S b) {r : R} (hr : r ∈ b.rights) :
    Sound S (b.matchRight S r) := by
  rcases matchRight_cases S b r with he | ⟨l,hc,hu,hf,he⟩
  · rwa [he]
  · obtain ⟨hl,-,hul⟩ := candidateL_eq_some hc
    rw [he]
    exact h.link hl hr hul hu hf

/-- Arrivals are new: their names differ from all names on their side. -/
theorem Sound.addLefts (h : Sound S b) {ls : List L}
    (hn : ∀ l ∈ b.lefts ++ ls, ∀ l' ∈ b.lefts ++ ls, S.nameL l = S.nameL l' → l = l')
    (hd : ∀ l ∈ ls, l ∉ b.lefts) : Sound S (b.addLefts ls) where
  namesL := hn
  namesR := h.namesR
  refs := by
    intro p hp
    obtain ⟨⟨l,hl,hpl⟩,hr⟩ := h.refs p hp
    exact ⟨⟨l,List.mem_append_left _ hl,hpl⟩,hr⟩
  nodupL := h.nodupL
  nodupR := h.nodupR
  fit := by
    intro l hl r hr hp
    rcases List.mem_append.mp hl with hl' | hl'
    · exact h.fit l hl' r hr hp
    -- a link under the name of an arrival refers to an older member of that name
    · obtain ⟨⟨l',hl'',hpl⟩,-⟩ := h.refs _ hp
      have he : l' = l := hn l' (List.mem_append_left _ hl'') l hl hpl
      exact (hd l hl' (he ▸ hl'')).elim

theorem Sound.addRight (h : Sound S b) {r : R}
    (hn : ∀ r' ∈ b.rights, S.nameR r' ≠ S.nameR r) : Sound S (b.addRight r) where
  namesL := h.namesL
  namesR := by
    intro x hx y hy hxy
    rcases List.mem_append.mp hx with hx | hx <;> rcases List.mem_append.mp hy with hy | hy
    · exact h.namesR x hx y hy hxy
    · rw [List.mem_singleton.mp hy] at hxy
      exact (hn x hx hxy).elim
    · rw [List.mem_singleton.mp hx] at hxy
      exact (hn y hy hxy.symm).elim
    · rw [List.mem_singleton.mp hx, List.mem_singleton.mp hy]
  refs := by
    intro p hp
    obtain ⟨hl,r',hr',hpr⟩ := h.refs p hp
    exact ⟨hl,r',List.mem_append_left _ hr',hpr⟩
  nodupL := h.nodupL
  nodupR := h.nodupR
  fit := by
    intro l hl r' hr' hp
    rcases List.mem_append.mp hr' with hr' | hr'
    · exact h.fit l hl r' hr' hp
    · obtain ⟨-,x,hx,hpx⟩ := h.refs _ hp
      rw [List.mem_singleton.mp hr'] at hpx
      exact (hn x hx hpx).elim

theorem Sound.foldl_matchLeft (ls : List L) (h : Sound S b) (hl : ∀ l ∈ ls, l ∈ b.lefts) :
    Sound S (ls.foldl (Board.matchLeft S) b) := by
  induction ls generalizing b with
  | nil => exact h
  | cons l ls ih =>
    refine ih (h.matchLeft (hl l List.mem_cons_self)) fun x hx => ?_
    rw [matchLeft_lefts]
    exact hl x (List.mem_cons_of_mem l hx)

theorem Sound.arriveLefts (h : Sound S b) {ls : List L}
    (hn : ∀ l ∈ b.lefts ++ ls, ∀ l' ∈ b.lefts ++ ls, S.nameL l = S.nameL l' → l = l')
    (hd : ∀ l ∈ ls, l ∉ b.lefts) : Sound S (b.arriveLefts S ls) :=
  (h.addLefts hn hd).foldl_matchLeft ls fun _ hl => List.mem_append_right _ hl

theorem Sound.arriveRight (h : Sound S b) {r : R} (hn : ∀ r' ∈ b.rights, S.nameR r' ≠ S.nameR r) :
    Sound S (b.arriveRight S r) :=
  (h.addRight hn).matchRight (List.mem_append_right _ (List.mem_singleton.mpr rfl))

/-! ### No link is missed -/

/-- Keys tell the members of a side apart. -/
def KeysL (S : Sides L R I J K) (b : Board L R I J) : Prop :=
  ∀ l ∈ b.lefts, ∀ l' ∈ b.lefts, S.keyL l = S.keyL l' → l = l'

def KeysR (S : Sides L R I J K) (b : Board L R I J) : Prop :=
  ∀ r ∈ b.rights, ∀ r' ∈ b.rights, S.keyR r = S.keyR r' → r = r'

/-- Every fitting pair is linked, except for left members that still wait for a search. -/
def Complete (S : Sides L R I J K) (b : Board L R I J) (pending : List L) : Prop :=
  ∀ l ∈ b.lefts, l ∉ pending → ∀ r ∈ b.rights, S.fits l r = true →
    (S.nameL l,S.nameR r) ∈ b.links

/-- A left member that fits an unlinked right member is linked, except for left members
that still wait for a search. -/
def Covered (S : Sides L R I J K) (b : Board L R I J) (pending : List L) : Prop :=
  ∀ l ∈ b.lefts, l ∉ pending → ∀ r ∈ b.rights, S.fits l r = true →
    ¬b.LinkedR (S.nameR r) → b.LinkedL (S.nameL l)

/-- If some unlinked right member fits `l`, then so does the one that a search looks at. -/
def HeadFits (S : Sides L R I J K) (b : Board L R I J) (l : L) : Prop :=
  ∀ r ∈ b.rights, S.fits l r = true → ¬b.LinkedR (S.nameR r) →
    ∃ r', b.candidateR S (S.keyL l) = some r' ∧ S.fits l r' = true

theorem matchLeft_links_mono {p : I × J} (l : L) (hp : p ∈ b.links) :
    p ∈ (b.matchLeft S l).links := by
  rcases matchLeft_cases S b l with h | ⟨r,_,_,_,h⟩ <;> rw [h]
  · exact hp
  · exact List.mem_append_left _ hp

theorem matchRight_links_mono {p : I × J} (r : R) (hp : p ∈ b.links) :
    p ∈ (b.matchRight S r).links := by
  rcases matchRight_cases S b r with h | ⟨l,_,_,_,h⟩ <;> rw [h]
  · exact hp
  · exact List.mem_append_left _ hp

theorem matchLeft_of_candidate {l : L} {r : R} (hu : ¬b.LinkedL (S.nameL l))
    (hc : b.candidateR S (S.keyL l) = some r) (hf : S.fits l r = true) :
    b.matchLeft S l = b.link S l r := by
  simp [matchLeft, hu, hc, hf]

theorem matchRight_of_candidate {l : L} {r : R} (hu : ¬b.LinkedR (S.nameR r))
    (hc : b.candidateL S (S.keyR r) = some l) (hf : S.fits l r = true) :
    b.matchRight S r = b.link S l r := by
  simp [matchRight, hu, hc, hf]

/-- With unique keys on the left, the right member that fits an unlinked left member and
arrives unlinked is linked to it. -/
theorem matchRight_links {l : L} {r : R} (hk : KeysL S b) (hl : l ∈ b.lefts)
    (hul : ¬b.LinkedL (S.nameL l)) (hur : ¬b.LinkedR (S.nameR r)) (hf : S.fits l r = true) :
    b.matchRight S r = b.link S l r := by
  have hkey := S.key_of_fits l r hf
  obtain ⟨l',hc⟩ := candidateL_of_mem hl hkey hul
  obtain ⟨hl',hkey',-⟩ := candidateL_eq_some hc
  have he : l' = l := hk l' hl' l hl (hkey'.trans hkey.symm)
  exact matchRight_of_candidate hur (he ▸ hc) hf

theorem Complete.matchLeft {l : L} {pending : List L} (hs : Sound S b) (hkl : KeysL S b)
    (hkr : KeysR S b) (hc : Complete S b (l :: pending)) :
    Complete S (b.matchLeft S l) pending := by
  intro x hx hp r hr hf
  rw [matchLeft_lefts] at hx
  rw [matchLeft_rights] at hr
  by_cases hxl : x = l
  · subst hxl
    have hkey := S.key_of_fits x r hf
    by_cases hu : b.LinkedL (S.nameL x)
    -- what `x` is linked to has the key of `r`, so it is `r`
    · obtain ⟨r',hr',hm⟩ := hs.exists_of_linkedL hu
      have hkey' := S.key_of_fits x r' (hs.fit x hx r' hr' hm)
      rw [hkr r hr r' hr' (hkey.symm.trans hkey')]
      exact matchLeft_links_mono x hm
    · have hur : ¬b.LinkedR (S.nameR r) := by
        intro hlr
        -- what `r` is linked to has the key of `x`, so it is `x`
        obtain ⟨y,hy,hm⟩ := hs.exists_of_linkedR hlr
        have hky := S.key_of_fits y r (hs.fit y hy r hr hm)
        have he : y = x := hkl y hy x hx (hky.trans hkey.symm)
        exact hu (he ▸ linkedL_of_mem hm)
      -- the search looks at `r`, which is the only one with the key
      obtain ⟨r',hcand⟩ := candidateR_of_mem hr hkey.symm hur
      obtain ⟨hr',hkey',-⟩ := candidateR_eq_some hcand
      have he : r' = r := hkr r' hr' r hr (hkey'.trans hkey)
      rw [matchLeft_of_candidate hu (he ▸ hcand) hf]
      simp
  -- the others had their search before, and no link is taken back
  · refine matchLeft_links_mono l (hc x hx ?_ r hr hf)
    simp [hxl, hp]

/-- Searches for all waiting members leave none waiting. -/
theorem Complete.foldl_matchLeft (ls : List L) (hs : Sound S b) (hkl : KeysL S b)
    (hkr : KeysR S b) (hl : ∀ l ∈ ls, l ∈ b.lefts) (hc : Complete S b ls) :
    Complete S (ls.foldl (Board.matchLeft S) b) [] := by
  induction ls generalizing b with
  | nil => exact hc
  | cons l ls ih =>
    refine ih (hs.matchLeft (hl l List.mem_cons_self)) ?_ ?_ ?_ (hc.matchLeft hs hkl hkr)
    · simpa only [KeysL, matchLeft_lefts] using hkl
    · simpa only [KeysR, matchLeft_rights] using hkr
    · intro x hx
      rw [matchLeft_lefts]
      exact hl x (List.mem_cons_of_mem l hx)

theorem Complete.addLefts {ls : List L} (hc : Complete S b []) :
    Complete S (b.addLefts ls) ls := by
  intro l hl hp r hr hf
  rcases List.mem_append.mp hl with hl | hl
  · exact hc l hl (by simp) r hr hf
  · exact (hp hl).elim

theorem Complete.arriveLefts {ls : List L} (hs : Sound S (b.addLefts ls))
    (hkl : KeysL S (b.addLefts ls)) (hkr : KeysR S b) (hc : Complete S b []) :
    Complete S (b.arriveLefts S ls) [] :=
  Complete.foldl_matchLeft ls hs hkl hkr (fun _ hl => List.mem_append_right _ hl) hc.addLefts

theorem not_linkedR_of_fresh (hs : Sound S b) {r : R}
    (hn : ∀ r' ∈ b.rights, S.nameR r' ≠ S.nameR r) : ¬b.LinkedR (S.nameR r) := by
  intro h
  obtain ⟨p,hp,hpr⟩ := List.mem_map.mp h
  obtain ⟨-,r',hr',hpr'⟩ := hs.refs p hp
  exact hn r' hr' (hpr'.trans hpr)

theorem not_linkedL_of_fresh (hs : Sound S b) {l : L}
    (hn : ∀ l' ∈ b.lefts, S.nameL l' ≠ S.nameL l) : ¬b.LinkedL (S.nameL l) := by
  intro h
  obtain ⟨p,hp,hpl⟩ := List.mem_map.mp h
  obtain ⟨⟨l',hl',hpl'⟩,-⟩ := hs.refs p hp
  exact hn l' hl' (hpl'.trans hpl)

/-- There are at most as many links as members of either side. -/
theorem Sound.links_le (h : Sound S b) :
    b.links.length ≤ b.lefts.length ∧ b.links.length ≤ b.rights.length := by
  have hleft : b.links.map Prod.fst ⊆ b.lefts.map S.nameL := fun i hi => by
    obtain ⟨p,hp,rfl⟩ := List.mem_map.mp hi
    obtain ⟨⟨l,hl,he⟩,-⟩ := h.refs p hp
    exact List.mem_map.mpr ⟨l,hl,he⟩
  have hright : b.links.map Prod.snd ⊆ b.rights.map S.nameR := fun j hj => by
    obtain ⟨p,hp,rfl⟩ := List.mem_map.mp hj
    obtain ⟨-,r,hr,he⟩ := h.refs p hp
    exact List.mem_map.mpr ⟨r,hr,he⟩
  -- no name is linked twice, so there are as many names as links
  have hl := (h.nodupL.subperm hleft).length_le
  have hr := (h.nodupR.subperm hright).length_le
  simp only [List.length_map] at hl hr
  exact ⟨hl,hr⟩

theorem Complete.arriveRight {r : R} (hs : Sound S b) (hn : ∀ r' ∈ b.rights, S.nameR r' ≠ S.nameR r)
    (hkl : KeysL S b) (hkr : ∀ r' ∈ b.rights, S.keyR r' ≠ S.keyR r) (hc : Complete S b []) :
    Complete S (b.arriveRight S r) [] := by
  intro l hl _ x hx hf
  simp only [Board.arriveRight, matchRight_lefts] at hl
  simp only [Board.arriveRight, matchRight_rights] at hx
  rcases List.mem_append.mp hx with hx | hx
  · exact matchRight_links_mono r (hc l hl (by simp) x hx hf)
  · rw [List.mem_singleton.mp hx] at hf ⊢
    have hkey := S.key_of_fits l r hf
    have hul : ¬b.LinkedL (S.nameL l) := by
      -- a link of `l` would be to an older member with the key of `r`
      intro hlk
      obtain ⟨r',hr',hm⟩ := hs.exists_of_linkedL hlk
      have hkey' := S.key_of_fits l r' (hs.fit l hl r' hr' hm)
      exact hkr r' hr' (hkey'.symm.trans hkey)
    have hur := not_linkedR_of_fresh hs hn
    have he : b.arriveRight S r = (b.addRight r).link S l r := matchRight_links hkl hl hul hur hf
    simp [he]

theorem Covered.addLefts {ls : List L} (hc : Covered S b []) :
    Covered S (b.addLefts ls) ls := by
  intro l hl hp r hr hf
  rcases List.mem_append.mp hl with hl | hl
  · exact hc l hl (by simp) r hr hf
  · exact (hp hl).elim

theorem linkedL_mono_matchRight (r : R) {i : I} (h : b.LinkedL i) :
    (b.matchRight S r).LinkedL i := by
  obtain ⟨p,hp,rfl⟩ := List.mem_map.mp h
  exact List.mem_map_of_mem (matchRight_links_mono r hp)

theorem linkedR_mono_matchRight (r : R) {j : J} (h : b.LinkedR j) :
    (b.matchRight S r).LinkedR j := by
  obtain ⟨p,hp,rfl⟩ := List.mem_map.mp h
  exact List.mem_map_of_mem (matchRight_links_mono r hp)

theorem Covered.arriveRight {r : R} (hs : Sound S b) (hn : ∀ r' ∈ b.rights, S.nameR r' ≠ S.nameR r)
    (hkl : KeysL S b) (hc : Covered S b []) : Covered S (b.arriveRight S r) [] := by
  intro l hl _ x hx hf hux
  simp only [Board.arriveRight, matchRight_lefts] at hl
  simp only [Board.arriveRight, matchRight_rights] at hx
  rcases List.mem_append.mp hx with hx | hx
  -- an older member was not linked before the arrival either
  · have hux' : ¬b.LinkedR (S.nameR x) := fun h => hux (linkedR_mono_matchRight r h)
    exact linkedL_mono_matchRight r (hc l hl (by simp) x hx hf hux')
  · rw [List.mem_singleton.mp hx] at hf
    by_cases hul : b.LinkedL (S.nameL l)
    · exact linkedL_mono_matchRight r hul
    · have hur := not_linkedR_of_fresh hs hn
      have he : b.arriveRight S r = (b.addRight r).link S l r := matchRight_links hkl hl hul hur hf
      simp [he]

/-- A search for one key does not change what a search for another key looks at. -/
theorem candidateR_matchLeft (hs : Sound S b) {l : L} {k : K} (hk : k ≠ S.keyL l) :
    (b.matchLeft S l).candidateR S k = b.candidateR S k := by
  rcases matchLeft_cases S b l with h | ⟨r,hc,_,_,h⟩ <;> rw [h]
  obtain ⟨hr,hkey,-⟩ := candidateR_eq_some hc
  apply List.find?_congr
  intro x hx
  by_cases hxk : S.keyR x = k
  -- the member that was linked has the key of `l`, so the search did not look at it
  · have hne : S.nameR x ≠ S.nameR r := by
      intro he
      have hxr := hs.namesR x hx r hr he
      exact hk (by rw [← hxk, hxr, hkey])
    simp [hxk, hne]
  · simp [hxk]

theorem linkedR_matchLeft_iff (hs : Sound S b) {l : L} {r : R} (hr : r ∈ b.rights)
    (hk : S.keyR r ≠ S.keyL l) :
    (b.matchLeft S l).LinkedR (S.nameR r) ↔ b.LinkedR (S.nameR r) := by
  rcases matchLeft_cases S b l with h | ⟨r',hc,_,_,h⟩ <;> rw [h]
  obtain ⟨hr',hkey,-⟩ := candidateR_eq_some hc
  have hne : S.nameR r ≠ S.nameR r' := by
    intro he
    exact hk (by rw [hs.namesR r hr r' hr' he, hkey])
  simp [hne]

theorem linkedL_matchLeft_iff (l : L) {i : I} (hi : i ≠ S.nameL l) :
    (b.matchLeft S l).LinkedL i ↔ b.LinkedL i := by
  rcases matchLeft_cases S b l with h | ⟨r,_,_,_,h⟩ <;> rw [h]
  simp [hi]

theorem headFits_matchLeft_iff (hs : Sound S b) {l x : L} (hk : S.keyL x ≠ S.keyL l) :
    HeadFits S (b.matchLeft S l) x ↔ HeadFits S b x := by
  unfold HeadFits
  rw [matchLeft_rights, candidateR_matchLeft hs hk]
  refine forall₂_congr fun r hr => imp_congr_right fun hf => ?_
  have hkr : S.keyR r ≠ S.keyL l := fun h => hk ((S.key_of_fits x r hf).trans h)
  rw [linkedR_matchLeft_iff hs hr hkr]

theorem Covered.matchLeft {l : L} {pending : List L} (hh : HeadFits S b l)
    (hc : Covered S b (l :: pending)) : Covered S (b.matchLeft S l) pending := by
  intro x hx hp r hr hf hur
  rw [matchLeft_lefts] at hx
  rw [matchLeft_rights] at hr
  have hur' : ¬b.LinkedR (S.nameR r) := by
    intro h
    obtain ⟨p,hpm,hpe⟩ := List.mem_map.mp h
    exact hur (List.mem_map.mpr ⟨p,matchLeft_links_mono l hpm,hpe⟩)
  have hmono : b.LinkedL (S.nameL x) → (b.matchLeft S l).LinkedL (S.nameL x) := by
    intro h
    obtain ⟨p,hpm,hpe⟩ := List.mem_map.mp h
    exact List.mem_map.mpr ⟨p,matchLeft_links_mono l hpm,hpe⟩
  by_cases hxl : x = l
  · subst hxl
    by_cases hul : b.LinkedL (S.nameL x)
    · exact hmono hul
    · obtain ⟨r',hcand,hf'⟩ := hh r hr hf hur'
      rw [matchLeft_of_candidate hul hcand hf']
      simp
  · exact hmono (hc x hx (by simp [hxl, hp]) r hr hf hur')

/-- Searches for members with different keys do not disturb one another. -/
theorem Covered.foldl_matchLeft (ls : List L) (hs : Sound S b) (hl : ∀ l ∈ ls, l ∈ b.lefts)
    (hk : ls.Pairwise (fun x y => S.keyL x ≠ S.keyL y)) (hh : ∀ l ∈ ls, HeadFits S b l)
    (hc : Covered S b ls) : Covered S (ls.foldl (Board.matchLeft S) b) [] := by
  induction ls generalizing b with
  | nil => exact hc
  | cons l ls ih =>
    obtain ⟨hkl,hkls⟩ := List.pairwise_cons.mp hk
    refine ih (hs.matchLeft (hl l List.mem_cons_self)) ?_ hkls ?_
      (hc.matchLeft (hh l List.mem_cons_self))
    · intro x hx
      rw [matchLeft_lefts]
      exact hl x (List.mem_cons_of_mem l hx)
    · intro x hx
      -- the searches that are done were for other keys
      exact (headFits_matchLeft_iff hs (Ne.symm (hkl x hx))).mpr
        (hh x (List.mem_cons_of_mem l hx))

theorem Covered.arriveLefts {ls : List L} (hs : Sound S (b.addLefts ls))
    (hk : ls.Pairwise (fun x y => S.keyL x ≠ S.keyL y)) (hh : ∀ l ∈ ls, HeadFits S b l)
    (hc : Covered S b []) : Covered S (b.arriveLefts S ls) [] :=
  Covered.foldl_matchLeft ls hs (fun _ hl => List.mem_append_right _ hl) hk hh hc.addLefts

end Board
end Matching
