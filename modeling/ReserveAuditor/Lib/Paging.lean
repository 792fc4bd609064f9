import Mathlib.Tactic

/-! Reading a history page by page from a service that answers one request after the other, while
the history grows. -/
namespace Paging

variable {α κ ε : Type}

/-- A page, and where the next one is. -/
structure Page (α κ : Type) where
  items : List α
  next : Option κ

/-- Follow the pages from request number `k` on, with what was read before. The first request that
fails ends the reading; `none` if it takes more requests than there is fuel. -/
def readPages (serve : ℕ → κ → Except ε (Page α κ)) : ℕ → ℕ → κ → List α →
    Option (Except ε (List α))
  | 0, _, _, _ => none
  | fuel+1, k, key, read =>
    match serve k key with
    | .error e => some (.error e)
    | .ok page =>
      match page.next with
      | some next => readPages serve fuel (k+1) next (read ++ page.items)
      | none => some (.ok (read ++ page.items))

/-- The service answers requests with windows of a history, as it is at the time, that gets new
items in front. It may also fail to answer. -/
structure ServesHistory (serve : ℕ → κ → Except ε (Page α κ)) (history : ℕ → List α) (size : ℕ)
    (key : ℕ → κ) : Prop where
  grows : ∀ k, history k <:+ history (k+1)
  window : ∀ k offset page, serve k (key offset) = .ok page →
    page = ⟨((history k).drop offset).take size,
      if offset+size < (history k).length then some (key (offset+size)) else none⟩

theorem drop_suffix_of_suffix {l l' : List α} (h : l <:+ l') (j : ℕ) : l.drop j <:+ l'.drop j := by
  obtain ⟨new,rfl⟩ := h
  rw [List.drop_append]
  -- the new items move the old ones back, so more of them come behind the position
  exact (List.drop_suffix_drop_left l (Nat.sub_le j new.length)).trans (List.suffix_append _ _)

namespace ServesHistory
variable {serve : ℕ → κ → Except ε (Page α κ)} {history : ℕ → List α} {size : ℕ} {key : ℕ → κ}
  (h : ServesHistory serve history size key)
include h

theorem mono {k m : ℕ} (hle : k ≤ m) : history k <:+ history m := by
  induction hle with
  | refl => exact List.suffix_rfl
  | step _ ih => exact ih.trans (h.grows _)

/-- What is read from an offset on holds all that was behind the offset, in its order: an item that
was not read before is never moved in front of the offset. -/
theorem readPages_sublist {fuel k offset : ℕ} {read items : List α}
    (hread : readPages serve fuel k (key offset) read = some (.ok items)) :
    ∃ more, items = read ++ more ∧ ((history k).drop offset).Sublist more ∧
      ∃ m, ∀ a ∈ more, a ∈ history m := by
  induction fuel generalizing k offset read with
  | zero => simp [readPages] at hread
  | succ fuel ih =>
    rw [readPages] at hread
    cases hserve : serve k (key offset) with
    | error e => simp [hserve] at hread
    | ok page =>
      have hpage := h.window k offset page hserve
      simp only [hserve] at hread
      rw [hpage] at hread
      have hsplit := List.take_append_drop size ((history k).drop offset)
      rw [List.drop_drop] at hsplit
      split_ifs at hread with hmore
      · obtain ⟨more,rfl,hsub,m,hm⟩ := ih hread
        refine ⟨((history k).drop offset).take size ++ more,List.append_assoc _ _ _,?_,
          max k m,fun a ha => ?_⟩
        · have hboth := (List.Sublist.refl (((history k).drop offset).take size)).append
            ((drop_suffix_of_suffix (h.grows k) (offset+size)).sublist.trans hsub)
          rwa [hsplit] at hboth
        · rcases List.mem_append.mp ha with ha | ha
          · exact (h.mono (le_max_left k m)).subset (List.mem_of_mem_drop (List.mem_of_mem_take ha))
          · exact (h.mono (le_max_right k m)).subset (hm a ha)
      -- the last window reaches the end
      · refine ⟨_,(Except.ok.inj (Option.some.inj hread)).symm,?_,k,fun a ha =>
          List.mem_of_mem_drop (List.mem_of_mem_take ha)⟩
        rw [List.take_of_length_le]
        rw [List.length_drop]
        omega

/-- A reading in which no request fails ends, if the history does not grow without end. -/
theorem readPages_ends (hok : ∀ k offset, ∃ page, serve k (key offset) = .ok page)
    {bound : ℕ} (hbound : ∀ k, (history k).length ≤ bound) {fuel offset : ℕ} (k : ℕ)
    (read : List α) (hfuel : bound < offset+fuel*size+1) (hpos : 0 < fuel) :
    ∃ items, readPages serve fuel k (key offset) read = some (.ok items) := by
  induction fuel generalizing k offset read with
  | zero => simp at hpos
  | succ fuel ih =>
    obtain ⟨page,hserve⟩ := hok k offset
    have hpage := h.window k offset page hserve
    rw [readPages]
    simp only [hserve]
    rw [hpage]
    split_ifs with hmore
    · have hk := hbound k
      rw [Nat.succ_mul] at hfuel
      refine ih (k+1) _ (by omega) ?_
      -- there is more behind the next offset, so the fuel is not used up
      by_contra hzero
      obtain rfl : fuel = 0 := by omega
      omega
    · exact ⟨_,rfl⟩

end ServesHistory
end Paging
