import ReserveAuditor.BlockAcceptance
import ReserveAuditor.MatchEffects

/-! Storing the balances of a block: all of them or none, and read back as they were. -/
namespace ReserveAuditor
open Txn

namespace BlockBalance
variable {s s' : Db} {b : UInt64}

/-- A row holds the balance of the block in the token. -/
def IsFor (r : BlockBalance) (b : UInt64) (t : TokenId) : Prop :=
  r.getBlockIndex = b ∧ r.getTokenId = t

theorem isFor_iff (r : BlockBalance) (b : UInt64) (t : TokenId) :
    r.IsFor b t ↔ r.blockIndex = b.toInt64 ∧ r.tokenId = t.toInt64 := by
  have hcast (i : Int64) (n : UInt64) : i.toUInt64 = n ↔ i = n.toInt64 :=
    ⟨fun h => by rw [← h, Int64.toInt64_toUInt64],fun h => by rw [h, UInt64.toUInt64_toInt64]⟩
  exact and_congr (hcast _ _) (hcast _ _)

/-! ### What is stored -/

/-- A balance that is stored is the first one of its token. -/
theorem returns_insert {t : TokenId} {v : UInt64} {u : Unit}
    (h : (insert (.new b t v)).Returns s u s') :
    (∀ r ∈ s.blockBalance, ¬r.IsFor b t) ∧ s'.blockBalance = s.blockBalance ++ [.new b t v] := by
  simp only [insert, Program.returns_tryUpdate] at h
  split at h
  · simp at h
  · rename_i hunique
    split at h
    · obtain rfl := (Prod.mk.inj (Except.ok.inj h)).2
      refine ⟨fun r hr hfor => hunique (List.any_eq_true.mpr ⟨r,hr,?_⟩),rfl⟩
      exact decide_eq_true ((isFor_iff r b t).mp hfor)
    · simp at h

/-- The loop stops with an error at a token that has a balance already. -/
theorem setBalances_fails (entries : List (Sigma fun _ : TokenId => UInt64))
    (hclash : ∃ e ∈ entries, ∃ r ∈ s.blockBalance, r.IsFor b e.1) :
    ∃ e s', (Program.forEach entries fun e => insert (.new b e.1 e.2)).Fails s e s' := by
  induction entries generalizing s with
  | nil => simp at hclash
  | cons e entries ih =>
    simp only [Program.fails_forEach_cons]
    rcases Program.returns_or_fails_or_panics (insert (.new b e.1 e.2)) s with
      ⟨u,hone⟩ | ⟨err,hone⟩ | hone
    · -- this token had no balance, so it is a later one that has
      obtain ⟨hfresh,hrows⟩ := returns_insert hone
      obtain ⟨e',he',r,hr,hfor⟩ := hclash
      rcases List.mem_cons.mp he' with rfl | he'
      · exact absurd hfor (hfresh r hr)
      · obtain ⟨err,s',hrest⟩ := ih
          ⟨e',he',r,by rw [hrows]; exact List.mem_append_left _ hr,hfor⟩
        exact ⟨err,s',Or.inr ⟨_,hone,hrest⟩⟩
    · exact ⟨err,_,Or.inl hone⟩
    · exact absurd hone (Program.not_panics_tryUpdate _ s)

/-- Where the block is stored, its balances are: if none of their tokens has one already, the map
that is read back is extended by them and that of no other block changes, and otherwise nothing
changes, for the transactions around the call as well. -/
theorem setBalancesForBlock_all_or_nothing (s : Db) (b : UInt64) (m : BalanceMap)
    (hblock : ∃ x ∈ s.blockAuditData, x.getBlockIndex = b) :
    ((∀ r ∈ s.blockBalance, ∀ t ∈ m, ¬r.IsFor b t) →
      ∃ s', (∀ n, (nested n (setBalancesForBlock b m)).Returns s () s') ∧
        (∀ t, (getBalancesForBlock s' b).lookup t =
          (m.lookup t).or ((getBalancesForBlock s b).lookup t)) ∧
        ((∀ r ∈ s.blockBalance, r.getBlockIndex ≠ b) →
          ∀ t, (getBalancesForBlock s' b).lookup t = m.lookup t) ∧
        ∀ b' ≠ b, getBalancesForBlock s' b' = getBalancesForBlock s b') ∧
    ((∃ r ∈ s.blockBalance, ∃ t ∈ m, r.IsFor b t) →
      ∃ e, (setBalancesForBlock b m).Fails s e s ∧
        ∀ n, (nested n (setBalancesForBlock b m).attempt).Returns s (.error e) s) := by
  have hcast (x : BlockAuditData) : x.getBlockIndex = b → x.blockIndex = b.toInt64 := fun h => by
    rw [← h, BlockAuditData.getBlockIndex, Int64.toInt64_toUInt64]
  constructor
  · intro hfresh
    obtain ⟨x,hx,hxb⟩ := hblock
    obtain ⟨s',hset⟩ := setBalances_return (s := s) b m.entries m.nodupKeys
      (fun r hr e he h => hfresh r hr e.1 (List.mem_keys_of_mem he) ((isFor_iff r b e.1).mpr h))
      ⟨x,hx,hcast x hxb⟩
    -- each entry of the map became a row
    have hrows : s'.blockBalance = s.blockBalance ++ m.entries.map fun e => .new b e.1 e.2 := by
      rw [returns_setBalances b m.entries hset]
    have hread := getBalancesForBlock_append m.entries hrows
    have hlookup (t : TokenId) : (getBalancesForBlock s' b).lookup t =
        (m.lookup t).or ((getBalancesForBlock s b).lookup t) := by
      rw [hread b, if_pos rfl, lookup_foldl_insert _ m.nodupKeys]
      rfl
    refine ⟨s',fun n => ?_,hlookup,fun hnone t => ?_,fun b' hb' => by rw [hread b', if_neg hb']⟩
    · rw [returns_nested, setBalancesForBlock, returns_transaction]
      exact hset
    -- without old rows of the block its balances are those of the map
    · have hnil : s.blockBalance.filter (fun r => decide (r.blockIndex = b.toInt64)) = [] := by
        refine List.filter_eq_nil_iff.mpr fun r hr h => hnone r hr ?_
        rw [getBlockIndex, of_decide_eq_true h, UInt64.toUInt64_toInt64]
      have hempty : getBalancesForBlock s b = ∅ := by
        rw [getBalancesForBlock, hnil]
        rfl
      rw [hlookup t, hempty, AList.lookup_empty, Option.or_none]
  · rintro ⟨r,hr,t,ht,hfor⟩
    obtain ⟨e,he,hte⟩ := List.mem_map.mp (show t ∈ m.entries.map Sigma.fst from ht)
    obtain ⟨err,s',hfails⟩ := setBalances_fails (s := s) (b := b) m.entries
      ⟨e,he,r,hr,hte ▸ hfor⟩
    -- the entry that clashes takes those before it back with it
    have hcall : (setBalancesForBlock b m).Fails s err s :=
      (fails_transaction _ _ _ _).mpr ⟨rfl,s',hfails⟩
    exact ⟨err,hcall,fun n => (returns_nested _ _ _ _ _).mpr
      ((Program.returns_attempt_error _ _ _ _).mpr hcall)⟩

/-- The first block is stored, with a balance of one token. -/
def oneBalance : Db :=
  { Db.empty with blockAuditData := [.new 0], blockBalance := [.new 0 1 5] }

/-- The largest value of a `u64`. -/
def largest : UInt64 := 18446744073709551615

/-- The largest balance of the last token goes in and comes out, and the token that has a balance
already is refused. -/
theorem oneBalance_extended :
    (∃ s', (setBalancesForBlock 0 (AList.singleton largest largest)).Returns oneBalance () s' ∧
      (getBalancesForBlock s' 0).lookup largest = some largest) ∧
    ∃ e, (setBalancesForBlock 0 (AList.singleton 1 7)).Fails oneBalance e oneBalance := by
  constructor
  · obtain ⟨hnew,-⟩ := setBalancesForBlock_all_or_nothing oneBalance 0
      (AList.singleton largest largest) ⟨.new 0,List.mem_singleton.mpr rfl,rfl⟩
    obtain ⟨s',hs',hlookup,-⟩ := hnew fun r hr t ht => by
      obtain rfl := List.mem_singleton.mp hr
      obtain rfl := List.mem_singleton.mp (show t ∈ [largest] from ht)
      exact fun h => absurd h.2 (by decide)
    refine ⟨s',hs' 0,?_⟩
    rw [hlookup]
    rfl
  · obtain ⟨-,hold⟩ := setBalancesForBlock_all_or_nothing oneBalance 0
      (AList.singleton 1 7) ⟨.new 0,List.mem_singleton.mpr rfl,rfl⟩
    obtain ⟨e,he,-⟩ := hold ⟨.new 0 1 5,List.mem_singleton.mpr rfl,1,
      List.mem_singleton.mpr rfl,rfl,rfl⟩
    exact ⟨e,he⟩

end BlockBalance
end ReserveAuditor
