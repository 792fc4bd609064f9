import ReserveAuditor.Backing

/-! Blocks are synced without gaps: the rows of the database belong to the blocks that the
counter of synced blocks counts. -/
namespace ReserveAuditor
open Txn Relational

/-- The blocks up to `n` were synced, each once, and all rows belong to them. -/
structure Gapless (n : ℕ) (s : Db) : Prop where
  counted : Counters.get s .numBlocksSynced = n
  audited : s.blockAuditData.map (fun r => r.getBlockIndex.toNat) = List.range n
  configTxs : ∀ t ∈ s.mintConfigTxs.rows, t.getBlockIndex.toNat < n
  mints : ∀ m ∈ s.mintTxs.rows, m.getBlockIndex.toNat < n
  burns : ∀ b ∈ s.burnTxOuts.rows, b.getBlockIndex.toNat < n
  balances : ∀ r ∈ s.blockBalance, r.getBlockIndex.toNat < n

theorem gapless_initial : Gapless 0 initialDb := by
  constructor <;> simp [initialDb_eq, Db.empty, Table.empty, Counters.get]

variable {ext : Externals} {blocks : List BlockData} {s s' : Db} {n : ℕ}

/-- A property of the rows of a table, when the rows that are added have it too. -/
theorem forall_mem_append {α : Type} {p q : α → Prop} {old new : List α} (hpq : ∀ a, p a → q a)
    (hold : ∀ a ∈ old, p a) (hnew : ∀ a ∈ new, q a) : ∀ a ∈ old ++ new, q a := by
  intro a ha
  rcases List.mem_append.mp ha with ha | ha
  · exact hpq a (hold a ha)
  · exact hnew a ha

/-- The index of an earlier block is another one in its column, too. -/
theorem ne_toInt64_of_lt {i : Int64} {idx : UInt64} (h : i.toUInt64.toNat < idx.toNat) :
    i ≠ idx.toInt64 := by
  rintro rfl
  simp at h

/-! ### Runs that only sync blocks -/

section BlockSynced
variable {b : BlockData} {data : SyncBlockData}

theorem BlockSynced.mintIndex (h : BlockSynced ext b s data s') :
    ∀ m ∈ data.mintTxs, m.getBlockIndex = b.block.index := by
  intro m hm
  obtain ⟨tx,-,hst⟩ := forall₂_mem_right h.mintsStored hm
  rw [MintTx.getBlockIndex, hst.fields.1]
  rfl

theorem BlockSynced.burnIndex (h : BlockSynced ext b s data s') :
    ∀ x ∈ data.burnTxOuts, x.getBlockIndex = b.block.index := by
  intro x hx
  obtain ⟨burn,hburn,n,rfl⟩ := forall₂_mem_right h.burnsStored hx
  obtain ⟨txOut,-,hout⟩ := List.mem_filterMap.mp hburn
  rw [fromCoreTxOut_toOption, Option.map_eq_some_iff] at hout
  obtain ⟨amount,-,rfl⟩ := hout
  rfl

/-- A synced block is the next one. -/
theorem BlockSynced.gapless (h : BlockSynced ext b s data s') (hi : Gapless n s) :
    Gapless (n+1) s' := by
  have hidx : b.block.index.toNat = n := h.index.trans hi.counted
  have hlt (i : UInt64) (hi : i = b.block.index) : i.toNat < n+1 := by
    rw [hi, hidx]
    exact Nat.lt_succ_self n
  have hsucc (i : UInt64) (hi : i.toNat < n) : i.toNat < n+1 := hi.trans (Nat.lt_succ_self n)
  obtain ⟨ts,hts,htidx⟩ := h.configTxs
  refine ⟨by rw [h.counted, hi.counted],?_,?_,?_,?_,?_⟩
  -- all earlier rows have smaller indices, so `BlockAuditData.set` replaces none of them
  · have hkeep : s.blockAuditData.filter
        (fun x => decide (x.blockIndex ≠ b.block.index.toInt64)) = s.blockAuditData := by
      refine List.filter_eq_self.mpr fun r hr => ?_
      have hr' : r.getBlockIndex.toNat ∈ List.range n := by
        rw [← hi.audited]
        exact List.mem_map_of_mem hr
      exact decide_eq_true (ne_toInt64_of_lt (hidx ▸ List.mem_range.mp hr'))
    rw [h.blockAudit, hkeep, List.map_append, hi.audited, List.range_succ, List.map_singleton]
    exact congrArg (List.range n ++ [·]) hidx
  · rw [hts]
    exact forall_mem_append (fun _ => hsucc _) hi.configTxs fun t ht => hlt _ (by
      rw [MintConfigTx.getBlockIndex, htidx t ht]
      rfl)
  · rw [h.mints]
    exact forall_mem_append (fun _ => hsucc _) hi.mints fun m hm => hlt _ (h.mintIndex m hm)
  · rw [h.burns]
    exact forall_mem_append (fun _ => hsucc _) hi.burns fun x hx => hlt _ (h.burnIndex x hx)
  · rw [h.blockBalance]
    refine forall_mem_append (fun _ => hsucc _) hi.balances fun r hr => hlt _ ?_
    obtain ⟨e,-,rfl⟩ := List.mem_map.mp hr
    rfl

end BlockSynced

/-- Sync blocks one after the other. -/
def syncBlocks (ext : Externals) (blocks : List BlockData) : Conn Unit :=
  Program.forEach blocks fun b => do
    let _ ← syncBlockWithConn ext b.block b.contents b.timestamp
    pure ()

/-- What holds of a new database and is kept by each block holds after all blocks. -/
theorem syncBlocks_induction {I : List BlockData → Db → Prop} (h₀ : I [] initialDb)
    (hstep : ∀ before b s data s', before ++ [b] <+: blocks →
      (syncBlocks ext before).Returns initialDb () s → ConfigRefs s → Gapless before.length s →
      I before s → (syncBlockWithConn ext b.block b.contents b.timestamp).Returns s data s' →
      BlockSynced ext b s data s' → I (before ++ [b]) s')
    (h : (syncBlocks ext blocks).Returns initialDb () s) :
    ConfigRefs s ∧ Gapless blocks.length s ∧ I blocks s := by
  induction blocks using List.reverseRecOn generalizing s with
  | nil =>
    rw [(Program.returns_forEach_nil _ _ _ _).mp h]
    exact ⟨configRefs_initial,gapless_initial,h₀⟩
  | append_singleton blocks b ih =>
    -- the last block is synced in the state that the blocks before it left
    obtain ⟨s₁,hs₁,hb⟩ := (Program.returns_forEach_append _ _ _ _ _ _).mp h
    obtain ⟨hr,hg,hi⟩ := ih (fun before x s data s' hx =>
      hstep before x s data s' (hx.trans (List.prefix_append _ _))) hs₁
    simp only [Program.forEach, Program.returns_bind, Program.returns_pure] at hb
    obtain ⟨_,_,⟨data,_,hsync,-,rfl⟩,-,rfl⟩ := hb
    have hsynced := returns_syncBlockWithConn hr hsync
    refine ⟨hsynced.refs,?_,
      hstep blocks b s₁ data s List.prefix_rfl hs₁ hr hg hi hsync hsynced⟩
    rw [List.length_append]
    exact hsynced.gapless hg

end ReserveAuditor
