import ReserveAuditor.BurnKeys
import ReserveAuditor.Scanner

/-! What a sync of a block returns is what it stored: the queries of the block give it back. -/
namespace ReserveAuditor
open Txn Relational

variable {ext : Externals} {serde : Serde} {s s' : Db} {b : BlockData} {data : SyncBlockData} {n : ℕ}

/-- The burn view key matches the output. -/
def isBurn (ext : Externals) (txOut : TxOut) : Bool := (ext.viewKeyMatch txOut).toOption.isSome

theorem fromCoreTxOut_toOption_isSome (ext : Externals) (idx : UInt64) (ts : Option DateTime)
    (txOut : TxOut) :
    (BurnTxOut.fromCoreTxOut ext idx ts txOut).toOption.isSome = isBurn ext txOut := by
  rw [fromCoreTxOut_toOption, Option.isSome_map, isBurn]

/-! ### Lists -/

/-- The rows that a query selects are the new ones. -/
theorem filter_append_new {α : Type} {p : α → Bool} {old new : List α}
    (hold : ∀ a ∈ old, p a = false) (hnew : ∀ a ∈ new, p a = true) :
    (old ++ new).filter p = new := by
  rw [List.filter_append, List.filter_eq_self.mpr hnew, List.filter_eq_nil_iff.mpr, List.nil_append]
  exact fun a ha => by simp [hold a ha]

/-- What is related to the images is related to the members that have an image, in order. -/
theorem forall₂_filterMap {α β γ : Type} {f : α → Option β} {R : β → γ → Prop} {rows : List γ}
    (l : List α) (h : List.Forall₂ R (l.filterMap f) rows) :
    List.Forall₂ (fun a row => ∃ b, f a = some b ∧ R b row)
      (l.filter fun a => (f a).isSome) rows := by
  induction l generalizing rows with
  | nil =>
    rw [List.filterMap_nil, List.forall₂_nil_left_iff] at h
    rw [h]
    exact .nil
  | cons a l ih =>
    cases hf : f a with
    -- an element without an image has no row
    | none =>
      rw [List.filterMap_cons_none hf] at h
      rw [List.filter_cons_of_neg (by simp [hf])]
      exact ih h
    | some b =>
      rw [List.filterMap_cons_some hf] at h
      obtain ⟨row,rows',hr,hrest,rfl⟩ := List.forall₂_cons_left_iff.mp h
      rw [List.filter_cons_of_pos (by simp [hf])]
      exact .cons ⟨b,hf,hr⟩ (ih hrest)

/-! ### The data of a block -/

/-- The query for the mints of the block gives the returned ones. -/
theorem BlockSynced.getMintTxs (h : BlockSynced ext b s data s') (hg : Gapless n s) :
    MintTx.getMintTxsByBlockIndex b.block.index s' = data.mintTxs := by
  have hidx : b.block.index.toNat = n := h.index.trans hg.counted
  rw [MintTx.getMintTxsByBlockIndex, h.mints]
  refine filter_append_new (fun m hm => decide_eq_false ?_) fun m hm => decide_eq_true ?_
  · exact ne_toInt64_of_lt (hidx ▸ hg.mints m hm)
  · rw [← h.mintIndex m hm, MintTx.getBlockIndex, Int64.toInt64_toUInt64]

/-- The query for the burns of the block gives the returned ones. -/
theorem BlockSynced.getBurnTxs (h : BlockSynced ext b s data s') (hg : Gapless n s) :
    BurnTxOut.getBurnTxsByBlock b.block.index s' = data.burnTxOuts := by
  have hidx : b.block.index.toNat = n := h.index.trans hg.counted
  rw [BurnTxOut.getBurnTxsByBlock, h.burns]
  refine filter_append_new (fun x hx => decide_eq_false ?_) fun x hx => decide_eq_true ?_
  · exact ne_toInt64_of_lt (hidx ▸ hg.burns x hx)
  · rw [← h.burnIndex x hx, BurnTxOut.getBlockIndex, Int64.toInt64_toUInt64]

/-- The query for the balances of the block gives the returned ones. -/
theorem BlockSynced.getBalances (h : BlockSynced ext b s data s') (hg : Gapless n s) (t : TokenId) :
    (BlockBalance.getBalancesForBlock s' b.block.index).lookup t = data.balanceMap.lookup t := by
  have hidx : b.block.index.toNat = n := h.index.trans hg.counted
  exact lookup_getBalancesForBlock
    (fun r hr => ne_toInt64_of_lt (hidx ▸ hg.balances r hr)) h.blockBalance t

/-- There is one returned burn for each output that the view key matches, in their order. -/
theorem BlockSynced.burnsOfOutputs (h : BlockSynced ext b s data s') :
    List.Forall₂ (BurnStored ext b.block.index b.timestamp)
      (b.contents.outputs.filter (isBurn ext)) data.burnTxOuts := by
  have hstored := forall₂_filterMap b.contents.outputs h.burnsStored
  simp only [fromCoreTxOut_toOption_isSome] at hstored
  refine hstored.imp fun txOut row hrow => ?_
  obtain ⟨burn,hburn,n,rfl⟩ := hrow
  exact ⟨burn,n,(Outcome.except_toOption_eq_some _ _).mp hburn,rfl⟩

/-- Whatever the scanners have reached, a sync of a block returns what the queries of the block
then give: its balances, its mints in the order of the block, and a burn for each output that burns,
in the order of the outputs. -/
theorem sync_returns_stored {ι : Type} [DecidableEq ι] (ext : Externals) (serde : Serde)
    (c : ScanState ι) (hc : Scanned ext serde c) (b : BlockData) (data : SyncBlockData) (s' : Db)
    (h : (syncBlockWithConn ext b.block b.contents b.timestamp).Returns c.db data s') :
    (∀ t, data.balanceMap.lookup t =
      (BlockBalance.getBalancesForBlock s' b.block.index).lookup t) ∧
    data.mintTxs = MintTx.getMintTxsByBlockIndex b.block.index s' ∧
    List.Forall₂ (MintStored ext b.block.index b.timestamp c.db) b.contents.mintTxs data.mintTxs ∧
    data.burnTxOuts = BurnTxOut.getBurnTxsByBlock b.block.index s' ∧
    List.Forall₂ (BurnStored ext b.block.index b.timestamp)
      (b.contents.outputs.filter (isBurn ext)) data.burnTxOuts := by
  have hs := hc.syncedTo
  have hsynced := returns_syncBlockWithConn hs.refs h
  exact ⟨fun t => (hsynced.getBalances hs.gapless t).symm,(hsynced.getMintTxs hs.gapless).symm,
    hsynced.mintsStored,(hsynced.getBurnTxs hs.gapless).symm,hsynced.burnsOfOutputs⟩

/-- A block with a mint, an output that burns and one that does not. -/
def mintAndBurnBlock : BlockData := Reference.blockOf 0 [] [Reference.mintFor 0x11 3]
  [Reference.burnOf (List.replicate 32 3) 1,⟨List.replicate 32 4,[]⟩]

/-- The first block is returned as it was stored. -/
theorem mintAndBurnBlock_returned : ∃ data s',
    (syncBlockWithConn Reference.externals mintAndBurnBlock.block mintAndBurnBlock.contents
      none).Returns initialDb data s' ∧
    (∀ t, data.balanceMap.lookup t = (BlockBalance.getBalancesForBlock s' 0).lookup t) ∧
    data.mintTxs = MintTx.getMintTxsByBlockIndex 0 s' ∧
    data.burnTxOuts = BurnTxOut.getBurnTxsByBlock 0 s' ∧ data.burnTxOuts.length = 1 := by
  have hok : (syncBlockWithConn Reference.externals mintAndBurnBlock.block
      mintAndBurnBlock.contents none initialDb).outcome.isOk = true := by
    decide +kernel
  obtain ⟨data,hdata⟩ := (Outcome.isOk_iff _).mp hok
  have hstart : Scanned (ι := Unit) Reference.externals Reference.serde ⟨initialDb,fun _ => none⟩ :=
    .start
  obtain ⟨hbalances,hmints,-,hburns,hstored⟩ := sync_returns_stored Reference.externals
    Reference.serde _ hstart mintAndBurnBlock data _ ⟨hdata,rfl⟩
  -- one of the outputs is a burn
  have hone : mintAndBurnBlock.contents.outputs.filter (isBurn Reference.externals) =
      [Reference.burnOf (List.replicate 32 3) 1] := rfl
  rw [hone] at hstored
  exact ⟨data,_,⟨hdata,rfl⟩,hbalances,hmints,hburns,hstored.length_eq.symm⟩

end ReserveAuditor
