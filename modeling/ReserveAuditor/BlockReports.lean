import ReserveAuditor.History
import ReserveAuditor.Reserve

/-! The reports on single blocks, put together, are the reports over all blocks. -/
namespace ReserveAuditor
open Txn Relational

variable {ext : Externals} {serde : Serde} {s s' : Db} {n : ℕ}

/-! ### The order of the rows -/

/-- The rows of the ledger are stored in the order of their blocks. -/
structure BlocksOrdered (s : Db) : Prop where
  configTxs : Ordered (fun t => t.getBlockIndex.toNat) s.mintConfigTxs.rows
  mints : Ordered (fun m => m.getBlockIndex.toNat) s.mintTxs.rows
  burns : Ordered (fun b => b.getBlockIndex.toNat) s.burnTxOuts.rows

theorem blocksOrdered_initial : BlocksOrdered initialDb := by
  constructor <;> simp [Ordered, initialDb_eq, Db.empty, Table.empty]

theorem LedgerKept.ordered (h : LedgerKept s s') (ho : BlocksOrdered s) : BlocksOrdered s' where
  configTxs := h.mintConfigTxs ▸ ho.configTxs
  mints := h.mintTxs ▸ ho.mints
  burns := h.burnTxOuts ▸ ho.burns

/-- The rows of a synced block have the greatest index, and are stored last. -/
theorem BlockSynced.ordered {b : BlockData} {data : SyncBlockData}
    (h : BlockSynced ext b s data s') (hg : Gapless n s) (ho : BlocksOrdered s) :
    BlocksOrdered s' := by
  have hidx : b.block.index.toNat = n := h.index.trans hg.counted
  obtain ⟨ts,hts,htidx⟩ := h.configTxs
  refine ⟨?_,?_,?_⟩
  · rw [hts]
    refine ho.configTxs.append (fun t ht => (hg.configTxs t ht).trans n.lt_succ_self) fun t ht => ?_
    rw [MintConfigTx.getBlockIndex, htidx t ht]
    exact hidx
  · rw [h.mints]
    refine ho.mints.append (fun m hm => (hg.mints m hm).trans n.lt_succ_self) fun m hm => ?_
    rw [h.mintIndex m hm, hidx]
  · rw [h.burns]
    refine ho.burns.append (fun x hx => (hg.burns x hx).trans n.lt_succ_self) fun x hx => ?_
    rw [h.burnIndex x hx, hidx]

theorem Scanned.ordered {ι : Type} [DecidableEq ι] {c : ScanState ι} (h : Scanned ext serde c) :
    BlocksOrdered c.db := by
  refine h.induction blocksOrdered_initial fun n config a s s' hs ho h => ?_
  cases a with
  | ledger b =>
    simp only [Activity.program, syncAndAudit, returns_exclusiveTransaction,
      Program.returns_bind] at h
    obtain ⟨data,s₁,hsync,haudit⟩ := h
    exact (ledgerKept_audit haudit).ordered
      ((returns_syncBlockWithConn hs.refs hsync).ordered hs.gapless ho)
  | gnosis safe tx => exact (ledgerKept_processRawTransaction h).ordered ho

/-! ### Reports on single blocks -/

/-- The balances after the mints that are reported of a block, from those of the block before it. -/
def mintedBalances (b : UInt64) (s : Db) : BalanceMap :=
  (MintTx.getMintTxsByBlockIndex b s).foldl (fun m mint => m.insert mint.getTokenId
    (m.balance mint.getTokenId+mint.getAmount)) (previousBalances b s)

/-- The balances of a block from what is reported of it, its mints and then its burns. -/
def replayedBalances (b : UInt64) (s : Db) : BalanceMap :=
  (BurnTxOut.getBurnTxsByBlock b s).foldl chargeBurn (mintedBalances b s)

/-- The burns reported of a block that find less than they burn. -/
def replayedOverBurns (b : UInt64) (s : Db) : ℕ :=
  overBurns (mintedBalances b s) (BurnTxOut.getBurnTxsByBlock b s)

/-- The reports on the blocks below `n`, one block after the other, are the tables, sum up to the
totals, and account for the balances. No other block has anything to report. -/
structure BlocksReported (ext : Externals) (burnRedemptionMemo : BurnTxOut → Except Error Bytes)
    (n : ℕ) (s : Db) : Prop where
  configTxs : (List.range n).flatMap (fun b => MintConfigTx.getByBlockIndex (.ofNat b) s) =
    s.mintConfigTxs.rows
  mints : (List.range n).flatMap (fun b => MintTx.getMintTxsByBlockIndex (.ofNat b) s) =
    s.mintTxs.rows
  burns : (List.range n).flatMap (fun b =>
      ReserveAuditorHttpService.getBurnsByBlock burnRedemptionMemo (.ofNat b) s) =
    s.burnTxOuts.rows.map fun burn => ⟨burn,(burnRedemptionMemo burn).toOption⟩
  mintTotal : ∀ tokenId, getMintTotal tokenId s = ((List.range n).map fun b =>
    mintedAmount tokenId (MintTx.getMintTxsByBlockIndex (.ofNat b) s)).sum
  burnTotal : ∀ tokenId, getBurnTotal tokenId s = ((List.range n).map fun b =>
    burnedAmount tokenId (BurnTxOut.getBurnTxsByBlock (.ofNat b) s)).sum
  balances : ∀ b : UInt64, b.toNat < n → ∀ t,
    (BlockBalance.getBalancesForBlock s b).lookup t = (replayedBalances b s).lookup t
  later : ∀ b : UInt64, n ≤ b.toNat → getMintInfoByBlock ext b s = .ok ⟨[],[]⟩ ∧
    ReserveAuditorHttpService.getBurnsByBlock burnRedemptionMemo b s = [] ∧
    BlockBalance.getBalancesForBlock s b = ∅

/-- The audited blocks have different indices of 64 bits. -/
theorem Gapless.le_two_pow (hg : Gapless n s) : n ≤ 2^64 := by
  by_contra hgt
  have hmem : 2^64 ∈ s.blockAuditData.map fun r => r.getBlockIndex.toNat := by
    rw [hg.audited]
    exact List.mem_range.mpr (not_le.mp hgt)
  obtain ⟨r,-,hr⟩ := List.mem_map.mp hmem
  exact absurd hr r.getBlockIndex.toNat_lt.ne

theorem sum_map_flatMap {α β : Type} (l : List β) (g : β → List α) (f : α → ℕ) :
    ((l.flatMap g).map f).sum = (l.map fun b => ((g b).map f).sum).sum := by
  rw [List.map_flatMap, List.flatMap_def, List.sum_flatten, List.map_map]
  rfl

section column
variable {α : Type} {rows : List α} {column : α → Int64}

/-- Rows in the order of their blocks are the rows of each block, block after block. -/
theorem flatMap_blocks (ho : Ordered (fun r => (column r).toUInt64.toNat) rows)
    (hlt : ∀ r ∈ rows, (column r).toUInt64.toNat < n) (hn : n ≤ 2^64) :
    (List.range n).flatMap (fun b => rows.filter fun r => decide (column r =
      (UInt64.ofNat b).toInt64)) = rows := by
  have hblock (b : ℕ) (hb : b ∈ List.range n) :
      rows.filter (fun r => decide (column r = (UInt64.ofNat b).toInt64)) =
        rows.filter fun r => decide ((column r).toUInt64.toNat = b) := by
    have hnat : (UInt64.ofNat b).toNat = b :=
      UInt64.toNat_ofNat_of_lt' ((List.mem_range.mp hb).trans_le hn)
    refine List.filter_congr fun r _ => decide_eq_decide.mpr ⟨?_,fun h => ?_⟩
    · rintro he
      rw [he]
      exact hnat
    · exact congrArg UInt64.toInt64 (UInt64.toNat_inj.mp (h.trans hnat.symm))
  rw [List.flatMap_congr hblock, ho.flatMap_groups hlt]

/-- A block that is not below `n` has no rows. -/
theorem filter_block_nil (hlt : ∀ r ∈ rows, (column r).toUInt64.toNat < n) {b : UInt64}
    (hb : n ≤ b.toNat) : rows.filter (fun r => decide (column r = b.toInt64)) = [] := by
  refine List.filter_eq_nil_iff.mpr fun r hr hrb => ?_
  have hlt := hlt r hr
  rw [of_decide_eq_true hrb] at hlt
  exact absurd hb (not_le.mpr hlt)

/-- The rows that a block adds are the rows of the block. -/
theorem filter_block_new (hlt : ∀ r ∈ rows, (column r).toUInt64.toNat < n) {b : UInt64}
    (hb : n ≤ b.toNat) {new : List α} (hnew : ∀ r ∈ new, (column r).toUInt64 = b) :
    (rows ++ new).filter (fun r => decide (column r = b.toInt64)) = new := by
  rw [List.filter_append, filter_block_nil hlt hb, List.nil_append]
  exact List.filter_eq_self.mpr fun r hr => decide_eq_true (congrArg UInt64.toInt64 (hnew r hr))

end column

/-! ### Replayed blocks -/

/-- A block is replayed in the same way. -/
structure SameReplay (b : UInt64) (s s' : Db) : Prop where
  minted : mintedBalances b s' = mintedBalances b s
  burns : BurnTxOut.getBurnTxsByBlock b s' = BurnTxOut.getBurnTxsByBlock b s

theorem SameReplay.balances {b : UInt64} (h : SameReplay b s s') :
    replayedBalances b s' = replayedBalances b s := by
  rw [replayedBalances, replayedBalances, h.minted, h.burns]

theorem SameReplay.overBurns {b : UInt64} (h : SameReplay b s s') :
    replayedOverBurns b s' = replayedOverBurns b s := by
  rw [replayedOverBurns, replayedOverBurns, h.minted, h.burns]

theorem LedgerKept.replay (h : LedgerKept s s') (b : UInt64) : SameReplay b s s' where
  minted := by
    simp only [mintedBalances, MintTx.getMintTxsByBlockIndex, previousBalances,
      BlockBalance.getBalancesForBlock, h.mintTxs, h.blockBalance]
  burns := by rw [BurnTxOut.getBurnTxsByBlock, BurnTxOut.getBurnTxsByBlock, h.burnTxOuts]

theorem HistoryKept.previous (h : HistoryKept n s s') {b : UInt64} (hb : b.toNat ≤ n) :
    previousBalances b s' = previousBalances b s := by
  unfold previousBalances
  split
  · rfl
  · rename_i hne
    have hpos : 1 ≤ b.toNat := Nat.one_le_iff_ne_zero.mpr fun hz => hne (UInt64.toNat_inj.mp hz)
    have hpred : (b-1).toNat = b.toNat-1 :=
      UInt64.toNat_sub_of_le _ _ (UInt64.le_iff_toNat_le.mpr hpos)
    exact h.balances (by omega)

theorem HistoryKept.replay (h : HistoryKept n s s') {b : UInt64} (hb : b.toNat < n) :
    SameReplay b s s' where
  minted := by
    have hmints : MintTx.getMintTxsByBlockIndex b s' = MintTx.getMintTxsByBlockIndex b s :=
      h.mints.filter_eq fun m hm => block_ne_of_le hb hm
    rw [mintedBalances, mintedBalances, hmints, h.previous hb.le]
  burns := h.burns.filter_eq fun x hx => block_ne_of_le hb hx

theorem MintsStored.replay {idx : UInt64} {ts : Option DateTime} {txs : List CoreMintTx}
    {rows : List MintTx} (h : List.Forall₂ (MintStored ext idx ts s) txs rows) (m : BalanceMap) :
    rows.foldl (fun m mint => m.insert mint.getTokenId
      (m.balance mint.getTokenId+mint.getAmount)) m = mintBalances m txs := by
  induction h generalizing m with
  | nil => rfl
  | cons hst _ ih =>
    obtain ⟨-,htoken,hamount,-⟩ := hst.fields
    rw [List.foldl_cons, MintTx.getTokenId, MintTx.getAmount, htoken, hamount]
    exact ih _

/-- What is charged does not depend on the ids of the burns. -/
theorem BurnsStored.replay {burns rows : List BurnTxOut}
    (h : List.Forall₂ (fun burn row => ∃ n, row = Record.withId burn n) burns rows)
    (m : BalanceMap) : rows.foldl chargeBurn m = burns.foldl chargeBurn m ∧
      overBurns m rows = overBurns m burns := by
  induction h generalizing m with
  | nil => exact ⟨rfl,rfl⟩
  | @cons burn row burns rows hst _ ih =>
    obtain ⟨k,rfl⟩ := hst
    obtain ⟨hfold,hover⟩ := ih (chargeBurn m burn)
    refine ⟨hfold,?_⟩
    rw [overBurns, overBurns, ← hover]
    rfl

/-! ### Syncing a block -/

/-- The stored balances of the blocks below `n`, and the counters of the ledger, follow from what is
reported. -/
structure Replayed (n : ℕ) (s : Db) : Prop where
  balances : ∀ b : UInt64, b.toNat < n → ∀ t,
    (BlockBalance.getBalancesForBlock s b).lookup t = (replayedBalances b s).lookup t
  unattributed : Counters.get s .numMintTxsWithoutMatchingMintConfig = unattributed s.mintTxs.rows
  overBurns : Counters.get s .numBurnsExceedingBalance =
    ((List.range n).map fun b => replayedOverBurns (.ofNat b) s).sum

theorem replayed_initial : Replayed 0 initialDb where
  balances _ hb := absurd hb (Nat.not_lt_zero _)
  unattributed := rfl
  overBurns := rfl

theorem LedgerKept.replayed (h : LedgerKept s s') (hr : Replayed n s) : Replayed n s' where
  balances b hb t := by
    rw [(h.replay b).balances, ← hr.balances b hb t]
    simp only [BlockBalance.getBalancesForBlock, h.blockBalance]
  unattributed := by rw [h.counters.get rfl, hr.unattributed, h.mintTxs]
  overBurns := by
    rw [h.counters.get rfl, hr.overBurns]
    exact congrArg List.sum (List.map_congr_left fun b _ => (h.replay (.ofNat b)).overBurns.symm)

section BlockSynced
variable {b : BlockData} {data : SyncBlockData} (h : BlockSynced ext b s data s')
  (hg : Gapless n s) (hkept : HistoryKept n s s')
include h hg

/-- The burns that are reported of the block are those that were stored for it. -/
theorem BlockSynced.burns_reported :
    BurnTxOut.getBurnTxsByBlock b.block.index s' = data.burnTxOuts := by
  rw [BurnTxOut.getBurnTxsByBlock, h.burns]
  exact filter_block_new hg.burns (h.index.trans hg.counted).ge h.burnIndex

include hkept

theorem BlockSynced.minted_replayed : mintedBalances b.block.index s' =
    mintBalances (previousBalances b.block.index s) b.contents.mintTxs := by
  have hidx : b.block.index.toNat = n := h.index.trans hg.counted
  have hmints : MintTx.getMintTxsByBlockIndex b.block.index s' = data.mintTxs := by
    rw [MintTx.getMintTxsByBlockIndex, h.mints]
    exact filter_block_new hg.mints hidx.ge h.mintIndex
  rw [mintedBalances, hmints, hkept.previous hidx.le, MintsStored.replay h.mintsStored]

theorem BlockSynced.replayed (hr : Replayed n s) : Replayed (n+1) s' := by
  have hidx : b.block.index.toNat = n := h.index.trans hg.counted
  have hminted := h.minted_replayed hg hkept
  have hburns := h.burns_reported hg
  refine ⟨?_,h.unattributed_eq hr.unattributed,?_⟩
  · intro idx hlt t
    rcases (Nat.lt_succ_iff.mp hlt).lt_or_eq with hlt | heq
    · rw [hkept.balances hlt, (hkept.replay hlt).balances, hr.balances idx hlt]
    · obtain rfl : idx = b.block.index := UInt64.toNat_inj.mp (heq.trans hidx.symm)
      have hold : ∀ r ∈ s.blockBalance, r.blockIndex ≠ b.block.index.toInt64 :=
        fun r hr => ne_toInt64_of_lt (hidx ▸ hg.balances r hr)
      rw [lookup_getBalancesForBlock hold h.blockBalance, h.balances, replayedBalances, hminted,
        hburns, (BurnsStored.replay h.burnsStored _).1]
  · obtain ⟨row,hrow,hrow'⟩ := h.counters
    have hcount : Counters.get s' .numBurnsExceedingBalance =
        Counters.get s .numBurnsExceedingBalance+replayedOverBurns b.block.index s' := by
      rw [replayedOverBurns, hminted, hburns, (BurnsStored.replay h.burnsStored _).2]
      simp [Counters.get, hrow, hrow', Counters.addBlock, Counters.add_ne]
    -- the blocks before it are replayed as they were
    have hbefore : (List.range n).map (fun b => replayedOverBurns (.ofNat b) s') =
        (List.range n).map fun b => replayedOverBurns (.ofNat b) s := by
      refine List.map_congr_left fun k hk => (hkept.replay ?_).overBurns
      have hlt : k < n := List.mem_range.mp hk
      rwa [UInt64.toNat_ofNat_of_lt' (hlt.trans_le hg.le_two_pow)]
    have hlast : UInt64.ofNat n = b.block.index := by
      rw [← hidx, UInt64.ofNat_toNat]
    rw [hcount, hr.overBurns, List.range_succ, List.map_append, List.sum_append, hbefore,
      List.map_singleton, List.sum_singleton, hlast]

end BlockSynced

/-! ### Runs -/

theorem Scanned.replayed {ι : Type} [DecidableEq ι] {c : ScanState ι} (h : Scanned ext serde c) :
    Replayed (Counters.get c.db .numBlocksSynced) c.db := by
  refine h.induction (I := fun s => Replayed (Counters.get s .numBlocksSynced) s)
    replayed_initial fun n config a s s' hs hr h => ?_
  rw [hs.gapless.counted] at hr
  cases a with
  | ledger b =>
    simp only [Activity.program, syncAndAudit, returns_exclusiveTransaction,
      Program.returns_bind] at h
    obtain ⟨data,s₁,hsync,haudit⟩ := h
    obtain ⟨added,hadded⟩ := returns_configTxsStored hs.refs hsync
    have hsynced := returns_syncBlockWithConn hs.refs hsync
    have hreplayed := (ledgerKept_audit haudit).replayed
      (hsynced.replayed hs.gapless (hsynced.history hs.gapless hadded) hr)
    rwa [(ledgerKept_audit haudit).counters.get rfl, hsynced.counted, hs.gapless.counted]
  | gnosis safe tx =>
    have hkept := ledgerKept_processRawTransaction h
    rw [hkept.counters.get rfl, hs.gapless.counted]
    exact hkept.replayed hr

/-- In every state that scanners and Gnosis threads reach, the reports on the synced blocks add up
to the reports over all blocks, and the balances reported for each of them follow from the balances
of the block before it and from the mints and the burns reported for it. -/
theorem scanned_blocks_reported {ι : Type} [DecidableEq ι] (ext : Externals) (serde : Serde)
    (burnRedemptionMemo : BurnTxOut → Except Error Bytes) (c : ScanState ι)
    (h : Scanned ext serde c) :
    BlocksReported ext burnRedemptionMemo (Counters.get c.db .numBlocksSynced) c.db := by
  have hg := h.syncedTo.gapless
  have ho := h.ordered
  have hn := hg.le_two_pow
  have hmints := flatMap_blocks ho.mints hg.mints hn
  have hburns := flatMap_blocks ho.burns hg.burns hn
  refine ⟨flatMap_blocks ho.configTxs hg.configTxs hn,hmints,?_,fun t => ?_,fun t => ?_,
    h.replayed.balances,fun b hb => ⟨?_,?_,?_⟩⟩
  · simp only [ReserveAuditorHttpService.getBurnsByBlock, ← List.map_flatMap]
    exact congrArg _ hburns
  -- a sum over the table is a sum over the groups that it is made of
  · rw [getMintTotal_eq_mintedAmount]
    exact (congrArg (mintedAmount t) hmints).symm.trans (sum_map_flatMap _ _ _)
  · rw [getBurnTotal_eq_burnedAmount]
    exact (congrArg (burnedAmount t) hburns).symm.trans (sum_map_flatMap _ _ _)
  · rw [getMintInfoByBlock, MintConfigTx.getByBlockIndex, MintTx.getMintTxsByBlockIndex,
      filter_block_nil hg.configTxs hb, filter_block_nil hg.mints hb]
    rfl
  · rw [ReserveAuditorHttpService.getBurnsByBlock, BurnTxOut.getBurnTxsByBlock,
      filter_block_nil hg.burns hb]
    rfl
  · rw [BlockBalance.getBalancesForBlock, filter_block_nil hg.balances hb]
    rfl

theorem auditedScan_blocks_reported :
    BlocksReported Reference.externals (fun _ => .ok [])
      (Counters.get auditedScan.db .numBlocksSynced) auditedScan.db :=
  scanned_blocks_reported Reference.externals Reference.serde (fun _ => .ok []) auditedScan
    auditedScan_scanned

/-- The counters of the ledger are told by its reports. -/
structure LedgerCounted (n : ℕ) (s : Db) : Prop where
  blocks : n = s.blockAuditData.length
  unattributed : Counters.get s .numMintTxsWithoutMatchingMintConfig =
    ((List.range n).map fun b => unattributed (MintTx.getMintTxsByBlockIndex (.ofNat b) s)).sum
  overBurns : Counters.get s .numBurnsExceedingBalance =
    ((List.range n).map fun b => replayedOverBurns (.ofNat b) s).sum

/-- In every state that scanners and Gnosis threads reach, the counters of the ledger are those that
the reports on the synced blocks tell: their number, the mints that are reported without a config,
and the burns that find less than they burn when the reports are replayed in order. -/
theorem scanned_ledger_counted {ι : Type} [DecidableEq ι] (ext : Externals) (serde : Serde)
    (c : ScanState ι) (h : Scanned ext serde c) :
    LedgerCounted (Counters.get c.db .numBlocksSynced) c.db := by
  have hg := h.syncedTo.gapless
  have hmints := flatMap_blocks h.ordered.mints hg.mints hg.le_two_pow
  have hr := h.replayed
  refine ⟨?_,?_,hr.overBurns⟩
  · have hlength := congrArg List.length hg.audited
    rw [List.length_map, List.length_range] at hlength
    exact hlength.symm
  · rw [hr.unattributed]
    exact (congrArg unattributed hmints).symm.trans List.countP_flatMap

theorem auditedScan_ledger_counted :
    LedgerCounted (Counters.get auditedScan.db .numBlocksSynced) auditedScan.db :=
  scanned_ledger_counted Reference.externals Reference.serde auditedScan auditedScan_scanned

end ReserveAuditor
