import ReserveAuditor.History

/-! Auditors of one ledger agree: however many scanners each of them runs, when these crash, and
whatever its Gnosis threads do, the blocks that both have synced are reported alike. -/
namespace ReserveAuditor
open Txn Relational

variable {ext : Externals} {serde : Serde} {s s' : Db} {n : ℕ} {ledger : List BlockData}

/-- What can happen between two transactions where all scanners read one ledger. It is the ledger as
it will be: a scanner may not see all of it yet. Transactions are closed as in `ScanStep`. -/
inductive LedgerStep {ι : Type} [DecidableEq ι] (ext : Externals) (serde : Serde)
    (ledger : List BlockData) : ScanState ι → ScanState ι → Prop where
  | read (s : ScanState ι) (i : ι) : LedgerStep ext serde ledger s
      ⟨s.db,Function.update s.held i (some (nextBlockToSync s.db))⟩
  | sync (s : ScanState ι) (i : ι) (config : Option GnosisSafeConfig) (b : BlockData)
      (held : s.held i = some b.block.index) (stored : ledger[b.block.index.toNat]? = some b) :
      LedgerStep ext serde ledger s
        ⟨(syncAndAudit ext config b s.db).state,Function.update s.held i none⟩
  | crash (s : ScanState ι) (i : ι) : LedgerStep ext serde ledger s
      ⟨(newFromPath s.db).state,Function.update s.held i none⟩
  | gnosis (s : ScanState ι) (safe : AuditedSafeConfig) (tx : RawGnosisTransaction) :
      LedgerStep ext serde ledger s ⟨(safe.processRawTransaction serde tx s.db).state,s.held⟩

/-- What the scanners of a ledger can reach from a new database. -/
inductive ScannedOf {ι : Type} [DecidableEq ι] (ext : Externals) (serde : Serde)
    (ledger : List BlockData) : ScanState ι → Prop where
  | start : ScannedOf ext serde ledger ⟨initialDb,fun _ => none⟩
  | step {s s' : ScanState ι} (before : ScannedOf ext serde ledger s)
      (next : LedgerStep ext serde ledger s s') : ScannedOf ext serde ledger s'

/-! ### One ledger, synced in order -/

theorem SyncedTo.syncBlock {b : BlockData} {data : SyncBlockData} (hs : SyncedTo n s)
    (h : (syncBlockWithConn ext b.block b.contents b.timestamp).Returns s data s') :
    SyncedTo (n+1) s' := by
  have hsynced := returns_syncBlockWithConn hs.refs h
  obtain ⟨row,-,hrow⟩ := hsynced.counters
  exact ⟨hsynced.gapless hs.gapless,hsynced.refs,by rw [hrow]; rfl⟩

/-- The first blocks are synced on the way to more of them. -/
theorem syncBlocks_take {j k : ℕ} (hj : j ≤ k)
    (h : (syncBlocks ext (ledger.take k)).Returns s () s') : ∃ t,
      (syncBlocks ext (ledger.take j)).Returns s () t ∧
      (syncBlocks ext ((ledger.take k).drop j)).Returns t () s' := by
  have hsplit : ledger.take k = ledger.take j ++ (ledger.take k).drop j := by
    have happend := List.take_append_drop j (ledger.take k)
    rwa [List.take_take, min_eq_left hj, eq_comm] at happend
  rw [hsplit] at h
  exact (Program.returns_forEach_append _ _ _ _ _ _).mp h

theorem history_syncBlocks {blocks : List BlockData} (hs : SyncedTo n s)
    (h : (syncBlocks ext blocks).Returns s () s') : HistoryKept n s s' := by
  induction blocks generalizing n s with
  | nil =>
    obtain rfl := (Program.returns_forEach_nil _ s s' ()).mp h
    exact (LedgerKept.refl _).history n
  | cons b blocks ih =>
    obtain ⟨s₁,hb,hrest⟩ := (Program.returns_forEach_cons _ _ _ s s' ()).mp h
    simp only [Program.returns_bind, Program.returns_pure] at hb
    obtain ⟨data,_,hsync,-,rfl⟩ := hb
    obtain ⟨added,hadded⟩ := returns_configTxsStored hs.refs hsync
    exact ((returns_syncBlockWithConn hs.refs hsync).history hs.gapless hadded).trans
      (ih (hs.syncBlock hsync) hrest) n.le_succ

/-! ### Scanners -/

section ScannedOf
variable {ι : Type} [DecidableEq ι] {c c' : ScanState ι}

theorem LedgerStep.scanStep (h : LedgerStep ext serde ledger c c') : ScanStep ext serde c c' := by
  cases h with
  | read i => exact .read c i
  | sync i config b held => exact .sync c i config b held
  | crash i => exact .crash c i
  | gnosis safe tx => exact .gnosis c safe tx

theorem ScannedOf.scanned (h : ScannedOf ext serde ledger c) : Scanned ext serde c := by
  induction h with
  | start => exact .start
  | step _ next ih => exact ih.step next.scanStep

/-- The first `n` blocks, synced alone and in order, leave the same ledger. -/
def LedgerOf (ext : Externals) (ledger : List BlockData) (n : ℕ) (s : Db) : Prop :=
  ∃ t, (syncBlocks ext (ledger.take n)).Returns initialDb () t ∧ LedgerKept t s

theorem LedgerOf.kept (h : LedgerOf ext ledger n s) (hkept : LedgerKept s s') :
    LedgerOf ext ledger n s' := by
  obtain ⟨t,ht,ht'⟩ := h
  exact ⟨t,ht,ht'.trans hkept⟩

/-- A scanner that commits has synced the next block of the ledger. -/
theorem LedgerOf.syncAndAudit {config : Option GnosisSafeConfig} {b : BlockData}
    (h : LedgerOf ext ledger n s) (hs : SyncedTo n s)
    (hb : ledger[b.block.index.toNat]? = some b)
    (hsync : (ReserveAuditor.syncAndAudit ext config b).Returns s () s') :
    LedgerOf ext ledger (n+1) s' := by
  obtain ⟨t,ht,hkept⟩ := h
  simp only [ReserveAuditor.syncAndAudit, returns_exclusiveTransaction, Program.returns_bind] at hsync
  obtain ⟨data,s₁,hsync,haudit⟩ := hsync
  obtain ⟨t₁,ht₁,hkept₁⟩ := (respects_syncBlockWithConn b).returns hkept.symm hsync
  rw [(returns_syncBlockWithConn hs.refs hsync).index, hs.gapless.counted] at hb
  refine ⟨t₁,?_,hkept₁.symm.trans (ledgerKept_audit haudit)⟩
  rw [List.take_add_one, hb, Option.toList_some]
  refine (Program.returns_forEach_append _ _ _ _ _ _).mpr ⟨t,ht,?_⟩
  refine (Program.returns_forEach_cons _ _ _ _ _ _).mpr ⟨t₁,?_,by simp⟩
  exact (Program.returns_bind _ _ _ _ _).mpr ⟨data,t₁,ht₁,by simp⟩

/-- A step leaves the ledger alone, or syncs a block of it. -/
theorem LedgerStep.changes (h : LedgerStep ext serde ledger c c')
    (hc : c.db.counters.isSome = true) : LedgerKept c.db c'.db ∨ ∃ config b,
      ledger[b.block.index.toNat]? = some b ∧ (syncAndAudit ext config b).Returns c.db () c'.db := by
  cases h with
  | read i => exact Or.inl (.refl _)
  | sync i config b held stored =>
    rcases activity_cases ext serde config (.ledger b) c.db with h | ⟨-,h⟩
    · exact Or.inr ⟨config,b,stored,h⟩
    · exact Or.inl (h.symm ▸ .refl c.db)
  | crash i => exact Or.inl ((newFromPath_state hc).symm ▸ .refl c.db)
  | gnosis safe tx =>
    rcases activity_cases ext serde none (.gnosis safe tx) c.db with h | ⟨-,h⟩
    · exact Or.inl (ledgerKept_processRawTransaction h)
    · exact Or.inl (h.symm ▸ .refl c.db)

theorem ScannedOf.ledgerOf (h : ScannedOf ext serde ledger c) :
    LedgerOf ext ledger (Counters.get c.db .numBlocksSynced) c.db := by
  induction h with
  | start =>
    exact ⟨initialDb,by simp [Counters.get, initialDb_eq, syncBlocks],.refl _⟩
  | step before next ih =>
    have hs := before.scanned.syncedTo
    rcases next.changes hs.counters with hkept | ⟨config,b,hb,h⟩
    · rw [hkept.counters.get rfl]
      exact ih.kept hkept
    · rw [(hs.syncAndAudit h).gapless.counted]
      exact ih.syncAndAudit hs hb h

end ScannedOf

/-! ### Agreement -/

theorem SameAnswers.symm {b : UInt64} (h : SameAnswers ext b s s') : SameAnswers ext b s' s where
  blockAuditData := h.blockAuditData.symm
  mintInfo := h.mintInfo.symm
  burns memo := (h.burns memo).symm

/-- An auditor that is behind has the history of the one that is ahead. -/
theorem LedgerOf.history {n' : ℕ} (h : LedgerOf ext ledger n s) (h' : LedgerOf ext ledger n' s')
    (hs : SyncedTo n s) (hn : n ≤ n') : HistoryKept n s s' := by
  obtain ⟨t,ht,hkept⟩ := h
  obtain ⟨t',ht',hkept'⟩ := h'
  obtain ⟨u,hu,hrest⟩ := syncBlocks_take hn ht'
  obtain ⟨-,rfl⟩ := ht.unique hu
  -- to the ledger alone, along the blocks between, and back
  exact ((hkept.symm.history n).trans
    (history_syncBlocks (hkept.symm.syncedTo hs) hrest) le_rfl).trans (hkept'.history n) le_rfl

/-- Auditors of one ledger hold the ledger that syncing its first blocks in order leaves, and agree
on what they answer about every block that both have synced. -/
theorem scanners_agree {ι ι' : Type} [DecidableEq ι] [DecidableEq ι'] (ext : Externals)
    (serde serde' : Serde) (ledger : List BlockData) (c : ScanState ι) (c' : ScanState ι')
    (h : ScannedOf ext serde ledger c) (h' : ScannedOf ext serde' ledger c') :
    LedgerOf ext ledger (Counters.get c.db .numBlocksSynced) c.db ∧
    ∀ b : UInt64, b.toNat < Counters.get c.db .numBlocksSynced →
      b.toNat < Counters.get c'.db .numBlocksSynced → SameAnswers ext b c.db c'.db := by
  refine ⟨h.ledgerOf,fun b hb hb' => ?_⟩
  have hs := h.scanned.syncedTo
  have hs' := h'.scanned.syncedTo
  rcases le_total (Counters.get c.db .numBlocksSynced) (Counters.get c'.db .numBlocksSynced) with
    hn | hn
  · exact (h.ledgerOf.history h'.ledgerOf hs hn).answers hs.refs hb
  · exact ((h'.ledgerOf.history h.ledgerOf hs' hn).answers hs'.refs hb').symm

section scans
variable {ι : Type} [DecidableEq ι] {c : ScanState ι}

theorem ScannedOf.processed (h : ScannedOf ext serde ledger c) (safe : AuditedSafeConfig)
    (tx : RawGnosisTransaction) : ScannedOf ext serde ledger (c.processed serde safe tx) :=
  h.step (.gnosis c safe tx)

theorem ScannedOf.synced (h : ScannedOf ext serde ledger c) (config : Option GnosisSafeConfig)
    {b : BlockData} (i : ι) (hnext : nextBlockToSync c.db = b.block.index)
    (hb : ledger[b.block.index.toNat]? = some b) :
    ScannedOf ext serde ledger (c.synced ext config b i) := by
  have hread := h.step (.read c i)
  rw [hnext] at hread
  exact hread.step (.sync _ i config b (Function.update_self _ _ _) hb)

end scans

/-- An auditor of the same ledger with two scanners, which was told of no safe. -/
def unauditedScan : ScanState Bool :=
  ScanState.synced Reference.externals none mintAndBurn false ⟨initialDb,fun _ => none⟩

theorem auditedScan_agrees :
    LedgerOf Reference.externals [mintAndBurn] (Counters.get auditedScan.db .numBlocksSynced)
      auditedScan.db ∧
    ∀ b : UInt64, b.toNat < Counters.get auditedScan.db .numBlocksSynced →
      b.toNat < Counters.get unauditedScan.db .numBlocksSynced →
      SameAnswers Reference.externals b auditedScan.db unauditedScan.db := by
  have hdeposit : ScannedOf Reference.externals Reference.serde [mintAndBurn] depositScan :=
    ScannedOf.start.processed Reference.safeA depositOfThree
  have haudited : ScannedOf Reference.externals Reference.serde [mintAndBurn] auditedScan :=
    (hdeposit.synced (some Reference.config) () (by decide +kernel) rfl).processed Reference.safeB
      burnWithdrawal
  have hunaudited : ScannedOf Reference.externals Reference.serde [mintAndBurn] unauditedScan :=
    ScannedOf.start.synced none false (by decide +kernel) rfl
  exact scanners_agree Reference.externals Reference.serde Reference.serde [mintAndBurn] auditedScan
    unauditedScan haudited hunaudited

end ReserveAuditor
