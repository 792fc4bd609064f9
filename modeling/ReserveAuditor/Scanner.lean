import ReserveAuditor.LedgerIsolation
import ReserveAuditor.Replay

/-! Scanners of the ledger. Each reads which block is next outside of a transaction, and then runs
its transaction on that block; what another scanner did in between makes the transaction fail. -/
namespace ReserveAuditor
open Txn Relational

variable {ext : Externals} {serde : Serde} {s s' : Db} {n : ℕ}

/-! ### The next block -/

theorem toNat_ofNat {k : ℕ} (hk : k < 2^63) : (UInt64.ofNat k).toNat = k :=
  UInt64.toNat_ofNat_of_lt' (hk.trans (by decide))

theorem max?_concat (l : List Int64) (x : Int64) :
    (l ++ [x]).max? = some (l.max?.elim x fun m => max m x) := by
  cases l with
  | nil => rfl
  | cons a l => simp [List.max?, List.foldl_append]

/-- The largest index in the column is the last one. -/
theorem max?_range (k : ℕ) (hk : k < 2^63) :
    ((List.range (k+1)).map fun i => (UInt64.ofNat i).toInt64).max? =
      some (UInt64.ofNat k).toInt64 := by
  induction k with
  | zero => rfl
  | succ k ih =>
    have hle : (UInt64.ofNat k).toInt64 ≤ (UInt64.ofNat (k+1)).toInt64 := by
      have hk₁ : (UInt64.ofNat k).toNat = k := toNat_ofNat (by omega)
      have hk₂ := toNat_ofNat hk
      rw [toInt64_le_iff (by omega) (by omega), UInt64.le_iff_toNat_le]
      omega
    rw [List.range_succ, List.map_append, List.map_singleton, max?_concat, ih (by omega)]
    exact congrArg some (if_pos hle)

/-- The column of the audited blocks is 0 to `n-1`, as signed words. -/
theorem Gapless.column (hg : Gapless n s) : s.blockAuditData.map BlockAuditData.blockIndex =
    (List.range n).map fun i => (UInt64.ofNat i).toInt64 := by
  rw [← hg.audited, List.map_map]
  refine List.map_congr_left fun r _ => ?_
  change r.blockIndex = (UInt64.ofNat r.getBlockIndex.toNat).toInt64
  rw [UInt64.ofNat_toNat]
  rfl

theorem Gapless.nextBlockToSync_toNat (hg : Gapless n s) (hn : n < 2^63) :
    (nextBlockToSync s).toNat = n := by
  rw [nextBlockToSync, BlockAuditData.lastSyncedBlockIndex, hg.column]
  cases n with
  | zero => rfl
  | succ k =>
    -- below 2^63 the greatest of them is the last one
    have hk : (UInt64.ofNat k).toNat = k := toNat_ofNat (by omega)
    rw [max?_range k (by omega), Option.map_some]
    change (UInt64.ofNat k+1).toNat = k+1
    rw [UInt64.toNat_add, hk]
    change (k+1) % 2^64 = k+1
    omega

/-! ### Databases that are synced up to a block -/

/-- The database is synced up to block `n` and ready for it. -/
structure SyncedTo (n : ℕ) (s : Db) : Prop where
  gapless : Gapless n s
  refs : ConfigRefs s
  counters : s.counters.isSome = true

theorem syncedTo_initial : SyncedTo 0 initialDb := ⟨gapless_initial,configRefs_initial,rfl⟩

theorem LedgerKept.syncedTo (h : LedgerKept s s') (hs : SyncedTo n s) : SyncedTo n s' where
  gapless := {
    counted := (h.counters.get rfl).trans hs.gapless.counted
    audited := h.blockAuditData ▸ hs.gapless.audited
    configTxs := h.mintConfigTxs ▸ hs.gapless.configTxs
    mints := h.mintTxs ▸ hs.gapless.mints
    burns := h.burnTxOuts ▸ hs.gapless.burns
    balances := h.blockBalance ▸ hs.gapless.balances }
  refs := ⟨h.mintTxs ▸ h.mintConfigs ▸ hs.refs.ofMint,h.mintConfigs ▸ h.mintConfigTxs ▸ hs.refs.ofConfig⟩
  counters := by
    have hcount := congrArg Option.isSome (h.counters .numBlocksSynced rfl)
    rw [Option.isSome_map, Option.isSome_map] at hcount
    rw [hcount, hs.counters]

/-- A block that is synced and audited is the next one. -/
theorem SyncedTo.syncAndAudit {config : Option GnosisSafeConfig} {b : BlockData}
    (hs : SyncedTo n s) (h : (syncAndAudit ext config b).Returns s () s') : SyncedTo (n+1) s' := by
  simp only [ReserveAuditor.syncAndAudit, returns_exclusiveTransaction, Program.returns_bind] at h
  obtain ⟨data,s₁,hsync,haudit⟩ := h
  have hsynced := returns_syncBlockWithConn hs.refs hsync
  obtain ⟨row,-,hrow⟩ := hsynced.counters
  exact (ledgerKept_audit haudit).syncedTo
    ⟨hsynced.gapless hs.gapless,hsynced.refs,by rw [hrow]; rfl⟩

/-- A block that is not the next one is refused. -/
theorem syncAndAudit_unexpected {config : Option GnosisSafeConfig} {b : BlockData}
    (h : b.block.index.toNat ≠ Counters.get s .numBlocksSynced) :
    (syncAndAudit ext config b).Fails s (.unexpectedBlockIndex b.block.index.toNat
      (Counters.get s .numBlocksSynced)) s := by
  simp only [syncAndAudit, fails_exclusiveTransaction, Program.fails_bind, true_and]
  refine ⟨s,Or.inl ?_⟩
  simp only [syncBlockWithConn, fails_transaction, Program.fails_bind, true_and]
  refine ⟨s,Or.inr ⟨_,s,(Program.returns_query _ _ _ _).mpr ⟨rfl,rfl⟩,Or.inl ?_⟩⟩
  exact (Program.fails_when _ _ _ _ _).mpr ⟨h,(Program.fails_fail _ _ _ _).mpr ⟨rfl,rfl⟩⟩

/-! ### Any number of scanners -/

/-- The database, and the index of the block that each scanner is about to sync, if it read one. -/
structure ScanState (ι : Type) where
  db : Db
  held : ι → Option UInt64

/-- What can happen between two transactions. -/
inductive ScanStep {ι : Type} [DecidableEq ι] (ext : Externals) (serde : Serde) :
    ScanState ι → ScanState ι → Prop where
  /-- A scanner reads which block is next. -/
  | read (s : ScanState ι) (i : ι) : ScanStep ext serde s
      ⟨s.db,Function.update s.held i (some (nextBlockToSync s.db))⟩
  /-- A scanner runs its transaction on the block that it read the index of. -/
  | sync (s : ScanState ι) (i : ι) (config : Option GnosisSafeConfig) (b : BlockData)
      (held : s.held i = some b.block.index) : ScanStep ext serde s
      ⟨(syncAndAudit ext config b s.db).state,Function.update s.held i none⟩
  /-- A scanner crashes, and starts again by opening the database. -/
  | crash (s : ScanState ι) (i : ι) : ScanStep ext serde s
      ⟨(newFromPath s.db).state,Function.update s.held i none⟩
  /-- The thread of a safe processes a transaction. A panic that leaves it open
  (`AuditedSafeConfig.LeavesOpen`) holds up the other steps until its connection is closed. Here
  they go on at once. -/
  | gnosis (s : ScanState ι) (safe : AuditedSafeConfig) (tx : RawGnosisTransaction) :
      ScanStep ext serde s ⟨(safe.processRawTransaction serde tx s.db).state,s.held⟩

/-- What the scanners can reach from a new database. -/
inductive Scanned {ι : Type} [DecidableEq ι] (ext : Externals) (serde : Serde) :
    ScanState ι → Prop where
  | start : Scanned ext serde ⟨initialDb,fun _ => none⟩
  | step {s s' : ScanState ι} (before : Scanned ext serde s) (next : ScanStep ext serde s s') :
      Scanned ext serde s'

/-- Opening a database that has its counters changes nothing. -/
theorem newFromPath_returns (h : s.counters.isSome = true) : newFromPath.Returns s () s := by
  obtain ⟨row,hrow⟩ := Option.isSome_iff_exists.mp h
  refine (returns_transaction _ _ _ _).mpr ((Program.returns_bind _ _ _ _ _).mpr
    ⟨_,s,(Program.returns_query _ _ _ _).mpr ⟨rfl,rfl⟩,?_⟩)
  rw [hrow]
  exact (Program.returns_pure _ _ _ _).mpr ⟨rfl,rfl⟩

theorem newFromPath_state (h : s.counters.isSome = true) : (newFromPath s).state = s :=
  (newFromPath_returns h).2

section Scanned
variable {ι : Type} [DecidableEq ι]

theorem ScanStep.syncedTo {c c' : ScanState ι} (h : ScanStep ext serde c c')
    (hs : SyncedTo n c.db) : ∃ n', SyncedTo n' c'.db := by
  cases h with
  | read i => exact ⟨n,hs⟩
  | sync i config b held =>
    rcases activity_cases ext serde config (.ledger b) c.db with h | ⟨-,h⟩
    -- the block was accepted, so it was block n
    · exact ⟨n+1,hs.syncAndAudit h⟩
    · refine ⟨n,?_⟩
      change (ReserveAuditor.syncAndAudit ext config b c.db).state = c.db at h
      rwa [h]
  | crash i =>
    refine ⟨n,?_⟩
    -- opening a database that has its counters changes nothing
    rwa [newFromPath_state hs.counters]
  | gnosis safe tx =>
    rcases activity_cases ext serde none (.gnosis safe tx) c.db with h | ⟨-,h⟩
    · exact ⟨n,(ledgerKept_processRawTransaction h).syncedTo hs⟩
    · refine ⟨n,?_⟩
      change (safe.processRawTransaction serde tx c.db).state = c.db at h
      rwa [h]

theorem Scanned.syncedTo {c : ScanState ι} (h : Scanned ext serde c) :
    SyncedTo (Counters.get c.db .numBlocksSynced) c.db := by
  have hex : ∃ n, SyncedTo n c.db := by
    induction h with
    | start => exact ⟨0,syncedTo_initial⟩
    | step _ next ih =>
      obtain ⟨n,hn⟩ := ih
      exact next.syncedTo hn
  obtain ⟨n,hn⟩ := hex
  rwa [hn.gapless.counted]

end Scanned

/-! ### The loop of one scanner -/

theorem respects_syncBlocks (blocks : List BlockData) :
    Program.Respects LedgerKept (syncBlocks ext blocks) :=
  Program.respects_forEach (fun b => Program.respects_bind (respects_syncBlockWithConn b) fun _ =>
    Program.respects_pure _) blocks

/-- The loop syncs the blocks that are left, in order, and stops. -/
theorem syncLoop_returns (config : Option GnosisSafeConfig) {ledger : List BlockData}
    (hlen : ledger.length < 2^63) (rest : List BlockData) {t : Db} (hs : SyncedTo n s)
    (hn : n ≤ ledger.length) (hrest : ledger.drop n = rest)
    (h : (syncBlocks ext rest).Returns s () t) : ∃ s', SyncedTo ledger.length s' ∧
      (Program.forEach rest (syncAndAudit ext config)).Returns s () s' ∧
      ∀ fuel, rest.length < fuel → (syncLoop ext config ledger fuel).Returns s () s' := by
  have hnext := hs.gapless.nextBlockToSync_toNat (by omega)
  induction rest generalizing n s t with
  | nil =>
    obtain rfl : n = ledger.length := le_antisymm hn (List.drop_eq_nil_iff.mp hrest)
    refine ⟨s,hs,(Program.returns_forEach_nil _ _ _ _).mpr rfl,fun fuel hfuel => ?_⟩
    obtain ⟨fuel,rfl⟩ := Nat.exists_eq_add_of_lt hfuel
    refine (Program.returns_bind _ _ _ _ _).mpr ⟨_,s,(Program.returns_query _ _ _ _).mpr ⟨rfl,rfl⟩,?_⟩
    rw [hnext, List.getElem?_eq_none le_rfl]
    exact (Program.returns_pure _ _ _ _).mpr ⟨rfl,rfl⟩
  | cons b rest ih =>
    have hget : ledger[n]? = some b := by
      rw [← List.head?_drop, hrest]
      rfl
    have hlt : n < ledger.length := by
      by_contra hge
      rw [List.drop_eq_nil_of_le (not_lt.mp hge)] at hrest
      simp at hrest
    have hdrop : ledger.drop (n+1) = rest := by
      rw [← List.tail_drop, hrest]
      rfl
    obtain ⟨t₁,hb,hmore⟩ := (Program.returns_forEach_cons _ _ _ _ _ _).mp h
    simp only [Program.returns_bind, Program.returns_pure] at hb
    obtain ⟨data,_,hsync,-,rfl⟩ := hb
    obtain ⟨s₁,hs₁⟩ := (syncAndAudit_returns_iff ext config b s).mpr ⟨data,_,hsync⟩
    have haudit := hs₁
    simp only [syncAndAudit, returns_exclusiveTransaction, Program.returns_bind] at haudit
    obtain ⟨data',t₁',hsync',haudit⟩ := haudit
    obtain ⟨-,rfl⟩ := hsync.unique hsync'
    -- the audit does not change what the next blocks are checked against
    obtain ⟨t',ht',-⟩ := (respects_syncBlocks rest).returns (ledgerKept_audit haudit) hmore
    have hsynced := hs.syncAndAudit hs₁
    obtain ⟨s',hs',hall,hloop⟩ := ih hsynced hlt hdrop ht'
      (hsynced.gapless.nextBlockToSync_toNat (by omega))
    refine ⟨s',hs',(Program.returns_forEach_cons _ _ _ _ _ _).mpr ⟨s₁,hs₁,hall⟩,fun fuel hfuel => ?_⟩
    obtain ⟨fuel,rfl⟩ := Nat.exists_eq_add_of_lt hfuel
    refine (Program.returns_bind _ _ _ _ _).mpr ⟨_,s,(Program.returns_query _ _ _ _).mpr ⟨rfl,rfl⟩,?_⟩
    rw [hnext, hget]
    refine (Program.returns_bind _ _ _ _ _).mpr ⟨(),s₁,hs₁,hloop _ ?_⟩
    rw [List.length_cons]
    omega

/-- Blocks are synced gaplessly and once, by any number of scanners: the audited blocks are those
that the counter counts, all rows belong to them, what a scanner reads is the counter, a scanner
whose read is stale fails and changes nothing, and a loop over a ledger whose blocks are accepted
syncs the ones that are left. -/
theorem scanned_gapless {ι : Type} [DecidableEq ι] (ext : Externals) (serde : Serde)
    (c : ScanState ι) (h : Scanned ext serde c) (n : ℕ)
    (hn : Counters.get c.db .numBlocksSynced = n) (hlt : n < 2^63) :
    Gapless n c.db ∧ (nextBlockToSync c.db).toNat = n ∧
    (∀ i v, c.held i = some v → v.toNat ≠ n → ∀ config b, b.block.index = v →
      (syncAndAudit ext config b).Fails c.db (.unexpectedBlockIndex v.toNat n) c.db) ∧
    ∀ config ledger t, n ≤ ledger.length → ledger.length < 2^63 →
      (syncBlocks ext (ledger.drop n)).Returns c.db () t → ∃ s',
        (Program.forEach (ledger.drop n) (syncAndAudit ext config)).Returns c.db () s' ∧
        Gapless ledger.length s' ∧
        ∀ fuel, ledger.length-n < fuel → (syncLoop ext config ledger fuel).Returns c.db () s' := by
  have hs := h.syncedTo
  rw [hn] at hs
  refine ⟨hs.gapless,hs.gapless.nextBlockToSync_toNat hlt,?_,?_⟩
  -- a scanner that read the index too early is refused
  · rintro i v - hstale config b rfl
    rw [← hn] at hstale ⊢
    exact syncAndAudit_unexpected hstale
  · intro config ledger t hle hlen hsync
    obtain ⟨s',hs',hall,hloop⟩ := syncLoop_returns config hlen _ hs hle rfl hsync
    refine ⟨s',hall,hs'.gapless,fun fuel hfuel => hloop fuel ?_⟩
    rwa [List.length_drop]

/-- Two scanners read that block 0 is next, and one of them syncs it. -/
def staleRead : ScanState Bool :=
  ⟨(syncAndAudit Reference.externals none mintBlock initialDb).state,
    Function.update (Function.update (Function.update (fun _ => none) false (some 0)) true (some 0))
      false none⟩

theorem staleRead_scanned : Scanned Reference.externals Reference.serde staleRead := by
  have hread : nextBlockToSync initialDb = 0 := rfl
  have h₀ : Scanned (ι := Bool) Reference.externals Reference.serde _ := .start
  have h₁ := h₀.step (.read _ false)
  have h₂ := h₁.step (.read _ true)
  rw [hread] at h₂
  exact h₂.step (.sync _ false none mintBlock rfl)

theorem staleRead_gapless :
    Gapless 1 staleRead.db ∧ (nextBlockToSync staleRead.db).toNat = 1 ∧
    (∀ i v, staleRead.held i = some v → v.toNat ≠ 1 → ∀ config b, b.block.index = v →
      (syncAndAudit Reference.externals config b).Fails staleRead.db
        (.unexpectedBlockIndex v.toNat 1) staleRead.db) ∧
    ∀ config ledger t, 1 ≤ ledger.length → ledger.length < 2^63 →
      (syncBlocks Reference.externals (ledger.drop 1)).Returns staleRead.db () t → ∃ s',
        (Program.forEach (ledger.drop 1) (syncAndAudit Reference.externals config)).Returns
          staleRead.db () s' ∧ Gapless ledger.length s' ∧
        ∀ fuel, ledger.length-1 < fuel →
          (syncLoop Reference.externals config ledger fuel).Returns staleRead.db () s' :=
  scanned_gapless Reference.externals Reference.serde staleRead staleRead_scanned 1
    (by decide +kernel) (by norm_num)

end ReserveAuditor
