import ReserveAuditor.Counting
import ReserveAuditor.LedgerIsolation

/-! The records of the safes do not depend on the ledger: what the Gnosis threads store and count as
invalid is the same whichever blocks are synced in between. -/
namespace ReserveAuditor
open Txn Relational

/-! ### Databases with the same records -/

/-- What is counted of Gnosis transactions that cannot be read. -/
def Counter.ofRecords : Counter → Bool
  | .numInvalidEthereumTransactions | .numInvalidMultiSigTransactions => true
  | _ => false

/-- The records of the safes are kept. -/
structure RecordsKept (s s' : Db) : Prop where
  txs : s'.gnosisSafeTxs = s.gnosisSafeTxs
  deposits : s'.gnosisSafeDeposits = s.gnosisSafeDeposits
  withdrawals : s'.gnosisSafeWithdrawals = s.gnosisSafeWithdrawals
  counters : Counters.Counts (fun c => !c.ofRecords) s s'

theorem Counters.Counts.symm {p : Counter → Bool} {s s' : Db} (h : Counters.Counts p s s') :
    Counters.Counts p s' s := by
  unfold Counters.Counts at h ⊢
  generalize s.counters = r, s'.counters = r' at h ⊢
  cases h with
  | none => exact .none
  | some hrow => exact .some fun c hc => (hrow c hc).symm

instance : IsPreorder Db RecordsKept where
  refl s := ⟨rfl,rfl,rfl,refl_of (Counters.Counts _) s⟩
  trans _ _ _ h h' := ⟨h'.txs.trans h.txs,h'.deposits.trans h.deposits,
    h'.withdrawals.trans h.withdrawals,trans_of (Counters.Counts _) h.counters h'.counters⟩

instance : Std.Symm RecordsKept where
  symm _ _ h := ⟨h.txs.symm,h.deposits.symm,h.withdrawals.symm,h.counters.symm⟩

variable {ext : Externals} {serde : Serde} {safe : AuditedSafeConfig} {s s' t : Db}

/-! ### Syncing and matching -/

/-- A statement that writes neither the records nor the counters. -/
theorem recordsKept_of_eq (h : s'.gnosisSafeTxs = s.gnosisSafeTxs)
    (hd : s'.gnosisSafeDeposits = s.gnosisSafeDeposits)
    (hw : s'.gnosisSafeWithdrawals = s.gnosisSafeWithdrawals) (hc : s'.counters = s.counters) :
    RecordsKept s s' := ⟨h,hd,hw,Counters.counts_of_eq hc⟩

theorem recordsKept_inc {c : Counter} (hc : c.ofRecords = false) :
    Program.Within RecordsKept (Counters.inc c) := by
  have hcounts : Program.Within (Counters.Counts fun c => !c.ofRecords) (Counters.inc c) :=
    Counters.within_inc (by rw [hc]; rfl)
  refine Program.within_of_ends (Counters.not_panics_inc c) (fun s u s' h => ?_) fun s e s' h => ?_
  · have hcounters := hcounts.returns h
    obtain ⟨row,-,rfl⟩ := (Counters.returns_inc c s s' u).mp h
    exact ⟨rfl,rfl,rfl,hcounters⟩
  · obtain ⟨-,-,rfl⟩ := (Counters.fails_inc c s s' e).mp h
    exact refl_of RecordsKept _

theorem recordsKept_associateMint (depositId mintId : ℕ) :
    Program.Within RecordsKept (AuditedMint.associateDepositWithMint depositId mintId) :=
  Program.within_bind (leaves_insertInto (P := fun s _ s' => RecordsKept s s') _
    fun _ _ _ _ _ => recordsKept_of_eq rfl rfl rfl rfl) fun _ => Program.within_pure _

theorem recordsKept_associateBurn (withdrawalId burnId : ℕ) :
    Program.Within RecordsKept (AuditedBurn.associateWithdrawalWithBurn withdrawalId burnId) :=
  Program.within_bind (leaves_insertInto (P := fun s _ s' => RecordsKept s s') _
    fun _ _ _ _ _ => recordsKept_of_eq rfl rfl rfl rfl) fun _ => Program.within_pure _

section tryMatch
variable {β : Type} {objectId : Option ℕ} {precheck : Except Error Unit}
  {existing : ℕ → Db → Option String} {onExisting : Conn Unit} {find : Db → Option β}
  {check : β → Except Error Unit} {associate : ℕ → β → Conn Unit} {countError : Error → Counter}

theorem recordsKept_tryMatch (hexisting : Program.Within RecordsKept onExisting)
    (hassociate : ∀ id b, Program.Within RecordsKept (associate id b))
    (hcount : ∀ e, (countError e).ofRecords = false) : Program.Within RecordsKept
      (tryMatch objectId precheck existing onExisting find check associate countError) :=
  leaves_tryMatch (P := fun s _ s' => RecordsKept s s') within_transaction hexisting hassociate
    fun e => recordsKept_inc (hcount e)

end tryMatch

theorem recordsKept_matchDeposit (d : GnosisSafeDeposit) (safe : AuditedSafeConfig) :
    Program.Within RecordsKept (AuditedMint.tryMatchDepositWithMint d safe) :=
  recordsKept_tryMatch (recordsKept_inc rfl) (fun _ _ => Program.within_bind
    (Program.within_ofOutcome _) fun _ => recordsKept_associateMint _ _) fun e => by cases e <;> rfl

theorem recordsKept_matchWithdrawal (w : GnosisSafeWithdrawal) (safe : AuditedSafeConfig) :
    Program.Within RecordsKept (AuditedBurn.tryMatchWithdrawalWithBurn w safe) :=
  recordsKept_tryMatch (Program.within_pure ()) (fun _ _ => Program.within_bind
    (Program.within_ofOutcome _) fun _ => recordsKept_associateBurn _ _) fun e => by cases e <;> rfl

theorem auditParts_recordsKept (config : GnosisSafeConfig) :
    AuditParts (fun s (_ : List Counters) s' => RecordsKept s s') config where
  matchMint _ := recordsKept_tryMatch (Program.within_pure ()) (fun _ _ => Program.within_bind
    (Program.within_ofOutcome _) fun _ => recordsKept_associateMint _ _) fun e => by cases e <;> rfl
  matchBurn _ := recordsKept_tryMatch (Program.within_pure ()) (fun _ _ => Program.within_bind
    (Program.within_ofOutcome _) fun _ => recordsKept_associateBurn _ _) fun e => by cases e <;> rfl

theorem Counter.ofRecords_of_ofLedger {c : Counter} (h : c.ofLedger = true) :
    c.ofRecords = false := by
  revert h
  cases c <;> decide

theorem ledgerParts_recordsKept (ext : Externals) (b : BlockData) :
    LedgerParts (fun s (_ : List Counters) s' => RecordsKept s s') ext b where
  configTx tx := leaves_insertConfigTx (P := fun s _ s' => RecordsKept s s') within_transaction ext
    _ _ tx (fun _ _ => recordsKept_of_eq rfl rfl rfl rfl)
    fun _ _ => recordsKept_of_eq rfl rfl rfl rfl
  mint m := leaves_insertUnsaved _ m fun _ _ _ _ _ => recordsKept_of_eq rfl rfl rfl rfl
  burn b := leaves_insertUnsaved _ b fun _ _ _ _ _ => recordsKept_of_eq rfl rfl rfl rfl
  count _ hc := recordsKept_inc (Counter.ofRecords_of_ofLedger hc)
  audited := Program.within_update fun _ => recordsKept_of_eq rfl rfl rfl rfl
  balances m := leaves_setBalances (P := fun s _ s' => RecordsKept s s') within_transaction _ m
    fun _ _ => recordsKept_of_eq rfl rfl rfl rfl

/-- Whatever becomes of a block, the records stay. -/
theorem recordsKept_syncAndAudit (ext : Externals) (config : Option GnosisSafeConfig)
    (b : BlockData) : Program.Within RecordsKept (syncAndAudit ext config b) :=
  Program.within_savepoint (Program.within_bind
    (within_transaction (ledgerParts_recordsKept ext b).syncBlockStages)
    fun data => leaves_auditIfConfigured auditParts_recordsKept data)

/-! ### Gnosis transactions -/

theorem RecordsKept.hashProcessed (h : RecordsKept s t) (hash : String) :
    ReserveAuditor.hashProcessed s hash = ReserveAuditor.hashProcessed t hash := by
  rw [ReserveAuditor.hashProcessed, ReserveAuditor.hashProcessed, h.txs]

theorem records_inc (c : Counter) : Program.Respects RecordsKept (Counters.inc c) := by
  intro s t h
  have hcounters := h.counters
  unfold Counters.Counts at hcounters
  simp only [Counters.inc, Program.bind_run, Program.bind, Program.query]
  cases hs : s.counters with
  | none =>
    cases ht : t.counters with
    | none => exact ⟨rfl,h⟩
    | some row => simp [hs, ht] at hcounters
  | some row =>
    cases ht : t.counters with
    | none => simp [hs, ht] at hcounters
    | some row' =>
      rw [hs, ht, Option.rel_some_some] at hcounters
      refine ⟨rfl,h.txs,h.deposits,h.withdrawals,?_⟩
      change Option.Rel _ (some (row.bump c)) (some (row'.bump c))
      -- counters that agreed still agree when they are both increased
      refine .some fun d hd => ?_
      by_cases he : d = c
      · subst he
        rw [Counters.bump_same, Counters.bump_same, hcounters d hd]
      · rw [Counters.bump_ne row' he, Counters.bump_ne row he, hcounters d hd]

theorem records_storeDeposit (safe : AuditedSafeConfig) (d : GnosisSafeDeposit) :
    Program.Respects RecordsKept (safe.storeDeposit d) :=
  Program.respects_bind (respects_insertUnsaved _ _ (fun _ _ h => h.deposits.symm)
    (fun _ _ _ h => ⟨h.txs,rfl,h.withdrawals,h.counters⟩) fun _ _ h => h.hashProcessed _)
    fun d => Program.respects_ignore (fun _ => not_panics_matchDeposit d safe)
      (recordsKept_matchDeposit d safe)

theorem records_storeWithdrawal (safe : AuditedSafeConfig) (w : GnosisSafeWithdrawal) :
    Program.Respects RecordsKept (safe.storeWithdrawal w) :=
  Program.respects_bind (respects_insertUnsaved _ _ (fun _ _ h => h.withdrawals.symm)
    (fun _ _ _ h => ⟨h.txs,h.deposits,rfl,h.counters⟩) fun _ _ h => h.hashProcessed _)
    fun w => Program.respects_ignore (fun _ => not_panics_matchWithdrawal w safe)
      (recordsKept_matchWithdrawal w safe)

theorem records_processTransfer (safe : AuditedSafeConfig) (tx : EthereumTransaction)
    (transfer : EthereumTransfer) :
    Program.Respects RecordsKept (safe.processTransfer tx transfer) := by
  rw [AuditedSafeConfig.processTransfer_eq]
  split
  · split
    · exact records_storeDeposit safe _
    · exact Program.respects_bind (records_inc _) fun _ => Program.respects_fail _
    · exact Program.respects_ofOutcome _
  · exact Program.respects_pure ()

theorem records_processMultiSigTransaction (safe : AuditedSafeConfig) (tx : MultiSigTransaction) :
    Program.Respects RecordsKept (safe.processMultiSigTransaction tx) := by
  rw [AuditedSafeConfig.processMultiSigTransaction_eq]
  split
  · split
    · exact records_storeWithdrawal safe _
    · exact records_inc _
    · exact Program.respects_ofOutcome _
  · exact Program.respects_pure ()

theorem records_processDecoded (safe : AuditedSafeConfig) (tx : Transaction) :
    Program.Respects RecordsKept (safe.processDecoded tx) := by
  cases tx with
  | ethereum tx =>
    refine Program.respects_bind (Program.respects_attempt
      (Program.respects_forEach (records_processTransfer safe tx) tx.transfers)) fun r => ?_
    split
    · exact Program.respects_pure ()
    · exact Program.respects_pure ()
    · exact Program.respects_fail _
  | multiSig tx => exact records_processMultiSigTransaction safe tx
  | module v => exact Program.respects_pure ()

/-- From databases with the same records, a Gnosis transaction ends in the same way, and leaves
the same records. -/
theorem records_processRawTransaction (safe : AuditedSafeConfig) (serde : Serde)
    (tx : RawGnosisTransaction) :
    Program.Respects RecordsKept (safe.processRawTransaction serde tx) := by
  rw [processRawTransaction_eq]
  refine Program.respects_expect _ (Program.respects_savepoint
    (Program.respects_bind (Program.respects_attempt ?_) fun r => ?_))
  · refine Program.respects_bind (Program.respects_ofOutcome _) fun hash =>
      Program.respects_tryUpdate fun s t h => ?_
    rw [h.hashProcessed]
    split
    · exact Or.inl ⟨_,rfl,rfl⟩
    · refine Or.inr ⟨_,_,_,rfl,rfl,?_,h.deposits,h.withdrawals,h.counters⟩
      rw [h.txs]
  · split
    · exact Program.respects_pure ()
    · exact Program.respects_fail _
    · exact Program.respects_bind (Program.respects_ofOutcome _) (records_processDecoded safe)

/-! ### Runs -/

/-- The Gnosis transaction that an activity processes, and for which safe. -/
def Activity.gnosis? : Activity → Option (AuditedSafeConfig × RawGnosisTransaction)
  | ledger _ => none
  | gnosis safe tx => some (safe,tx)

/-- The transactions alone, one after the other, of which those that panic leave no trace. -/
def processAlone (serde : Serde) (txs : List (AuditedSafeConfig × RawGnosisTransaction)) : Db :=
  txs.foldl (fun s p => (p.1.processRawTransaction serde p.2 s).state) initialDb

theorem run_records (ext : Externals) (serde : Serde) (config : Option GnosisSafeConfig)
    (as : List Activity) : RecordsKept (processAlone serde (as.filterMap Activity.gnosis?))
      (Activity.run ext serde config as).1 := by
  induction as using List.reverseRecOn with
  | nil => exact refl_of RecordsKept _
  | append_singleton as a ih =>
    rw [Activity.run_concat, List.filterMap_append]
    cases a with
    | ledger b =>
      change RecordsKept (processAlone serde (as.filterMap Activity.gnosis? ++ [])) _
      rw [List.append_nil]
      exact trans_of RecordsKept ih (recordsKept_syncAndAudit ext config b _)
    | gnosis safe tx =>
      change RecordsKept (processAlone serde (as.filterMap Activity.gnosis? ++ [(safe,tx)])) _
      rw [processAlone, List.foldl_append]
      exact (records_processRawTransaction safe serde tx _ _ ih).2

/-- Two runs in which the threads of the safes process the same transactions have the same records,
and end the next transaction of any safe in the same way, whichever blocks are synced in between
and whether or not they are audited. -/
theorem runs_same_records (ext ext' : Externals) (serde : Serde)
    (config config' : Option GnosisSafeConfig) (as as' : List Activity)
    (htxs : as.filterMap Activity.gnosis? = as'.filterMap Activity.gnosis?) :
    RecordsKept (Activity.run ext serde config as).1 (Activity.run ext' serde config' as').1 ∧
    ∀ (safe : AuditedSafeConfig) (tx : RawGnosisTransaction),
      (safe.processRawTransaction serde tx (Activity.run ext serde config as).1).outcome =
        (safe.processRawTransaction serde tx (Activity.run ext' serde config' as').1).outcome := by
  have hrecords := run_records ext serde config as
  rw [htxs] at hrecords
  -- both runs have the records of the transactions alone
  have hsame := trans_of RecordsKept (symm_of RecordsKept hrecords)
    (run_records ext' serde config' as')
  exact ⟨hsame,fun safe tx => (records_processRawTransaction safe serde tx _ _ hsame).1⟩

/-- A deposit that is processed before its mint is synced, and one with no ledger at all. -/
theorem depositActivity_same_records :
    let run := Activity.run Reference.externals Reference.serde (some Reference.config)
      [depositActivity,.ledger mintBlock]
    let run' := Activity.run Reference.externals Reference.serde none [depositActivity]
    RecordsKept run.1 run'.1 ∧
    ∀ (safe : AuditedSafeConfig) (tx : RawGnosisTransaction),
      (safe.processRawTransaction Reference.serde tx run.1).outcome =
        (safe.processRawTransaction Reference.serde tx run'.1).outcome :=
  runs_same_records Reference.externals Reference.externals Reference.serde (some Reference.config)
    none _ _ rfl

end ReserveAuditor
