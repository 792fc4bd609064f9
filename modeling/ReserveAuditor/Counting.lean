import ReserveAuditor.Parts

/-! Which counters a part of the auditor may change. -/
namespace ReserveAuditor
open Txn Relational

/-! ### Statements and matching -/

/-- What matching mints with deposits counts. -/
def Counter.ofMints : Counter → Bool
  | .numMismatchingMintsAndDeposits | .numUnknownEthereumTokenDeposits | .numMintsToUnknownSafe
  | .numUnexpectedErrorsMatchingDepositsToMints | .numUnexpectedErrorsMatchingMintsToDeposits => true
  | _ => false

/-- What matching burns with withdrawals counts. -/
def Counter.ofBurns : Counter → Bool
  | .numMismatchingBurnsAndWithdrawals | .numUnknownEthereumTokenWithdrawals
  | .numBurnsFromUnknownSafe | .numUnexpectedErrorsMatchingWithdrawalsToBurns
  | .numUnexpectedErrorsMatchingBurnsToWithdrawals => true
  | _ => false

open Counters (Counts within_inc counts_of_eq)

/-- A matching call that inserts one row counts its own errors. -/
theorem counts_tryMatch {p : Counter → Bool} {β : Type} {objectId : Option ℕ}
    {precheck : Except Error Unit} {existing : ℕ → Db → Option String} {onExisting : Conn Unit}
    {find : Db → Option β} {check : β → Except Error Unit} {associate : ℕ → β → Conn Unit}
    {countError : Error → Counter} (hexisting : Program.Within (Counts p) onExisting)
    (hassociate : ∀ id b, Program.Within (Counts p) (associate id b))
    (hcount : ∀ e, p (countError e) = true) : Program.Within (Counts p)
      (tryMatch objectId precheck existing onExisting find check associate countError) :=
  leaves_tryMatch (P := fun s _ s' => Counts p s s') within_transaction hexisting hassociate
    fun e => within_inc (hcount e)

theorem counts_associateMint (p : Counter → Bool) (depositId mintId : ℕ) :
    Program.Within (Counts p) (AuditedMint.associateDepositWithMint depositId mintId) :=
  Program.within_bind (leaves_insertInto (P := fun s _ s' => Counts p s s') _
    fun _ _ _ _ _ => counts_of_eq rfl) fun _ => Program.within_pure _

theorem counts_associateBurn (p : Counter → Bool) (withdrawalId burnId : ℕ) :
    Program.Within (Counts p) (AuditedBurn.associateWithdrawalWithBurn withdrawalId burnId) :=
  Program.within_bind (leaves_insertInto (P := fun s _ s' => Counts p s s') _
    fun _ _ _ _ _ => counts_of_eq rfl) fun _ => Program.within_pure _

theorem counts_matchDeposit (d : GnosisSafeDeposit) (safe : AuditedSafeConfig) :
    Program.Within (Counts Counter.ofMints) (AuditedMint.tryMatchDepositWithMint d safe) :=
  counts_tryMatch (within_inc rfl) (fun _ _ => Program.within_bind (Program.within_ofOutcome _)
    fun _ => counts_associateMint _ _ _) fun e => by cases e <;> rfl

theorem counts_matchMint (m : MintTx) (config : GnosisSafeConfig) :
    Program.Within (Counts Counter.ofMints) (AuditedMint.tryMatchMintWithDeposit m config) :=
  counts_tryMatch (Program.within_pure ()) (fun _ _ => Program.within_bind
    (Program.within_ofOutcome _) fun _ => counts_associateMint _ _ _) fun e => by cases e <;> rfl

theorem counts_matchWithdrawal (w : GnosisSafeWithdrawal) (safe : AuditedSafeConfig) :
    Program.Within (Counts Counter.ofBurns) (AuditedBurn.tryMatchWithdrawalWithBurn w safe) :=
  counts_tryMatch (Program.within_pure ()) (fun _ _ => Program.within_bind
    (Program.within_ofOutcome _) fun _ => counts_associateBurn _ _ _) fun e => by cases e <;> rfl

theorem counts_matchBurn (b : BurnTxOut) (config : GnosisSafeConfig) :
    Program.Within (Counts Counter.ofBurns) (AuditedBurn.tryMatchBurnWithWithdrawal b config) :=
  counts_tryMatch (Program.within_pure ()) (fun _ _ => Program.within_bind
    (Program.within_ofOutcome _) fun _ => counts_associateBurn _ _ _) fun e => by cases e <;> rfl

theorem counts_insertDeposit (p : Counter → Bool) (d : GnosisSafeDeposit) :
    Program.Within (Counts p) d.insert :=
  leaves_insertUnsaved (P := fun s _ s' => Counts p s s') _ d fun _ _ _ _ _ => counts_of_eq rfl

theorem counts_insertWithdrawal (p : Counter → Bool) (w : GnosisSafeWithdrawal) :
    Program.Within (Counts p) w.insert :=
  leaves_insertUnsaved (P := fun s _ s' => Counts p s s') _ w fun _ _ _ _ _ => counts_of_eq rfl

theorem counts_storeDeposit (safe : AuditedSafeConfig) (d₀ : GnosisSafeDeposit) :
    Program.Within (Counts Counter.ofMints) (safe.storeDeposit d₀) :=
  Program.within_bind (counts_insertDeposit _ d₀) fun d => Program.within_bind
    (Program.within_attempt (counts_matchDeposit d safe)) fun _ => Program.within_pure ()

theorem counts_storeWithdrawal (safe : AuditedSafeConfig) (w₀ : GnosisSafeWithdrawal) :
    Program.Within (Counts Counter.ofBurns) (safe.storeWithdrawal w₀) :=
  Program.within_bind (counts_insertWithdrawal _ w₀) fun w => Program.within_bind
    (Program.within_attempt (counts_matchWithdrawal w safe)) fun _ => Program.within_pure ()

/-! ### Syncing a block -/

theorem ledgerParts_counts (ext : Externals) (b : BlockData) :
    LedgerParts (fun s (_ : List Counters) s' => Counts Counter.ofLedger s s') ext b where
  configTx tx := leaves_insertConfigTx (P := fun s _ s' => Counts Counter.ofLedger s s')
    within_transaction ext _ _ tx (fun _ _ => counts_of_eq rfl) fun _ _ => counts_of_eq rfl
  mint m := leaves_insertUnsaved _ m fun _ _ _ _ _ => counts_of_eq rfl
  burn b := leaves_insertUnsaved _ b fun _ _ _ _ _ => counts_of_eq rfl
  count _ hc := within_inc hc
  audited := Program.within_update fun _ => counts_of_eq rfl
  balances m := leaves_setBalances (P := fun s _ s' => Counts Counter.ofLedger s s')
    within_transaction _ m fun _ _ => counts_of_eq rfl

theorem counts_syncBlockWithConn (ext : Externals) (b : BlockData) :
    Program.Within (Counts Counter.ofLedger)
      (syncBlockWithConn ext b.block b.contents b.timestamp) :=
  within_transaction (ledgerParts_counts ext b).syncBlockStages

/-! ### Steps -/

/-- Whatever is counted, the row of counters is not lost. -/
def anyCounter : Counter → Bool := fun _ => true

theorem within_mono {p q : Counter → Bool} {α : Type} {x : Conn α} (h : Program.Within (Counts p) x)
    (hpq : ∀ c, q c = false → p c = false) : Program.Within (Counts q) x :=
  fun s => (h s).mono hpq

theorem within_any {p : Counter → Bool} {α : Type} {x : Conn α} (h : Program.Within (Counts p) x) :
    Program.Within (Counts anyCounter) x := within_mono h fun _ => nofun

theorem gnosisParts_counts (safe : AuditedSafeConfig) :
    GnosisParts (fun s (_ : List Counters) s' => Counts anyCounter s s') safe where
  count _ _ := within_inc rfl
  deposit d := counts_insertDeposit _ d
  withdrawal w := counts_insertWithdrawal _ w
  matchDeposit d := within_any (counts_matchDeposit d safe)
  matchWithdrawal w := within_any (counts_matchWithdrawal w safe)

theorem auditParts_counts (config : GnosisSafeConfig) :
    AuditParts (fun s (_ : List Counters) s' => Counts anyCounter s s') config where
  matchMint m := within_any (counts_matchMint m config)
  matchBurn b := within_any (counts_matchBurn b config)

theorem counts_processTransfer (safe : AuditedSafeConfig) (tx : EthereumTransaction)
    (t : EthereumTransfer) : Program.Within (Counts anyCounter) (safe.processTransfer tx t) :=
  (gnosisParts_counts safe).processTransfer tx t

theorem counts_processRawTransaction (safe : AuditedSafeConfig) (serde : Serde)
    (tx : RawGnosisTransaction) :
    Program.Within (Counts anyCounter) (safe.processRawTransaction serde tx) := by
  rw [processRawTransaction_eq]
  exact Program.within_expect _ (Program.within_savepoint ((gnosisParts_counts safe).recordAndProcess
    (leaves_insertTx serde tx fun _ _ => counts_of_eq rfl)))

theorem counts_syncAndAudit (ext : Externals) (config : GnosisSafeConfig) (b : BlockData) :
    Program.Within (Counts anyCounter) (syncAndAudit ext (some config) b) :=
  Program.within_savepoint (Program.within_bind (within_any (counts_syncBlockWithConn ext b))
    fun data => leaves_auditIfConfigured auditParts_counts data)

/-- The row of counters that the database starts with stays. -/
theorem run_counters {config : GnosisSafeConfig} (ext : Externals) (serde : Serde)
    (steps : List (Step config)) : (Step.run ext serde steps).counters.isSome = true := by
  have hstep (step : Step config) (s : Db) : Counts anyCounter s (step.exec ext serde s) := by
    cases step with
    | ledger b => exact counts_syncAndAudit ext config b s
    | gnosis safe _ tx => exact counts_processRawTransaction safe serde tx s
  have hrun : Counts anyCounter initialDb (Step.run ext serde steps) := by
    unfold Step.run
    generalize initialDb = s
    induction steps generalizing s with
    | nil => exact refl_of (Counts anyCounter) s
    | cons step steps ih => exact trans_of (Counts anyCounter) (hstep step s) (ih _)
  rw [hrun.isSome]
  rfl

end ReserveAuditor
