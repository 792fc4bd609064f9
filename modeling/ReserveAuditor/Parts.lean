import ReserveAuditor.Auditor
import ReserveAuditor.Lib.Trace

/-! What holds of the statements that the auditor is made of holds of what it makes of them. -/
namespace ReserveAuditor
open Txn Relational

variable {P : Db → List Counters → Db → Prop} {safe : AuditedSafeConfig} {ext : Externals}
  {b : BlockData} {config : GnosisSafeConfig}

/-! ### Statements -/

section statements
variable [IsTrace P]

/-- An insertion leaves what the new table does. -/
theorem leaves_insertInto {ρ : Type} [Record ρ] {get : Db → Table ρ} {set : Db → Table ρ → Db}
    {fk : Db → ρ → Bool} (r : ρ)
    (h : ∀ s n t, (get s).insert r = .ok (n,t) → fk s r = true → P s [] (set s t)) :
    Program.Leaves P (insertInto get set fk r) := by
  refine Program.leaves_tryUpdate fun s n s' hs => ?_
  split at hs
  · simp at hs
  · rename_i n' t hins
    split at hs
    · rename_i hfk
      obtain ⟨-,rfl⟩ := Prod.mk.inj (Except.ok.inj hs)
      exact h s n' t hins hfk
    · simp at hs

theorem leaves_insertUnsaved {ρ : Type} [Record ρ] (what : String) {get : Db → Table ρ}
    {set : Db → Table ρ → Db} {fk : Db → ρ → Bool} (r : ρ)
    (h : ∀ s n t, (get s).insert r = .ok (n,t) → fk s r = true → P s [] (set s t)) :
    Program.Leaves P (insertUnsaved what get set fk r) := by
  unfold insertUnsaved
  split
  · exact Program.leaves_fail _
  · exact Program.leaves_bind (leaves_insertInto r h) fun _ => Program.leaves_pure _

theorem leaves_insertTx (serde : Serde) (tx : RawGnosisTransaction)
    (h : ∀ s row, P s [] { s with gnosisSafeTxs := s.gnosisSafeTxs ++ [row] }) :
    Program.Leaves P (GnosisSafeTx.insert serde tx) := by
  refine Program.leaves_bind (Program.leaves_ofOutcome _) fun hash =>
    Program.leaves_tryUpdate fun s _ s' hs => ?_
  split at hs
  · simp at hs
  · obtain ⟨-,rfl⟩ := Prod.mk.inj (Except.ok.inj hs)
    exact h s _

-- Transactions leave what their bodies do.
variable (htransaction : ∀ {α : Type} {x : Conn α}, Program.Leaves P x →
  Program.Leaves P (transaction x))
include htransaction

theorem leaves_insertConfigTx (ext : Externals) (idx : UInt64) (ts : Option DateTime)
    (tx : CoreMintConfigTx)
    (hconfigTx : ∀ s t, P s [] { s with mintConfigTxs := t })
    (hconfig : ∀ s t, P s [] { s with mintConfigs := t }) :
    Program.Leaves P (MintConfigTx.insertFromCoreMintConfigTx ext idx ts tx) := by
  refine Program.leaves_bind (Program.leaves_ofOutcome _) fun core =>
    Program.leaves_bind (htransaction ?_) fun _ => Program.leaves_pure _
  refine Program.leaves_bind (leaves_insertInto _ fun s _ t _ _ => hconfigTx s t) fun id =>
    Program.leaves_bind (Program.leaves_forEach (fun config => ?_) _) fun _ => Program.leaves_pure _
  exact Program.leaves_bind (Program.leaves_bind (leaves_insertInto _ fun s _ t _ _ => hconfig s t)
    fun _ => Program.leaves_pure _) fun _ => Program.leaves_pure _

theorem leaves_setBalances (idx : UInt64) (m : BalanceMap)
    (h : ∀ s rows, P s [] { s with blockBalance := rows }) :
    Program.Leaves P (BlockBalance.setBalancesForBlock idx m) := by
  refine htransaction (Program.leaves_forEach (fun e =>
    Program.leaves_tryUpdate fun s _ s' hs => ?_) _)
  split at hs
  · simp at hs
  · split at hs
    · obtain ⟨-,rfl⟩ := Prod.mk.inj (Except.ok.inj hs)
      exact h s _
    · simp at hs

theorem leaves_tryMatch {β : Type} {objectId : Option ℕ} {precheck : Except Error Unit}
    {existing : ℕ → Db → Option String} {onExisting : Conn Unit} {find : Db → Option β}
    {check : β → Except Error Unit} {associate : ℕ → β → Conn Unit} {countError : Error → Counter}
    (hexisting : Program.Leaves P onExisting)
    (hassociate : ∀ id b, Program.Leaves P (associate id b))
    (hcount : ∀ e, Program.Leaves P (Counters.inc (countError e))) : Program.Leaves P
      (tryMatch objectId precheck existing onExisting find check associate countError) := by
  refine Program.leaves_bind (Program.leaves_attempt ?_) fun r => ?_
  · refine Program.leaves_bind (Program.leaves_ofOutcome _) fun id =>
      Program.leaves_bind (Program.leaves_ofOutcome _) fun _ =>
      htransaction (Program.leaves_bind (Program.leaves_query _) fun found => ?_)
    -- each branch of the search ends its own way
    cases found with
    | some message => exact Program.leaves_bind hexisting fun _ => Program.leaves_fail _
    | none =>
      exact Program.leaves_bind (Program.leaves_query _) fun o =>
        Program.leaves_bind (Program.leaves_ofOutcome _) fun b =>
        Program.leaves_bind (Program.leaves_ofOutcome _) fun _ =>
        Program.leaves_bind (hassociate id b) fun _ => Program.leaves_pure _
  · cases r with
    | ok b => exact Program.leaves_pure b
    | error e => exact Program.leaves_bind (hcount e) fun _ => Program.leaves_fail e

end statements

/-- The statements of a Gnosis transaction. -/
structure GnosisParts (P : Db → List Counters → Db → Prop) (safe : AuditedSafeConfig) : Prop where
  count : ∀ c : Counter, c.ofLedger = false → Program.Leaves P (Counters.inc c)
  deposit : ∀ d : GnosisSafeDeposit, Program.Leaves P d.insert
  withdrawal : ∀ w : GnosisSafeWithdrawal, Program.Leaves P w.insert
  matchDeposit : ∀ d, Program.Leaves P (AuditedMint.tryMatchDepositWithMint d safe)
  matchWithdrawal : ∀ w, Program.Leaves P (AuditedBurn.tryMatchWithdrawalWithBurn w safe)

/-- The statements of a sync of a block. -/
structure LedgerParts (P : Db → List Counters → Db → Prop) (ext : Externals) (b : BlockData) :
    Prop where
  configTx : ∀ tx, Program.Leaves P
    (MintConfigTx.insertFromCoreMintConfigTx ext b.block.index b.timestamp tx)
  mint : ∀ m : MintTx, Program.Leaves P m.insert
  burn : ∀ burn : BurnTxOut, Program.Leaves P burn.insert
  count : ∀ c : Counter, c.ofLedger = true → Program.Leaves P (Counters.inc c)
  audited : Program.Leaves P (BlockAuditData.new b.block.index).set
  balances : ∀ m, Program.Leaves P (BlockBalance.setBalancesForBlock b.block.index m)

/-- The statements of the audit of a block. -/
structure AuditParts (P : Db → List Counters → Db → Prop) (config : GnosisSafeConfig) : Prop where
  matchMint : ∀ m, Program.Leaves P (AuditedMint.tryMatchMintWithDeposit m config)
  matchBurn : ∀ burn, Program.Leaves P (AuditedBurn.tryMatchBurnWithWithdrawal burn config)

variable [IsTrace P]

/-! ### Gnosis transactions -/

/-- A Gnosis transaction by what it stores and what it counts as invalid. -/
structure StoreParts (P : Db → List Counters → Db → Prop) (safe : AuditedSafeConfig) : Prop where
  transfer : Program.Leaves P (Counters.inc .numInvalidEthereumTransactions)
  multiSig : Program.Leaves P (Counters.inc .numInvalidMultiSigTransactions)
  deposit : ∀ d, Program.Leaves P (safe.storeDeposit d)
  withdrawal : ∀ w, Program.Leaves P (safe.storeWithdrawal w)

section StoreParts
variable (h : StoreParts P safe)
include h

theorem StoreParts.processTransfer (tx : EthereumTransaction) (t : EthereumTransfer) :
    Program.Leaves P (safe.processTransfer tx t) := by
  rw [AuditedSafeConfig.processTransfer_eq]
  split
  · split
    · exact h.deposit _
    · exact Program.leaves_bind h.transfer fun _ => Program.leaves_fail _
    · exact Program.leaves_ofOutcome _
  · exact Program.leaves_pure ()

theorem StoreParts.processMultiSigTransaction (tx : MultiSigTransaction) :
    Program.Leaves P (safe.processMultiSigTransaction tx) := by
  rw [AuditedSafeConfig.processMultiSigTransaction_eq]
  split
  · split
    · exact h.withdrawal _
    · exact h.multiSig
    · exact Program.leaves_ofOutcome _
  · exact Program.leaves_pure ()

theorem StoreParts.processDecoded (tx : Transaction) :
    Program.Leaves P (safe.processDecoded tx) := by
  cases tx with
  | ethereum tx =>
    refine Program.leaves_bind (Program.leaves_attempt
      (Program.leaves_forEach (h.processTransfer tx) tx.transfers)) fun r => ?_
    split
    · exact Program.leaves_pure ()
    · exact Program.leaves_pure ()
    · exact Program.leaves_fail _
  | multiSig tx => exact h.processMultiSigTransaction tx
  | module v => exact Program.leaves_pure ()

end StoreParts

section GnosisParts
variable (h : GnosisParts P safe)
include h

theorem GnosisParts.stores : StoreParts P safe where
  transfer := h.count _ rfl
  multiSig := h.count _ rfl
  deposit d := Program.leaves_bind (h.deposit d) fun d =>
    Program.leaves_bind (Program.leaves_attempt (h.matchDeposit d)) fun _ => Program.leaves_pure ()
  withdrawal w := Program.leaves_bind (h.withdrawal w) fun w =>
    Program.leaves_bind (Program.leaves_attempt (h.matchWithdrawal w)) fun _ =>
    Program.leaves_pure ()

theorem GnosisParts.processTransfer (tx : EthereumTransaction) (t : EthereumTransfer) :
    Program.Leaves P (safe.processTransfer tx t) := h.stores.processTransfer tx t

end GnosisParts

/-- What the transaction around a raw Gnosis transaction runs. -/
def AuditedSafeConfig.recordAndProcess (safe : AuditedSafeConfig) (serde : Serde)
    (tx : RawGnosisTransaction) : Conn Unit := do
  let inserted ← Program.attempt (GnosisSafeTx.insert serde tx)
  match inserted with
  | .error (.alreadyExists _) => pure ()
  | .error err => Program.fail err
  | .ok _ => do
    let decoded ← Program.ofExcept ((tx.decode serde).mapError Error.gnosis)
    safe.processDecoded decoded

theorem processRawTransaction_eq (safe : AuditedSafeConfig) (serde : Serde)
    (tx : RawGnosisTransaction) : safe.processRawTransaction serde tx =
      (exclusiveTransaction (safe.recordAndProcess serde tx)).expect
        "failed processing transaction" := rfl

/-- The transaction panics before it is committed or rolled back. Its connection goes back to the
pool with the transaction open, and as long as it is kept there the database takes no other one. The
model rolls it back at once. -/
def AuditedSafeConfig.LeavesOpen (safe : AuditedSafeConfig) (serde : Serde)
    (tx : RawGnosisTransaction) (s : Db) : Prop := (safe.recordAndProcess serde tx).Panics s

theorem StoreParts.recordAndProcess (h : StoreParts P safe) {serde : Serde}
    {tx : RawGnosisTransaction} (hrecord : Program.Leaves P (GnosisSafeTx.insert serde tx)) :
    Program.Leaves P (safe.recordAndProcess serde tx) := by
  refine Program.leaves_bind (Program.leaves_attempt hrecord) fun r => ?_
  split
  · exact Program.leaves_pure ()
  · exact Program.leaves_fail _
  · exact Program.leaves_bind (Program.leaves_ofOutcome _) h.processDecoded

theorem GnosisParts.recordAndProcess (h : GnosisParts P safe) {serde : Serde}
    {tx : RawGnosisTransaction} (hrecord : Program.Leaves P (GnosisSafeTx.insert serde tx)) :
    Program.Leaves P (safe.recordAndProcess serde tx) := h.stores.recordAndProcess hrecord

/-! ### Blocks -/

/-- What the transaction around a sync of a block runs. -/
def syncBlockStages (ext : Externals) (b : BlockData) : Conn SyncBlockData := do
  let nextBlockIndex ← Program.query fun s => Counters.get s .numBlocksSynced
  Program.when (b.block.index.toNat ≠ nextBlockIndex)
    (Program.fail (.unexpectedBlockIndex b.block.index.toNat nextBlockIndex))
  Program.forEach b.contents.validatedMintConfigTxs fun tx => do
    let _ ← MintConfigTx.insertFromCoreMintConfigTx ext b.block.index b.timestamp tx
    pure ()
  let balanceMap ← Program.query (previousBalances b.block.index)
  let mints ← Program.accumEach (processMint ext b.block.index b.timestamp) balanceMap
    b.contents.mintTxs
  let burns ← Program.accumEach processBurn mints.1
    (burnTxOutsOf ext b.block.index b.timestamp b.contents.outputs)
  Counters.inc .numBlocksSynced
  (BlockAuditData.new b.block.index).set
  BlockBalance.setBalancesForBlock b.block.index burns.1
  pure ⟨BlockAuditData.new b.block.index,burns.1,mints.2,burns.2⟩

theorem syncBlockWithConn_eq (ext : Externals) (b : BlockData) :
    syncBlockWithConn ext b.block b.contents b.timestamp = transaction (syncBlockStages ext b) := rfl

section LedgerParts
variable (h : LedgerParts P ext b)
include h

theorem LedgerParts.processMint (m : BalanceMap) (tx : CoreMintTx) :
    Program.Leaves P (processMint ext b.block.index b.timestamp m tx) :=
  Program.leaves_bind (Program.leaves_query _) fun _ =>
    Program.leaves_bind (Program.leaves_ofOutcome _) fun _ =>
    Program.leaves_bind (Program.leaves_when (h.count _ rfl)) fun _ =>
    Program.leaves_bind (Program.leaves_bind (Program.leaves_ofOutcome _) h.mint) fun _ =>
    Program.leaves_pure _

theorem LedgerParts.processBurn (m : BalanceMap) (burn : BurnTxOut) :
    Program.Leaves P (processBurn m burn) :=
  Program.leaves_bind (Program.leaves_when (h.count _ rfl)) fun _ =>
    Program.leaves_bind (h.burn burn) fun _ => Program.leaves_pure _

theorem LedgerParts.syncBlockStages : Program.Leaves P (syncBlockStages ext b) :=
  Program.leaves_bind (Program.leaves_query _) fun _ =>
    Program.leaves_bind (Program.leaves_when (Program.leaves_fail _)) fun _ =>
    Program.leaves_bind (Program.leaves_forEach (fun tx =>
      Program.leaves_bind (h.configTx tx) fun _ => Program.leaves_pure _) _) fun _ =>
    Program.leaves_bind (Program.leaves_query _) fun m =>
    Program.leaves_bind (Program.leaves_accumEach h.processMint _ m) fun _ =>
    Program.leaves_bind (Program.leaves_accumEach h.processBurn _ _) fun _ =>
    Program.leaves_bind (h.count _ rfl) fun _ =>
    Program.leaves_bind h.audited fun _ =>
    Program.leaves_bind (h.balances _) fun _ => Program.leaves_pure _

end LedgerParts

theorem AuditParts.auditBlockData (h : AuditParts P config) (data : SyncBlockData) :
    Program.Leaves P (auditBlockData config data) :=
  Program.leaves_bind (Program.leaves_forEach (fun m =>
    Program.leaves_bind (Program.leaves_attempt (h.matchMint m)) fun _ =>
      Program.leaves_pure ()) _) fun _ =>
    Program.leaves_forEach (fun burn =>
      Program.leaves_bind (Program.leaves_attempt (h.matchBurn burn)) fun _ =>
        Program.leaves_pure ()) _

theorem leaves_auditIfConfigured {config : Option GnosisSafeConfig}
    (h : ∀ config, AuditParts P config) (data : SyncBlockData) :
    Program.Leaves P (auditIfConfigured config data) := by
  cases config with
  | none => exact Program.leaves_pure ()
  | some config => exact (h config).auditBlockData data

end ReserveAuditor
