import ReserveAuditor.Matching

/-! Syncing transactions from the Gnosis API into the database (`gnosis/sync.rs`). -/
namespace ReserveAuditor
open Txn

namespace AuditedSafeConfig

/-! ### Deposits -/

/-- The deposit that a transfer into the safe stands for. -/
def depositOfTransfer (safe : AuditedSafeConfig) (tx : EthereumTransaction)
    (transfer : EthereumTransfer) : Outcome GnosisError GnosisSafeDeposit := do
  let tokenAddr ← Outcome.okOr (.apiResultParse "Transfer token address cannot be empty")
    transfer.tokenAddr
  let tokenConfig ← Outcome.okOr (.unknownToken "Unknown token transfer")
    (safe.tokens.find? (fun token => token.ethTokenContractAddrs.contains tokenAddr))
  let value ← Outcome.unwrap "called `Option::unwrap()` on a `None` value" transfer.value
  let truncatedTransactionValue ← truncateValue value tokenConfig.decimals safe.tokenDecimalsMax
  pure (GnosisSafeDeposit.new none transfer.txHash tx.executionDate value tx.ethBlockNumber
    transfer.toAddr tokenAddr transfer.fromAddr truncatedTransactionValue)

/-- Process one transfer of an Ethereum transaction. -/
def processTransfer (safe : AuditedSafeConfig) (tx : EthereumTransaction)
    (transfer : EthereumTransfer) : Conn Unit :=
  if transfer.toAddr == safe.safeAddr then do
    let result ← Program.attempt
      (Program.ofOutcome ((safe.depositOfTransfer tx transfer).mapError Error.gnosis))
    match result with
    | .error err => do
      Counters.inc .numInvalidEthereumTransactions
      Program.fail err
    | .ok deposit => do
      let deposit ← deposit.insert
      -- whether or not there is a match is only logged
      let _ ← Program.attempt (AuditedMint.tryMatchDepositWithMint deposit safe)
      pure ()
  else pure ()

/-- Process an Ethereum transaction. -/
def processEthTransaction (safe : AuditedSafeConfig) (tx : EthereumTransaction) : Conn Unit :=
  Program.forEach tx.transfers (safe.processTransfer tx)

/-! ### Withdrawals -/

/-- The 32 bytes at the end of the call data of the auxiliary contract, which starts with
the signature of the function. -/
def txOutPubKeyOfAuxData (auditedToken : AuditedToken) (data : String) :
    Outcome GnosisError Bytes := do
  let digits ← Outcome.okOr
    (.apiResultParse s!"aux contract data doesn't start with 0x: got {data}") (stripHexPrefix data)
  -- the reason that the decoder gives is left out
  let auxDataBytes ← Outcome.okOr
    (.apiResultParse s!"aux contract data {data} cannot be hex-decoded") (Hex.decode digits)
  Outcome.ensure (auditedToken.auxBurnFunctionSig.toList.isPrefixOf auxDataBytes = true)
    (.apiResultParse s!"aux contract data {data} does not start with the expected function signature ({Hex.encode auditedToken.auxBurnFunctionSig.toList})")
  let minLength := auditedToken.auxBurnFunctionSig.toList.length+32
  Outcome.ensure (minLength ≤ auxDataBytes.length)
    (.apiResultParse s!"aux contract data {data} does not contain enough bytes. got {data.length}, expected at least {minLength}")
  pure (auxDataBytes.drop (auxDataBytes.length-32))

/-- See if this is a multi-sig withdrawal that uses the auxiliary contract for recording the
tx out public key, and if so parse it into a withdrawal. -/
def parseWithdrawalWithPubKeyMultiSigTx (safe : AuditedSafeConfig)
    (multiSigTx : MultiSigTransaction) : Outcome GnosisError GnosisSafeWithdrawal := do
  let data ← Outcome.okOr (.apiResultParse "data_decoded is empty") multiSigTx.dataDecoded
  Outcome.ensure (data.method = "multiSend")
    (.apiResultParse s!"multi-sig tx method mismatch: got {data.method}, expected multiSend")
  Outcome.ensure (data.parameters.length = 1)
    (.apiResultParse s!"invalid number of parameters: got {data.parameters.length}, expected 1")
  let parameter ← Outcome.unwrap "index out of bounds" data.parameters[0]?
  let valueDecoded ← Outcome.okOr
    (.apiResultParse "decoded data parameter is missing value_decoded") parameter.valueDecoded
  Outcome.ensure (valueDecoded.length = 2)
    (.apiResultParse s!"Invalid number of values in multiSend transfer: got {valueDecoded.length}, expected 2")
  let transferData ← Outcome.unwrap "index out of bounds" valueDecoded[0]?
  let auditedToken ← Outcome.okOr
    (.apiResultParse s!"Encountered multiSend transaction to an unknown token: {transferData.toAddr}")
    (safe.getTokenByEthContractAddr transferData.toAddr)
  let transferDataDecoded ← Outcome.okOr
    (.apiResultParse "multiSend transfer first value has no decoded data") transferData.dataDecoded
  Outcome.ensure (transferDataDecoded.method = "transfer")
    (.apiResultParse s!"Invalid first value method: got {transferDataDecoded.method}, expected transfer")
  Outcome.ensure (transferDataDecoded.parameters.length = 2)
    (.apiResultParse s!"Invalid number of values in multiSend transfer data parameters: got {valueDecoded.length}, expected 2")
  -- An error for a number of transfers other than 1 is built here but never returned.
  let tokenTransfer ← Outcome.unwrap "index out of bounds" multiSigTx.transferData[0]?
  let ethTxValue ← Outcome.unwrap "called `Option::unwrap()` on a `None` value" tokenTransfer.value
  let auxContractValue ← Outcome.unwrap "index out of bounds" valueDecoded[1]?
  Outcome.ensure ((auxContractValue.toAddr == auditedToken.auxBurnContractAddr) = true)
    (.apiResultParse s!"aux contract destination mismatch: got {auxContractValue.toAddr}, expected {auditedToken.auxBurnContractAddr}")
  let txOutPubKey ← txOutPubKeyOfAuxData auditedToken auxContractValue.data
  let tokenConfig ← Outcome.okOr
    (.invalidAddress s!"No matching token in config for address: {transferData.toAddr}")
    (safe.tokens.find? (fun token => token.ethTokenContractAddrs.contains transferData.toAddr))
  let valueParameter ← Outcome.unwrap "index out of bounds" transferDataDecoded.parameters[1]?
  let value ← Outcome.unwrap "called `Result::unwrap()` on an `Err` value"
    (parseU128 valueParameter.value)
  let truncatedTransactionValue ← truncateValue value tokenConfig.decimals safe.tokenDecimalsMax
  pure (GnosisSafeWithdrawal.new none multiSigTx.txHash multiSigTx.executionDate ethTxValue
    multiSigTx.ethBlockNumber multiSigTx.safe transferData.toAddr tokenTransfer.toAddr
    truncatedTransactionValue (Hex.encode txOutPubKey))

/-- Process a multi-sig transaction. -/
def processMultiSigTransaction (safe : AuditedSafeConfig) (multiSigTx : MultiSigTransaction) :
    Conn Unit :=
  if multiSigTx.safe == safe.safeAddr then do
    let result ← Program.attempt (Program.ofOutcome
      ((safe.parseWithdrawalWithPubKeyMultiSigTx multiSigTx).mapError Error.gnosis))
    match result with
    | .ok withdrawal => do
      let withdrawal ← withdrawal.insert
      -- whether or not there is a match is only logged
      let _ ← Program.attempt (AuditedBurn.tryMatchWithdrawalWithBurn withdrawal safe)
      pure ()
    | .error _ => Counters.inc .numInvalidMultiSigTransactions
  else pure ()

/-! ### Raw transactions -/

/-- Process a transaction whose hash was just recorded. Transfers of unknown tokens are
ignored, and what the transaction did before one stays. -/
def processDecoded (safe : AuditedSafeConfig) : Transaction → Conn Unit
  | .ethereum ethTx => do
    let result ← Program.attempt (safe.processEthTransaction ethTx)
    match result with
    | .ok _ => pure ()
    | .error (.gnosis (.unknownToken _)) => pure ()
    | .error err => Program.fail err
  | .multiSig multiSigTx => safe.processMultiSigTransaction multiSigTx
  | .module _ => pure ()

/-- What `process_transactions` does with one transaction. -/
def processRawTransaction (safe : AuditedSafeConfig) (serde : Serde) (tx : RawGnosisTransaction) :
    Conn Unit :=
  Program.expect "failed processing transaction" (exclusiveTransaction do
    let inserted ← Program.attempt (GnosisSafeTx.insert serde tx)
    match inserted with
    | .error (.alreadyExists _) => pure ()
    | .error err => Program.fail err
    | .ok _ => do
      let decoded ← Program.ofExcept ((tx.decode serde).mapError Error.gnosis)
      safe.processDecoded decoded)

/-- Process transactions and insert them to the database. -/
def processTransactions (safe : AuditedSafeConfig) (serde : Serde)
    (transactions : List RawGnosisTransaction) : Conn Unit :=
  Program.forEach transactions (safe.processRawTransaction serde)

/-! ### A transfer or a transaction by what was read from it -/

/-- The part of `processTransfer` that stores a deposit and looks for its mint. -/
def storeDeposit (safe : AuditedSafeConfig) (d₀ : GnosisSafeDeposit) : Conn Unit := do
  let deposit ← d₀.insert
  let _ ← Program.attempt (AuditedMint.tryMatchDepositWithMint deposit safe)
  pure ()

/-- The part of `processMultiSigTransaction` that stores a withdrawal and looks for its burn. -/
def storeWithdrawal (safe : AuditedSafeConfig) (w₀ : GnosisSafeWithdrawal) : Conn Unit := do
  let withdrawal ← w₀.insert
  let _ ← Program.attempt (AuditedBurn.tryMatchWithdrawalWithBurn withdrawal safe)
  pure ()

theorem processTransfer_eq (safe : AuditedSafeConfig) (tx : EthereumTransaction)
    (transfer : EthereumTransfer) : safe.processTransfer tx transfer =
      if transfer.toAddr == safe.safeAddr then
        match safe.depositOfTransfer tx transfer with
        | .ok deposit => safe.storeDeposit deposit
        | .err err => do
          Counters.inc .numInvalidEthereumTransactions
          Program.fail (.gnosis err)
        | .panic m => Program.ofOutcome (.panic m)
      else pure () := by
  rw [processTransfer, Program.attempt_ofOutcome_bind]
  cases safe.depositOfTransfer tx transfer <;> rfl

theorem processMultiSigTransaction_eq (safe : AuditedSafeConfig) (tx : MultiSigTransaction) :
    safe.processMultiSigTransaction tx =
      if tx.safe == safe.safeAddr then
        match safe.parseWithdrawalWithPubKeyMultiSigTx tx with
        | .ok withdrawal => safe.storeWithdrawal withdrawal
        | .err _ => Counters.inc .numInvalidMultiSigTransactions
        | .panic m => Program.ofOutcome (.panic m)
      else pure () := by
  rw [processMultiSigTransaction, Program.attempt_ofOutcome_bind]
  cases safe.parseWithdrawalWithPubKeyMultiSigTx tx <;> rfl

variable {safe : AuditedSafeConfig} {s s' : Db}

/-- A transfer is processed when it does not go to the safe, or when its deposit is stored. -/
theorem returns_processTransfer_iff {tx : EthereumTransaction} {t : EthereumTransfer} {u : Unit} :
    (safe.processTransfer tx t).Returns s u s' ↔
      ((t.toAddr == safe.safeAddr) = false ∧ s' = s) ∨ ((t.toAddr == safe.safeAddr) = true ∧
        ∃ d₀, safe.depositOfTransfer tx t = .ok d₀ ∧ (safe.storeDeposit d₀).Returns s u s') := by
  rw [processTransfer_eq]
  cases t.toAddr == safe.safeAddr with
  | false => simp
  | true => cases safe.depositOfTransfer tx t <;> simp

/-- A transfer into the safe fails when it is no deposit, which is counted, or when its deposit
is refused. -/
theorem fails_processTransfer_iff {tx : EthereumTransaction} {t : EthereumTransfer} {e : Error} :
    (safe.processTransfer tx t).Fails s e s' ↔ (t.toAddr == safe.safeAddr) = true ∧
      ((∃ err, safe.depositOfTransfer tx t = .err err ∧ (do
        Counters.inc .numInvalidEthereumTransactions
        Program.fail (.gnosis err) : Conn Unit).Fails s e s') ∨
      ∃ d₀, safe.depositOfTransfer tx t = .ok d₀ ∧ (safe.storeDeposit d₀).Fails s e s') := by
  rw [processTransfer_eq]
  cases t.toAddr == safe.safeAddr with
  | false => simp
  | true => cases safe.depositOfTransfer tx t <;> simp

/-- A multi-sig transaction is processed when it is not of the safe, when it is no withdrawal,
which is counted, or when its withdrawal is stored. -/
theorem returns_processMultiSigTransaction_iff {tx : MultiSigTransaction} {u : Unit} :
    (safe.processMultiSigTransaction tx).Returns s u s' ↔
      ((tx.safe == safe.safeAddr) = false ∧ s' = s) ∨ ((tx.safe == safe.safeAddr) = true ∧
        ((∃ err, safe.parseWithdrawalWithPubKeyMultiSigTx tx = .err err ∧
          (Counters.inc .numInvalidMultiSigTransactions).Returns s u s') ∨
        ∃ w₀, safe.parseWithdrawalWithPubKeyMultiSigTx tx = .ok w₀ ∧
          (safe.storeWithdrawal w₀).Returns s u s')) := by
  rw [processMultiSigTransaction_eq]
  cases tx.safe == safe.safeAddr with
  | false => simp
  | true => cases safe.parseWithdrawalWithPubKeyMultiSigTx tx <;> simp

end AuditedSafeConfig
end ReserveAuditor
