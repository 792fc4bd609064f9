import ReserveAuditor.Models

/-! Matching mints with deposits and burns with withdrawals (`db/models/audited_mint.rs`,
`db/models/audited_burn.rs`). -/
namespace ReserveAuditor
open Txn Relational

/-- What the four matching functions share: `existing` finds a match the object already
has, `find` looks at one object of the other side, `check` compares the two. The outcome is
counted outside of the transaction, since errors roll it back. -/
def tryMatch {β : Type} (objectId : Option ℕ) (precheck : Except Error Unit)
    -- counted here only where the source does so, and rolled back with the failure
    (existing : ℕ → Db → Option String) (onExisting : Conn Unit) (find : Db → Option β)
    (check : β → Except Error Unit) (associate : ℕ → β → Conn Unit) (countError : Error → Counter) :
    Conn β := do
  -- the whole search is one transaction, and its failure is counted outside of it
  let result ← Program.attempt do
    let id ← Program.ofOutcome (.okOr .objectNotSaved objectId)
    Program.ofExcept precheck
    transaction do
      let existingMatch ← Program.query (existing id)
      match existingMatch with
      | some message => do
        onExisting
        Program.fail (.alreadyExists message)
      | none => do
        let found ← Program.query find
        let other ← Program.ofOutcome (.okOr .notFound found)
        Program.ofExcept (check other)
        associate id other
        pure other
  match result with
  | .ok other => pure other
  | .error err => do
    Counters.inc (countError err)
    Program.fail err

/-- `OFFSET` and `LIMIT`, cast to `i64`. SQLite takes a negative offset for 0, and a negative limit
for no limit. An `OFFSET` without a `LIMIT` is not in its grammar. -/
def page {α : Type} (offset limit : Option UInt64) (rows : List α) : Except Error (List α) :=
  match limit with
  | some l =>
    let rows := match offset with
      | some o => rows.drop o.toInt64.toInt.toNat
      | none => rows
    .ok (if l.toInt64 < 0 then rows else rows.take l.toInt64.toInt.toNat)
  | none =>
    match offset with
    | some _ => .error (.diesel (.databaseError .unknown "near \"OFFSET\": syntax error"))
    | none => .ok rows

namespace AuditedMint

/-- `audited_mints` joined with both sides. -/
def withMintAndDeposit (s : Db) : List (AuditedMint × MintTx × GnosisSafeDeposit) :=
  s.auditedMints.rows.filterMap fun a => do
    let mintTx ← s.mintTxs.find a.mintTxId
    let deposit ← s.gnosisSafeDeposits.find a.gnosisSafeDepositId
    pure (a,mintTx,deposit)

/-- Get paginated list of audited mints, in the order of their ids. -/
def listWithMintAndDeposit (offset limit : Option UInt64) (s : Db) :
    Except Error (List (AuditedMint × MintTx × GnosisSafeDeposit)) :=
  page offset limit (withMintAndDeposit s)

def associateDepositWithMint (gnosisSafeDepositId mintTxId : ℕ) : Conn Unit := do
  let _ ← insertInto Db.auditedMints (fun s t => { s with auditedMints := t })
    (fun s r => (s.mintTxs.find r.mintTxId).isSome &&
      (s.gnosisSafeDeposits.find r.gnosisSafeDepositId).isSome)
    ⟨none,mintTxId,gnosisSafeDepositId⟩
  pure ()

/-- Verify that the details of a mint tx match the details of a deposit. The token is
checked twice. -/
def verifyMintTxMatchesDeposit (mintTx : MintTx) (deposit : GnosisSafeDeposit)
    (config : AuditedSafeConfig) : Except Error Unit :=
  if (deposit.safeAddr == config.safeAddr) = false then
    .error (.other s!"Gnosis safe deposit addr {deposit.safeAddr} does not match audited safe addr {config.safeAddr}")
  else match config.getTokenByEthContractAddr deposit.tokenAddr with
  | none => .error (.ethereumTokenNotAudited deposit.tokenAddr deposit.safeAddr deposit.ethTxHash)
  | some auditedToken =>
    if auditedToken.tokenId ≠ mintTx.getTokenId then
      .error (.depositAndMintMismatch s!"MintTx token_id={mintTx.getTokenId} does not match audited token_id={auditedToken.tokenId} (nonce={deposit.expectedMcMintTxNonceHex})")
    else if mintTx.nonceHex ≠ deposit.expectedMcMintTxNonceHex then
      .error (.depositAndMintMismatch s!"MintTx nonce {mintTx.nonceHex} does not match expected nonce {deposit.expectedMcMintTxNonceHex}")
    else if mintTx.getAmount ≠ deposit.getAmount then
      .error (.depositAndMintMismatch s!"MintTx amount={mintTx.getAmount} does not match GnosisSafeDeposit amount={deposit.getAmount} (nonce={deposit.expectedMcMintTxNonceHex})")
    -- the source repeats the check of the token at the end
    else match config.getTokenByEthContractAddr deposit.tokenAddr with
    | none => .error (.ethereumTokenNotAudited deposit.tokenAddr deposit.safeAddr deposit.ethTxHash)
    | some auditedToken =>
      if auditedToken.tokenId ≠ mintTx.getTokenId then
        .error (.depositAndMintMismatch s!"MintTx token_id={mintTx.getTokenId} does not match audited token_id={auditedToken.tokenId} (nonce={deposit.expectedMcMintTxNonceHex})")
      else .ok ()

/-- Attempt to find a matching mint tx for a given deposit and record the match. -/
def tryMatchDepositWithMint (deposit : GnosisSafeDeposit) (config : AuditedSafeConfig) :
    Conn MintTx :=
  tryMatch deposit.id
    (if (deposit.safeAddr == config.safeAddr) = false then
      .error (.other s!"Gnosis safe deposit addr {deposit.safeAddr} does not match audited safe addr {config.safeAddr}")
    else .ok ())
    (fun id s => ((withMintAndDeposit s).find? (fun p => decide (p.1.gnosisSafeDepositId = id))).map
      fun p => s!"GnosisSafeDeposit eth_tx_hash={p.2.2.ethTxHash} already matched with mint_tx nonce={p.2.1.nonceHex}")
    (Counters.inc .numUnexpectedErrorsMatchingDepositsToMints)
    (MintTx.findUnauditedMintTxByNonce deposit.expectedMcMintTxNonceHex)
    (fun mintTx => verifyMintTxMatchesDeposit mintTx deposit config)
    (fun id mintTx => do
      let mintTxId ← Program.ofOutcome (.unwrap
        "got a MintTx without id but database auto-populates that field" mintTx.id)
      associateDepositWithMint id mintTxId)
    (fun
      | .depositAndMintMismatch _ => .numMismatchingMintsAndDeposits
      | .ethereumTokenNotAudited _ _ _ => .numUnknownEthereumTokenDeposits
      | _ => .numUnexpectedErrorsMatchingDepositsToMints)

/-- What a mint is checked against: the deposit, under the config of the deposit's safe. -/
def verifyDepositOfMint (mintTx : MintTx) (config : GnosisSafeConfig)
    (deposit : GnosisSafeDeposit) : Except Error Unit :=
  match config.getAuditedSafeConfigBySafeAddr deposit.safeAddr with
  | none => .error (.gnosisSafeNotAudited deposit.safeAddr)
  | some auditedSafeConfig => verifyMintTxMatchesDeposit mintTx deposit auditedSafeConfig

/-- Attempt to find a matching deposit for a given mint tx and record the match. -/
def tryMatchMintWithDeposit (mintTx : MintTx) (config : GnosisSafeConfig) :
    Conn GnosisSafeDeposit :=
  tryMatch mintTx.id (.ok ())
    (fun id s => ((withMintAndDeposit s).find? (fun p => decide (p.1.mintTxId = id))).map
      fun p => s!"MintTx nonce={p.2.1.nonceHex} already matched with GnosisSafeDeposit eth_tx_hash={p.2.2.ethTxHash}")
    (pure ())
    (GnosisSafeDeposit.findUnauditedDepositByNonce mintTx.nonceHex)
    (verifyDepositOfMint mintTx config)
    (fun id deposit => do
      let depositId ← Program.ofOutcome (.unwrap
        "got a GnosisSafeDeposit without id but database auto-populates that field" deposit.id)
      associateDepositWithMint depositId id)
    (fun
      | .gnosisSafeNotAudited _ => .numMintsToUnknownSafe
      | .depositAndMintMismatch _ => .numMismatchingMintsAndDeposits
      | .ethereumTokenNotAudited _ _ _ => .numUnknownEthereumTokenDeposits
      | _ => .numUnexpectedErrorsMatchingMintsToDeposits)

end AuditedMint

namespace AuditedBurn

/-- `audited_burns` joined with both sides. -/
def withBurnAndWithdrawal (s : Db) : List (AuditedBurn × BurnTxOut × GnosisSafeWithdrawal) :=
  s.auditedBurns.rows.filterMap fun a => do
    let burnTxOut ← s.burnTxOuts.find a.burnTxOutId
    let withdrawal ← s.gnosisSafeWithdrawals.find a.gnosisSafeWithdrawalId
    pure (a,burnTxOut,withdrawal)

/-- Get paginated list of audited burns, in the order of their ids. -/
def listWithBurnAndWithdrawal (offset limit : Option UInt64) (s : Db) :
    Except Error (List (AuditedBurn × BurnTxOut × GnosisSafeWithdrawal)) :=
  page offset limit (withBurnAndWithdrawal s)

def associateWithdrawalWithBurn (gnosisSafeWithdrawalId burnTxOutId : ℕ) : Conn Unit := do
  let _ ← insertInto Db.auditedBurns (fun s t => { s with auditedBurns := t })
    (fun s r => (s.burnTxOuts.find r.burnTxOutId).isSome &&
      (s.gnosisSafeWithdrawals.find r.gnosisSafeWithdrawalId).isSome)
    ⟨none,burnTxOutId,gnosisSafeWithdrawalId⟩
  pure ()

/-- Verify that the details of a burn match the details of a withdrawal. -/
def verifyBurnTxOutMatchesWithdrawal (burnTxOut : BurnTxOut) (withdrawal : GnosisSafeWithdrawal)
    (config : AuditedSafeConfig) : Except Error Unit :=
  if (withdrawal.safeAddr == config.safeAddr) = false then
    .error (.other s!"Gnosis safe withdrawal addr {withdrawal.safeAddr} does not match audited safe addr {config.safeAddr}")
  else match config.getTokenByEthContractAddr withdrawal.tokenAddr with
  | none =>
    .error (.ethereumTokenNotAudited withdrawal.tokenAddr withdrawal.safeAddr withdrawal.ethTxHash)
  | some auditedToken =>
    if auditedToken.tokenId ≠ burnTxOut.getTokenId then
      .error (.withdrawalAndBurnMismatch s!"BurnTxOut token_id={burnTxOut.getTokenId} does not match audited token_id={auditedToken.tokenId} (pubkey={withdrawal.mcTxOutPublicKeyHex})")
    else if burnTxOut.publicKeyHex ≠ withdrawal.mcTxOutPublicKeyHex then
      .error (.withdrawalAndBurnMismatch s!"BurnTxOut pubkey {burnTxOut.publicKeyHex} does not match expected pubkey {withdrawal.mcTxOutPublicKeyHex}")
    else if burnTxOut.getAmount ≠ withdrawal.getAmount then
      .error (.withdrawalAndBurnMismatch s!"BurnTxOut amount={burnTxOut.getAmount} does not match GnosisSafewithdrawal amount={withdrawal.getAmount} (pubkey={withdrawal.mcTxOutPublicKeyHex})")
    else .ok ()

/-- Attempt to find a matching burn for a given withdrawal and record the match. -/
def tryMatchWithdrawalWithBurn (withdrawal : GnosisSafeWithdrawal) (config : AuditedSafeConfig) :
    Conn BurnTxOut :=
  tryMatch withdrawal.id
    (if (withdrawal.safeAddr == config.safeAddr) = false then
      .error (.other s!"Gnosis safe withdrawal addr {withdrawal.safeAddr} does not match audited safe addr {config.safeAddr}")
    else .ok ())
    (fun id s =>
      ((withBurnAndWithdrawal s).find? (fun p => decide (p.1.gnosisSafeWithdrawalId = id))).map
        fun p => s!"GnosisSafeWithdrawal eth_tx_hash={p.2.2.ethTxHash} already matched with BurnTxOut pub_key={p.2.1.publicKeyHex}")
    (pure ())
    (BurnTxOut.findUnauditedBurnTxOutByPublicKey withdrawal.mcTxOutPublicKeyHex)
    (fun burnTxOut => verifyBurnTxOutMatchesWithdrawal burnTxOut withdrawal config)
    (fun id burnTxOut => do
      let burnTxOutId ← Program.ofOutcome (.unwrap
        "got a BurnTxOut without id but database auto-populates that field" burnTxOut.id)
      associateWithdrawalWithBurn id burnTxOutId)
    (fun
      | .withdrawalAndBurnMismatch _ => .numMismatchingBurnsAndWithdrawals
      | .ethereumTokenNotAudited _ _ _ => .numUnknownEthereumTokenWithdrawals
      | _ => .numUnexpectedErrorsMatchingWithdrawalsToBurns)

/-- What a burn is checked against: the withdrawal, under the config of the withdrawal's
safe. -/
def verifyWithdrawalOfBurn (burnTxOut : BurnTxOut) (config : GnosisSafeConfig)
    (withdrawal : GnosisSafeWithdrawal) : Except Error Unit :=
  match config.getAuditedSafeConfigBySafeAddr withdrawal.safeAddr with
  | none => .error (.gnosisSafeNotAudited withdrawal.safeAddr)
  | some auditedSafeConfig => verifyBurnTxOutMatchesWithdrawal burnTxOut withdrawal auditedSafeConfig

/-- Attempt to find a matching withdrawal for a given burn and record the match. -/
def tryMatchBurnWithWithdrawal (burnTxOut : BurnTxOut) (config : GnosisSafeConfig) :
    Conn GnosisSafeWithdrawal :=
  tryMatch burnTxOut.id (.ok ())
    (fun id s => ((withBurnAndWithdrawal s).find? (fun p => decide (p.1.burnTxOutId = id))).map
      fun p => s!"BurnTxOut pub_key={p.2.1.publicKeyHex} already matched with GnosisSafeDeposit eth_tx_hash={p.2.2.ethTxHash}")
    (pure ())
    (GnosisSafeWithdrawal.findUnauditedWithdrawalByPublicKey burnTxOut.publicKeyHex)
    (verifyWithdrawalOfBurn burnTxOut config)
    (fun id withdrawal => do
      let withdrawalId ← Program.ofOutcome (.unwrap
        "got a GnosisSafeWithdrawal without id but database auto-populates that field" withdrawal.id)
      associateWithdrawalWithBurn withdrawalId id)
    (fun
      | .gnosisSafeNotAudited _ => .numBurnsFromUnknownSafe
      | .withdrawalAndBurnMismatch _ => .numMismatchingBurnsAndWithdrawals
      | .ethereumTokenNotAudited _ _ _ => .numUnknownEthereumTokenWithdrawals
      | _ => .numUnexpectedErrorsMatchingBurnsToWithdrawals)

end AuditedBurn
end ReserveAuditor
