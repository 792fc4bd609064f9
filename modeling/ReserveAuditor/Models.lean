import ReserveAuditor.Schema
import ReserveAuditor.ApiData
import Mathlib.Data.List.AList
import Mathlib.Data.UInt

/-! What the models of the tables read from and write to the database (`db/models/*.rs`).
A function that only reads is a function of the database. Queries without an `ORDER BY`
return rows in insertion order. -/
namespace ReserveAuditor
open Txn Relational

/-- A query on a table with a primary key, with what the insertions share: the object must
not have an id yet, and gets the one the row is stored under. -/
def insertUnsaved {ρ : Type} [Record ρ] (what : String) (get : Db → Table ρ)
    (set : Db → Table ρ → Db) (foreignKeys : Db → ρ → Bool) (r : ρ) : Conn ρ :=
  match Record.id r with
  | some id => Program.fail (.alreadyExists s!"{what} already has an id ({id})")
  | none => do
    let id ← insertInto get set foreignKeys r
    pure (Record.withId r id)

theorem returns_insertUnsaved {ρ : Type} [Record ρ] (what : String) (get : Db → Table ρ)
    (set : Db → Table ρ → Db) (fk : Db → ρ → Bool) (r r' : ρ) (s s' : Db) :
    (insertUnsaved what get set fk r).Returns s r' s' ↔ Record.id r = none ∧ ∃ n t,
      (get s).insert r = .ok (n,t) ∧ fk s r = true ∧ s' = set s t ∧ r' = Record.withId r n := by
  unfold insertUnsaved
  cases Record.id r with
  | some id => simp
  | none =>
    simp only [Program.returns_bind, returns_insertInto, Program.returns_pure, true_and]
    constructor
    · rintro ⟨n,_,⟨t,ht,hf,rfl⟩,rfl,rfl⟩
      exact ⟨n,t,ht,hf,rfl,rfl⟩
    · rintro ⟨n,t,ht,hf,rfl,rfl⟩
      exact ⟨n,_,⟨t,ht,hf,rfl⟩,rfl,rfl⟩

theorem fails_insertUnsaved {ρ : Type} [Record ρ] {what : String} {get : Db → Table ρ}
    {set : Db → Table ρ → Db} {fk : Db → ρ → Bool} {r : ρ} {s s' : Db} {e : Error}
    (h : (insertUnsaved what get set fk r).Fails s e s') : s' = s ∧ ∀ g, e ≠ .gnosis g := by
  unfold insertUnsaved at h
  cases hr : Record.id r with
  | some id =>
    simp only [hr, Program.fails_fail] at h
    exact ⟨h.2,fun g => by simp [h.1]⟩
  | none =>
    simp only [hr, Program.fails_bind, Program.fails_pure, and_false, exists_false, or_false] at h
    obtain ⟨hs,err,rfl⟩ := fails_insertInto h
    exact ⟨hs,Error.ofDiesel_ne_gnosis err⟩

/-! ### `block_audit_data` -/

namespace BlockAuditData

def new (blockIndex : UInt64) : BlockAuditData := ⟨blockIndex.toInt64⟩

/-- Store block audit data (`REPLACE INTO`). -/
def set (r : BlockAuditData) : Conn Unit := Program.update fun s =>
  { s with blockAuditData :=
      s.blockAuditData.filter (fun x => decide (x.blockIndex ≠ r.blockIndex)) ++ [r] }

/-- Get the last synced block index. -/
def lastSyncedBlockIndex (s : Db) : Option UInt64 :=
  (s.blockAuditData.map blockIndex).max?.map Int64.toUInt64

end BlockAuditData

/-! ### `block_balance` -/

/-- `HashMap<TokenId, u64>`; its iteration order is that of the entries. -/
abbrev BalanceMap := AList (fun _ : TokenId => UInt64)

namespace BlockBalance

/-- Get a map of token id to balance for a given block. -/
def getBalancesForBlock (s : Db) (blockIndex : UInt64) : BalanceMap :=
  (s.blockBalance.filter (fun r => decide (r.blockIndex = blockIndex.toInt64))).foldl
    (fun m r => m.insert r.tokenId.toUInt64 r.balance.toUInt64) ∅

def insert (r : BlockBalance) : Conn Unit := Program.tryUpdate fun s =>
  if s.blockBalance.any (fun x => decide (x.blockIndex = r.blockIndex ∧ x.tokenId = r.tokenId)) then
    .error (.ofDiesel (.databaseError .uniqueViolation
      "UNIQUE constraint failed: block_balance.block_index, block_balance.token_id"))
  else if s.blockAuditData.any (fun x => decide (x.blockIndex = r.blockIndex)) then
    .ok ((),{ s with blockBalance := s.blockBalance ++ [r] })
  else .error (.ofDiesel (.databaseError .foreignKeyViolation "FOREIGN KEY constraint failed"))

def new (blockIndex : UInt64) (tokenId : TokenId) (balance : UInt64) : BlockBalance :=
  ⟨blockIndex.toInt64,tokenId.toInt64,balance.toInt64⟩

/-- Store a map of token id to balance for a given block. -/
def setBalancesForBlock (blockIndex : UInt64) (balances : BalanceMap) : Conn Unit :=
  transaction (Program.forEach balances.entries fun e => insert (new blockIndex e.1 e.2))

end BlockBalance

/-! ### `mint_configs` -/

namespace MintConfig

/-- Get the original mint config. -/
def decode (ext : Externals) (r : MintConfig) : Except Error CoreMintConfig :=
  (ext.decodeMintConfig r.protobuf).mapError .decode

def fromCoreMintConfig (ext : Externals) (mintConfigTxId : ℕ) (config : CoreMintConfig) :
    MintConfig :=
  ⟨none,mintConfigTxId,config.mintLimit.toInt64,ext.encodeMintConfig config⟩

def insert (r : MintConfig) : Conn MintConfig := do
  let id ← insertInto Db.mintConfigs (fun s t => { s with mintConfigs := t })
    (fun s r => (s.mintConfigTxs.find r.mintConfigTxId).isSome) r
  pure (Record.withId r id)

def insertFromCoreMintConfig (ext : Externals) (mintConfigTxId : ℕ) (config : CoreMintConfig) :
    Conn MintConfig :=
  (fromCoreMintConfig ext mintConfigTxId config).insert

/-- Get all mint configs associated with a given mint config tx id. -/
def getByMintConfigTxId (mintConfigTxId : ℕ) (s : Db) : List MintConfig :=
  s.mintConfigs.rows.filter (fun c => decide (c.mintConfigTxId = mintConfigTxId))

end MintConfig

/-- A mint joined with its config and with the transaction of that config. -/
def mintWithConfig (s : Db) (m : MintTx) : Option (MintTx × MintConfig × MintConfigTx) := do
  let c ← s.mintConfigs.find (← m.mintConfigId)
  let t ← s.mintConfigTxs.find c.mintConfigTxId
  pure (m,c,t)

/-- `mint_txs` joined with `mint_configs` and `mint_config_txs`. -/
def mintsWithConfig (s : Db) : List (MintTx × MintConfig × MintConfigTx) :=
  s.mintTxs.rows.filterMap (mintWithConfig s)

/-- The amounts minted after their config was set and before the given block, by the
configs that `owner` selects. They are summed as `u64`, which wraps. -/
def totalMintedBeforeBlock (owner : MintConfig → MintConfigTx → Bool) (blockIndex : UInt64)
    (s : Db) : UInt64 :=
  (((mintsWithConfig s).filter fun p => decide (p.2.2.blockIndex < p.1.blockIndex) &&
    owner p.2.1 p.2.2 && decide (p.1.blockIndex < blockIndex.toInt64)).map
      fun p => p.1.getAmount).sum

/-- Get the total amount minted by this configuration before the given block index. -/
def MintConfig.getTotalMintedBeforeBlock (r : MintConfig) : UInt64 → Db → UInt64 :=
  totalMintedBeforeBlock fun c _ => decide (c.id = some (r.id.getD 0))

/-! ### `mint_config_txs` -/

namespace MintConfigTx

/-- Get the original mint config tx. -/
def decode (ext : Externals) (r : MintConfigTx) : Except Error CoreMintConfigTx :=
  (ext.decodeMintConfigTx r.protobuf).mapError .decode

def fromCoreMintConfigTx (ext : Externals) (blockIndex : UInt64) (blockTimestamp : Option DateTime)
    (tx : CoreMintConfigTx) : MintConfigTx where
  id := none
  blockIndex := blockIndex.toInt64
  blockTimestamp := blockTimestamp
  tokenId := tx.txPrefix.tokenId.toInt64
  nonceHex := Hex.encode tx.txPrefix.nonce
  totalMintLimit := tx.txPrefix.totalMintLimit.toInt64
  tombstoneBlock := tx.txPrefix.tombstoneBlock.toInt64
  protobuf := ext.encodeMintConfigTx tx

/-- Insert a new mint config tx and its configs. -/
def insert (ext : Externals) (r : MintConfigTx) : Conn MintConfigTx := do
  let core ← Program.ofExcept (r.decode ext)
  let id ← transaction do
    let id ← insertInto Db.mintConfigTxs (fun s t => { s with mintConfigTxs := t })
      (fun _ _ => true) r
    Program.forEach core.txPrefix.configs fun config => do
      let _ ← MintConfig.insertFromCoreMintConfig ext id config
      pure ()
    pure id
  pure { r with id := some id }

def insertFromCoreMintConfigTx (ext : Externals) (blockIndex : UInt64)
    (blockTimestamp : Option DateTime) (tx : CoreMintConfigTx) : Conn MintConfigTx :=
  (fromCoreMintConfigTx ext blockIndex blockTimestamp tx).insert ext

/-- Get the most recent mint config tx for a token that was active before a given block. -/
def mostRecentForToken (blockIndex : UInt64) (tokenId : TokenId) (s : Db) : Option MintConfigTx :=
  maxBy (fun t => t.blockIndex.toInt) (s.mintConfigTxs.rows.filter fun t =>
    decide (t.tokenId = tokenId.toInt64) && decide (t.blockIndex < blockIndex.toInt64))

/-- Get the total amount minted by all configurations of this transaction before the given
block index. -/
def getTotalMintedBeforeBlock (r : MintConfigTx) : UInt64 → Db → UInt64 :=
  totalMintedBeforeBlock fun _ t => decide (t.id = some (r.id.getD 0))

end MintConfigTx

/-! ### `mint_txs` -/

namespace MintTx

/-- Get the original mint tx. -/
def decode (ext : Externals) (r : MintTx) : Except Error CoreMintTx :=
  (ext.decodeMintTx r.protobuf).mapError .decode

def fromCoreMintTx (ext : Externals) (blockIndex : UInt64) (blockTimestamp : Option DateTime)
    (mintConfigId : Option ℕ) (tx : CoreMintTx) : Except Error MintTx := do
  let recipientB58Addr ← (ext.b58Encode tx.txPrefix.spendPublicKey
    tx.txPrefix.viewPublicKey).mapError .apiDisplay
  pure {
    id := none
    blockIndex := blockIndex.toInt64
    blockTimestamp := blockTimestamp
    tokenId := tx.txPrefix.tokenId.toInt64
    amount := tx.txPrefix.amount.toInt64
    nonceHex := Hex.encode tx.txPrefix.nonce
    recipientB58Addr := recipientB58Addr
    tombstoneBlock := tx.txPrefix.tombstoneBlock.toInt64
    protobuf := ext.encodeMintTx tx
    mintConfigId := mintConfigId }

/-- Insert a new mint tx into the database. -/
def insert : MintTx → Conn MintTx :=
  insertUnsaved "MintTx" Db.mintTxs (fun s t => { s with mintTxs := t })
    (fun s r => r.mintConfigId.all fun id => (s.mintConfigs.find id).isSome)

def insertFromCoreMintTx (ext : Externals) (blockIndex : UInt64) (blockTimestamp : Option DateTime)
    (mintConfigId : Option ℕ) (tx : CoreMintTx) : Conn MintTx := do
  let mintTx ← Program.ofExcept (fromCoreMintTx ext blockIndex blockTimestamp mintConfigId tx)
  mintTx.insert

/-- There is an entry in `audited_mints` for the row. -/
def isAudited (s : Db) (r : MintTx) : Bool :=
  s.auditedMints.rows.any (fun a => decide (some a.mintTxId = r.id))

/-- Attempt to find all mint txs without a matching entry in `audited_mints`. -/
def findUnauditedMintTxs (s : Db) : List MintTx :=
  s.mintTxs.rows.filter (fun r => !isAudited s r)

/-- Attempt to find a mint tx with a given nonce and no matching entry in `audited_mints`. -/
def findUnauditedMintTxByNonce (nonceHex : String) (s : Db) : Option MintTx :=
  s.mintTxs.rows.find? (fun r => decide (r.nonceHex = nonceHex) && !isAudited s r)

/-- Get mint txs for a given block index, in the order of their ids. -/
def getMintTxsByBlockIndex (blockIndex : UInt64) (s : Db) : List MintTx :=
  s.mintTxs.rows.filter (fun r => decide (r.blockIndex = blockIndex.toInt64))

/-- Get a collection of mint token amounts. -/
def getMintAmounts (tokenId : TokenId) (s : Db) : List (TokenId × UInt64) :=
  (s.mintTxs.rows.filter (fun r => decide (r.tokenId = tokenId.toInt64))).map
    fun r => (r.getTokenId,r.getAmount)

end MintTx

/-! ### `burn_tx_outs` -/

namespace BurnTxOut

def fromCoreTxOut (ext : Externals) (blockIndex : UInt64) (blockTimestamp : Option DateTime)
    (txOut : TxOut) : Except Error BurnTxOut := do
  let amount ← (ext.viewKeyMatch txOut).mapError .viewKeyMatch
  pure {
    id := none
    blockIndex := blockIndex.toInt64
    blockTimestamp := blockTimestamp
    tokenId := amount.tokenId.toInt64
    amount := amount.value.toInt64
    publicKeyHex := Hex.encode txOut.publicKey
    protobuf := ext.encodeTxOut txOut }

/-- Insert a new burn into the database. -/
def insert : BurnTxOut → Conn BurnTxOut :=
  insertUnsaved "BurnTxOut" Db.burnTxOuts (fun s t => { s with burnTxOuts := t }) (fun _ _ => true)

/-- There is an entry in `audited_burns` for the row. -/
def isAudited (s : Db) (r : BurnTxOut) : Bool :=
  s.auditedBurns.rows.any (fun a => decide (some a.burnTxOutId = r.id))

/-- Attempt to find all burns without a matching entry in `audited_burns`. -/
def findUnauditedBurnTxOuts (s : Db) : List BurnTxOut :=
  s.burnTxOuts.rows.filter (fun r => !isAudited s r)

/-- Attempt to find a burn with a given public key and no matching entry in
`audited_burns`. -/
def findUnauditedBurnTxOutByPublicKey (publicKeyHex : String) (s : Db) : Option BurnTxOut :=
  s.burnTxOuts.rows.find? (fun r => decide (r.publicKeyHex = publicKeyHex) && !isAudited s r)

/-- Get burns by block, in the order of their ids. -/
def getBurnTxsByBlock (blockIndex : UInt64) (s : Db) : List BurnTxOut :=
  s.burnTxOuts.rows.filter (fun r => decide (r.blockIndex = blockIndex.toInt64))

/-- Get a collection of burn token amounts. -/
def getBurnAmounts (tokenId : TokenId) (s : Db) : List (TokenId × UInt64) :=
  (s.burnTxOuts.rows.filter (fun r => decide (r.tokenId = tokenId.toInt64))).map
    fun r => (r.getTokenId,r.getAmount)

end BurnTxOut

/-! ### `gnosis_safe_txs`, `gnosis_safe_deposits`, `gnosis_safe_withdrawals` -/

/-- The hash was recorded as processed. -/
def hashProcessed (s : Db) (hash : String) : Bool :=
  s.gnosisSafeTxs.any (fun x => decide (x.ethTxHash = hash))

/-- Insert a raw Gnosis Safe transaction into the database. -/
def GnosisSafeTx.insert (serde : Serde) (rawTx : RawGnosisTransaction) : Conn Unit := do
  let hash ← Program.ofExcept (rawTx.txHash.mapError .gnosis)
  Program.tryUpdate fun s =>
    if hashProcessed s hash.toString then
      .error (.ofDiesel (.databaseError .uniqueViolation
        "UNIQUE constraint failed: gnosis_safe_txs.eth_tx_hash"))
    else
      .ok ((),{ s with gnosisSafeTxs :=
        s.gnosisSafeTxs ++ [⟨hash.toString,rawTx.toJsonString serde⟩] })

namespace GnosisSafeDeposit

def new (id : Option ℕ) (ethTxHash : EthTxHash) (executionDate : DateTime) (ethTxValue : EthTxValue)
    (ethBlockNumber : UInt64) (safeAddr tokenAddr fromAddr : EthAddr) (amount : UInt64) :
    GnosisSafeDeposit where
  id := id
  ethTxHash := ethTxHash
  executionDate := executionDate
  ethTxValue := ethTxValue
  ethBlockNumber := ethBlockNumber.toInt64
  safeAddr := safeAddr
  tokenAddr := tokenAddr
  fromAddr := fromAddr
  amount := amount.toInt64
  expectedMcMintTxNonceHex := Hex.encode (mintTxNonceBytes ethTxHash)

/-- Insert a deposit into the database. -/
def insert : GnosisSafeDeposit → Conn GnosisSafeDeposit :=
  insertUnsaved "GnosisSafeDeposit" Db.gnosisSafeDeposits
    (fun s t => { s with gnosisSafeDeposits := t }) (fun s r => hashProcessed s r.ethTxHash.toString)

/-- There is an entry in `audited_mints` for the row. -/
def isAudited (s : Db) (r : GnosisSafeDeposit) : Bool :=
  s.auditedMints.rows.any (fun a => decide (some a.gnosisSafeDepositId = r.id))

/-- Attempt to find all deposits without a matching entry in `audited_mints`. -/
def findUnauditedDeposits (s : Db) : List GnosisSafeDeposit :=
  s.gnosisSafeDeposits.rows.filter (fun r => !isAudited s r)

/-- Attempt to find a deposit with a given nonce and no matching entry in `audited_mints`. -/
def findUnauditedDepositByNonce (nonceHex : String) (s : Db) : Option GnosisSafeDeposit :=
  s.gnosisSafeDeposits.rows.find?
    (fun r => decide (r.expectedMcMintTxNonceHex = nonceHex) && !isAudited s r)

end GnosisSafeDeposit

namespace GnosisSafeWithdrawal

def new (id : Option ℕ) (ethTxHash : EthTxHash) (executionDate : DateTime) (ethTxValue : EthTxValue)
    (ethBlockNumber : UInt64) (safeAddr tokenAddr toAddr : EthAddr) (amount : UInt64)
    (mcTxOutPublicKeyHex : String) : GnosisSafeWithdrawal where
  id := id
  ethTxHash := ethTxHash
  executionDate := executionDate
  ethTxValue := ethTxValue
  ethBlockNumber := ethBlockNumber.toInt64
  safeAddr := safeAddr
  tokenAddr := tokenAddr
  toAddr := toAddr
  amount := amount.toInt64
  mcTxOutPublicKeyHex := mcTxOutPublicKeyHex

/-- Get the associated mobilecoin transaction public key: what `keyTryFrom`
(`CompressedRistrettoPublic::try_from`) makes of the bytes of the text. -/
def mcTxOutPublicKey {Key : Type} (keyTryFrom : Bytes → Except String Key)
    (r : GnosisSafeWithdrawal) : Except Error Key :=
  match Hex.decode r.mcTxOutPublicKeyHex.toList with
  | none => .error (.hexParse "invalid hex")
  | some keyBytes => (keyTryFrom keyBytes).mapError .key

/-- Insert a withdrawal into the database. -/
def insert : GnosisSafeWithdrawal → Conn GnosisSafeWithdrawal :=
  insertUnsaved "GnosisSafeWithdrawal" Db.gnosisSafeWithdrawals
    (fun s t => { s with gnosisSafeWithdrawals := t })
    (fun s r => hashProcessed s r.ethTxHash.toString)

/-- There is an entry in `audited_burns` for the row. -/
def isAudited (s : Db) (r : GnosisSafeWithdrawal) : Bool :=
  s.auditedBurns.rows.any (fun a => decide (some a.gnosisSafeWithdrawalId = r.id))

/-- Attempt to find all withdrawals without a matching entry in `audited_burns`. -/
def findUnauditedWithdrawals (s : Db) : List GnosisSafeWithdrawal :=
  s.gnosisSafeWithdrawals.rows.filter (fun r => !isAudited s r)

/-- Attempt to find a withdrawal with a given public key and no matching entry in
`audited_burns`. Several withdrawals may carry the same key. -/
def findUnauditedWithdrawalByPublicKey (publicKeyHex : String) (s : Db) :
    Option GnosisSafeWithdrawal :=
  s.gnosisSafeWithdrawals.rows.find?
    (fun r => decide (r.mcTxOutPublicKeyHex = publicKeyHex) && !isAudited s r)

end GnosisSafeWithdrawal

/-! ### Totals over all blocks (`http_api/service.rs`) -/

/-- Get the sum total of all mint amounts. It is a `u128`, which holds the `u64` amounts of
more rows than a table can have ids for. -/
def getMintTotal (tokenId : TokenId) (s : Db) : ℕ :=
  ((MintTx.getMintAmounts tokenId s).map fun p => p.2.toNat).sum

/-- Get the sum total of all burn amounts. -/
def getBurnTotal (tokenId : TokenId) (s : Db) : ℕ :=
  ((BurnTxOut.getBurnAmounts tokenId s).map fun p => p.2.toNat).sum

end ReserveAuditor
