import ReserveAuditor.Models

/-! Syncing one block of the ledger into the database (`db/mod.rs`). -/
namespace ReserveAuditor
open Txn Relational

/-- A block of the ledger, with its timestamp if a watcher provides one. -/
structure BlockData where
  block : Block
  contents : BlockContents
  timestamp : Option DateTime

/-- Data returned from a sync. -/
structure SyncBlockData where
  blockAudit : BlockAuditData
  balanceMap : BalanceMap
  mintTxs : List MintTx
  burnTxOuts : List BurnTxOut

/-- Instantiate a new database: migrations, then the row of counters. -/
def newFromPath : Conn Unit := Counters.ensureExists

/-! ### Attribution of mints to configs -/

/-- `u64::checked_add` -/
def checkedAdd (a b : UInt64) : Option UInt64 :=
  if a.toNat+b.toNat < 2^64 then some (a+b) else none

/-- The search through the configs of a mint config tx: the first one that signed the mint
and has room for its amount. -/
def findMintConfig (ext : Externals) (blockIndex : UInt64) (mintTx : CoreMintTx) (s : Db) :
    List MintConfig → Except Error (Option MintConfig)
  | [] => .ok none
  | sqlMintConfig :: rest => do
    let mintConfig ← sqlMintConfig.decode ext
    match ext.verify mintConfig.signerSet (ext.mintTxPrefixHash mintTx.txPrefix)
        mintTx.signature with
    | .error _ => findMintConfig ext blockIndex mintTx s rest
    | .ok _ =>
      match checkedAdd (sqlMintConfig.getTotalMintedBeforeBlock blockIndex s)
          mintTx.txPrefix.amount with
      | some newTotalMinted =>
        if newTotalMinted ≤ sqlMintConfig.getMintLimit then .ok (some sqlMintConfig)
        else findMintConfig ext blockIndex mintTx s rest
      -- on overflow the search goes on
      | none => findMintConfig ext blockIndex mintTx s rest

/-- Lookup a mint config that can accommodate a given mint tx. -/
def lookupMintConfig (ext : Externals) (blockIndex : UInt64) (mintTx : CoreMintTx) (s : Db) :
    Except Error (Option MintConfig) :=
  match MintConfigTx.mostRecentForToken blockIndex mintTx.txPrefix.tokenId s with
  | none => .ok none
  | some sqlMintConfigTx =>
    match checkedAdd (sqlMintConfigTx.getTotalMintedBeforeBlock blockIndex s)
        mintTx.txPrefix.amount with
    | none => .ok none
    | some newTotalMinted =>
      if newTotalMinted > sqlMintConfigTx.getTotalMintLimit then .ok none
      else findMintConfig ext blockIndex mintTx s
        (MintConfig.getByMintConfigTxId (sqlMintConfigTx.id.getD 0) s)

/-! ### The mint loop and the burn loop -/

/-- `*balance_map.entry(token_id).or_default()` -/
def BalanceMap.balance (m : BalanceMap) (tokenId : TokenId) : UInt64 := (m.lookup tokenId).getD 0

/-- One turn of the mint loop. In release arithmetic the balance wraps. -/
def processMint (ext : Externals) (blockIndex : UInt64) (blockTimestamp : Option DateTime)
    (balanceMap : BalanceMap) (mintTx : CoreMintTx) : Conn (BalanceMap × MintTx) := do
  let found ← Program.query (lookupMintConfig ext blockIndex mintTx)
  let mintConfig ← Program.ofExcept found
  Program.when (mintConfig.isNone = true) (Counters.inc .numMintTxsWithoutMatchingMintConfig)
  let row ← MintTx.insertFromCoreMintTx ext blockIndex blockTimestamp
    (mintConfig.bind MintConfig.id) mintTx
  pure (balanceMap.insert mintTx.txPrefix.tokenId
    (balanceMap.balance mintTx.txPrefix.tokenId+mintTx.txPrefix.amount),row)

/-- One turn of the burn loop. A burn of more than there is leaves a balance of 0. -/
def processBurn (balanceMap : BalanceMap) (burnTxOut : BurnTxOut) :
    Conn (BalanceMap × BurnTxOut) := do
  let burnBalance := balanceMap.balance burnTxOut.getTokenId
  Program.when (burnTxOut.getAmount > burnBalance) (Counters.inc .numBurnsExceedingBalance)
  let row ← burnTxOut.insert
  pure (balanceMap.insert burnTxOut.getTokenId
    (if burnTxOut.getAmount > burnBalance then 0 else burnBalance-burnTxOut.getAmount),row)

/-- The outputs of a block that the burn view key matches. -/
def burnTxOutsOf (ext : Externals) (blockIndex : UInt64) (blockTimestamp : Option DateTime)
    (outputs : List TxOut) : List BurnTxOut :=
  outputs.filterMap fun txOut => (BurnTxOut.fromCoreTxOut ext blockIndex blockTimestamp txOut).toOption

/-- The row for an output that the burn view key matches. -/
theorem fromCoreTxOut_toOption (ext : Externals) (idx : UInt64) (ts : Option DateTime)
    (txOut : TxOut) :
    (BurnTxOut.fromCoreTxOut ext idx ts txOut).toOption =
      (ext.viewKeyMatch txOut).toOption.map fun amount => {
        id := none
        blockIndex := idx.toInt64
        blockTimestamp := ts
        tokenId := amount.tokenId.toInt64
        amount := amount.value.toInt64
        publicKeyHex := Hex.encode txOut.publicKey
        protobuf := ext.encodeTxOut txOut } := by
  unfold BurnTxOut.fromCoreTxOut
  cases ext.viewKeyMatch txOut <;> rfl

/-- The balances a block starts from. -/
def previousBalances (blockIndex : UInt64) (s : Db) : BalanceMap :=
  if blockIndex = 0 then ∅ else BlockBalance.getBalancesForBlock s (blockIndex-1)

/-- Sync reserve audit data of a single block. -/
def syncBlockWithConn (ext : Externals) (block : Block) (blockContents : BlockContents)
    (blockTimestamp : Option DateTime) : Conn SyncBlockData := transaction do
  let nextBlockIndex ← Program.query fun s => Counters.get s .numBlocksSynced
  Program.when (block.index.toNat ≠ nextBlockIndex)
    (Program.fail (.unexpectedBlockIndex block.index.toNat nextBlockIndex))
  Program.forEach blockContents.validatedMintConfigTxs fun tx => do
    let _ ← MintConfigTx.insertFromCoreMintConfigTx ext block.index blockTimestamp tx
    pure ()
  let balanceMap ← Program.query (previousBalances block.index)
  let mints ← Program.accumEach (processMint ext block.index blockTimestamp) balanceMap
    blockContents.mintTxs
  let burns ← Program.accumEach processBurn mints.1
    (burnTxOutsOf ext block.index blockTimestamp blockContents.outputs)
  Counters.inc .numBlocksSynced
  (BlockAuditData.new block.index).set
  BlockBalance.setBalancesForBlock block.index burns.1
  pure ⟨BlockAuditData.new block.index,burns.1,mints.2,burns.2⟩

end ReserveAuditor
