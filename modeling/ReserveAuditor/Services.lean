import ReserveAuditor.Scanner

/-! The read interfaces: the gRPC service (`service.rs`), the HTTP service and its routes
(`http_api/service.rs`, `http_api/routes.rs`), and the command that prints a block
(`bin/main.rs`). A connection to the database can always be had here. -/
namespace ReserveAuditor
open Txn Relational

/-- The text of an error, with the text that Diesel has for its own. -/
def Error.display (displayDiesel : DieselError → String) : Error → String
  | notFound => "Not found"
  | alreadyExists message => s!"Already exists: {message}"
  | objectNotSaved => "Object not saved to database"
  | depositAndMintMismatch message => s!"Deposit and mint mismatch: {message}"
  | withdrawalAndBurnMismatch message => s!"Withdrawal and burn mismatch: {message}"
  | ethereumTokenNotAudited tokenAddr safeAddr txHash =>
    s!"Ethereum token {tokenAddr} not audited in safe {safeAddr} (tx hash: {txHash})"
  | gnosisSafeNotAudited safeAddr => s!"Gnosis safe {safeAddr} not audited"
  | ledgerDb message => s!"Ledger DB: {message}"
  | decode message => s!"Decode: {message}"
  | unexpectedBlockIndex got expected =>
    s!"Unexpected block index {got} (was expecting {expected})"
  | diesel err => s!"Diesel: {displayDiesel err}"
  | r2d2Pool message => s!"R2d2 pool: {message}"
  | gnosis err => s!"Gnosis: {err}"
  | apiDisplay message => s!"Api display: {message}"
  | hexParse message => s!"Hex parse: {message}"
  | key message => s!"Crypto key: {message}"
  | invalidLength expected got => s!"Invalid length: expected {expected}, got {got}"
  | invalidNonceIdentifier identifier => s!"Invalid nonce identifier: {identifier}"
  | viewKeyMatch message => s!"View key match: {message}"
  | signature message => s!"Signature error: {message}"
  | other message => s!"Other: {message}"

/-! ### `block_audit_data` -/

namespace BlockAuditData

/-- Get block audit data for a given block index. -/
def get (blockIndex : UInt64) (s : Db) : Except Error BlockAuditData :=
  match s.blockAuditData.find? (fun r => decide (r.blockIndex = blockIndex.toInt64)) with
  | some r => .ok r
  | none => .error (.ofDiesel .notFound)

/-- Get the audit data for the last synced block. -/
def lastBlockAuditData (s : Db) : Except Error (Option BlockAuditData) :=
  match lastSyncedBlockIndex s with
  | some blockIndex => (get blockIndex s).map some
  | none => .ok none

end BlockAuditData

/-! ### The HTTP service -/

structure BlockAuditDataResponse where
  blockIndex : UInt64
  balances : BalanceMap

def BlockAuditDataResponse.new (blockAuditData : BlockAuditData) (balances : BalanceMap) :
    BlockAuditDataResponse := ⟨blockAuditData.getBlockIndex,balances⟩

structure AuditedMintResponse where
  audited : AuditedMint
  mint : MintTx
  deposit : GnosisSafeDeposit

structure AuditedBurnResponse where
  audited : AuditedBurn
  burn : BurnTxOut
  withdrawal : GnosisSafeWithdrawal
  decodedBurnMemoBytes : Option Bytes

structure UnauditedGnosisDepositResponse where
  deposit : GnosisSafeDeposit

structure UnauditedBurnTxOutResponse where
  burn : BurnTxOut
  decodedBurnMemoBytes : Option Bytes

structure BurnInfoResponse where
  burn : BurnTxOut
  decodedBurnMemoBytes : Option Bytes

namespace ReserveAuditorHttpService

/-- Get the audit data for a target block. -/
def getBlockAuditData (blockIndex : UInt64) (s : Db) : Except Error BlockAuditDataResponse := do
  let blockAuditData ← BlockAuditData.get blockIndex s
  pure (.new blockAuditData (BlockBalance.getBalancesForBlock s blockAuditData.getBlockIndex))

/-- Get the audit data for the last synced block. -/
def getLastBlockAuditData (s : Db) : Except Error BlockAuditDataResponse := do
  let found ← BlockAuditData.lastBlockAuditData s
  match found with
  | some blockAuditData =>
    pure (.new blockAuditData (BlockBalance.getBalancesForBlock s blockAuditData.getBlockIndex))
  | none => .error .notFound

/-- Get a paginated list of audited mints. -/
def getAuditedMints (offset limit : Option UInt64) (s : Db) :
    Except Error (List AuditedMintResponse) :=
  (AuditedMint.listWithMintAndDeposit offset limit s).map
    (List.map fun p => ⟨p.1,p.2.1,p.2.2⟩)

/-- Get a paginated list of audited burns. What `burnRedemptionMemo` cannot decode has no memo. -/
def getAuditedBurns (burnRedemptionMemo : BurnTxOut → Except Error Bytes)
    (offset limit : Option UInt64) (s : Db) : Except Error (List AuditedBurnResponse) :=
  (AuditedBurn.listWithBurnAndWithdrawal offset limit s).map
    (List.map fun p => ⟨p.1,p.2.1,p.2.2,(burnRedemptionMemo p.2.1).toOption⟩)

/-- Get a list of gnosis safe deposits that do not have a corresponding mint tx. -/
def getUnauditedGnosisDeposits (s : Db) : List UnauditedGnosisDepositResponse :=
  (GnosisSafeDeposit.findUnauditedDeposits s).map fun deposit => ⟨deposit⟩

/-- Get a list of burn txs that do not have a corresponding gnosis safe withdrawal. -/
def getUnauditedBurnTxOuts (burnRedemptionMemo : BurnTxOut → Except Error Bytes) (s : Db) :
    List UnauditedBurnTxOutResponse :=
  (BurnTxOut.findUnauditedBurnTxOuts s).map fun burn => ⟨burn,(burnRedemptionMemo burn).toOption⟩

def getUnauditedWithdrawals (s : Db) : List GnosisSafeWithdrawal :=
  GnosisSafeWithdrawal.findUnauditedWithdrawals s

def getUnauditedMints (s : Db) : List MintTx := MintTx.findUnauditedMintTxs s

def getBurnsByBlock (burnRedemptionMemo : BurnTxOut → Except Error Bytes) (blockIndex : UInt64)
    (s : Db) : List BurnInfoResponse :=
  (BurnTxOut.getBurnTxsByBlock blockIndex s).map fun burn =>
    ⟨burn,(burnRedemptionMemo burn).toOption⟩

end ReserveAuditorHttpService

/-- A route answers with the response, or with the text of the error. -/
def route {α : Type} (displayDiesel : DieselError → String) (response : Except Error α) :
    Except String α := response.mapError (Error.display displayDiesel)

/-! ### The gRPC service -/

inductive RpcStatusCode where
  | notFound
  | internal

structure RpcStatus where
  code : RpcStatusCode
  message : String

namespace ReserveAuditorService

def getBlockAuditDataImpl (displayDiesel : DieselError → String) (blockIndex : UInt64) (s : Db) :
    Except RpcStatus UInt64 :=
  match BlockAuditData.get blockIndex s with
  | .ok blockAuditData => .ok blockAuditData.getBlockIndex
  | .error .notFound =>
    .error ⟨.notFound,s!"Block audit data not found for block index {blockIndex}"⟩
  | .error err => .error ⟨.internal,err.display displayDiesel⟩

def getLastBlockAuditDataImpl (displayDiesel : DieselError → String) (s : Db) :
    Except RpcStatus UInt64 :=
  match BlockAuditData.lastBlockAuditData s with
  | .ok (some blockAuditData) => .ok blockAuditData.getBlockIndex
  | .ok none => .error ⟨.notFound,"No last synced block index"⟩
  | .error err => .error ⟨.internal,err.display displayDiesel⟩

end ReserveAuditorService

/-! ### The command -/

/-- What is printed of a block: JSON, as `toJson` serializes it, or lines of text. -/
def printBlock (toJson : BlockAuditData → BalanceMap → Except String String) (json : Bool)
    (blockIndex : UInt64) (auditData : BlockAuditData) (balanceMap : BalanceMap) :
    Except Error (List String) :=
  if json then
    ((toJson auditData balanceMap).map fun text => [text]).mapError
      fun err => .other s!"failed serializing json: {err}"
  else .ok (s!"Block index: {blockIndex}" ::
    balanceMap.entries.map fun e => s!"Token {e.1}: {e.2}")

/-- The command opens the database and prints a block, or the last one. -/
def cmdGetBlockAuditData (toJson : BlockAuditData → BalanceMap → Except String String)
    (blockIndex : Option UInt64) (json : Bool) : Conn (List String) := do
  newFromPath.expect "Could not open reserve auditor DB"
  (transaction do
    let lastSyncedBlockIndex ← Program.query BlockAuditData.lastSyncedBlockIndex
    let blockIndex ← Program.ofOutcome (.okOr (.other "Failed figuring out the last block index")
      (blockIndex.or lastSyncedBlockIndex))
    let found ← Program.query (BlockAuditData.get blockIndex)
    let auditData ← Program.ofExcept found
    let balanceMap ← Program.query fun s => BlockBalance.getBalancesForBlock s blockIndex
    Program.ofExcept (printBlock toJson json blockIndex auditData balanceMap)).expect
      "db transaction failed"

/-! ### What they answer -/

variable {ext : Externals} {serde : Serde} {s : Db} {n : ℕ}

/-- The last block of `n`. -/
def lastOf (n : ℕ) : Option UInt64 := if n = 0 then none else some (.ofNat (n-1))

theorem Gapless.get_eq (hg : Gapless n s) (b : UInt64) :
    BlockAuditData.get b s = if b.toNat < n then .ok (.new b) else .error .notFound := by
  rw [BlockAuditData.get]
  split_ifs with hb
  -- a block that was synced has its row
  · have hmem : b.toNat ∈ s.blockAuditData.map (fun r => r.getBlockIndex.toNat) := by
      rw [hg.audited]
      exact List.mem_range.mpr hb
    obtain ⟨r,hr,hrb⟩ := List.mem_map.mp hmem
    have hidx : r.blockIndex = b.toInt64 :=
      congrArg UInt64.toInt64 (UInt64.toNat_inj.mp hrb : r.blockIndex.toUInt64 = b)
    have hsome : (s.blockAuditData.find? fun r => decide (r.blockIndex = b.toInt64)).isSome = true :=
      List.find?_isSome.mpr ⟨r,hr,by simp [hidx]⟩
    obtain ⟨r',hr'⟩ := Option.isSome_iff_exists.mp hsome
    have hfound := List.find?_some hr'
    obtain rfl : r' = .new b := by
      cases r'
      simpa [BlockAuditData.new] using hfound
    rw [hr']
  · have hnone : (s.blockAuditData.find? fun r => decide (r.blockIndex = b.toInt64)) = none := by
      refine List.find?_eq_none.mpr fun r hr hrb => hb ?_
      have hmem : r.getBlockIndex.toNat ∈ List.range n := by
        rw [← hg.audited]
        exact List.mem_map_of_mem hr
      have hidx : r.getBlockIndex = b := congrArg Int64.toUInt64 (of_decide_eq_true hrb)
      rw [hidx] at hmem
      exact List.mem_range.mp hmem
    rw [hnone]
    rfl

theorem Gapless.lastSynced_eq (hg : Gapless n s) (hn : n < 2^63) :
    BlockAuditData.lastSyncedBlockIndex s = lastOf n := by
  rw [BlockAuditData.lastSyncedBlockIndex, hg.column]
  cases n with
  | zero => rfl
  | succ k =>
    rw [max?_range k (by omega)]
    rfl

theorem lastOf_lt (hn : n < 2^63) {b : UInt64} (h : lastOf n = some b) : b.toNat < n := by
  rw [lastOf] at h
  split_ifs at h with hz
  obtain rfl := Option.some.inj h
  rw [toNat_ofNat (by omega)]
  omega

theorem Gapless.lastBlockAuditData_eq (hg : Gapless n s) (hn : n < 2^63) :
    BlockAuditData.lastBlockAuditData s = .ok ((lastOf n).map .new) := by
  rw [BlockAuditData.lastBlockAuditData, hg.lastSynced_eq hn]
  cases hlast : lastOf n with
  | none => rfl
  | some b =>
    simp only [hg.get_eq, if_pos (lastOf_lt hn hlast)]
    rfl

/-- The command prints the block that it is asked for, or else the last one, if it was synced, and
changes nothing; otherwise it panics. -/
theorem Gapless.cmd_returns_iff (hg : Gapless n s) (hn : n < 2^63)
    (hc : s.counters.isSome = true)
    (toJson : BlockAuditData → BalanceMap → Except String String) (blockIndex : Option UInt64)
    (json : Bool) (s' : Db) (lines : List String) :
    (cmdGetBlockAuditData toJson blockIndex json).Returns s lines s' ↔ s' = s ∧
      ∃ b, blockIndex.or (lastOf n) = some b ∧ b.toNat < n ∧
        printBlock toJson json b (.new b) (BlockBalance.getBalancesForBlock s b) = .ok lines := by
  have hopen (t : Db) : newFromPath.Returns s () t ↔ t = s :=
    ⟨fun h => (h.unique (newFromPath_returns hc)).2,fun h => h.symm ▸ newFromPath_returns hc⟩
  simp only [cmdGetBlockAuditData, Program.returns_bind, Program.returns_expect,
    returns_transaction, hopen, Program.returns_query, Program.returns_ofOutcome,
    Program.returns_ofExcept, Outcome.okOr_eq_ok]
  constructor
  · rintro ⟨_,_,rfl,_,_,⟨rfl,rfl⟩,b,_,⟨hb,rfl⟩,_,_,⟨rfl,rfl⟩,data,_,⟨hdata,rfl⟩,_,_,⟨rfl,rfl⟩,hlines,rfl⟩
    rw [hg.lastSynced_eq hn] at hb
    rw [hg.get_eq] at hdata
    split_ifs at hdata with hlt
    obtain rfl := Except.ok.inj hdata
    exact ⟨rfl,b,hb,hlt,hlines⟩
  · rintro ⟨rfl,b,hb,hlt,hlines⟩
    refine ⟨(),_,rfl,_,_,⟨rfl,rfl⟩,b,_,⟨?_,rfl⟩,_,_,⟨rfl,rfl⟩,.new b,_,⟨?_,rfl⟩,_,_,⟨rfl,rfl⟩,hlines,rfl⟩
    · rw [hg.lastSynced_eq hn, hb]
    · rw [hg.get_eq, if_pos hlt]

/-- The interfaces serve the same `n` blocks: each block below `n` with its index and its balances,
the last of them where the last one is asked for, and no other block. -/
structure BlocksServed (displayDiesel : DieselError → String)
    (toJson : BlockAuditData → BalanceMap → Except String String) (n : ℕ) (s : Db) : Prop where
  http : ∀ b, route displayDiesel (ReserveAuditorHttpService.getBlockAuditData b s) =
    if b.toNat < n then .ok ⟨b,BlockBalance.getBalancesForBlock s b⟩ else .error "Not found"
  httpLast : route displayDiesel (ReserveAuditorHttpService.getLastBlockAuditData s) =
    match lastOf n with
    | some b => route displayDiesel (ReserveAuditorHttpService.getBlockAuditData b s)
    | none => .error "Not found"
  grpc : ∀ b, ReserveAuditorService.getBlockAuditDataImpl displayDiesel b s =
    if b.toNat < n then .ok b
    else .error ⟨.notFound,s!"Block audit data not found for block index {b}"⟩
  grpcLast : ReserveAuditorService.getLastBlockAuditDataImpl displayDiesel s =
    match lastOf n with
    | some b => ReserveAuditorService.getBlockAuditDataImpl displayDiesel b s
    | none => .error ⟨.notFound,"No last synced block index"⟩
  command : ∀ blockIndex json s' lines,
    (cmdGetBlockAuditData toJson blockIndex json).Returns s lines s' ↔ s' = s ∧
      ∃ b, blockIndex.or (lastOf n) = some b ∧ b.toNat < n ∧
        printBlock toJson json b (.new b) (BlockBalance.getBalancesForBlock s b) = .ok lines

theorem SyncedTo.blocksServed (hs : SyncedTo n s) (hn : n < 2^63)
    (displayDiesel : DieselError → String)
    (toJson : BlockAuditData → BalanceMap → Except String String) :
    BlocksServed displayDiesel toJson n s := by
  have hg := hs.gapless
  refine ⟨fun b => ?_,?_,fun b => ?_,?_,hg.cmd_returns_iff hn hs.counters toJson⟩
  · rw [ReserveAuditorHttpService.getBlockAuditData, hg.get_eq]
    split_ifs <;> rfl
  · rw [ReserveAuditorHttpService.getLastBlockAuditData, hg.lastBlockAuditData_eq hn]
    cases hlast : lastOf n with
    | none => rfl
    | some b =>
      simp only [ReserveAuditorHttpService.getBlockAuditData, hg.get_eq, if_pos (lastOf_lt hn hlast)]
      rfl
  · rw [ReserveAuditorService.getBlockAuditDataImpl, hg.get_eq]
    split_ifs <;> rfl
  · rw [ReserveAuditorService.getLastBlockAuditDataImpl, hg.lastBlockAuditData_eq hn]
    cases hlast : lastOf n with
    | none => rfl
    | some b =>
      simp only [ReserveAuditorService.getBlockAuditDataImpl, hg.get_eq, if_pos (lastOf_lt hn hlast)]
      rfl

/-- In every state that scanners and Gnosis threads reach, all interfaces serve the blocks that the
counter of synced blocks counts. -/
theorem scanned_blocks_served {ι : Type} [DecidableEq ι] (ext : Externals) (serde : Serde)
    (displayDiesel : DieselError → String)
    (toJson : BlockAuditData → BalanceMap → Except String String) (c : ScanState ι)
    (h : Scanned ext serde c) (hn : Counters.get c.db .numBlocksSynced < 2^63) :
    BlocksServed displayDiesel toJson (Counters.get c.db .numBlocksSynced) c.db :=
  h.syncedTo.blocksServed hn displayDiesel toJson

theorem staleRead_blocks_served :
    BlocksServed (fun _ => "") (fun _ _ => .ok "") (Counters.get staleRead.db .numBlocksSynced)
      staleRead.db :=
  scanned_blocks_served Reference.externals Reference.serde (fun _ => "") (fun _ _ => .ok "")
    staleRead staleRead_scanned (by decide +kernel)

end ReserveAuditor
