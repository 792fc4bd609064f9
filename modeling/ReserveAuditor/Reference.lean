import ReserveAuditor.Auditor
import ReserveAuditor.Lib.Codec

/-! A reference for what the auditor takes from other crates: messages that decode to what
was encoded, a signature scheme, and the reading of Gnosis transactions from JSON as the
derive macros of `serde` do it. -/
namespace ReserveAuditor.Reference
open Wire

/-! ### Messages -/

abbrev bytesCodec : Codec Bytes := Codec.byte.list

def mintTxPrefixCodec : Codec MintTxPrefix :=
  (Codec.word.pair (Codec.word.pair (bytesCodec.pair (bytesCodec.pair (bytesCodec.pair
    Codec.word))))).map {
      toFun p := (p.tokenId,p.amount,p.spendPublicKey,p.viewPublicKey,p.nonce,p.tombstoneBlock)
      invFun q := ⟨q.1,q.2.1,q.2.2.1,q.2.2.2.1,q.2.2.2.2.1,q.2.2.2.2.2⟩
      left_inv _ := rfl
      right_inv _ := rfl }

def mintTxCodec : Codec CoreMintTx := (mintTxPrefixCodec.pair bytesCodec).map {
  toFun tx := (tx.txPrefix,tx.signature)
  invFun q := ⟨q.1,q.2⟩
  left_inv _ := rfl
  right_inv _ := rfl }

def mintConfigCodec : Codec CoreMintConfig := (Codec.word.pair (bytesCodec.pair Codec.word)).map {
  toFun c := (c.tokenId,c.signerSet,c.mintLimit)
  invFun q := ⟨q.1,q.2.1,q.2.2⟩
  left_inv _ := rfl
  right_inv _ := rfl }

def mintConfigTxPrefixCodec : Codec MintConfigTxPrefix :=
  (Codec.word.pair (mintConfigCodec.list.pair (bytesCodec.pair (Codec.word.pair Codec.word)))).map {
    toFun p := (p.tokenId,p.configs,p.nonce,p.tombstoneBlock,p.totalMintLimit)
    invFun q := ⟨q.1,q.2.1,q.2.2.1,q.2.2.2.1,q.2.2.2.2⟩
    left_inv _ := rfl
    right_inv _ := rfl }

def mintConfigTxCodec : Codec CoreMintConfigTx := (mintConfigTxPrefixCodec.pair bytesCodec).map {
  toFun tx := (tx.txPrefix,tx.signature)
  invFun q := ⟨q.1,q.2⟩
  left_inv _ := rfl
  right_inv _ := rfl }

def amountCodec : Codec Amount := (Codec.word.pair Codec.word).map {
  toFun a := (a.value,a.tokenId)
  invFun q := ⟨q.1,q.2⟩
  left_inv _ := rfl
  right_inv _ := rfl }

def readMessage {α : Type} (c : Codec α) (bytes : Bytes) : Except String α :=
  match c.read bytes with
  | some a => .ok a
  | none => .error "failed to decode"

theorem readMessage_encode {α : Type} (c : Codec α) (a : α) :
    readMessage c (c.encode a) = .ok a := by
  simp only [readMessage, c.read_encode]

/-- A signature repeats the signer set, and an output that the burn view key matches carries
its amount in the clear. -/
def externals : Externals where
  encodeMintConfigTx := mintConfigTxCodec.encode
  decodeMintConfigTx := readMessage mintConfigTxCodec
  encodeMintConfig := mintConfigCodec.encode
  decodeMintConfig := readMessage mintConfigCodec
  encodeMintTx := mintTxCodec.encode
  decodeMintTx := readMessage mintTxCodec
  encodeTxOut txOut := (bytesCodec.pair bytesCodec).encode (txOut.publicKey,txOut.body)
  mintTxPrefixHash := mintTxPrefixCodec.encode
  verify signerSet _ signature :=
    if signature = signerSet then .ok [signerSet] else .error "signature"
  viewKeyMatch txOut := readMessage amountCodec txOut.body
  b58Encode spendPublicKey viewPublicKey := .ok (Hex.encode (spendPublicKey ++ viewPublicKey))

/-! ### Transactions -/

def field (key : String) (v : Json) : Except String Json :=
  match v.get key with
  | some x => .ok x
  | none => .error s!"missing field {key}"

/-- A field of an `Option` type: `null` stands for its absence. -/
def optField (key : String) (v : Json) : Option Json :=
  match v.get key with
  | some .null => none
  | x => x

def str (v : Json) : Except String String :=
  match v.asStr with
  | some s => .ok s
  | none => .error "expected a string"

def arr : Json → Except String (List Json)
  | .array elems => .ok elems
  | _ => .error "expected a sequence"

def u64 : Json → Except String UInt64
  | .number text => match parseU128 text with
    | some n => if n.toNat < 2^64 then .ok (.ofNat n.toNat) else .error "expected u64"
    | none => .error "expected u64"
  | _ => .error "expected u64"

def addr (v : Json) : Except String EthAddr := do
  (EthAddr.fromStr (← str v)).mapError toString

def txHash (v : Json) : Except String EthTxHash := do
  (EthTxHash.fromStr (← str v)).mapError toString

def txValue (v : Json) : Except String EthTxValue := do
  match parseU128 (← str v) with
  | some n => .ok n
  | none => .error "invalid digit found in string"

/-- Days from the epoch in the proleptic Gregorian calendar. -/
def daysFromCivil (year month day : ℤ) : ℤ :=
  let y := if month ≤ 2 then year-1 else year
  let dayOfYear := (153*(if month ≤ 2 then month+9 else month-3)+2)/5+day-1
  365*y+y/4-y/100+y/400+dayOfYear-719468

def decimal (cs : List Char) : ℤ := cs.foldl (fun n c => 10*n+(c.toNat-48 : ℕ)) 0

/-- A point in time such as `2022-05-24T21:45:04Z`. -/
def date (v : Json) : Except String DateTime := do
  let cs := (← str v).toList
  let part (i n : ℕ) := decimal ((cs.drop i).take n)
  if cs.length = 20 then
    .ok (((daysFromCivil (part 0 4) (part 5 2) (part 8 2)*24+part 11 2)*60+part 14 2)*60*10^9
      +part 17 2*10^9)
  else .error "input is not enough for unique date and time"

/-- The first argument bounds the nesting, as the reader of JSON texts does. -/
def dataDecoded : ℕ → Json → Except String DataDecoded
  | 0, _ => .error "recursion limit exceeded"
  | n+1, v => do
    let method ← str (← field "method" v)
    let parameters ← (← arr (← field "parameters" v)).mapM fun p => do
      let _ ← str (← field "name" p)
      let value ← str (← field "value" p)
      let valueDecoded ← (optField "valueDecoded" p).mapM fun vs => do
        (← arr vs).mapM fun w => do
          let _ ← u64 (← field "operation" w)
          let toAddr ← addr (← field "to" w)
          let _ ← str (← field "value" w)
          let data ← str (← field "data" w)
          let nested ← (optField "dataDecoded" w).mapM (dataDecoded n)
          pure ⟨toAddr,data,nested⟩
      pure ⟨value,valueDecoded⟩
    pure ⟨method,parameters⟩

def ethereumTransfer (v : Json) : Except String EthereumTransfer := do
  let fromAddr ← addr (← field "from" v)
  let toAddr ← addr (← field "to" v)
  let tokenAddr ← (optField "tokenAddress" v).mapM addr
  let hash ← txHash (← field "transactionHash" v)
  let _ ← str (← field "type" v)
  let _ ← (optField "tokenInfo" v).mapM fun info => do str (← field "address" info)
  let value ← (optField "value" v).mapM txValue
  pure ⟨fromAddr,toAddr,tokenAddr,hash,value⟩

def ethereumTransaction (v : Json) : Except String EthereumTransaction := do
  let hash ← txHash (← field "txHash" v)
  let ethBlockNumber ← u64 (← field "blockNumber" v)
  let transfers ← (← arr (← field "transfers" v)).mapM ethereumTransfer
  let executionDate ← date (← field "executionDate" v)
  pure ⟨hash,ethBlockNumber,transfers,executionDate⟩

def multiSigTransaction (v : Json) : Except String MultiSigTransaction := do
  let safe ← addr (← field "safe" v)
  let _ ← addr (← field "to" v)
  let _ ← txValue (← field "value" v)
  let _ ← (optField "data" v).mapM str
  let ethBlockNumber ← u64 (← field "blockNumber" v)
  let hash ← txHash (← field "transactionHash" v)
  let decoded ← (optField "dataDecoded" v).mapM (dataDecoded 128)
  let transferData ← (← arr (← field "transfers" v)).mapM ethereumTransfer
  let executionDate ← date (← field "executionDate" v)
  pure ⟨safe,ethBlockNumber,hash,decoded,transferData,executionDate⟩

/-- The variant is told by its tag. -/
def transaction (v : Json) : Except String Transaction := do
  match ← str (← field "txType" v) with
  | "MULTISIG_TRANSACTION" => .multiSig <$> multiSigTransaction v
  | "ETHEREUM_TRANSACTION" => .ethereum <$> ethereumTransaction v
  | "MODULE_TRANSACTION" => .ok (.module v)
  | variant => .error s!"unknown variant {variant}"

mutual

def printJson : Json → String
  | .null => "null"
  | .bool b => toString b
  | .number text => text
  | .string s => s!"\"{s}\""
  | .array elems => "[" ++ printElems elems ++ "]"
  | .object members => "\x7b" ++ printMembers members ++ "\x7d"

def printElems : List Json → String
  | [] => ""
  | [v] => printJson v
  | v :: vs => printJson v ++ "," ++ printElems vs

def printMembers : List (String × Json) → String
  | [] => ""
  | [(key,v)] => s!"\"{key}\":" ++ printJson v
  | (key,v) :: members => s!"\"{key}\":" ++ printJson v ++ "," ++ printMembers members

end

def serde : Serde := ⟨transaction,printJson⟩

/-! ### Two safes that hold one token -/

def safeAddrA : EthAddr := ⟨"0xaaaaaaaaaaaaaaaaaaaaaaaaaaaaaaaaaaaaaaaa",by decide +kernel⟩
def safeAddrB : EthAddr := ⟨"0xbbbbbbbbbbbbbbbbbbbbbbbbbbbbbbbbbbbbbbbb",by decide +kernel⟩
def tokenAddr : EthAddr := ⟨"0x1111111111111111111111111111111111111111",by decide +kernel⟩
def auxAddr : EthAddr := ⟨"0x2222222222222222222222222222222222222222",by decide +kernel⟩
def userAddr : EthAddr := ⟨"0x3333333333333333333333333333333333333333",by decide +kernel⟩

def token : AuditedToken := ⟨1,[tokenAddr],18,auxAddr,#v[0xc7,0x6f,0x06,0x35]⟩

def safeA : AuditedSafeConfig := ⟨safeAddrA,[token],6⟩
def safeB : AuditedSafeConfig := ⟨safeAddrB,[token],6⟩

def config : GnosisSafeConfig := ⟨[safeA,safeB]⟩

theorem safeA_configured : safeA ∈ config.safes := by simp [config]

theorem safeB_configured : safeB ∈ config.safes := by simp [config]

theorem config_distinct : config.Distinct := by
  simp only [GnosisSafeConfig.Distinct, config, List.pairwise_cons, List.mem_singleton]
  exact ⟨by rintro _ rfl; decide +kernel,by simp⟩

def hashText (digit : Char) : String := "0x" ++ String.ofList (List.replicate 64 digit)

def hashOf (b : UInt8) : EthTxHash := ⟨List.replicate 32 b,by simp⟩

def transferJson (hash : String) (source target : EthAddr) (value : String) : Json :=
  .object [("from",.string source.text),("to",.string target.text),
    ("tokenAddress",.string tokenAddr.text),("transactionHash",.string hash),
    ("type",.string "ERC20_TRANSFER"),("tokenInfo",.null),("value",.string value)]

/-- An Ethereum transaction with transfers of the token from the user. -/
def depositTx (digit : Char) (transfers : List (EthAddr × String)) : RawGnosisTransaction :=
  ⟨.object [("txType",.string "ETHEREUM_TRANSACTION"),("txHash",.string (hashText digit)),
    ("blockNumber",.number "100"),("executionDate",.string "2022-05-24T21:45:04Z"),
    ("transfers",.array (transfers.map fun t => transferJson (hashText digit) userAddr t.1 t.2))]⟩

/-- A multi-sig transaction that sends the token from a safe to the user, and records the key
of an output with the auxiliary contract. -/
def withdrawalTx (digit : Char) (safe : EthAddr) (value : String) (key : Bytes) :
    RawGnosisTransaction :=
  ⟨.object [("txType",.string "MULTISIG_TRANSACTION"),("safe",.string safe.text),
    ("to",.string auxAddr.text),("value",.string "0"),("blockNumber",.number "100"),
    ("transactionHash",.string (hashText digit)),("executionDate",.string "2022-05-24T21:45:04Z"),
    ("dataDecoded",.object [("method",.string "multiSend"),
      ("parameters",.array [.object [("name",.string "transactions"),("value",.string "0x"),
        ("valueDecoded",.array [
          .object [("operation",.number "0"),("to",.string tokenAddr.text),("value",.string "0"),
            ("data",.string "0x"),("dataDecoded",.object [("method",.string "transfer"),
              ("parameters",.array [
                .object [("name",.string "recipient"),("value",.string userAddr.text)],
                .object [("name",.string "amount"),("value",.string value)]])])],
          .object [("operation",.number "0"),("to",.string auxAddr.text),("value",.string "0"),
            ("data",.string ("0x" ++ Hex.encode (token.auxBurnFunctionSig.toList ++ key)))]])]])]),
    ("transfers",.array [transferJson (hashText digit) safe userAddr value])]⟩

/-! ### Blocks of the ledger -/

def mintOf (nonce : Bytes) (amount : UInt64) : CoreMintTx :=
  ⟨⟨1,amount,[],[],nonce,1000⟩,[7]⟩

/-- The mint for a deposit that was made in a transaction. -/
def mintFor (b : UInt8) (amount : UInt64) : CoreMintTx :=
  mintOf (mintTxNonceBytes (hashOf b)) amount

def burnOf (key : Bytes) (amount : UInt64) : TxOut := ⟨key,amountCodec.encode ⟨amount,1⟩⟩

def configTxOf (nonce : Bytes) (mintLimit totalMintLimit : UInt64) : CoreMintConfigTx :=
  ⟨⟨1,[⟨1,[7],mintLimit⟩],nonce,1000,totalMintLimit⟩,[]⟩

def blockOf (index : UInt64) (configTxs : List CoreMintConfigTx) (mints : List CoreMintTx)
    (outputs : List TxOut) : BlockData := ⟨⟨index⟩,⟨configTxs,mints,outputs⟩,none⟩

end ReserveAuditor.Reference
