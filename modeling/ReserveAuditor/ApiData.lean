import ReserveAuditor.Core

/-! Gnosis API responses (`gnosis/api_data_types.rs`). -/
namespace ReserveAuditor

/-- `serde_json::Value`. Numbers keep the text they were read from. -/
inductive Json where
  | null
  | bool (b : Bool)
  | number (text : String)
  | string (s : String)
  | array (elems : List Json)
  | object (members : List (String × Json))

namespace Json

/-- The value of a key of an object. -/
def get (key : String) : Json → Option Json
  | object members => (members.find? (fun m => m.1 == key)).map Prod.snd
  | _ => none

def asStr : Json → Option String
  | string s => some s
  | _ => none

end Json

mutual

/-- Decoded data: the method and its parameters. -/
structure DataDecoded where
  method : String
  parameters : List DataDecodedParameter

structure DataDecodedParameter where
  value : String
  valueDecoded : Option (List ValueDecoded)

/-- One transfer of a multi-send. -/
structure ValueDecoded where
  toAddr : EthAddr
  data : String
  dataDecoded : Option DataDecoded

end

structure EthereumTransfer where
  fromAddr : EthAddr
  toAddr : EthAddr
  tokenAddr : Option EthAddr
  txHash : EthTxHash
  value : Option EthTxValue

structure MultiSigTransaction where
  safe : EthAddr
  ethBlockNumber : UInt64
  txHash : EthTxHash
  dataDecoded : Option DataDecoded
  transferData : List EthereumTransfer
  executionDate : DateTime

structure EthereumTransaction where
  txHash : EthTxHash
  ethBlockNumber : UInt64
  transfers : List EthereumTransfer
  executionDate : DateTime

/-- Possible transaction types. -/
inductive Transaction where
  | multiSig (tx : MultiSigTransaction)
  | ethereum (tx : EthereumTransaction)
  | module (value : Json)

/-- `serde_json`: reading a transaction out of a value, and printing a value. -/
structure Serde where
  fromValue : Json → Except String Transaction
  toJsonString : Json → String

/-- Raw (unparsed) transaction. -/
structure RawGnosisTransaction where
  raw : Json

namespace RawGnosisTransaction

def toJsonString (serde : Serde) (tx : RawGnosisTransaction) : String := serde.toJsonString tx.raw

def decode (serde : Serde) (tx : RawGnosisTransaction) : Except GnosisError Transaction :=
  (serde.fromValue tx.raw).mapError GnosisError.json

/-- The text of the transaction hash. -/
def hashStr (tx : RawGnosisTransaction) : Option String :=
  ((tx.raw.get "transactionHash").or (tx.raw.get "txHash")).bind Json.asStr

/-- Get the transaction hash. -/
def txHash (tx : RawGnosisTransaction) : Except GnosisError EthTxHash :=
  match tx.hashStr with
  | none => .error (.other "GnosisSafeTransaction: missing transactionHash")
  | some hashStr =>
    (EthTxHash.fromStr hashStr).mapError fun err =>
      .other s!"Failed parsing tx hash '{hashStr}': {err}"

end RawGnosisTransaction
end ReserveAuditor
