import ReserveAuditor.EthData

/-! MobileCoin block data as the auditor reads it, the functions of other crates that the
auditor calls, and the auditor's errors (`error.rs`). -/
namespace ReserveAuditor

abbrev TokenId := UInt64

/-- A point in time, in nanoseconds from the epoch. -/
abbrev DateTime := ℤ

/-! ### Block data (`mc_transaction_core`, `mc_blockchain_types`) -/

structure MintTxPrefix where
  tokenId : UInt64
  amount : UInt64
  spendPublicKey : Bytes
  viewPublicKey : Bytes
  nonce : Bytes
  tombstoneBlock : UInt64

structure CoreMintTx where
  txPrefix : MintTxPrefix
  signature : Bytes

/-- The signer set is opaque to the auditor. -/
structure CoreMintConfig where
  tokenId : UInt64
  signerSet : Bytes
  mintLimit : UInt64

structure MintConfigTxPrefix where
  tokenId : UInt64
  configs : List CoreMintConfig
  nonce : Bytes
  tombstoneBlock : UInt64
  totalMintLimit : UInt64

structure CoreMintConfigTx where
  txPrefix : MintConfigTxPrefix
  signature : Bytes

/-- A transaction output: its public key, and the rest of it as the auditor passes it on. -/
structure TxOut where
  publicKey : Bytes
  body : Bytes

structure Amount where
  value : UInt64
  tokenId : TokenId

structure Block where
  index : UInt64

structure BlockContents where
  validatedMintConfigTxs : List CoreMintConfigTx
  mintTxs : List CoreMintTx
  outputs : List TxOut

/-- Functions of the crates the auditor calls: protobuf (`mc_util_serial`), hashing and
signatures, view keys and printable addresses. -/
structure Externals where
  encodeMintConfigTx : CoreMintConfigTx → Bytes
  decodeMintConfigTx : Bytes → Except String CoreMintConfigTx
  encodeMintConfig : CoreMintConfig → Bytes
  decodeMintConfig : Bytes → Except String CoreMintConfig
  encodeMintTx : CoreMintTx → Bytes
  decodeMintTx : Bytes → Except String CoreMintTx
  encodeTxOut : TxOut → Bytes
  /-- `MintTxPrefix::hash` -/
  mintTxPrefixHash : MintTxPrefix → Bytes
  /-- `SignerSet::verify` on a message and a signature: the signers that verify -/
  verify : Bytes → Bytes → Bytes → Except String (List Bytes)
  /-- `TxOut::view_key_match` with the burn address view key -/
  viewKeyMatch : TxOut → Except String Amount
  /-- b58 encoding of the address with this spend key and this view key -/
  b58Encode : Bytes → Bytes → Except String String

/-! ### Errors -/

inductive DatabaseErrorKind where
  | uniqueViolation
  | foreignKeyViolation
  | unknown
deriving DecidableEq

inductive DieselError where
  | notFound
  | databaseError (kind : DatabaseErrorKind) (message : String)
deriving DecidableEq

/-- Reserve auditor error data type. -/
inductive Error where
  | notFound
  | alreadyExists (message : String)
  | objectNotSaved
  | depositAndMintMismatch (message : String)
  | withdrawalAndBurnMismatch (message : String)
  | ethereumTokenNotAudited (tokenAddr safeAddr : EthAddr) (txHash : EthTxHash)
  | gnosisSafeNotAudited (safeAddr : EthAddr)
  | ledgerDb (message : String)
  | decode (message : String)
  | unexpectedBlockIndex (got expected : ℕ)
  | diesel (err : DieselError)
  | r2d2Pool (message : String)
  | gnosis (err : GnosisError)
  | apiDisplay (message : String)
  | hexParse (message : String)
  | key (message : String)
  | invalidLength (expected got : ℕ)
  | invalidNonceIdentifier (identifier : Bytes)
  | viewKeyMatch (message : String)
  | signature (message : String)
  | other (message : String)

namespace Error

/-- `From<DieselError> for Error` -/
def ofDiesel : DieselError → Error
  | .notFound => .notFound
  | .databaseError .uniqueViolation info => .alreadyExists info
  | err => .diesel err

theorem ofDiesel_ne_gnosis (err : DieselError) (g : GnosisError) : ofDiesel err ≠ .gnosis g := by
  cases err with
  | notFound => simp [ofDiesel]
  | databaseError kind m => cases kind <;> simp [ofDiesel]

def shouldRetry : Error → Bool
  | .diesel .notFound => false
  | .diesel (.databaseError .foreignKeyViolation _) => false
  | .r2d2Pool _ => true
  | _ => false

end Error
end ReserveAuditor
