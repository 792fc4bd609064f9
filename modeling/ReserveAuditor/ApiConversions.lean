import ReserveAuditor.Models

/-! Deposits and withdrawals as messages of the API, and back (`convert/gnosis_safe_deposit.rs`,
`convert/gnosis_safe_withdrawal.rs`). -/
namespace ReserveAuditor
open Txn

/-- An object as the code holds it: its `id`, which Diesel reads as `i32`, and its other columns.
An object that is built with `new` can have any id. -/
structure Keyed (ρ : Type) where
  id : Option Int32
  row : ρ

/-- The messages of the API refer to other crates: keys and their messages (`mc_crypto_keys`,
`mc_api`), and points in time (`chrono`). -/
structure ApiExternals where
  Key : Type
  /-- `CompressedRistrettoPublic::try_from` -/
  keyTryFrom : Bytes → Except String Key
  /-- The data of the `external::CompressedRistretto` message of a key. -/
  keyData : Key → Bytes
  /-- `DateTime::timestamp_nanos_opt` -/
  timestampNanosOpt : DateTime → Option Int64
  /-- `Utc.timestamp_nanos` -/
  timestampNanos : Int64 → DateTime

/-- The nanoseconds from the epoch fit an `i64`. -/
def FitsNanos (t : DateTime) : Prop := -2^63 ≤ t ∧ t < 2^63

instance (t : DateTime) : Decidable (FitsNanos t) := inferInstanceAs (Decidable (_ ∧ _))

/-- What the auditor relies on: the message of a key carries its 32 bytes unchanged, and a date that
fits is its number of nanoseconds. -/
structure ApiExternals.Documented (api : ApiExternals) : Prop where
  carries : ∀ bytes : Bytes, bytes.length = 32 →
    ∃ key, api.keyTryFrom bytes = .ok key ∧ api.keyData key = bytes
  nanos : ∀ t, FitsNanos t → api.timestampNanosOpt t = some (Int64.ofInt t)
  date : ∀ n, api.timestampNanos n = n.toInt

/-- The id of a message: 0 stands for none. -/
def protoId (id : Option Int32) : Int32 := id.getD 0

def idOfProto (id : Int32) : Option Int32 := if id = 0 then none else some id

theorem idOfProto_protoId {id : Option Int32} (hid : id ≠ some 0) :
    idOfProto (protoId id) = id := by
  cases id with
  | none => rfl
  | some n =>
    have hn : n ≠ 0 := fun h => hid (congrArg some h)
    simp [idOfProto, protoId, hn]

/-- The nanoseconds of a message, as `u64`. -/
def protoDate (api : ApiExternals) (t : DateTime) : Outcome Error UInt64 := do
  let nanos ← Outcome.unwrap "Invalid execution_date stored in database" (api.timestampNanosOpt t)
  pure nanos.toUInt64

def dateOfProto (api : ApiExternals) (nanos : UInt64) : DateTime :=
  api.timestampNanos nanos.toInt64

/-- A date that fits goes through the `u64` of a message, before the epoch too. -/
theorem exists_protoDate {api : ApiExternals} (hapi : api.Documented) {t : DateTime}
    (ht : FitsNanos t) : ∃ nanos, protoDate api t = .ok nanos ∧ dateOfProto api nanos = t := by
  obtain ⟨hlo,hhi⟩ := ht
  refine ⟨(Int64.ofInt t).toUInt64,?_,?_⟩
  · rw [protoDate, hapi.nanos t ⟨hlo,hhi⟩]
    rfl
  · rw [dateOfProto, Int64.toInt64_toUInt64, hapi.date]
    exact Int64.toInt_ofInt_of_le hlo hhi

theorem ethTxHash_fromStr (h : EthTxHash) :
    (EthTxHash.fromStr (toString h)).mapError Error.gnosis = .ok h := by
  rw [show toString h = h.toString from rfl, EthTxHash.fromStr_toString]
  rfl

theorem ethTxValue_fromStr (v : EthTxValue) :
    (EthTxValue.fromStr v.toString).mapError Error.gnosis = .ok v := by
  rw [EthTxValue.fromStr_toString]
  rfl

theorem ethAddr_fromStr (a : EthAddr) :
    (EthAddr.fromStr (toString a)).mapError Error.gnosis = .ok a := by
  rw [show toString a = a.text from rfl, EthAddr.fromStr_text]
  rfl

/-! ### Deposits -/

structure ProtoGnosisSafeDeposit where
  id : Int32
  ethTxHash : String
  ethTxValue : String
  ethBlockNumber : UInt64
  safeAddr : String
  tokenAddr : String
  fromAddr : String
  amount : UInt64
  expectedMcMintTxNonceHex : String
  executionDate : UInt64

/-- `GnosisSafeDeposit::new` -/
def Keyed.newDeposit (id : Option Int32) (ethTxHash : EthTxHash) (executionDate : DateTime)
    (ethTxValue : EthTxValue) (ethBlockNumber : UInt64) (safeAddr tokenAddr fromAddr : EthAddr)
    (amount : UInt64) : Keyed GnosisSafeDeposit :=
  ⟨id,.new none ethTxHash executionDate ethTxValue ethBlockNumber safeAddr tokenAddr fromAddr amount⟩

namespace ProtoGnosisSafeDeposit

/-- `From<&DbGnosisSafeDeposit>` -/
def ofDb (api : ApiExternals) (src : Keyed GnosisSafeDeposit) :
    Outcome Error ProtoGnosisSafeDeposit := do
  let executionDate ← protoDate api src.row.executionDate
  pure {
    id := protoId src.id
    ethTxHash := toString src.row.ethTxHash
    ethTxValue := src.row.ethTxValue.toString
    ethBlockNumber := src.row.getEthBlockNumber
    safeAddr := toString src.row.safeAddr
    tokenAddr := toString src.row.tokenAddr
    fromAddr := toString src.row.fromAddr
    amount := src.row.getAmount
    expectedMcMintTxNonceHex := src.row.expectedMcMintTxNonceHex
    executionDate := executionDate }

/-- `TryFrom<&ProtoGnosisSafeDeposit>`. The expected nonce of the message is not looked at. -/
def toDb (api : ApiExternals) (src : ProtoGnosisSafeDeposit) :
    Except Error (Keyed GnosisSafeDeposit) := do
  let executionDate := dateOfProto api src.executionDate
  pure (Keyed.newDeposit (idOfProto src.id)
    (← (EthTxHash.fromStr src.ethTxHash).mapError .gnosis)
    executionDate
    (← (EthTxValue.fromStr src.ethTxValue).mapError .gnosis)
    src.ethBlockNumber
    (← (EthAddr.fromStr src.safeAddr).mapError .gnosis)
    (← (EthAddr.fromStr src.tokenAddr).mapError .gnosis)
    (← (EthAddr.fromStr src.fromAddr).mapError .gnosis)
    src.amount)

end ProtoGnosisSafeDeposit

/-! ### Withdrawals -/

structure ProtoGnosisSafeWithdrawal where
  id : Int32
  ethTxHash : String
  ethTxValue : String
  ethBlockNumber : UInt64
  safeAddr : String
  tokenAddr : String
  toAddr : String
  amount : UInt64
  /-- The data of the message `external::CompressedRistretto`. -/
  mcTxOutPubKey : Bytes
  executionDate : UInt64

/-- `GnosisSafeWithdrawal::new` -/
def Keyed.newWithdrawal (id : Option Int32) (ethTxHash : EthTxHash) (executionDate : DateTime)
    (ethTxValue : EthTxValue) (ethBlockNumber : UInt64) (safeAddr tokenAddr toAddr : EthAddr)
    (amount : UInt64) (mcTxOutPublicKeyHex : String) : Keyed GnosisSafeWithdrawal :=
  ⟨id,.new none ethTxHash executionDate ethTxValue ethBlockNumber safeAddr tokenAddr toAddr amount
    mcTxOutPublicKeyHex⟩

namespace ProtoGnosisSafeWithdrawal

/-- `TryFrom<&DbGnosisSafeWithdrawal>` -/
def ofDb (api : ApiExternals) (src : Keyed GnosisSafeWithdrawal) :
    Outcome Error ProtoGnosisSafeWithdrawal := do
  let mcTxOutPubKey ← Outcome.ofExcept (src.row.mcTxOutPublicKey api.keyTryFrom)
  let executionDate ← protoDate api src.row.executionDate
  pure {
    id := protoId src.id
    ethTxHash := toString src.row.ethTxHash
    ethTxValue := src.row.ethTxValue.toString
    ethBlockNumber := src.row.getEthBlockNumber
    safeAddr := toString src.row.safeAddr
    tokenAddr := toString src.row.tokenAddr
    toAddr := toString src.row.toAddr
    amount := src.row.getAmount
    mcTxOutPubKey := api.keyData mcTxOutPubKey
    executionDate := executionDate }

/-- `TryFrom<&ProtoGnosisSafeWithdrawal>` -/
def toDb (api : ApiExternals) (src : ProtoGnosisSafeWithdrawal) :
    Except Error (Keyed GnosisSafeWithdrawal) := do
  let executionDate := dateOfProto api src.executionDate
  pure (Keyed.newWithdrawal (idOfProto src.id)
    (← (EthTxHash.fromStr src.ethTxHash).mapError .gnosis)
    executionDate
    (← (EthTxValue.fromStr src.ethTxValue).mapError .gnosis)
    src.ethBlockNumber
    (← (EthAddr.fromStr src.safeAddr).mapError .gnosis)
    (← (EthAddr.fromStr src.tokenAddr).mapError .gnosis)
    (← (EthAddr.fromStr src.toAddr).mapError .gnosis)
    src.amount
    (Hex.encode src.mcTxOutPubKey))

end ProtoGnosisSafeWithdrawal

/-! ### There and back -/

/-- A deposit comes back equal from its message. -/
theorem deposit_round_trip {api : ApiExternals} (hapi : api.Documented) {id : Option Int32}
    (hid : id ≠ some 0) (h : EthTxHash) {t : DateTime} (ht : FitsNanos t) (v : EthTxValue)
    (block : UInt64) (safe token source : EthAddr) (amount : UInt64) :
    ∃ message, ProtoGnosisSafeDeposit.ofDb api
        (Keyed.newDeposit id h t v block safe token source amount) = .ok message ∧
      message.toDb api = .ok (Keyed.newDeposit id h t v block safe token source amount) := by
  obtain ⟨nanos,hnanos,hdate⟩ := exists_protoDate hapi ht
  -- the columns are signed, and give back the same word
  have hblock : block.toInt64.toUInt64 = block := UInt64.toUInt64_toInt64 block
  have hamount : amount.toInt64.toUInt64 = amount := UInt64.toUInt64_toInt64 amount
  simp only [ProtoGnosisSafeDeposit.ofDb, Keyed.newDeposit, GnosisSafeDeposit.new, hnanos,
    Outcome.ok_bind]
  refine ⟨_,rfl,?_⟩
  simp only [ProtoGnosisSafeDeposit.toDb, GnosisSafeDeposit.getEthBlockNumber,
    GnosisSafeDeposit.getAmount, ethTxHash_fromStr, ethTxValue_fromStr, ethAddr_fromStr, hblock,
    hamount, hdate, idOfProto_protoId hid]
  rfl

/-- A withdrawal comes back equal from its message. -/
theorem withdrawal_round_trip {api : ApiExternals} (hapi : api.Documented) {id : Option Int32}
    (hid : id ≠ some 0) (h : EthTxHash) {t : DateTime} (ht : FitsNanos t) (v : EthTxValue)
    (block : UInt64) (safe token recipient : EthAddr) (amount : UInt64) {keyHex : String}
    (hlen : keyHex.toList.length = 64) (hdigits : ∀ c ∈ keyHex.toList, Hex.IsDigit c) :
    ∃ message, ProtoGnosisSafeWithdrawal.ofDb api
        (Keyed.newWithdrawal id h t v block safe token recipient amount keyHex) = .ok message ∧
      message.toDb api =
        .ok (Keyed.newWithdrawal id h t v block safe token recipient amount keyHex) := by
  obtain ⟨nanos,hnanos,hdate⟩ := exists_protoDate hapi ht
  -- 64 lower-case digits are the encoding of 32 bytes, which make a key
  obtain ⟨bytes,hbytes,htext⟩ := Hex.exists_encodeChars (n := 32) hlen hdigits
  obtain ⟨key,hkey,hdata⟩ := hapi.carries bytes hbytes
  have hencode : Hex.encode bytes = keyHex := by
    rw [Hex.encode, htext, String.ofList_toList]
  have hdecode : Hex.decode keyHex.toList = some bytes := by
    rw [← htext, Hex.decode_encodeChars]
  have hblock : block.toInt64.toUInt64 = block := UInt64.toUInt64_toInt64 block
  have hamount : amount.toInt64.toUInt64 = amount := UInt64.toUInt64_toInt64 amount
  simp only [ProtoGnosisSafeWithdrawal.ofDb, Keyed.newWithdrawal, GnosisSafeWithdrawal.new,
    GnosisSafeWithdrawal.mcTxOutPublicKey, hdecode, hkey, Except.mapError, Outcome.ofExcept,
    hnanos, Outcome.ok_bind]
  refine ⟨_,rfl,?_⟩
  simp only [ProtoGnosisSafeWithdrawal.toDb, GnosisSafeWithdrawal.getEthBlockNumber,
    GnosisSafeWithdrawal.getAmount, ethTxHash_fromStr, ethTxValue_fromStr, ethAddr_fromStr,
    hblock, hamount, hdate, idOfProto_protoId hid, hdata, hencode]
  rfl

/-- Deposits and withdrawals come back equal from their messages. -/
theorem api_conversions_lossless (api : ApiExternals) (hapi : api.Documented) (id : Option Int32)
    (hid : id ≠ some 0) (h : EthTxHash) (t : DateTime) (ht : FitsNanos t) (v : EthTxValue)
    (block : UInt64) (safe token other : EthAddr) (amount : UInt64) :
    (∃ message, ProtoGnosisSafeDeposit.ofDb api
        (Keyed.newDeposit id h t v block safe token other amount) = .ok message ∧
      message.toDb api = .ok (Keyed.newDeposit id h t v block safe token other amount)) ∧
    ∀ keyHex : String, keyHex.toList.length = 64 → (∀ c ∈ keyHex.toList, Hex.IsDigit c) →
      ∃ message, ProtoGnosisSafeWithdrawal.ofDb api
          (Keyed.newWithdrawal id h t v block safe token other amount keyHex) = .ok message ∧
        message.toDb api =
          .ok (Keyed.newWithdrawal id h t v block safe token other amount keyHex) :=
  ⟨deposit_round_trip hapi hid h ht v block safe token other amount,
    fun _ hlen hdigits =>
      withdrawal_round_trip hapi hid h ht v block safe token other amount hlen hdigits⟩

/-- Keys of 32 bytes, and dates that are numbers of nanoseconds. -/
def plainApi : ApiExternals where
  Key := Bytes
  keyTryFrom bytes := if bytes.length = 32 then .ok bytes else .error "Invalid public key"
  keyData key := key
  timestampNanosOpt t := if FitsNanos t then some (Int64.ofInt t) else none
  timestampNanos := Int64.toInt

theorem plainApi_documented : plainApi.Documented where
  carries bytes hbytes := ⟨bytes,if_pos hbytes,rfl⟩
  nanos _ ht := if_pos ht
  date _ := rfl

/-- A nanosecond before the epoch, between addresses in mixed case. -/
theorem earlyTransfer_lossless :
    let a : EthAddr := ⟨"0xeC018400FFe5Ad6E0B42Aa592Ee1CF6092972dEB",by decide +kernel⟩
    let h : EthTxHash := ⟨List.replicate 32 0x11,rfl⟩
    (∃ message, ProtoGnosisSafeDeposit.ofDb plainApi
        (Keyed.newDeposit (some 10) h (-1) 5 7 a a a (2^64-1)) = .ok message ∧
      message.toDb plainApi = .ok (Keyed.newDeposit (some 10) h (-1) 5 7 a a a (2^64-1))) ∧
    ∃ message, ProtoGnosisSafeWithdrawal.ofDb plainApi
        (Keyed.newWithdrawal (some 10) h (-1) 5 7 a a a (2^64-1)
          (Hex.encode (List.replicate 32 0xab))) = .ok message ∧
      message.toDb plainApi = .ok (Keyed.newWithdrawal (some 10) h (-1) 5 7 a a a (2^64-1)
        (Hex.encode (List.replicate 32 0xab))) := by
  intro a h
  obtain ⟨hdeposit,hwithdrawal⟩ := api_conversions_lossless plainApi plainApi_documented (some 10)
    (by decide) h (-1) (by decide) 5 7 a a a (2^64-1)
  refine ⟨hdeposit,hwithdrawal _ ?_ ?_⟩
  · rw [Hex.encode, String.toList_ofList, Hex.length_encodeChars, List.length_replicate]
  · intro c hc
    rw [Hex.encode, String.toList_ofList] at hc
    exact Hex.isDigit_of_mem_encodeChars hc

end ReserveAuditor
