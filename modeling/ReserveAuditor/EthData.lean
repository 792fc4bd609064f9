import ReserveAuditor.Lib.Hex
import Mathlib.Tactic

/-! Ethereum addresses, transaction hashes and transaction values
(`gnosis/eth_data_types.rs`), and the errors of the Gnosis side (`gnosis/error.rs`). -/
namespace ReserveAuditor

abbrev Bytes := List UInt8

inductive GnosisError where
  | json (message : String)
  | invalidAddress (message : String)
  | invalidTxHash (message : String)
  | invalidTxValue (message : String)
  | apiResultParse (message : String)
  | unknownToken (message : String)
  | other (message : String)
deriving DecidableEq

instance : ToString GnosisError := ⟨fun
  | .json message => s!"JSON: {message}"
  | .invalidAddress message => s!"Invalid address: {message}"
  | .invalidTxHash message => s!"Invalid tx hash: {message}"
  | .invalidTxValue message => s!"Invalid tx value: {message}"
  | .apiResultParse message => s!"Api result parse error: {message}"
  | .unknownToken message => s!"Unknown Token: {message}"
  | .other message => s!"Other: {message}"⟩

/-- The text after a leading `0x`. -/
def stripHexPrefix (text : String) : Option (List Char) :=
  match text.toList with
  | '0' :: 'x' :: rest => some rest
  | _ => none

def hexPayload (text : String) : Option Bytes := (stripHexPrefix text).bind Hex.decode

/-! ### Transaction values -/

/-- Ethereum transaction value: a `u128`. -/
abbrev EthTxValue := BitVec 128

def parseU128Digit (acc : Option ℕ) (c : Char) : Option ℕ := do
  let n ← acc
  if '0' ≤ c ∧ c ≤ '9' then
    let m := 10*n+(c.toNat-48)
    if m < 2^128 then some m else none
  else none

/-- `str::parse::<u128>`: an optional plus sign, then digits. -/
def parseU128 (text : String) : Option EthTxValue :=
  let digits := match text.toList with
    | '+' :: rest => rest
    | cs => cs
  if digits.isEmpty then none
  else (digits.foldl parseU128Digit (some 0)).map (BitVec.ofNat 128)

namespace EthTxValue

def fromStr (src : String) : Except GnosisError EthTxValue :=
  match parseU128 src with
  | none => .error (.invalidTxValue s!"unable to parse value to EthTxValue: {src}")
  | some ethTxValue => .ok ethTxValue

protected def toString (v : EthTxValue) : String := Nat.repr v.toNat

theorem parseU128Digit_digitChar (acc : ℕ) {d : ℕ} (hd : d < 10) :
    parseU128Digit (some acc) d.digitChar =
      if 10*acc+d < 2^128 then some (10*acc+d) else none := by
  have hdigit : ∀ d < 10, '0' ≤ d.digitChar ∧ d.digitChar ≤ '9' ∧ d.digitChar.toNat-48 = d := by
    decide
  obtain ⟨hlo,hhi,hval⟩ := hdigit d hd
  simp only [parseU128Digit, Option.bind_eq_bind, Option.bind_some, hlo, hhi, and_self, if_true, hval]

/-- The decimal digits of a value are read back to it. -/
theorem foldl_toDigits (n : ℕ) (hn : n < 2^128) :
    (Nat.toDigits 10 n).foldl parseU128Digit (some 0) = some n := by
  induction n using Nat.strongRecOn with
  | ind n ih =>
    by_cases hlt : n < 10
    · rw [Nat.toDigits_of_lt_base hlt, List.foldl_cons, List.foldl_nil,
        parseU128Digit_digitChar 0 hlt, if_pos (by omega)]
      simp
    · have hmod : n%10 < 10 := Nat.mod_lt _ (by norm_num)
      -- the last digit is read last, onto the value of those before it
      rw [Nat.toDigits_of_base_le (by norm_num) (not_lt.mp hlt), List.foldl_append,
        ih (n/10) (by omega) (by omega), List.foldl_cons, List.foldl_nil,
        parseU128Digit_digitChar _ hmod, Nat.div_add_mod, if_pos hn]

/-- A value reads back from its text. -/
theorem fromStr_toString (v : EthTxValue) : fromStr v.toString = .ok v := by
  have hdigits : v.toString.toList = Nat.toDigits 10 v.toNat := Nat.toList_repr
  have hne : Nat.toDigits 10 v.toNat ≠ [] := Nat.toDigits_ne_nil
  -- no digit is the sign that may stand in front
  have hplus (rest : List Char) : Nat.toDigits 10 v.toNat ≠ '+' :: rest := by
    intro h
    have hc : '+' ∈ Nat.toDigits 10 v.toNat := h ▸ List.mem_cons_self
    have hd := Nat.isDigit_of_mem_toDigits (by norm_num) (by norm_num) hc
    exact absurd hd (by decide)
  have hparse : parseU128 v.toString = some v := by
    unfold parseU128
    rw [hdigits]
    split
    · rename_i rest heq
      exact (hplus rest heq).elim
    · simp only [List.isEmpty_iff, hne, if_false, foldl_toDigits _ v.isLt, Option.map_some,
        BitVec.ofNat_toNat, BitVec.setWidth_eq]
  simp only [fromStr, hparse]

end EthTxValue

/-! ### Addresses -/

/-- Ethereum 20 byte address, kept as the text it was read from. -/
structure EthAddr where
  text : String
  valid : (hexPayload text).map List.length = some 20

namespace EthAddr

def fromStr (src : String) : Except GnosisError EthAddr :=
  if src.isEmpty then .error (.invalidAddress "empty address")
  else if (stripHexPrefix src).isNone then
    .error (.invalidAddress s!"expected address to begin with 0x, instead found {src}")
  else match h : hexPayload src with
    | none => .error (.invalidAddress s!"unable to convert address to bytes for address: {src}")
    | some bytes =>
      if hl : bytes.length = 20 then .ok ⟨src, by simp [h, hl]⟩
      else .error (.invalidAddress
        s!"expected byte conversion of address {src} to be equal to 20, instead found {bytes.length}")

def toLowercase (a : EthAddr) : String := String.ofList (a.text.toList.map Char.toLower)

/-- Ethereum addresses are case-insensitive. -/
instance : BEq EthAddr := ⟨fun a b => a.toLowercase == b.toLowercase⟩

instance : ToString EthAddr := ⟨EthAddr.text⟩

/-- An address reads back as itself. -/
theorem fromStr_text (a : EthAddr) : fromStr a.text = .ok a := by
  obtain ⟨bytes,hbytes,hlen⟩ := Option.map_eq_some_iff.mp a.valid
  obtain ⟨digits,hdigits,-⟩ := Option.bind_eq_some_iff.mp hbytes
  have hne : a.text.isEmpty = false := by
    by_contra h
    rw [Bool.not_eq_false, String.isEmpty_iff] at h
    simp [h, stripHexPrefix] at hdigits
  simp only [fromStr, hne, hdigits, Option.isNone_some, Bool.false_eq_true, if_false]
  split
  · simp_all
  · rename_i bytes' h
    obtain rfl := Option.some.inj (hbytes.symm.trans h)
    rw [dif_pos hlen]

theorem beq_iff (a b : EthAddr) : (a == b) = true ↔ a.toLowercase = b.toLowercase := by
  change (a.toLowercase == b.toLowercase) = true ↔ _
  exact beq_iff_eq

theorem beq_refl (a : EthAddr) : (a == a) = true := (beq_iff a a).mpr rfl

theorem beq_congr_right {a b : EthAddr} (h : (a == b) = true) (c : EthAddr) :
    (c == a) = (c == b) := by
  rw [Bool.eq_iff_iff, beq_iff, beq_iff, (beq_iff a b).mp h]

theorem beq_congr_left {a b : EthAddr} (h : (a == b) = true) (c : EthAddr) :
    (a == c) = (b == c) := by
  rw [Bool.eq_iff_iff, beq_iff, beq_iff, (beq_iff a b).mp h]

theorem contains_congr {a b : EthAddr} (h : (a == b) = true) (l : List EthAddr) :
    l.contains a = l.contains b := by
  induction l with
  | nil => rfl
  | cons c l ih => simp only [List.contains_cons, ih, beq_congr_left h c]

end EthAddr

/-! ### Transaction hashes -/

/-- Ethereum 32 byte transaction hash. -/
structure EthTxHash where
  bytes : Bytes
  len : bytes.length = 32
deriving DecidableEq

namespace EthTxHash

def tryFrom (src : Bytes) : Except GnosisError EthTxHash :=
  if h : src.length = 32 then .ok ⟨src,h⟩ else .error (.invalidTxHash (Hex.encode src))

def fromStr (src : String) : Except GnosisError EthTxHash :=
  if (stripHexPrefix src).isNone then .error (.invalidTxHash src)
  else match hexPayload src with
    | none => .error (.invalidTxHash src)
    | some bytes => tryFrom bytes

protected def toString (h : EthTxHash) : String := "0x" ++ Hex.encode h.bytes

instance : ToString EthTxHash := ⟨EthTxHash.toString⟩

/-- A hash reads back from its text. -/
theorem fromStr_toString (h : EthTxHash) : fromStr h.toString = .ok h := by
  have hstrip : stripHexPrefix h.toString = some (Hex.encodeChars h.bytes) := by
    simp [stripHexPrefix, EthTxHash.toString, Hex.encode]
  have hpayload : hexPayload h.toString = some h.bytes := by
    simp [hexPayload, hstrip, Hex.decode_encodeChars]
  simp only [fromStr, hstrip, Option.isNone_some, Bool.false_eq_true, if_false, hpayload]
  exact dif_pos h.len

theorem toString_injective : Function.Injective EthTxHash.toString := by
  intro a b h
  have ht := congrArg String.toList h
  simp only [EthTxHash.toString, String.toList_append, List.append_cancel_left_eq] at ht
  have hb := Hex.encode_injective (String.toList_injective ht)
  cases a
  cases b
  cases hb
  rfl

end EthTxHash

/-! ### The nonce of a mint backed by a deposit -/

/-- `MintTxNonce::EthereumGnosisDeposit(h).to_bytes()`: the identifier byte, the hash and
31 zero bytes. -/
def mintTxNonceBytes (h : EthTxHash) : Bytes := 0x01 :: h.bytes ++ List.replicate 31 0

theorem mintTxNonceBytes_length (h : EthTxHash) : (mintTxNonceBytes h).length = 64 := by
  simp [mintTxNonceBytes, h.len]

theorem mintTxNonceBytes_injective : Function.Injective mintTxNonceBytes := by
  intro a b h
  have hb : a.bytes = b.bytes := by
    simpa only [mintTxNonceBytes, List.cons_append, List.cons.injEq, true_and,
      List.append_cancel_right_eq] using h
  cases a
  cases b
  cases hb
  rfl

end ReserveAuditor
