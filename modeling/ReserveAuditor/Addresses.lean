import ReserveAuditor.Config
import ReserveAuditor.Lib.HexOrder

/-! The comparison, order and hash of addresses (`gnosis/eth_data_types.rs`) are taken from
their lower-cased texts. They are those of the 20 bytes the texts stand for. -/
namespace ReserveAuditor

/-- `0x`, then 40 hexadecimal digits in either case. -/
def IsAddrText (src : String) : Prop :=
  ∃ digits, src.toList = '0' :: 'x' :: digits ∧ digits.length = 40 ∧
    ∀ c ∈ digits, Hex.IsCaseDigit c

/-- `std::hash::Hasher`, as far as a string feeds it. -/
class Hasher (H : Type) where
  writeStr : H → String → H

namespace EthAddr

def cmp (a b : EthAddr) : Ordering := compare a.toLowercase b.toLowercase

def partialCmp (a b : EthAddr) : Option Ordering := some (a.cmp b)

def hash {H : Type} [Hasher H] (a : EthAddr) (state : H) : H :=
  Hasher.writeStr state a.toLowercase

/-- The bytes an address stands for. -/
def bytes (a : EthAddr) : Bytes := (hexPayload a.text).getD []

theorem hexPayload_text (a : EthAddr) : hexPayload a.text = some a.bytes := by
  obtain ⟨bs,hbs,-⟩ := Option.map_eq_some_iff.mp a.valid
  rw [bytes, hbs, Option.getD_some]

theorem length_bytes (a : EthAddr) : a.bytes.length = 20 := by
  have hlen := a.valid
  rw [hexPayload_text, Option.map_some] at hlen
  exact Option.some.inj hlen

/-! ### The texts of addresses -/

theorem stripHexPrefix_eq_some (src : String) (digits : List Char) :
    stripHexPrefix src = some digits ↔ src.toList = '0' :: 'x' :: digits := by
  unfold stripHexPrefix
  split
  · rename_i rest heq
    simp [heq]
  · rename_i hne
    exact ⟨nofun,fun h => absurd h (hne digits)⟩

theorem valid_iff (src : String) :
    (hexPayload src).map List.length = some 20 ↔ IsAddrText src := by
  unfold hexPayload IsAddrText
  simp only [Option.map_eq_some_iff, Option.bind_eq_some_iff, stripHexPrefix_eq_some]
  constructor
  · rintro ⟨bs,⟨digits,hsrc,hbs⟩,hlen⟩
    exact ⟨digits,hsrc,(Hex.exists_decode_iff digits 20).mp ⟨bs,hbs,hlen⟩⟩
  · rintro ⟨digits,hsrc,hdigits⟩
    obtain ⟨bs,hbs,hlen⟩ := (Hex.exists_decode_iff digits 20).mpr hdigits
    exact ⟨bs,⟨digits,hsrc,hbs⟩,hlen⟩

/-- An accepted text is kept as it is. -/
theorem text_of_fromStr (src : String) (a : EthAddr) (h : fromStr src = .ok a) : a.text = src := by
  unfold fromStr at h
  split at h
  · cases h
  · split at h
    · cases h
    · split at h
      · cases h
      · split at h
        · cases h
          rfl
        · cases h

/-- Accepted are the texts of addresses and no others. -/
theorem exists_fromStr_iff (src : String) : (∃ a, fromStr src = .ok a) ↔ IsAddrText src := by
  rw [← valid_iff]
  constructor
  · rintro ⟨a,ha⟩
    rw [← text_of_fromStr src a ha]
    exact a.valid
  · intro hvalid
    exact ⟨⟨src,hvalid⟩,fromStr_text ⟨src,hvalid⟩⟩

/-- Lower-casing an address gives the text of its bytes. -/
theorem toList_toLowercase (a : EthAddr) :
    a.toLowercase.toList = '0' :: 'x' :: Hex.encodeChars a.bytes := by
  obtain ⟨digits,hdigits,hbs⟩ := Option.bind_eq_some_iff.mp (hexPayload_text a)
  rw [toLowercase, String.toList_ofList, (stripHexPrefix_eq_some a.text digits).mp hdigits,
    List.map_cons, List.map_cons, (Hex.decode_eq_some digits a.bytes).mp hbs]
  rfl

/-! ### Comparison and hashing -/

theorem beq_iff_bytes (a b : EthAddr) : (a == b) = true ↔ a.bytes = b.bytes := by
  rw [beq_iff, ← String.toList_inj, toList_toLowercase, toList_toLowercase, List.cons.injEq,
    List.cons.injEq, and_iff_right rfl, and_iff_right rfl]
  constructor
  · intro h
    exact Hex.encode_injective (congrArg String.ofList h)
  · exact congrArg Hex.encodeChars

theorem cmp_eq_compare (a b : EthAddr) : a.cmp b = compare a.bytes b.bytes := by
  rw [cmp, Hex.compare_toList, toList_toLowercase, toList_toLowercase, List.compare_cons_cons,
    List.compare_cons_cons, Std.compare_self, Std.compare_self, Ordering.eq_then,
    Ordering.eq_then, Hex.compare_encodeChars]

theorem cmp_eq_eq_iff (a b : EthAddr) : a.cmp b = .eq ↔ (a == b) = true := by
  rw [cmp_eq_compare, Std.compare_eq_iff_eq, beq_iff_bytes]

instance : Std.TransCmp EthAddr.cmp where
  eq_swap := by
    intro a b
    rw [cmp_eq_compare, cmp_eq_compare]
    exact Std.OrientedCmp.eq_swap
  isLE_trans := by
    intro a b c hab hbc
    rw [cmp_eq_compare] at hab hbc ⊢
    exact Std.TransCmp.isLE_trans hab hbc

/-- Of two addresses, one is at most the other. -/
theorem isLE_cmp_total (a b : EthAddr) : (a.cmp b).isLE = true ∨ (b.cmp a).isLE = true := by
  have hswap : a.cmp b = (b.cmp a).swap := Std.OrientedCmp.eq_swap
  rw [hswap]
  cases b.cmp a <;> decide

/-- A hasher is fed the text of the bytes. -/
theorem hash_eq {H : Type} [Hasher H] (a : EthAddr) (state : H) :
    a.hash state = Hasher.writeStr state ("0x" ++ Hex.encode a.bytes) := by
  have htext : a.toLowercase = "0x" ++ Hex.encode a.bytes := by
    apply String.toList_injective
    rw [toList_toLowercase, Hex.encode, String.toList_append, String.toList_ofList,
      String.toList_ofList]
    rfl
  rw [hash, htext]

end EthAddr

/-! ### Lookups by address -/

/-- A token is found by the bytes of its contract addresses. -/
theorem get_token_eq_find (c : AuditedSafeConfig) (addr : EthAddr) :
    c.getTokenByEthContractAddr addr = c.tokens.find? fun token =>
      (token.ethTokenContractAddrs.map EthAddr.bytes).contains addr.bytes := by
  have hcontains (l : List EthAddr) :
      l.contains addr = (l.map EthAddr.bytes).contains addr.bytes := by
    induction l with
    | nil => rfl
    | cons x l ih =>
      rw [List.contains_cons, List.map_cons, List.contains_cons, ih]
      congr 1
      rw [Bool.eq_iff_iff, EthAddr.beq_iff_bytes, beq_iff_eq]
  unfold AuditedSafeConfig.getTokenByEthContractAddr
  simp only [hcontains]

/-- A safe is found by the bytes of its address. -/
theorem get_safe_config_eq_find (c : GnosisSafeConfig) (addr : EthAddr) :
    c.getAuditedSafeConfigBySafeAddr addr = c.safes.find? fun safe =>
      safe.safeAddr.bytes == addr.bytes := by
  unfold GnosisSafeConfig.getAuditedSafeConfigBySafeAddr
  congr 1
  funext safe
  rw [Bool.eq_iff_iff, EthAddr.beq_iff_bytes, beq_iff_eq]

/-- Addresses are read from exactly the texts `0x` and 40 digits in either case and keep their
text; they are equal, ordered, hashed and looked up as the 20 bytes the text decodes to. -/
theorem eth_addr_compares_bytes :
    (∀ src, (∃ a, EthAddr.fromStr src = .ok a) ↔ IsAddrText src) ∧
    (∀ src a, EthAddr.fromStr src = .ok a → a.text = src) ∧
    (∀ a : EthAddr, EthAddr.fromStr a.text = .ok a ∧ hexPayload a.text = some a.bytes ∧
      a.bytes.length = 20) ∧
    (∀ a b : EthAddr, ((a == b) = true ↔ a.bytes = b.bytes) ∧
      (a.cmp b = .eq ↔ a.bytes = b.bytes) ∧ a.cmp b = compare a.bytes b.bytes ∧
      a.partialCmp b = some (compare a.bytes b.bytes)) ∧
    (∀ a b : EthAddr, a.cmp b = (b.cmp a).swap ∧
      ((a.cmp b).isLE = true ∨ (b.cmp a).isLE = true)) ∧
    (∀ a b c : EthAddr, (a.cmp b).isLE = true → (b.cmp c).isLE = true → (a.cmp c).isLE = true) ∧
    (∀ (H : Type) [Hasher H] (state : H) (a b : EthAddr), (a == b) = true →
      a.hash state = b.hash state) ∧
    (∀ (c : AuditedSafeConfig) (a b : EthAddr), a.bytes = b.bytes →
      c.getTokenByEthContractAddr a = c.getTokenByEthContractAddr b) ∧
    (∀ (c : GnosisSafeConfig) (a b : EthAddr), a.bytes = b.bytes →
      c.getAuditedSafeConfigBySafeAddr a = c.getAuditedSafeConfigBySafeAddr b) := by
  refine ⟨EthAddr.exists_fromStr_iff,EthAddr.text_of_fromStr,fun a => ?_,fun a b => ?_,
    fun a b => ?_,fun a b c hab hbc => ?_,fun H hH state a b hab => ?_,fun c a b hab => ?_,
    fun c a b hab => ?_⟩
  · exact ⟨a.fromStr_text,a.hexPayload_text,a.length_bytes⟩
  · have heq := (EthAddr.cmp_eq_eq_iff a b).trans (EthAddr.beq_iff_bytes a b)
    have hcmp := EthAddr.cmp_eq_compare a b
    exact ⟨EthAddr.beq_iff_bytes a b,heq,hcmp,congrArg some hcmp⟩
  · exact ⟨Std.OrientedCmp.eq_swap,EthAddr.isLE_cmp_total a b⟩
  · exact Std.TransCmp.isLE_trans hab hbc
  · rw [EthAddr.hash_eq, EthAddr.hash_eq, (EthAddr.beq_iff_bytes a b).mp hab]
  · rw [get_token_eq_find, get_token_eq_find, hab]
  · rw [get_safe_config_eq_find, get_safe_config_eq_find, hab]

end ReserveAuditor
