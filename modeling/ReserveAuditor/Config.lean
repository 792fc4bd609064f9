import ReserveAuditor.Core
import ReserveAuditor.Lib.Program

/-! The safes and tokens to audit (`gnosis/config.rs`) and the truncation of token
values to the audited precision (`gnosis/utils.rs`). -/
namespace ReserveAuditor
open Txn

structure AuditedToken where
  tokenId : TokenId
  ethTokenContractAddrs : List EthAddr
  decimals : UInt8
  auxBurnContractAddr : EthAddr
  auxBurnFunctionSig : Vector UInt8 4

structure AuditedSafeConfig where
  safeAddr : EthAddr
  tokens : List AuditedToken
  tokenDecimalsMax : UInt8

structure GnosisSafeConfig where
  safes : List AuditedSafeConfig

/-- Get an audited token by its Ethereum contract address. -/
def AuditedSafeConfig.getTokenByEthContractAddr (c : AuditedSafeConfig) (addr : EthAddr) :
    Option AuditedToken :=
  c.tokens.find? (fun token => token.ethTokenContractAddrs.contains addr)

/-- Get an audited safe by its safe address. -/
def GnosisSafeConfig.getAuditedSafeConfigBySafeAddr (c : GnosisSafeConfig) (addr : EthAddr) :
    Option AuditedSafeConfig :=
  c.safes.find? (fun safe => safe.safeAddr == addr)

/-- The safes have pairwise different addresses. -/
def GnosisSafeConfig.Distinct (c : GnosisSafeConfig) : Prop :=
  c.safes.Pairwise (fun x y => (x.safeAddr == y.safeAddr) = false)

theorem get_safe_config_of_beq (c : GnosisSafeConfig) (hd : c.Distinct) (safe : AuditedSafeConfig)
    (hs : safe ∈ c.safes) (addr : EthAddr) (ha : (addr == safe.safeAddr) = true) :
    c.getAuditedSafeConfigBySafeAddr addr = some safe := by
  have hsa : (safe.safeAddr == addr) = true := by
    rw [EthAddr.beq_iff] at ha ⊢
    exact ha.symm
  unfold GnosisSafeConfig.getAuditedSafeConfigBySafeAddr
  obtain ⟨l₁,l₂,hl⟩ := List.append_of_mem hs
  have hd' := hd
  rw [GnosisSafeConfig.Distinct, hl, List.pairwise_append] at hd'
  rw [hl, List.find?_append, List.find?_eq_none.mpr, Option.none_or, List.find?_cons, hsa]
  intro x hx
  -- no safe before it has the address
  rw [EthAddr.beq_congr_right ha x.safeAddr, hd'.2.2 x hx safe List.mem_cons_self]
  simp

theorem get_safe_config_congr (c : GnosisSafeConfig) {a b : EthAddr} (h : (a == b) = true) :
    c.getAuditedSafeConfigBySafeAddr a = c.getAuditedSafeConfigBySafeAddr b := by
  unfold GnosisSafeConfig.getAuditedSafeConfigBySafeAddr
  simp only [EthAddr.beq_congr_right h]

theorem get_token_congr (c : AuditedSafeConfig) {a b : EthAddr} (h : (a == b) = true) :
    c.getTokenByEthContractAddr a = c.getTokenByEthContractAddr b := by
  unfold AuditedSafeConfig.getTokenByEthContractAddr
  simp only [EthAddr.contains_congr h]

/-- Divide a token value down to the audited precision. Release arithmetic: the power of
ten wraps, and a zero divisor panics. -/
def reduceOrders (tokenValue : EthTxValue) (tokenDecimals maxDecimals : UInt8) :
    Outcome GnosisError EthTxValue :=
  if tokenDecimals > maxDecimals then
    let ordersReducedBy := (tokenDecimals-maxDecimals).toNat
    let denominator := BitVec.ofNat 128 (10^ordersReducedBy)
    if denominator = 0 then .panic "attempt to divide by zero"
    else .ok (tokenValue/denominator)
  else .ok tokenValue

/-- Truncate the raw value of an Ethereum token transaction down to the precision used on
the MobileCoin side. -/
def truncateValue (rawTokenValue : EthTxValue) (tokenDecimals maxDecimals : UInt8) :
    Outcome GnosisError UInt64 := do
  let tokenValue ← reduceOrders rawTokenValue tokenDecimals maxDecimals
  if tokenValue.toNat < 2^64 then .ok (UInt64.ofNat tokenValue.toNat)
  else .panic "Failed to truncate EthTxValue token value to u64"

/-- The divisor is the power of ten modulo `2^128`. -/
theorem reduceOrders_of_ne_zero (v : EthTxValue) (d m : UInt8)
    (hpow : 10^(d.toNat-m.toNat)%2^128 ≠ 0) :
    ∃ w, reduceOrders v d m = .ok w ∧ w.toNat = v.toNat/(10^(d.toNat-m.toNat)%2^128) := by
  unfold reduceOrders
  by_cases hgt : d > m
  · have hsub : (d-m).toNat = d.toNat-m.toNat := UInt8.toNat_sub_of_le d m (UInt8.le_of_lt hgt)
    have hne : BitVec.ofNat 128 (10^(d.toNat-m.toNat)) ≠ 0 := by
      intro h
      have hzero := congrArg BitVec.toNat h
      rw [BitVec.toNat_ofNat] at hzero
      exact hpow hzero
    rw [if_pos hgt, hsub]
    exact ⟨_,if_neg hne,by rw [BitVec.toNat_udiv, BitVec.toNat_ofNat]⟩
  · have hdm : d.toNat ≤ m.toNat := UInt8.le_iff_toNat_le.mp (UInt8.not_lt.mp hgt)
    -- no more decimals than allowed: the value stays
    rw [if_neg hgt, Nat.sub_eq_zero_of_le hdm, pow_zero]
    exact ⟨v,rfl,(Nat.div_one _).symm⟩

/-- No value is divided by a power of ten that has wrapped to zero. -/
theorem reduceOrders_of_eq_zero (v : EthTxValue) (d m : UInt8)
    (hpow : 10^(d.toNat-m.toNat)%2^128 = 0) :
    reduceOrders v d m = .panic "attempt to divide by zero" := by
  -- only a power that wrapped to zero panics, and 10^0 did not
  have hgt : d > m := by
    by_contra hle
    rw [Nat.sub_eq_zero_of_le (UInt8.le_iff_toNat_le.mp (UInt8.not_lt.mp hle))] at hpow
    norm_num at hpow
  have hsub : (d-m).toNat = d.toNat-m.toNat := UInt8.toNat_sub_of_le d m (UInt8.le_of_lt hgt)
  have hzero : BitVec.ofNat 128 (10^(d.toNat-m.toNat)) = 0 := by
    apply BitVec.eq_of_toNat_eq
    rw [BitVec.toNat_ofNat, hpow]
    rfl
  unfold reduceOrders
  rw [if_pos hgt, hsub]
  exact if_pos hzero

/-- A value is truncated to its quotient by the wrapped power of ten, if a `u64` holds it. -/
theorem truncateValue_eq_ok_iff (v : EthTxValue) (d m : UInt8) (a : UInt64) :
    truncateValue v d m = .ok a ↔ 10^(d.toNat-m.toNat)%2^128 ≠ 0 ∧
      a.toNat = v.toNat/(10^(d.toNat-m.toNat)%2^128) := by
  by_cases hpow : 10^(d.toNat-m.toNat)%2^128 = 0
  · rw [truncateValue, reduceOrders_of_eq_zero v d m hpow]
    exact ⟨nofun,fun h => absurd hpow h.1⟩
  obtain ⟨w,hw,hwv⟩ := reduceOrders_of_ne_zero v d m hpow
  rw [truncateValue, hw, Outcome.ok_bind, ← hwv, and_iff_right hpow]
  by_cases hlt : w.toNat < 2^64
  · rw [if_pos hlt, Outcome.ok.injEq, ← UInt64.toNat_inj, UInt64.toNat_ofNat_of_lt' hlt, Eq.comm]
  · rw [if_neg hlt]
    have ha := a.toNat_lt
    exact ⟨nofun,fun h => absurd (h ▸ ha) hlt⟩

/-- Up to 38 orders of magnitude the power of ten fits in a `u128`. -/
theorem pow_mod_of_le {k : ℕ} (hk : k ≤ 38) : 10^k%2^128 = 10^k := by
  apply Nat.mod_eq_of_lt
  calc
    10^k ≤ 10^38 := Nat.pow_le_pow_right (by norm_num) hk
    _ < 2^128 := by norm_num

/-- Up to 38 orders of magnitude a value is truncated to its quotient, if a `u64` holds it. -/
theorem truncateValue_eq_ok (v : EthTxValue) (d m : UInt8) (hd : d.toNat-m.toNat ≤ 38)
    (a : UInt64) :
    truncateValue v d m = .ok a ↔ a.toNat = v.toNat/10^(d.toNat-m.toNat) := by
  rw [truncateValue_eq_ok_iff, pow_mod_of_le hd]
  exact and_iff_right (Nat.pow_pos (by norm_num)).ne'

theorem truncateValue_noErr (v : EthTxValue) (d m : UInt8) : (truncateValue v d m).NoErr := by
  refine Outcome.NoErr.bind ?_ fun w => ?_
  · unfold reduceOrders
    dsimp only
    split
    · split
      · exact Outcome.noErr_panic _
      · exact Outcome.noErr_ok _
    · exact Outcome.noErr_ok _
  · split
    · exact Outcome.noErr_ok _
    · exact Outcome.noErr_panic _

/-- Up to 38 orders of magnitude the truncated value never overstates the raw value. -/
theorem truncateValue_mul_le (v : EthTxValue) (d m : UInt8) (hd : d.toNat-m.toNat ≤ 38)
    (a : UInt64) (h : truncateValue v d m = .ok a) :
    a.toNat*10^(d.toNat-m.toNat) ≤ v.toNat := by
  rw [(truncateValue_eq_ok v d m hd a).mp h]
  exact Nat.div_mul_le_self _ _

end ReserveAuditor
