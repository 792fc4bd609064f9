import ReserveAuditor.Config

/-! Which truncations are exact. The power of ten a token value is divided by is a `u128`
and wraps from 39 orders of magnitude on, where every true quotient is zero. -/
namespace ReserveAuditor
open Txn

/-- The value `v` of a token with `d` decimals is truncated to `m` decimals as its quotient
by the power of ten, and refused where no `u64` holds that quotient. -/
structure TruncatesExactly (v : EthTxValue) (d m : UInt8) : Prop where
  quotient : v.toNat/10^(d.toNat-m.toNat) < 2^64 →
    ∃ a, truncateValue v d m = .ok a ∧ a.toNat = v.toNat/10^(d.toNat-m.toNat)
  refused : 2^64 ≤ v.toNat/10^(d.toNat-m.toNat) →
    ∃ message, truncateValue v d m = .panic message
  neverOverstates : ∀ a, truncateValue v d m = .ok a → a.toNat*10^(d.toNat-m.toNat) ≤ v.toNat
  monotone : ∀ v' a' a, v'.toNat ≤ v.toNat → truncateValue v' d m = .ok a' →
    truncateValue v d m = .ok a → a' ≤ a

/-- A value that is not truncated is refused. -/
theorem truncateValue_ok_or_panic (v : EthTxValue) (d m : UInt8) :
    (∃ a, truncateValue v d m = .ok a) ∨ ∃ message, truncateValue v d m = .panic message := by
  have herr := truncateValue_noErr v d m
  cases h : truncateValue v d m with
  | ok a => exact Or.inl ⟨a,rfl⟩
  | err e => exact absurd h (herr e)
  | panic message => exact Or.inr ⟨message,rfl⟩

/-- Greater values have greater quotients, whatever the power of ten wraps to. -/
theorem truncateValue_mono (v' v : EthTxValue) (d m : UInt8) (a' a : UInt64)
    (hv : v'.toNat ≤ v.toNat) (ha' : truncateValue v' d m = .ok a')
    (ha : truncateValue v d m = .ok a) : a' ≤ a := by
  have hquot' := ((truncateValue_eq_ok_iff v' d m a').mp ha').2
  have hquot := ((truncateValue_eq_ok_iff v d m a).mp ha).2
  rw [UInt64.le_iff_toNat_le, hquot', hquot]
  exact Nat.div_le_div_right hv

/-- Up to 38 orders of magnitude every truncation is exact. -/
theorem truncates_exactly_of_le (v : EthTxValue) (d m : UInt8) (hd : d.toNat-m.toNat ≤ 38) :
    TruncatesExactly v d m where
  quotient hfit := by
    refine ⟨UInt64.ofNat (v.toNat/10^(d.toNat-m.toNat)),?_,UInt64.toNat_ofNat_of_lt' hfit⟩
    exact (truncateValue_eq_ok v d m hd _).mpr (UInt64.toNat_ofNat_of_lt' hfit)
  refused hlarge := by
    refine (truncateValue_ok_or_panic v d m).resolve_left ?_
    rintro ⟨a,ha⟩
    have hlt := a.toNat_lt
    rw [(truncateValue_eq_ok v d m hd a).mp ha] at hlt
    exact absurd hlt (not_lt.mpr hlarge)
  neverOverstates a ha := truncateValue_mul_le v d m hd a ha
  monotone v' a' a hv ha' ha := truncateValue_mono v' v d m a' a hv ha' ha

/-- From 39 orders of magnitude on every quotient is zero. -/
theorem quotient_eq_zero (v : EthTxValue) {k : ℕ} (hk : 39 ≤ k) : v.toNat/10^k = 0 := by
  apply Nat.div_eq_of_lt
  calc
    v.toNat < 2^128 := v.isLt
    _ < 10^39 := by norm_num
    _ ≤ 10^k := Nat.pow_le_pow_right (by norm_num) hk

/-- From 39 orders of magnitude on a truncation is exact if and only if the value is below
the power of ten as it wraps. -/
theorem truncates_exactly_iff_of_le (v : EthTxValue) (d m : UInt8) (hd : 39 ≤ d.toNat-m.toNat) :
    TruncatesExactly v d m ↔ v.toNat < 10^(d.toNat-m.toNat)%2^128 := by
  have hzero := quotient_eq_zero v hd
  constructor
  · intro h
    obtain ⟨a,ha,haz⟩ := h.quotient (by rw [hzero]; norm_num)
    obtain ⟨hpow,hquot⟩ := (truncateValue_eq_ok_iff v d m a).mp ha
    rw [haz, hzero] at hquot
    exact (Nat.div_eq_zero_iff.mp hquot.symm).resolve_left hpow
  · intro hlt
    -- below the wrapped power the quotient is zero, as it should be
    have hok (a : UInt64) : truncateValue v d m = .ok a ↔ a.toNat = 0 := by
      rw [truncateValue_eq_ok_iff, Nat.div_eq_of_lt hlt]
      exact and_iff_right (Nat.zero_le _ |>.trans_lt hlt).ne'
    refine ⟨fun _ => ⟨0,(hok 0).mpr rfl,hzero.symm⟩,?_,?_,?_⟩
    · intro hlarge
      rw [hzero] at hlarge
      norm_num at hlarge
    · intro a ha
      rw [(hok a).mp ha, zero_mul]
      exact Nat.zero_le _
    · exact fun v' a' a hv ha' ha => truncateValue_mono v' v d m a' a hv ha' ha

/-- A truncation is exact if and only if the precisions are at most 38 orders apart or the
value is below the wrapped power of ten; every value is truncated exactly if and only if
they are at most 38 orders apart. -/
theorem truncates_exactly_iff (d m : UInt8) :
    (∀ v, TruncatesExactly v d m ↔
      d.toNat-m.toNat ≤ 38 ∨ v.toNat < 10^(d.toNat-m.toNat)%2^128) ∧
    ((∀ v, TruncatesExactly v d m) ↔ d.toNat-m.toNat ≤ 38) := by
  rcases Nat.lt_or_ge 38 (d.toNat-m.toNat) with hd | hd
  · have hiff := fun v => truncates_exactly_iff_of_le v d m hd
    have hnot := not_le.mpr hd
    refine ⟨fun v => (hiff v).trans (or_iff_right hnot).symm,fun h => ?_,fun h => absurd h hnot⟩
    -- the largest value is not below the wrapped power
    have hmax := (hiff (BitVec.allOnes 128)).mp (h _)
    have hmod : 10^(d.toNat-m.toNat)%2^128 < 2^128 := Nat.mod_lt _ (by norm_num)
    rw [BitVec.toNat_allOnes] at hmax
    omega
  · have hall := fun v => truncates_exactly_of_le v d m hd
    exact ⟨fun v => iff_of_true (hall v) (Or.inl hd),iff_of_true hall hd⟩

/-- With 39 orders to remove the largest value is truncated to one, although its quotient is
zero; with 128 orders not even zero is truncated. -/
theorem truncates_wrongly :
    (BitVec.allOnes 128).toNat/10^39 = 0 ∧ truncateValue (BitVec.allOnes 128) 39 0 = .ok 1 ∧
      ¬ TruncatesExactly (BitVec.allOnes 128) 39 0 ∧
      truncateValue 0 128 0 = .panic "attempt to divide by zero" ∧ ¬ TruncatesExactly 0 128 0 := by
  have hone : truncateValue (BitVec.allOnes 128) 39 0 = .ok 1 :=
    (truncateValue_eq_ok_iff _ _ _ _).mpr (by decide)
  have hpanic : truncateValue 0 128 0 = .panic "attempt to divide by zero" := by
    rw [truncateValue, reduceOrders_of_eq_zero 0 128 0 (by decide)]
    rfl
  refine ⟨by decide,hone,?_,hpanic,?_⟩
  · intro h
    have hle := h.neverOverstates 1 hone
    revert hle
    decide
  · intro h
    obtain ⟨a,ha,-⟩ := h.quotient (by decide)
    rw [hpanic] at ha
    cases ha

end ReserveAuditor
