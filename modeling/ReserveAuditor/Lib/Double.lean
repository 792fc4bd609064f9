import Mathlib.Data.Nat.Size
import Mathlib.Tactic

/-! The integers that a double-precision number can hold: those of up to 53 significant bits. Others
are rounded to the nearest, and to the even one of two. How large a double gets is left out. -/
namespace Double

/-- The nearest multiple of `2^k`, and halfway between two the even multiple. -/
def roundTo (k : ℕ) (n : ℤ) : ℤ :=
  let q := n/2^k
  let r := n%2^k
  2^k*(if 2*r < 2^k ∨ (2*r = 2^k ∧ q%2 = 0) then q else q+1)

def round (n : ℤ) : ℤ := roundTo (n.natAbs.size-53) n

/-- Every addition is rounded. -/
def sum (ns : List ℤ) : ℤ := ns.foldl (fun total n => round (total+n)) 0

theorem round_of_le {n : ℤ} (h : |n| ≤ 2^53) : round n = n := by
  have hle : n.natAbs ≤ 2^53 := by
    rw [Int.abs_eq_natAbs] at h
    exact_mod_cast h
  rcases hle.lt_or_eq with hlt | heq
  -- no bit is lost
  · have hsize : n.natAbs.size-53 = 0 := Nat.sub_eq_zero_of_le (Nat.size_le.mpr hlt)
    simp [round, roundTo, hsize]
  -- the last bit that is lost is zero
  · have hsize : n.natAbs.size-53 = 1 := by rw [heq, Nat.size_pow]
    rw [round, hsize]
    rcases Int.natAbs_eq n with hn | hn <;> rw [hn, heq] <;> norm_num [roundTo]

theorem sum_of_le {ns : List ℤ} (hpos : ∀ n ∈ ns, 0 ≤ n) (h : ns.sum ≤ 2^53) : sum ns = ns.sum := by
  induction ns using List.reverseRecOn with
  | nil => rfl
  | append_singleton ns n ih =>
    rw [List.sum_append, List.sum_singleton] at h ⊢
    have hn : 0 ≤ n := hpos n (by simp)
    have hns : ∀ m ∈ ns, 0 ≤ m := fun m hm => hpos m (List.mem_append_left _ hm)
    have htotal : 0 ≤ ns.sum := List.sum_nonneg hns
    have hsum := ih hns (by omega)
    rw [sum] at hsum ⊢
    rw [List.foldl_append, hsum, List.foldl_cons, List.foldl_nil]
    exact round_of_le (by rw [abs_of_nonneg (by omega)]; exact h)

/-- The first integers that no double holds. -/
example : round (2^53+1) = 2^53 ∧ round (2^53+3) = 2^53+4 ∧ round (-(2^53)-1) = -(2^53) := by
  decide +kernel

end Double
