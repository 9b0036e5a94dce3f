import Mathlib.Data.Nat.Dist

/-! # Squares that meet

The values `x, x² + c, …` modulo `n` are compared with the one at the last power of two before. Where
two of them agree modulo a divisor of `n`, the divisor shows in the greatest common divisor.
-/

namespace IMeDesktop.Lib

/-- The values from a start. -/
def rho (n c start : Nat) : Nat → Nat
  | 0 => start
  | j + 1 => (rho n c start j * rho n c start j + c) % n

namespace Rho

/-- The last power of two before a value, or the start. -/
def anchor (j : Nat) : Nat := if j ≤ 1 then 0 else 2 ^ (j - 1).log2

theorem anchor_pow {j : Nat} (power : j.isPowerOfTwo) : anchor (j + 1) = j := by
  obtain ⟨k, rfl⟩ := power
  have positive : 0 < 2 ^ k := Nat.two_pow_pos k
  rw [anchor, if_neg (by omega), Nat.add_sub_cancel, Nat.log2_two_pow]

theorem anchor_other {j : Nat} (positive : 0 < j) (other : ¬j.isPowerOfTwo) : anchor (j + 1) = anchor j := by
  have more : 1 < j := by
    rcases Nat.lt_or_ge 1 j with more | least
    · exact more
    · exact absurd ⟨0, by omega⟩ other
  have nonzero : j ≠ 0 := positive.ne'
  have different : 2 ^ j.log2 ≠ j := fun same => other ⟨j.log2, same.symm⟩
  have low := Nat.log2_self_le nonzero
  have high := Nat.lt_log2_self (n := j)
  have same : (j - 1).log2 = j.log2 := by
    rw [Nat.log2_eq_iff (by omega)]
    omega
  rw [anchor, anchor, if_neg (by omega), if_neg (by omega), Nat.add_sub_cancel, same]

/-- What a value and the one before it that is kept have in common with `n`. -/
def common (n c start j : Nat) : Nat := Nat.gcd (Nat.dist (rho n c start j) (rho n c start (anchor j))) n

/-- The first value below the limit that has something in common with `n`. -/
structure Meets (n c start limit j : Nat) : Prop where
  positive : 0 < j
  below : j < limit
  meets : common n c start j ≠ 1
  first : ∀ i, 0 < i → i < j → common n c start i = 1

theorem Meets.unique {n c start limit j k : Nat} (one : Meets n c start limit j) (other : Meets n c start limit k) :
    j = k := by
  rcases Nat.lt_trichotomy j k with less | same | greater
  · exact absurd (other.first j one.positive less) one.meets
  · exact same
  · exact absurd (one.first k other.positive greater) other.meets

theorem common_dvd (n c start j : Nat) : common n c start j ∣ n := Nat.gcd_dvd_right _ _

theorem rho_lt {n c start : Nat} (inside : start < n) (j : Nat) : rho n c start j < n := by
  cases j with
  | zero => exact inside
  | succ j => exact Nat.mod_lt _ (by omega)

end Rho

end IMeDesktop.Lib
