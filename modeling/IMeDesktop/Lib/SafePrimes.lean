import Mathlib.NumberTheory.LegendreSymbol.QuadraticReciprocity
import Mathlib.GroupTheory.OrderOfElement
import Mathlib.Tactic.IntervalCases
import Mathlib.Tactic.NormNum.Prime

/-! # Squares modulo a safe prime

The units modulo a safe prime `p` have `2 * q` elements for a prime `q`. The squares but one have the
order `q`, and which of the small numbers are squares is read off remainders of `p`.
-/

namespace IMeDesktop.Lib

structure SafePrime (p : Nat) : Prop where
  prime : p.Prime
  half : ((p - 1) / 2).Prime

namespace SafePrime

variable {p : Nat}

/-- But for 5 and 7. -/
theorem mod_four (safe : SafePrime p) (large : 7 < p) : p % 4 = 3 := by
  have odd : p % 2 = 1 := safe.prime.eq_two_or_odd.resolve_left (by omega)
  have half : (p - 1) / 2 % 2 = 1 := safe.half.eq_two_or_odd.resolve_left (by omega)
  omega

theorem orderOf_eq_iff (safe : SafePrime p) (large : 7 < p) {g : ZMod p} (nonzero : g ≠ 0) (other : g ≠ 1) :
    orderOf g = (p - 1) / 2 ↔ IsSquare g := by
  have := Fact.mk safe.prime
  have := Fact.mk safe.half
  have residue := safe.mod_four large
  rw [ZMod.euler_criterion p nonzero, show p / 2 = (p - 1) / 2 by omega]
  constructor
  · intro order
    rw [← order, pow_orderOf_eq_one]
  · exact fun power => orderOf_eq_prime power other

/-- A small number is not a multiple of the prime. -/
theorem cast_ne_zero (large : 7 < p) {n : Nat} (positive : 0 < n) (small : n ≤ 7) : (n : ZMod p) ≠ 0 := by
  rw [Ne, ZMod.natCast_eq_zero_iff]
  intro divides
  have := Nat.le_of_dvd positive divides
  omega

theorem cast_ne_one (large : 7 < p) {n : Nat} (more : 1 < n) (small : n ≤ 7) : (n : ZMod p) ≠ 1 := by
  intro one
  have zero : ((n - 1 : Nat) : ZMod p) = 0 := by
    rw [Nat.cast_sub more.le, one, Nat.cast_one, sub_self]
  exact cast_ne_zero large (by omega) (by omega) zero

theorem mod_ne_zero (safe : SafePrime p) (large : 7 < p) {n : Nat} (more : 1 < n) (small : n ≤ 7) : p % n ≠ 0 := by
  intro zero
  rcases (Nat.dvd_prime safe.prime).mp (Nat.dvd_of_mod_eq_zero zero) with one | all
  · omega
  · omega

theorem isSquare_two_iff (safe : SafePrime p) (large : 7 < p) : IsSquare (2 : ZMod p) ↔ p % 8 = 7 := by
  have := Fact.mk safe.prime
  have residue := safe.mod_four large
  rw [ZMod.exists_sq_eq_two_iff (by omega)]
  omega

theorem isSquare_three_iff (safe : SafePrime p) (large : 7 < p) : IsSquare (3 : ZMod p) ↔ p % 3 = 2 := by
  have squares : ∀ r : Nat, r < 3 → r ≠ 0 → (¬IsSquare (r : ZMod 3) ↔ r = 2) := by decide
  have := Fact.mk safe.prime
  have := Fact.mk Nat.prime_three
  have reciprocal := ZMod.exists_sq_eq_prime_iff_of_mod_four_eq_three (q := 3) (safe.mod_four large) rfl (by omega)
  rw [Nat.cast_ofNat, ← ZMod.natCast_mod p 3] at reciprocal
  rw [reciprocal]
  exact squares (p % 3) (Nat.mod_lt _ (by decide)) (safe.mod_ne_zero large (by decide) (by decide))

theorem isSquare_five_iff (safe : SafePrime p) (large : 7 < p) :
    IsSquare (5 : ZMod p) ↔ p % 5 = 1 ∨ p % 5 = 4 := by
  have squares : ∀ r : Nat, r < 5 → r ≠ 0 → (IsSquare (r : ZMod 5) ↔ r = 1 ∨ r = 4) := by decide
  have := Fact.mk safe.prime
  have := Fact.mk Nat.prime_five
  have reciprocal := ZMod.exists_sq_eq_prime_iff_of_mod_four_eq_one (p := 5) (q := p) rfl (by omega)
  rw [Nat.cast_ofNat, ← ZMod.natCast_mod p 5] at reciprocal
  rw [← reciprocal]
  exact squares (p % 5) (Nat.mod_lt _ (by decide)) (safe.mod_ne_zero large (by decide) (by decide))

theorem isSquare_seven_iff (safe : SafePrime p) (large : 7 < p) :
    IsSquare (7 : ZMod p) ↔ p % 7 = 3 ∨ p % 7 = 5 ∨ p % 7 = 6 := by
  have squares : ∀ r : Nat, r < 7 → r ≠ 0 → (¬IsSquare (r : ZMod 7) ↔ r = 3 ∨ r = 5 ∨ r = 6) := by decide
  have := Fact.mk safe.prime
  have := Fact.mk Nat.prime_seven
  have reciprocal := ZMod.exists_sq_eq_prime_iff_of_mod_four_eq_three (q := 7) (safe.mod_four large) rfl (by omega)
  rw [Nat.cast_ofNat, ← ZMod.natCast_mod p 7] at reciprocal
  rw [reciprocal]
  exact squares (p % 7) (Nat.mod_lt _ (by decide)) (safe.mod_ne_zero large (by decide) (by decide))

/-- Two numbers that are not squares have a square for their product. -/
theorem isSquare_mul_iff (safe : SafePrime p) (large : 7 < p) {a b : ZMod p} (first : a ≠ 0) (second : b ≠ 0) :
    IsSquare (a * b) ↔ (IsSquare a ↔ IsSquare b) := by
  have := Fact.mk safe.prime
  have := Fact.mk (show 2 < p by omega)
  have minus : (-1 : ZMod p) ≠ 1 := ZMod.neg_one_ne_one
  rw [ZMod.euler_criterion p first, ZMod.euler_criterion p second, ZMod.euler_criterion p (mul_ne_zero first second),
    mul_pow]
  rcases ZMod.pow_div_two_eq_neg_one_or_one p first with one | one
  · simp [one]
  · rcases ZMod.pow_div_two_eq_neg_one_or_one p second with two | two
    · simp [one, two]
    · simp [one, two, minus]

theorem isSquare_six_iff (safe : SafePrime p) (large : 7 < p) :
    IsSquare (6 : ZMod p) ↔ p % 24 = 19 ∨ p % 24 = 23 := by
  have residue := safe.mod_four large
  have remainder := safe.mod_ne_zero large (n := 3) (by decide) (by decide)
  have two : (2 : ZMod p) ≠ 0 := cast_ne_zero large (n := 2) (by decide) (by decide)
  have three : (3 : ZMod p) ≠ 0 := cast_ne_zero large (n := 3) (by decide) (by decide)
  have product : (6 : ZMod p) = 2 * 3 := by norm_num
  rw [product, safe.isSquare_mul_iff large two three, safe.isSquare_two_iff large, safe.isSquare_three_iff large]
  omega

end SafePrime

end IMeDesktop.Lib
