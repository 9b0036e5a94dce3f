import IMeDesktop.Mtproto.DhUtils
import IMeDesktop.Lib.SafePrimes

/-! # Generators that are accepted

The remainders that are checked say that the generator is a square modulo a safe prime, so its powers
are as many as half of the units. The known prime is not checked, and it is taken with one number that is not a square.
-/

namespace IMeDesktop.Mtproto.Handshake

open Lib

/-- `BigNum::isPrime`, when it is not mistaken. -/
def exactPrime (n : Nat) : Bool := decide n.Prime

/-- No `g` below zero is known to the switch. -/
def isPrimeAndGoodInt (isPrime : Nat → Bool) (primeBytes : List Nat) (g : Int) : Bool :=
  decide (0 ≤ g) && isPrimeAndGood isPrime primeBytes g.toNat

/-- The powers of `g` are a subgroup of a large prime order. -/
structure Generates (primeBytes : List Nat) (g : Int) : Prop where
  bits : 2 ^ 2047 ≤ bigNum primeBytes ∧ bigNum primeBytes < 2 ^ 2048
  safe : SafePrime (bigNum primeBytes)
  order : orderOf (g : ZMod (bigNum primeBytes)) = (bigNum primeBytes - 1) / 2

theorem large_of_bits {p : Nat} (bits : 2 ^ 2047 ≤ p) : 7 < p :=
  (show 7 < 2 ^ 2047 by decide +kernel).trans_le bits

/-- The remainders are those of the primes that make a square of `g`. -/
theorem goodGenerator_iff {p : Nat} (safe : SafePrime p) (large : 7 < p) (g : Nat) :
    goodGenerator p g = true ↔ (2 ≤ g ∧ g ≤ 7) ∧ IsSquare (g : ZMod p) := by
  match g with
  | 0 => simp [goodGenerator]
  | 1 => simp [goodGenerator]
  | 2 => simp [goodGenerator, safe.isSquare_two_iff large]
  | 3 => simp [goodGenerator, safe.isSquare_three_iff large]
  | 4 =>
      have square : IsSquare (4 : ZMod p) := ⟨2, by norm_num⟩
      simp [goodGenerator, square]
  | 5 => simp [goodGenerator, safe.isSquare_five_iff large]
  | 6 => simp [goodGenerator, safe.isSquare_six_iff large]
  | 7 => simp [goodGenerator, safe.isSquare_seven_iff large, or_assoc]
  | n + 8 => simp [goodGenerator]

theorem isPrimeAndGoodCheck_iff (p g : Nat) :
    isPrimeAndGoodCheck exactPrime p g = true ↔
      (2 ^ 2047 ≤ p ∧ p < 2 ^ 2048) ∧ SafePrime p ∧ (2 ≤ g ∧ g ≤ 7) ∧ IsSquare (g : ZMod p) := by
  have bits : p.size = kGoodPrimeBitsCount ↔ 2 ^ 2047 ≤ p ∧ p < 2 ^ 2048 := by
    rw [← Nat.lt_size, ← Nat.size_le, kGoodPrimeBitsCount]
    omega
  rw [isPrimeAndGoodCheck]
  simp only [Bool.and_eq_true, decide_eq_true_eq, bits, exactPrime]
  constructor
  · rintro ⟨⟨⟨bits, prime⟩, good⟩, half⟩
    have safe : SafePrime p := ⟨prime, half⟩
    exact ⟨bits, safe, (goodGenerator_iff safe (large_of_bits bits.1) g).mp good⟩
  · rintro ⟨bits, safe, good⟩
    exact ⟨⟨⟨bits, safe.prime⟩, (goodGenerator_iff safe (large_of_bits bits.1) g).mpr good⟩, safe.half⟩

theorem generates_iff {primeBytes : List Nat} (bits : 2 ^ 2047 ≤ bigNum primeBytes ∧ bigNum primeBytes < 2 ^ 2048)
    (safe : SafePrime (bigNum primeBytes)) {g : Nat} (least : 2 ≤ g) (most : g ≤ 7) :
    Generates primeBytes g ↔ IsSquare (g : ZMod (bigNum primeBytes)) := by
  have large := large_of_bits bits.1
  rw [← safe.orderOf_eq_iff large (SafePrime.cast_ne_zero large (by omega) most) (SafePrime.cast_ne_one large least most)]
  constructor
  · intro generates
    have order := generates.order
    rwa [Int.cast_natCast] at order
  · intro order
    exact ⟨bits, safe, by rwa [Int.cast_natCast]⟩

theorem generates_of_check {primeBytes : List Nat} {g : Nat}
    (checked : isPrimeAndGoodCheck exactPrime (bigNum primeBytes) g = true) : Generates primeBytes g := by
  obtain ⟨bits, safe, ⟨least, most⟩, square⟩ := (isPrimeAndGoodCheck_iff _ g).mp checked
  exact (generates_iff bits safe least most).mpr square

/-! ## The known prime -/

theorem goodPrime_bits : 2 ^ 2047 ≤ bigNum goodPrime ∧ bigNum goodPrime < 2 ^ 2048 := by decide +kernel

/-- The known prime leaves 3 when it is divided by 5. -/
theorem goodGenerator_goodPrime : goodGenerator (bigNum goodPrime) 5 = false := by decide +kernel

/-- The remainders of the known prime admit the other generators that are not checked with it. -/
theorem check_goodPrime (safe : SafePrime (bigNum goodPrime)) {g : Nat} (known : g = 3 ∨ g = 4 ∨ g = 7) :
    isPrimeAndGoodCheck exactPrime (bigNum goodPrime) g = true := by
  have large := large_of_bits goodPrime_bits.1
  have good : goodGenerator (bigNum goodPrime) g = true := by
    rcases known with rfl | rfl | rfl
    · decide +kernel
    · rfl
    · decide +kernel
  exact (isPrimeAndGoodCheck_iff _ g).mpr ⟨goodPrime_bits, safe, (goodGenerator_iff safe large g).mp good⟩

theorem check_of_isPrimeAndGood (safe : SafePrime (bigNum goodPrime)) {primeBytes : List Nat} {g : Nat}
    (good : isPrimeAndGood exactPrime primeBytes g = true) (other : ¬(primeBytes = goodPrime ∧ g = 5)) :
    isPrimeAndGoodCheck exactPrime (bigNum primeBytes) g = true := by
  rcases Bool.or_eq_true_iff.mp good with known | checked
  · simp only [Bool.and_eq_true, Bool.or_eq_true, decide_eq_true_eq] at known
    obtain ⟨rfl, known⟩ := known
    have different : g ≠ 5 := fun five => other ⟨rfl, five⟩
    exact check_goodPrime safe (by omega)
  · exact checked

theorem isPrimeAndGood_goodPrime {g : Nat} (known : g = 3 ∨ g = 4 ∨ g = 5 ∨ g = 7) :
    isPrimeAndGood exactPrime goodPrime g = true := by
  apply Bool.or_eq_true_iff.mpr
  left
  rw [decide_eq_true rfl, Bool.true_and]
  rcases known with rfl | rfl | rfl | rfl
  · rfl
  · rfl
  · rfl
  · rfl

theorem isPrimeAndGoodInt_natCast (isPrime : Nat → Bool) (primeBytes : List Nat) (g : Nat) :
    isPrimeAndGoodInt isPrime primeBytes g = isPrimeAndGood isPrime primeBytes g := by
  rw [isPrimeAndGoodInt, decide_eq_true (Int.natCast_nonneg g), Bool.true_and, Int.toNat_natCast]

theorem check_five : isPrimeAndGoodCheck exactPrime (bigNum goodPrime) 5 = false := by
  rw [isPrimeAndGoodCheck, goodGenerator_goodPrime, Bool.and_false, Bool.false_and]

theorem not_generates_five : ¬Generates goodPrime 5 := by
  intro generates
  have square := (generates_iff generates.bits generates.safe (g := 5) (by decide) (by decide)).mp generates
  have good := (goodGenerator_iff generates.safe (large_of_bits generates.bits.1) 5).mpr ⟨by decide, square⟩
  rw [goodGenerator_goodPrime] at good
  cases good

/-- Where the known prime is a safe prime, and only there: what is accepted generates a subgroup of a
    large prime order, and what is accepted for the known prime passes the check, but for the
    generator 5 of the known prime. -/
theorem accepted_generates_iff {isPrime : Nat → Bool} (exact : ∀ n, isPrime n = true ↔ n.Prime) :
    SafePrime (bigNum goodPrime) ↔
      (∀ primeBytes g, (isPrimeAndGoodInt isPrime primeBytes g = true → Generates primeBytes g) ↔
        ¬(primeBytes = goodPrime ∧ g = 5)) ∧
      ∀ g, (isPrimeAndGood isPrime goodPrime g = true →
        isPrimeAndGoodCheck isPrime (bigNum goodPrime) g = true) ↔ g ≠ 5 := by
  obtain rfl : isPrime = exactPrime := funext fun n => Bool.eq_iff_iff.mpr ((exact n).trans decide_eq_true_iff.symm)
  constructor
  · intro safe
    constructor
    · intro primeBytes g
      constructor
      · rintro generates ⟨rfl, rfl⟩
        have accepted := isPrimeAndGoodInt_natCast exactPrime goodPrime 5
        rw [isPrimeAndGood_goodPrime (by decide)] at accepted
        exact not_generates_five (generates accepted)
      · intro other accepted
        obtain ⟨positive, good⟩ := Bool.and_eq_true_iff.mp accepted
        have same := Int.toNat_of_nonneg (of_decide_eq_true positive)
        rw [← same] at other ⊢
        exact generates_of_check (check_of_isPrimeAndGood safe good (by exact_mod_cast other))
    · intro g
      constructor
      · rintro checked rfl
        have passed := checked (isPrimeAndGood_goodPrime (by decide))
        rw [check_five] at passed
        cases passed
      · intro other good
        exact check_of_isPrimeAndGood safe good fun both => other both.2
  · rintro ⟨accepted, -⟩
    have generates := (accepted goodPrime 3).mpr fun both => absurd both.2 (by decide)
    have known := isPrimeAndGoodInt_natCast exactPrime goodPrime 3
    rw [isPrimeAndGood_goodPrime (by decide)] at known
    exact (generates known).safe

/-- The primes themselves. -/
theorem accepted_generates_exact :
    SafePrime (bigNum goodPrime) ↔
      (∀ primeBytes g, (isPrimeAndGoodInt exactPrime primeBytes g = true → Generates primeBytes g) ↔
        ¬(primeBytes = goodPrime ∧ g = 5)) ∧
      ∀ g, (isPrimeAndGood exactPrime goodPrime g = true →
        isPrimeAndGoodCheck exactPrime (bigNum goodPrime) g = true) ↔ g ≠ 5 :=
  accepted_generates_iff fun _ => decide_eq_true_iff

/-- The known prime is accepted with 5, which the check does not accept with it. -/
theorem goodPrime_five_accepted :
    isPrimeAndGoodInt exactPrime goodPrime 5 = true ∧ ¬Generates goodPrime 5 ∧
      isPrimeAndGoodCheck exactPrime (bigNum goodPrime) 5 = false := by
  have accepted := isPrimeAndGoodInt_natCast exactPrime goodPrime 5
  rw [isPrimeAndGood_goodPrime (by decide)] at accepted
  exact ⟨accepted, not_generates_five, check_five⟩

end IMeDesktop.Mtproto.Handshake
