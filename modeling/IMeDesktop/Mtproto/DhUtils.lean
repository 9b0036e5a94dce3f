import Mathlib

/-! # Exchange of keys

Numbers of `openssl` are natural numbers here, and bytes are numbers below 256. What a
random choice is repeated for is found in a list of choices: when none of them is good,
the loop goes on and nothing is returned.

Whether a number is prime is asked of `openssl`, which is given with each use.
-/

namespace IMeDesktop.Mtproto.Handshake

/-! ## Numbers as bytes -/

/-- `openssl::BigNum` of bytes, the highest one first. -/
def bigNum (bytes : List Nat) : Nat := Nat.ofDigits 256 bytes.reverse

/-- `BigNum::getBytes`: there are no zeros in front. -/
def getBytes (n : Nat) : List Nat := (Nat.digits 256 n).reverse

@[simp]
theorem bigNum_getBytes (n : Nat) : bigNum (getBytes n) = n := by
  rw [bigNum, getBytes, List.reverse_reverse, Nat.ofDigits_digits]

theorem length_getBytes_le_iff {n count : Nat} : (getBytes n).length ≤ count ↔ n < 256 ^ count := by
  rw [getBytes, List.length_reverse, Nat.digits_length_le_iff (by decide)]

/-! ## Primes and powers -/

def kMaxModExpSize : Nat := 256
def kGoodPrimeBitsCount : Nat := 2048
def kMinDiffBitsCount : Nat := 2048 - 64

def goodGenerator (prime g : Nat) : Bool :=
  match g with
  | 2 => prime % 8 = 7
  | 3 => prime % 3 = 2
  | 4 => true
  | 5 => prime % 5 = 1 || prime % 5 = 4
  | 6 => prime % 24 = 19 || prime % 24 = 23
  | 7 => prime % 7 = 3 || prime % 7 = 5 || prime % 7 = 6
  | _ => false

def isPrimeAndGoodCheck (isPrime : Nat → Bool) (prime g : Nat) : Bool :=
  prime.size = kGoodPrimeBitsCount && isPrime prime && goodGenerator prime g && isPrime ((prime - 1) / 2)

def goodPrime : List Nat :=
  [
    0xc7, 0x1c, 0xae, 0xb9, 0xc6, 0xb1, 0xc9, 0x04, 0x8e, 0x6c, 0x52, 0x2f, 0x70, 0xf1, 0x3f, 0x73,
    0x98, 0x0d, 0x40, 0x23, 0x8e, 0x3e, 0x21, 0xc1, 0x49, 0x34, 0xd0, 0x37, 0x56, 0x3d, 0x93, 0x0f,
    0x48, 0x19, 0x8a, 0x0a, 0xa7, 0xc1, 0x40, 0x58, 0x22, 0x94, 0x93, 0xd2, 0x25, 0x30, 0xf4, 0xdb,
    0xfa, 0x33, 0x6f, 0x6e, 0x0a, 0xc9, 0x25, 0x13, 0x95, 0x43, 0xae, 0xd4, 0x4c, 0xce, 0x7c, 0x37,
    0x20, 0xfd, 0x51, 0xf6, 0x94, 0x58, 0x70, 0x5a, 0xc6, 0x8c, 0xd4, 0xfe, 0x6b, 0x6b, 0x13, 0xab,
    0xdc, 0x97, 0x46, 0x51, 0x29, 0x69, 0x32, 0x84, 0x54, 0xf1, 0x8f, 0xaf, 0x8c, 0x59, 0x5f, 0x64,
    0x24, 0x77, 0xfe, 0x96, 0xbb, 0x2a, 0x94, 0x1d, 0x5b, 0xcd, 0x1d, 0x4a, 0xc8, 0xcc, 0x49, 0x88,
    0x07, 0x08, 0xfa, 0x9b, 0x37, 0x8e, 0x3c, 0x4f, 0x3a, 0x90, 0x60, 0xbe, 0xe6, 0x7c, 0xf9, 0xa4,
    0xa4, 0xa6, 0x95, 0x81, 0x10, 0x51, 0x90, 0x7e, 0x16, 0x27, 0x53, 0xb5, 0x6b, 0x0f, 0x6b, 0x41,
    0x0d, 0xba, 0x74, 0xd8, 0xa8, 0x4b, 0x2a, 0x14, 0xb3, 0x14, 0x4e, 0x0e, 0xf1, 0x28, 0x47, 0x54,
    0xfd, 0x17, 0xed, 0x95, 0x0d, 0x59, 0x65, 0xb4, 0xb9, 0xdd, 0x46, 0x58, 0x2d, 0xb1, 0x17, 0x8d,
    0x16, 0x9c, 0x6b, 0xc4, 0x65, 0xb0, 0xd6, 0xff, 0x9c, 0xa3, 0x92, 0x8f, 0xef, 0x5b, 0x9a, 0xe4,
    0xe4, 0x18, 0xfc, 0x15, 0xe8, 0x3e, 0xbe, 0xa0, 0xf8, 0x7f, 0xa9, 0xff, 0x5e, 0xed, 0x70, 0x05,
    0x0d, 0xed, 0x28, 0x49, 0xf4, 0x7b, 0xf9, 0x59, 0xd9, 0x56, 0x85, 0x0c, 0xe9, 0x29, 0x85, 0x1f,
    0x0d, 0x81, 0x15, 0xf6, 0x35, 0xb1, 0x05, 0xee, 0x2e, 0x4e, 0x15, 0xd0, 0x4b, 0x24, 0x54, 0xbf,
    0x6f, 0x4f, 0xad, 0xf0, 0x34, 0xb1, 0x04, 0x03, 0x11, 0x9c, 0xd8, 0xe3, 0xb9, 0x2f, 0xcc, 0x5b]

def isPrimeAndGood (isPrime : Nat → Bool) (primeBytes : List Nat) (g : Nat) : Bool :=
  primeBytes = goodPrime && (g = 3 || g = 4 || g = 5 || g = 7) || isPrimeAndGoodCheck isPrime (bigNum primeBytes) g

/-- The difference may not be negative. -/
def isGoodModExpFirst (modexp prime : Nat) : Bool :=
  modexp ≤ prime && kMinDiffBitsCount ≤ (prime - modexp).size && kMinDiffBitsCount ≤ modexp.size &&
    (getBytes modexp).length ≤ kMaxModExpSize

structure ModExpFirst where
  modexp : List Nat
  randomPower : List Nat
  deriving DecidableEq, Repr

/-- The powers are tried one after the other, each mixed with the seed. -/
def createModExp (g : Nat) (primeBytes randomSeed : List Nat) : List (List Nat) → Option ModExpFirst
  | [] => none
  | random :: others =>
      let randomPower := random.zipWith (· ^^^ ·) randomSeed
      let modexp := g ^ bigNum randomPower % bigNum primeBytes
      if isGoodModExpFirst modexp (bigNum primeBytes) then some { modexp := getBytes modexp, randomPower := randomPower }
      else createModExp g primeBytes randomSeed others

/-- Nothing is computed for a bad first value. -/
def createAuthKey (firstBytes randomBytes primeBytes : List Nat) : List Nat :=
  if isGoodModExpFirst (bigNum firstBytes) (bigNum primeBytes) then
    getBytes (bigNum firstBytes ^ bigNum randomBytes % bigNum primeBytes)
  else []

/-- `AuthKey::kSize`. -/
def kSize : Nat := 256

/-- `AuthKey::FillData`: zeros in front of what was computed. -/
def fillData (computedAuthKey : List Nat) : List Nat :=
  List.replicate (kSize - computedAuthKey.length) 0 ++ computedAuthKey

theorem createModExp_good {g : Nat} {primeBytes randomSeed : List Nat} {randoms : List (List Nat)} {first : ModExpFirst}
    (created : createModExp g primeBytes randomSeed randoms = some first) :
    first.modexp = getBytes (g ^ bigNum first.randomPower % bigNum primeBytes) ∧
      isGoodModExpFirst (g ^ bigNum first.randomPower % bigNum primeBytes) (bigNum primeBytes) = true := by
  induction randoms with
  | nil => cases created
  | cons random others ih =>
      rw [createModExp] at created
      split at created
      · rename_i good
        cases created
        exact ⟨rfl, good⟩
      · exact ih created

theorem createAuthKey_good {firstBytes randomBytes primeBytes : List Nat}
    (created : createAuthKey firstBytes randomBytes primeBytes ≠ []) :
    isGoodModExpFirst (bigNum firstBytes) (bigNum primeBytes) = true ∧
      createAuthKey firstBytes randomBytes primeBytes =
        getBytes (bigNum firstBytes ^ bigNum randomBytes % bigNum primeBytes) := by
  rw [createAuthKey] at created ⊢
  split
  · rename_i good
    exact ⟨good, rfl⟩
  · rename_i bad
    exact absurd (if_neg bad) created

theorem isPrimeAndGood_bounds {isPrime : Nat → Bool} {primeBytes : List Nat} {g : Nat}
    (good : isPrimeAndGood isPrime primeBytes g = true) :
    0 < bigNum primeBytes ∧ bigNum primeBytes < 256 ^ kSize := by
  rcases Bool.or_eq_true_iff.mp good with known | checked
  · have same : primeBytes = goodPrime := of_decide_eq_true (Bool.and_eq_true_iff.mp known).1
    rw [same]
    decide +kernel
  · rw [isPrimeAndGoodCheck] at checked
    simp only [Bool.and_eq_true, decide_eq_true_eq] at checked
    have bits := checked.1.1.1
    constructor
    · refine Nat.pos_of_ne_zero fun zero => ?_
      rw [zero, Nat.size_zero] at bits
      exact absurd bits (by decide)
    · have below := Nat.size_le.mp bits.le
      exact below.trans_eq (by decide +kernel)

/-- A key is as long as it has to be, and still the same number. -/
theorem fillData_spec {n : Nat} (small : n < 256 ^ kSize) :
    (fillData (getBytes n)).length = kSize ∧ bigNum (fillData (getBytes n)) = n := by
  have short := length_getBytes_le_iff.mpr small
  constructor
  · rw [fillData, List.length_append, List.length_replicate, Nat.sub_add_cancel short]
  · rw [fillData, bigNum, List.reverse_append, List.reverse_replicate, Nat.ofDigits_append_replicate_zero]
    exact bigNum_getBytes n

end IMeDesktop.Mtproto.Handshake
