import IMeDesktop.Lib.Rho
import IMeDesktop.Mtproto.DhUtils

/-! # Factorization

The small number of a handshake is factorized by a search from drawn starts. The search always ends
with a divisor, and whether it is a proper one depends on the draws; what is returned does not tell.
-/

namespace IMeDesktop.Mtproto.Handshake

open Lib

/-! ## The code -/

/-- `while ((a & 1) == 0) a >>= 1`. -/
def stripTwos (a : Nat) : Nat :=
  if 0 < a ∧ a % 2 = 0 then stripTwos (a / 2) else a
termination_by a
decreasing_by omega

/-- The loop that subtracts; it is not repeated more often than there is to subtract. -/
def oddGcd : Nat → Nat → Nat → Nat
  | 0, a, _ => a
  | fuel + 1, a, b =>
      let a := stripTwos a
      let b := stripTwos b
      if b < a then oddGcd fuel (a - b) b
      else if a < b then oddGcd fuel a (b - a)
      else a

/-- The loop that shifts. -/
def shiftGcd (a b : Nat) : Nat :=
  if 0 < a ∧ a % 2 = 0 ∧ b % 2 = 0 then shiftGcd (a / 2) (b / 2) * 2 else oddGcd (a + b) a b
termination_by a
decreasing_by omega

def gcd (a b : Nat) : Nat := if a = 0 then b else if b = 0 then a else shiftGcd a b

/-- A `uint64`. -/
def wrap (n : Nat) : Nat := n % 2 ^ 64

/-- `c += a * b` modulo `pq`, by the bits of `b`. -/
def mulAdd (pq c a b : Nat) : Nat :=
  if b = 0 then c
  else
    let sum := wrap (c + a)
    let c := if b % 2 = 1 then if pq ≤ sum then sum - pq else sum else c
    let double := wrap (a + a)
    mulAdd pq c (if pq ≤ double then double - pq else double) (b / 2)
termination_by b
decreasing_by omega

/-- `RandomIndex(16)` and `RandomValue<uint64>()`. -/
structure PQDraw where
  index : Fin 16
  value : UInt64

/-- The steps that are left of a start, from the `j`th. It gives the last `g` and how many steps were made. -/
def search (pq q : Nat) : Nat → Nat → Nat → Nat → Nat × Nat
  | 0, _, _, _ => (1, 0)
  | left + 1, j, x, y =>
      let x := mulAdd pq q x x
      let z := if x < y then wrap (pq + x) - y else x - y
      let g := gcd z pq
      if g ≠ 1 then (g, 1)
      else
        let result := search pq q left (j + 1) x (if j &&& (j - 1) = 0 then x else y)
        (result.1, result.2 + 1)

def startQ (pq : Nat) (draw : PQDraw) : Nat := (17 + draw.index) % (pq - 1)

def startX (pq : Nat) (draw : PQDraw) : Nat := draw.value.toNat % (pq - 1) + 1

def limit (i : Nat) : Nat := 2 ^ (min 5 i + 18)

/-- The starts that are left, from the `i`th on. -/
def starts (pq : Nat) (draws : Nat → PQDraw) : Nat → Nat → Nat → Nat → Nat
  | 0, _, _, g => g
  | fuel + 1, i, iter, g =>
      if i < 3 ∨ iter < 1000 then
        let x := startX pq (draws i)
        let (g, made) := search pq (startQ pq (draws i)) (limit i - 1) 1 x x
        if 1 < g ∧ g < pq then g else starts pq draws fuel (i + 1) (iter + made) g
      else g

/-- Every start makes a step, so there are at most 1000 of them. -/
def factorizeSmallPQ (draws : Nat → PQDraw) (pq : Nat) : Nat :=
  if pq < 2 ∨ 2 ^ 63 < pq then 1
  else
    let g := starts pq draws 1000 0 0 0
    if g ≠ 0 ∧ pq / g < g then pq / g else g

/-- The four bytes that are written from the end. -/
def fourBytes (n : Nat) : List UInt8 :=
  [UInt8.ofNat (n / 2 ^ 24), UInt8.ofNat (n / 2 ^ 16), UInt8.ofNat (n / 2 ^ 8), UInt8.ofNat n]

/-- A number read from its bytes, the highest one first. -/
def readBytes (bytes : List UInt8) : Nat := bytes.foldl (fun n byte => n * 256 + byte.toNat) 0

/-- Where the number is factorized as a big one. -/
def TakesBig (pqStr : List UInt8) : Prop :=
  8 < pqStr.length ∨ pqStr.length = 8 ∧ ∃ first ∈ pqStr.head?, first &&& 128 ≠ 0

instance (pqStr : List UInt8) : Decidable (TakesBig pqStr) := inferInstanceAs (Decidable (_ ∨ _ ∧ _))

/-- `FactorizePQ` of a number that is not big. -/
def factorizePQ (draws : Nat → PQDraw) (pqStr : List UInt8) : List UInt8 × List UInt8 :=
  let pq := readBytes pqStr
  let p := factorizeSmallPQ draws pq
  if p = 0 ∨ pq % p ≠ 0 then ([], [])
  else (fourBytes p, fourBytes (pq / p))

end IMeDesktop.Mtproto.Handshake
