import IMeDesktop.Lib.Loop
import IMeDesktop.Mtproto.FactorizePQResult

/-! # The loops of a factorization

The loops are taken as they are written, on numbers of 64 bits. A round with a sum that does not fit has no
outcome, so a loop that ends has made none. They end, and what they return is what the functions on natural
numbers compute.
-/

namespace IMeDesktop.Mtproto.Handshake

open Lib Loop

/-! ## The code -/

/-- A sum without overflow. -/
def Sum (a b sum : UInt64) : Prop := sum.toNat = a.toNat + b.toNat

/-- `while ((a & 1) == 0) a >>= 1`. -/
inductive HalvingRound : UInt64 → Round UInt64 UInt64 → Prop
  | even {a : UInt64} : a &&& 1 = 0 → HalvingRound a (.next (a >>> 1))
  | odd {a : UInt64} : a &&& 1 ≠ 0 → HalvingRound a (.done a)

/-- `while ((a & 1) == 0 && (b & 1) == 0)`, which counts its rounds. -/
inductive ShiftRound : UInt64 × UInt64 × Nat → Round (UInt64 × UInt64 × Nat) (UInt64 × UInt64 × Nat) → Prop
  | even {a b : UInt64} {shift : Nat} : a &&& 1 = 0 ∧ b &&& 1 = 0 →
      ShiftRound (a, b, shift) (.next (a >>> 1, b >>> 1, shift + 1))
  | odd {a b : UInt64} {shift : Nat} : ¬(a &&& 1 = 0 ∧ b &&& 1 = 0) → ShiftRound (a, b, shift) (.done (a, b, shift))

/-- `while (true)`. -/
inductive SubtractRound : UInt64 × UInt64 → Round (UInt64 × UInt64) UInt64 → Prop
  | first {a b a' b' : UInt64} : Ends HalvingRound a a' → Ends HalvingRound b b' → b' < a' →
      SubtractRound (a, b) (.next (a' - b', b'))
  | second {a b a' b' : UInt64} : Ends HalvingRound a a' → Ends HalvingRound b b' → a' < b' →
      SubtractRound (a, b) (.next (a', b' - a'))
  | equal {a b c : UInt64} : Ends HalvingRound a c → Ends HalvingRound b c → SubtractRound (a, b) (.done c)

/-- What `gcd` returns. -/
inductive Gcd : UInt64 → UInt64 → UInt64 → Prop
  | first {b : UInt64} : Gcd 0 b b
  | second {a : UInt64} : a ≠ 0 → Gcd a 0 a
  | both {a b a' b' d : UInt64} {shift : Nat} : a ≠ 0 → b ≠ 0 → Ends ShiftRound (a, b, 0) (a', b', shift) →
      Ends SubtractRound (a', b') d → Gcd a b (d <<< UInt64.ofNat shift)

def reduce (pq n : UInt64) : UInt64 := if n ≥ pq then n - pq else n

/-- `c += a * b`, with the state `(a, b, c)`. -/
inductive MultiplyRound (pq : UInt64) : UInt64 × UInt64 × UInt64 → Round (UInt64 × UInt64 × UInt64) UInt64 → Prop
  | none {a c : UInt64} : MultiplyRound pq (a, 0, c) (.done c)
  | odd {a b c sum double : UInt64} : b ≠ 0 → b &&& 1 ≠ 0 → Sum c a sum → Sum a a double →
      MultiplyRound pq (a, b, c) (.next (reduce pq double, b >>> 1, reduce pq sum))
  | even {a b c double : UInt64} : b ≠ 0 → b &&& 1 = 0 → Sum a a double →
      MultiplyRound pq (a, b, c) (.next (reduce pq double, b >>> 1, c))

/-- `x < y ? pq + x - y : x - y`. -/
inductive Difference (pq x y : UInt64) : UInt64 → Prop
  | less {sum : UInt64} : x < y → Sum pq x sum → Difference pq x y (sum - y)
  | notLess : ¬x < y → Difference pq x y (x - y)

structure SearchState where
  j : Nat
  iter : Nat
  x : UInt64
  y : UInt64
  g : UInt64

/-- The loop of one start, below `lim`. -/
inductive SearchRound (pq q : UInt64) (lim : Nat) : SearchState → Round SearchState SearchState → Prop
  | ended {s : SearchState} : ¬s.j < lim → SearchRound pq q lim s (.done s)
  | found {s : SearchState} {x z g : UInt64} : s.j < lim → Ends (MultiplyRound pq) (s.x, s.x, q) x →
      Difference pq x s.y z → Gcd z pq g → g ≠ 1 →
      SearchRound pq q lim s (.done { s with iter := s.iter + 1, x := x, g := g })
  | next {s : SearchState} {x z : UInt64} : s.j < lim → Ends (MultiplyRound pq) (s.x, s.x, q) x →
      Difference pq x s.y z → Gcd z pq 1 →
      SearchRound pq q lim s
        (.next ⟨s.j + 1, s.iter + 1, x, if s.j &&& (s.j - 1) = 0 then x else s.y, 1⟩)

structure StartState where
  i : Nat
  iter : Nat
  g : UInt64

def firstQ (pq : UInt64) (draw : PQDraw) : UInt64 := UInt64.ofNat (17 + draw.index) % (pq - 1)

def firstX (pq : UInt64) (draw : PQDraw) : UInt64 := draw.value % (pq - 1) + 1

/-- The loop of the starts. -/
inductive StartRound (pq : UInt64) (draws : Nat → PQDraw) : StartState → Round StartState UInt64 → Prop
  | ended {s : StartState} : ¬(s.i < 3 ∨ s.iter < 1000) → StartRound pq draws s (.done s.g)
  | found {s : StartState} {last : SearchState} : s.i < 3 ∨ s.iter < 1000 →
      Ends (SearchRound pq (firstQ pq (draws s.i)) (limit s.i))
        ⟨1, s.iter, firstX pq (draws s.i), firstX pq (draws s.i), s.g⟩ last →
      last.g > 1 ∧ last.g < pq → StartRound pq draws s (.done last.g)
  | next {s : StartState} {last : SearchState} : s.i < 3 ∨ s.iter < 1000 →
      Ends (SearchRound pq (firstQ pq (draws s.i)) (limit s.i))
        ⟨1, s.iter, firstX pq (draws s.i), firstX pq (draws s.i), s.g⟩ last →
      ¬(last.g > 1 ∧ last.g < pq) → StartRound pq draws s (.next ⟨s.i + 1, last.iter, last.g⟩)

/-- What `FactorizeSmallPQ` returns. -/
inductive FactorizeSmallPQ (draws : Nat → PQDraw) (pq : UInt64) : UInt64 → Prop
  | outside : pq < 2 ∨ pq > (1 : UInt64) <<< 63 → FactorizeSmallPQ draws pq 1
  | smaller {g : UInt64} : ¬(pq < 2 ∨ pq > (1 : UInt64) <<< 63) → Ends (StartRound pq draws) ⟨0, 0, 0⟩ g →
      g ≠ 0 ∧ pq / g < g → FactorizeSmallPQ draws pq (pq / g)
  | larger {g : UInt64} : ¬(pq < 2 ∨ pq > (1 : UInt64) <<< 63) → Ends (StartRound pq draws) ⟨0, 0, 0⟩ g →
      ¬(g ≠ 0 ∧ pq / g < g) → FactorizeSmallPQ draws pq g

/-! ## The greatest common divisor -/

section Divisor

variable {a b : UInt64}

theorem and_one_eq_zero_iff (a : UInt64) : a &&& 1 = 0 ↔ a.toNat % 2 = 0 := by
  rw [← UInt64.toNat_inj, UInt64.toNat_and]
  exact iff_of_eq (congrArg (· = 0) (Nat.and_one_is_mod a.toNat))

theorem toNat_half (a : UInt64) : (a >>> 1).toNat = a.toNat / 2 := by
  rw [UInt64.toNat_shiftRight]
  exact Nat.shiftRight_eq_div_pow a.toNat 1

theorem halving_ends (positive : 0 < a.toNat) : ∃ r, Ends HalvingRound a r ∧ r.toNat = stripTwos a.toNat := by
  refine @ends_of_variant _ _ HalvingRound (fun a => 0 < a.toNat) (fun a r => r.toNat = stripTwos a.toNat) UInt64.toNat
    (fun a positive => ?_) a positive
  by_cases even : a &&& 1 = 0
  · have two := (and_one_eq_zero_iff a).mp even
    have half := toNat_half a
    refine .inr ⟨a >>> 1, .even even, by omega, by omega, fun r same => ?_⟩
    rw [same, half]
    conv_rhs => rw [stripTwos, if_pos ⟨positive, two⟩]
  · have odd : a.toNat % 2 = 1 := by
      have other := mt (and_one_eq_zero_iff a).mpr even
      omega
    exact .inl ⟨a, .odd even, (stripTwos_of_odd odd).symm⟩

theorem halving_functional (a : UInt64) (one other : Round UInt64 UInt64) (first : HalvingRound a one)
    (second : HalvingRound a other) : one = other := by
  cases first with
  | even even =>
      cases second with
      | even _ => rfl
      | odd odd => exact absurd even odd
  | odd odd =>
      cases second with
      | even even => exact absurd even odd
      | odd _ => rfl

/-- Both numbers stay positive, and one of them is odd. -/
theorem subtracting_ends (first : 0 < a.toNat) (second : 0 < b.toNat) (odd : a.toNat % 2 = 1 ∨ b.toNat % 2 = 1) :
    ∃ d, Ends SubtractRound (a, b) d ∧ d.toNat = Nat.gcd a.toNat b.toNat := by
  refine @ends_of_variant _ _ SubtractRound
    (fun s => 0 < s.1.toNat ∧ 0 < s.2.toNat ∧ (s.1.toNat % 2 = 1 ∨ s.2.toNat % 2 = 1))
    (fun s d => d.toNat = Nat.gcd s.1.toNat s.2.toNat) (fun s => s.1.toNat + s.2.toNat)
    (fun s kept => ?_) (a, b) ⟨first, second, odd⟩
  obtain ⟨a, b⟩ := s
  obtain ⟨first, second, odd⟩ := kept
  obtain ⟨a', halved, a_eq⟩ := halving_ends first
  obtain ⟨b', halved', b_eq⟩ := halving_ends second
  have same : Nat.gcd a'.toNat b'.toNat = Nat.gcd a.toNat b.toNat := by
    rw [a_eq, b_eq]
    rcases odd with odd | odd
    · rw [stripTwos_of_odd odd, Nat.gcd_comm, gcd_stripTwos odd, Nat.gcd_comm]
    · rw [stripTwos_of_odd odd, gcd_stripTwos odd]
  have a_odd := a_eq ▸ stripTwos_odd first
  have b_odd := b_eq ▸ stripTwos_odd second
  have a_le := a_eq ▸ stripTwos_le a.toNat
  have b_le := b_eq ▸ stripTwos_le b.toNat
  dsimp only
  rcases Nat.lt_trichotomy a'.toNat b'.toNat with less | equal | greater
  · have left := UInt64.toNat_sub_of_le b' a' (UInt64.le_iff_toNat_le.mpr less.le)
    refine .inr ⟨(a', b' - a'), .second halved halved' (UInt64.lt_iff_toNat_lt.mpr less), ?_, ?_, fun d gcd => ?_⟩
    · dsimp only
      omega
    · dsimp only
      omega
    · rw [gcd, left, ← same]
      exact Nat.gcd_sub_self_right less.le
  · obtain rfl := UInt64.toNat_inj.mp equal
    refine .inl ⟨a', .equal halved halved', ?_⟩
    rw [← same, Nat.gcd_self]
  · have left := UInt64.toNat_sub_of_le a' b' (UInt64.le_iff_toNat_le.mpr greater.le)
    refine .inr ⟨(a' - b', b'), .first halved halved' (UInt64.lt_iff_toNat_lt.mpr greater), ?_, ?_, fun d gcd => ?_⟩
    · dsimp only
      omega
    · dsimp only
      omega
    · rw [gcd, left, ← same]
      exact Nat.gcd_sub_self_left greater.le

/-- What both numbers are divided by is counted. -/
theorem shifting_ends (first : 0 < a.toNat) (second : 0 < b.toNat) :
    ∃ last : UInt64 × UInt64 × Nat, Ends ShiftRound (a, b, 0) last ∧ 0 < last.1.toNat ∧ 0 < last.2.1.toNat ∧
      (last.1.toNat % 2 = 1 ∨ last.2.1.toNat % 2 = 1) ∧
      Nat.gcd last.1.toNat last.2.1.toNat * 2 ^ last.2.2 = Nat.gcd a.toNat b.toNat := by
  have ends := @ends_of_variant _ _ ShiftRound (fun s => 0 < s.1.toNat ∧ 0 < s.2.1.toNat)
    (fun s last => 0 < last.1.toNat ∧ 0 < last.2.1.toNat ∧ (last.1.toNat % 2 = 1 ∨ last.2.1.toNat % 2 = 1) ∧
      Nat.gcd last.1.toNat last.2.1.toNat * 2 ^ last.2.2 = Nat.gcd s.1.toNat s.2.1.toNat * 2 ^ s.2.2)
    (fun s => s.1.toNat) ?_ (a, b, 0) ⟨first, second⟩
  · simpa using ends
  · intro ⟨a, b, shift⟩ ⟨first, second⟩
    dsimp only at first second ⊢
    by_cases even : a &&& 1 = 0 ∧ b &&& 1 = 0
    · have a_even := (and_one_eq_zero_iff a).mp even.1
      have b_even := (and_one_eq_zero_iff b).mp even.2
      have a_half := toNat_half a
      have b_half := toNat_half b
      refine .inr ⟨(a >>> 1, b >>> 1, shift + 1), .even even, ?_, ?_, fun last result => ?_⟩
      · dsimp only
        omega
      · dsimp only
        omega
      · obtain ⟨left, right, odd, gcd⟩ := result
        refine ⟨left, right, odd, gcd.trans ?_⟩
        rw [a_half, b_half, Nat.pow_succ', ← Nat.mul_assoc, ← Nat.gcd_mul_right,
          Nat.div_mul_cancel (Nat.dvd_of_mod_eq_zero a_even), Nat.div_mul_cancel (Nat.dvd_of_mod_eq_zero b_even)]
    · refine .inl ⟨(a, b, shift), .odd even, first, second, ?_, rfl⟩
      rw [and_one_eq_zero_iff, and_one_eq_zero_iff] at even
      dsimp only
      omega

theorem shifting_functional (s : UInt64 × UInt64 × Nat) (one other : Round (UInt64 × UInt64 × Nat) (UInt64 × UInt64 × Nat))
    (first : ShiftRound s one) (second : ShiftRound s other) : one = other := by
  cases first with
  | even even =>
      cases second with
      | even _ => rfl
      | odd odd => exact absurd even odd
  | odd odd =>
      cases second with
      | even even => exact absurd even odd
      | odd _ => rfl

theorem subtracting_functional (s : UInt64 × UInt64) (one other : Round (UInt64 × UInt64) UInt64)
    (first : SubtractRound s one) (second : SubtractRound s other) : one = other := by
  obtain ⟨a, b⟩ := s
  have halved {a r r' : UInt64} (ends : Ends HalvingRound a r) (ends' : Ends HalvingRound a r') : r = r' :=
    ends.unique halving_functional ends'
  cases first with
  | first a_half b_half greater =>
      cases second with
      | first a_half' b_half' _ => rw [halved a_half a_half', halved b_half b_half']
      | second a_half' b_half' less =>
          rw [halved a_half' a_half, halved b_half' b_half] at less
          exact absurd less (UInt64.lt_asymm greater)
      | equal a_half' b_half' =>
          rw [halved a_half a_half', halved b_half b_half'] at greater
          exact absurd greater (UInt64.lt_irrefl _)
  | second a_half b_half less =>
      cases second with
      | first a_half' b_half' greater =>
          rw [halved a_half' a_half, halved b_half' b_half] at greater
          exact absurd greater (UInt64.lt_asymm less)
      | second a_half' b_half' _ => rw [halved a_half a_half', halved b_half b_half']
      | equal a_half' b_half' =>
          rw [halved a_half a_half', halved b_half b_half'] at less
          exact absurd less (UInt64.lt_irrefl _)
  | equal a_half b_half =>
      cases second with
      | first a_half' b_half' greater =>
          rw [← halved a_half a_half', ← halved b_half b_half'] at greater
          exact absurd greater (UInt64.lt_irrefl _)
      | second a_half' b_half' less =>
          rw [← halved a_half a_half', ← halved b_half b_half'] at less
          exact absurd less (UInt64.lt_irrefl _)
      | equal a_half' _ => rw [halved a_half a_half']

theorem gcd_unique {d e : UInt64} (one : Gcd a b d) (other : Gcd a b e) : d = e := by
  cases one with
  | first =>
      cases other with
      | first => rfl
      | second some => exact absurd rfl some
      | both some _ _ _ => exact absurd rfl some
  | second some =>
      cases other with
      | first => rfl
      | second _ => rfl
      | both _ some _ _ => exact absurd rfl some
  | both some some' shifts subtracts =>
      cases other with
      | first => exact absurd rfl some
      | second _ => exact absurd rfl some'
      | both _ _ shifts' subtracts' =>
          cases shifts.unique shifting_functional shifts'
          rw [subtracts.unique subtracting_functional subtracts']

theorem toNat_pos {a : UInt64} (some : a ≠ 0) : 0 < a.toNat :=
  Nat.pos_of_ne_zero fun zero => some (UInt64.toNat_inj.mp zero)

theorem exists_gcd (a b : UInt64) : ∃ d, Gcd a b d ∧ d.toNat = Nat.gcd a.toNat b.toNat := by
  by_cases some : a = 0
  · refine ⟨b, some ▸ .first, ?_⟩
    rw [some]
    exact (Nat.gcd_zero_left _).symm
  · by_cases some' : b = 0
    · refine ⟨a, some' ▸ .second some, ?_⟩
      rw [some']
      exact (Nat.gcd_zero_right _).symm
    · obtain ⟨⟨a', b', shift⟩, shifts, first, second, odd, gcd⟩ := shifting_ends (toNat_pos some) (toNat_pos some')
      dsimp only at first second odd gcd
      obtain ⟨d, subtracts, d_eq⟩ := subtracting_ends first second odd
      refine ⟨_, .both some some' shifts subtracts, ?_⟩
      rw [← d_eq] at gcd
      have positive : 0 < d.toNat := d_eq ▸ Nat.gcd_pos_of_pos_left _ first
      have most : Nat.gcd a.toNat b.toNat ≤ a.toNat := Nat.gcd_le_left _ (toNat_pos some)
      have fits := a.toNat_lt
      -- the result is no longer than the numbers, and so is the shift
      have low : shift < 64 := by
        by_contra far
        have wide := Nat.pow_le_pow_right (show 0 < 2 by decide) (Nat.le_of_not_lt far)
        have long := Nat.le_mul_of_pos_left (2 ^ shift) positive
        omega
      rw [UInt64.toNat_shiftLeft, UInt64.toNat_ofNat', Nat.mod_eq_of_lt (show shift < 2 ^ 64 by omega),
        Nat.mod_eq_of_lt low, Nat.shiftLeft_eq, gcd, Nat.mod_eq_of_lt (by omega)]

/-- The loops end with the greatest common divisor, and with nothing else. -/
theorem gcd_iff {d : UInt64} : Gcd a b d ↔ d.toNat = Nat.gcd a.toNat b.toNat := by
  obtain ⟨e, ends, e_eq⟩ := exists_gcd a b
  constructor
  · intro ends'
    rw [gcd_unique ends' ends, e_eq]
  · intro same
    rw [UInt64.toNat_inj.mp (same.trans e_eq.symm)]
    exact ends

end Divisor

/-! ## A step of the search -/

section Step

variable {pq a b c : UInt64}

/-- Two remainders have a sum that fits. -/
theorem exists_sum (most : pq.toNat ≤ 2 ^ 63) (first : a < pq) (second : b < pq) : ∃ sum, Sum a b sum := by
  have first' := UInt64.lt_iff_toNat_lt.mp first
  have second' := UInt64.lt_iff_toNat_lt.mp second
  exact ⟨UInt64.ofNat (a.toNat + b.toNat), UInt64.toNat_ofNat_of_lt (by show _ < 2 ^ 64; omega)⟩

theorem sum_unique {sum sum' : UInt64} (one : Sum a b sum) (other : Sum a b sum') : sum = sum' :=
  UInt64.toNat_inj.mp (one.trans other.symm)

theorem toNat_reduce (pq n : UInt64) :
    (reduce pq n).toNat = if pq.toNat ≤ n.toNat then n.toNat - pq.toNat else n.toNat := by
  rw [reduce]
  by_cases large : n ≥ pq
  · rw [if_pos large, if_pos (UInt64.le_iff_toNat_le.mp large), UInt64.toNat_sub_of_le _ _ large]
  · rw [if_neg large, if_neg (mt UInt64.le_iff_toNat_le.mpr large)]

theorem reduce_lt {sum : UInt64} (first : a < pq) (second : b < pq) (adds : Sum a b sum) : reduce pq sum < pq := by
  have first' := UInt64.lt_iff_toNat_lt.mp first
  have second' := UInt64.lt_iff_toNat_lt.mp second
  have eq : sum.toNat = a.toNat + b.toNat := adds
  rw [UInt64.lt_iff_toNat_lt, toNat_reduce]
  split_ifs <;> omega

/-- A sum that fits is not wrapped. -/
theorem toNat_reduce_sum {sum : UInt64} (adds : Sum a b sum) : (reduce pq sum).toNat =
    if pq.toNat ≤ wrap (a.toNat + b.toNat) then wrap (a.toNat + b.toNat) - pq.toNat else wrap (a.toNat + b.toNat) := by
  have eq : sum.toNat = a.toNat + b.toNat := adds
  have fits := sum.toNat_lt
  rw [toNat_reduce, wrap, Nat.mod_eq_of_lt (by omega), eq]

theorem mulAdd_even {n c a b : Nat} (some : 0 < b) (even : b % 2 = 0) :
    mulAdd n c a b = mulAdd n c (if n ≤ wrap (a + a) then wrap (a + a) - n else wrap (a + a)) (b / 2) := by
  conv_lhs => rw [mulAdd, if_neg some.ne']
  have other : ¬b % 2 = 1 := by omega
  simp only [if_neg other]

theorem mulAdd_odd {n c a b : Nat} (odd : b % 2 = 1) :
    mulAdd n c a b = mulAdd n (if n ≤ wrap (c + a) then wrap (c + a) - n else wrap (c + a))
      (if n ≤ wrap (a + a) then wrap (a + a) - n else wrap (a + a)) (b / 2) := by
  conv_lhs => rw [mulAdd, if_neg (show b ≠ 0 by omega)]
  simp only [if_pos odd]

theorem multiplying_ends (most : pq.toNat ≤ 2 ^ 63) (first : c < pq) (second : a < pq) :
    ∃ r, Ends (MultiplyRound pq) (a, b, c) r ∧ r.toNat = mulAdd pq.toNat c.toNat a.toNat b.toNat := by
  refine @ends_of_variant _ _ (MultiplyRound pq) (fun s => s.2.2 < pq ∧ s.1 < pq)
    (fun s r => r.toNat = mulAdd pq.toNat s.2.2.toNat s.1.toNat s.2.1.toNat) (fun s => s.2.1.toNat)
    (fun s kept => ?_) (a, b, c) ⟨first, second⟩
  obtain ⟨a, b, c⟩ := s
  obtain ⟨first, second⟩ := kept
  dsimp only at first second ⊢
  by_cases none : b = 0
  · subst none
    refine .inl ⟨c, .none, ?_⟩
    rw [mulAdd]
    exact (if_pos rfl).symm
  · have positive := toNat_pos none
    have half := toNat_half b
    obtain ⟨double, doubles⟩ := exists_sum most second second
    have doubled := reduce_lt second second doubles
    by_cases even : b &&& 1 = 0
    · refine .inr ⟨(reduce pq double, b >>> 1, c), .even none even doubles, ⟨first, doubled⟩, ?_, fun r same => ?_⟩
      · dsimp only
        omega
      · have two := (and_one_eq_zero_iff b).mp even
        rw [same, mulAdd_even positive two, toNat_reduce_sum doubles, half]
    · obtain ⟨sum, adds⟩ := exists_sum most first second
      refine .inr ⟨(reduce pq double, b >>> 1, reduce pq sum), .odd none even adds doubles,
        ⟨reduce_lt first second adds, doubled⟩, ?_, fun r same => ?_⟩
      · dsimp only
        omega
      · have one : b.toNat % 2 = 1 := by
          have other := mt (and_one_eq_zero_iff b).mpr even
          omega
        rw [same, mulAdd_odd one, toNat_reduce_sum doubles, toNat_reduce_sum adds, half]

theorem multiplying_functional (s : UInt64 × UInt64 × UInt64) (one other : Round (UInt64 × UInt64 × UInt64) UInt64)
    (first : MultiplyRound pq s one) (second : MultiplyRound pq s other) : one = other := by
  cases first with
  | none =>
      cases second with
      | none => rfl
      | odd some _ _ _ => exact absurd rfl some
      | even some _ _ => exact absurd rfl some
  | odd some odd adds doubles =>
      cases second with
      | none => exact absurd rfl some
      | odd _ _ adds' doubles' => rw [sum_unique adds adds', sum_unique doubles doubles']
      | even _ even _ => exact absurd even odd
  | even some even doubles =>
      cases second with
      | none => exact absurd rfl some
      | odd _ odd _ _ => exact absurd even odd
      | even _ _ doubles' => rw [sum_unique doubles doubles']

/-- The loop ends without overflow, with the remainder and with nothing else. -/
theorem multiply_iff (most : pq.toNat ≤ 2 ^ 63) (first : c < pq) (second : a < pq) {r : UInt64} :
    Ends (MultiplyRound pq) (a, b, c) r ↔ r.toNat = (c.toNat + a.toNat * b.toNat) % pq.toNat := by
  obtain ⟨r', ends, r'_eq⟩ := @multiplying_ends pq a b c most first second
  rw [mulAdd_eq most (UInt64.lt_iff_toNat_lt.mp first) (UInt64.lt_iff_toNat_lt.mp second)] at r'_eq
  constructor
  · intro ends'
    rw [ends'.unique multiplying_functional ends, r'_eq]
  · intro same
    rw [UInt64.toNat_inj.mp (same.trans r'_eq.symm)]
    exact ends

/-- The difference is taken without overflow, and stays below. -/
theorem exists_difference {x y : UInt64} (most : pq.toNat ≤ 2 ^ 63) (first : x < pq) (second : y < pq) :
    ∃ z, (∀ z', Difference pq x y z' ↔ z' = z) ∧ z < pq ∧
      z.toNat = (if x.toNat < y.toNat then wrap (pq.toNat + x.toNat) - y.toNat else x.toNat - y.toNat) := by
  have first' := UInt64.lt_iff_toNat_lt.mp first
  have second' := UInt64.lt_iff_toNat_lt.mp second
  by_cases less : x < y
  · have less' := UInt64.lt_iff_toNat_lt.mp less
    have whole : (UInt64.ofNat (pq.toNat + x.toNat)).toNat = pq.toNat + x.toNat :=
      UInt64.toNat_ofNat_of_lt (by show _ < 2 ^ 64; omega)
    have left := UInt64.toNat_sub_of_le (UInt64.ofNat (pq.toNat + x.toNat)) y
      (UInt64.le_iff_toNat_le.mpr (by omega))
    refine ⟨UInt64.ofNat (pq.toNat + x.toNat) - y, fun z => ⟨fun difference => ?_, fun same => ?_⟩, ?_, ?_⟩
    · cases difference with
      | less _ adds => rw [sum_unique adds (show Sum pq x (UInt64.ofNat (pq.toNat + x.toNat)) from whole)]
      | notLess more => exact absurd less more
    · rw [same]
      exact .less less whole
    · rw [UInt64.lt_iff_toNat_lt, left]
      omega
    · rw [left, whole, if_pos less', wrap, Nat.mod_eq_of_lt (by omega)]
  · have more := mt UInt64.lt_iff_toNat_lt.mpr less
    have left := UInt64.toNat_sub_of_le x y (UInt64.le_iff_toNat_le.mpr (by omega))
    refine ⟨x - y, fun z => ⟨fun difference => ?_, fun same => ?_⟩, ?_, ?_⟩
    · cases difference with
      | less less' _ => exact absurd less' less
      | notLess _ => rfl
    · rw [same]
      exact .notLess less
    · rw [UInt64.lt_iff_toNat_lt, left]
      omega
    · rw [left, if_neg more]

end Step

/-! ## The search -/

section Search

variable {pq q : UInt64}

/-- What one step computes. -/
theorem exists_step (most : pq.toNat ≤ 2 ^ 63) (adds : q < pq) {x y : UInt64} (first : x < pq) (second : y < pq) :
    ∃ x' z g, Ends (MultiplyRound pq) (x, x, q) x' ∧ Difference pq x' y z ∧ Gcd z pq g ∧ x' < pq ∧
      x'.toNat = mulAdd pq.toNat q.toNat x.toNat x.toNat ∧
      g.toNat = gcd (if x'.toNat < y.toNat then wrap (pq.toNat + x'.toNat) - y.toNat else x'.toNat - y.toNat) pq.toNat := by
  obtain ⟨x', multiplies, x'_eq⟩ := @multiplying_ends pq x x q most adds first
  have inside : x' < pq := by
    rw [UInt64.lt_iff_toNat_lt, x'_eq, mulAdd_eq most (UInt64.lt_iff_toNat_lt.mp adds) (UInt64.lt_iff_toNat_lt.mp first)]
    have first' := UInt64.lt_iff_toNat_lt.mp first
    exact Nat.mod_lt _ (by omega)
  obtain ⟨z, differs, _, z_eq⟩ := exists_difference most inside second
  obtain ⟨g, divides, g_eq⟩ := exists_gcd z pq
  refine ⟨x', z, g, multiplies, (differs z).mpr rfl, divides, inside, x'_eq, ?_⟩
  rw [g_eq, gcd_eq, z_eq]

/-- The loop of a start ends with what the search gives. -/
theorem searching_ends (most : pq.toNat ≤ 2 ^ 63) (adds : q < pq) {lim : Nat} {s : SearchState} (first : s.x < pq)
    (second : s.y < pq) (some : s.j < lim) :
    ∃ last, Ends (SearchRound pq q lim) s last ∧
      (last.g.toNat, last.iter) =
        ((search pq.toNat q.toNat (lim - s.j) s.j s.x.toNat s.y.toNat).1,
          s.iter + (search pq.toNat q.toNat (lim - s.j) s.j s.x.toNat s.y.toNat).2) := by
  refine @ends_of_variant _ _ (SearchRound pq q lim) (fun s => s.x < pq ∧ s.y < pq ∧ (s.j < lim ∨ s.g = 1))
    (fun s last => (last.g.toNat, last.iter) =
      ((search pq.toNat q.toNat (lim - s.j) s.j s.x.toNat s.y.toNat).1,
        s.iter + (search pq.toNat q.toNat (lim - s.j) s.j s.x.toNat s.y.toNat).2))
    (fun s => lim - s.j) (fun s kept => ?_) s ⟨first, second, .inl some⟩
  obtain ⟨first, second, started⟩ := kept
  by_cases more : s.j < lim
  · obtain ⟨x', z, g, multiplies, differs, divides, inside, x'_eq, g_eq⟩ := exists_step most adds first second
    obtain ⟨left, left_eq⟩ : ∃ left, lim - s.j = left + 1 := ⟨lim - s.j - 1, by omega⟩
    by_cases one : g = 1
    · subst one
      have trivial : (1 : UInt64).toNat = 1 := rfl
      refine .inr ⟨_, .next more multiplies differs divides, ⟨inside, ?_, .inr rfl⟩, ?_, fun last result => ?_⟩
      · dsimp only
        split_ifs
        · exact inside
        · exact second
      · dsimp only
        omega
      · rw [result, left_eq, search, ← x'_eq, ← g_eq, if_neg (not_not.mpr trivial)]
        have rest : lim - (s.j + 1) = left := by omega
        have chosen : (if s.j &&& (s.j - 1) = 0 then x' else s.y).toNat =
            if s.j &&& (s.j - 1) = 0 then x'.toNat else s.y.toNat := apply_ite _ _ _ _
        simp only [rest, chosen, Nat.add_assoc, Nat.add_comm 1]
    · have other : g.toNat ≠ 1 := fun same => one (UInt64.toNat_inj.mp same)
      refine .inl ⟨_, .found more multiplies differs divides one, ?_⟩
      rw [left_eq, search, ← x'_eq, ← g_eq, if_pos other]
  · have one := started.resolve_left more
    have none : lim - s.j = 0 := by omega
    refine .inl ⟨s, .ended more, ?_⟩
    rw [one, none, search]
    rfl

theorem toNat_pred (least : 2 ≤ pq.toNat) : (pq - 1).toNat = pq.toNat - 1 :=
  UInt64.toNat_sub_of_le _ _ (UInt64.le_iff_toNat_le.mpr (show 1 ≤ pq.toNat by omega))

theorem toNat_firstQ (least : 2 ≤ pq.toNat) (draw : PQDraw) : (firstQ pq draw).toNat = startQ pq.toNat draw := by
  have small : (UInt64.ofNat (17 + draw.index)).toNat = 17 + draw.index :=
    UInt64.toNat_ofNat_of_lt (by show _ < 2 ^ 64; omega)
  rw [firstQ, startQ, UInt64.toNat_mod, toNat_pred least, small]

theorem toNat_firstX (least : 2 ≤ pq.toNat) (draw : PQDraw) : (firstX pq draw).toNat = startX pq.toNat draw := by
  have small := Nat.mod_lt draw.value.toNat (show 0 < pq.toNat - 1 by omega)
  have fits := pq.toNat_lt
  rw [firstX, startX, UInt64.toNat_add, UInt64.toNat_mod, toNat_pred least]
  exact Nat.mod_eq_of_lt (by show _ + 1 < 2 ^ 64; omega)

/-- One start, from the first step on. -/
theorem start_ends (least : 2 ≤ pq.toNat) (most : pq.toNat ≤ 2 ^ 63) (draws : Nat → PQDraw) (s : StartState) :
    ∃ last made, Ends (SearchRound pq (firstQ pq (draws s.i)) (limit s.i))
        ⟨1, s.iter, firstX pq (draws s.i), firstX pq (draws s.i), s.g⟩ last ∧ 0 < made ∧ last.iter = s.iter + made ∧
      search pq.toNat (startQ pq.toNat (draws s.i)) (limit s.i - 1) 1 (startX pq.toNat (draws s.i))
        (startX pq.toNat (draws s.i)) = (last.g.toNat, made) := by
  have two := two_le_limit s.i
  have adds : firstQ pq (draws s.i) < pq := by
    rw [UInt64.lt_iff_toNat_lt, toNat_firstQ least]
    exact (Nat.mod_lt _ (by omega)).trans (by omega)
  have inside : firstX pq (draws s.i) < pq := by
    have small := Nat.mod_lt (draws s.i).value.toNat (show 0 < pq.toNat - 1 by omega)
    rw [UInt64.lt_iff_toNat_lt, toNat_firstX least, startX]
    omega
  obtain ⟨last, ends, result⟩ := @searching_ends pq _ most adds (limit s.i)
    ⟨1, s.iter, firstX pq (draws s.i), firstX pq (draws s.i), s.g⟩ inside inside (by show 1 < limit s.i; omega)
  obtain ⟨g, made, found, _, positive, _⟩ := @search_start pq.toNat draws least most s.i
  dsimp only at result
  rw [toNat_firstQ least, toNat_firstX least, found, Prod.mk.injEq] at result
  exact ⟨last, made, ends, positive, result.2, found.trans (Prod.ext result.1.symm rfl)⟩

/-- The starts end with what they are computed to. -/
theorem starting_ends (least : 2 ≤ pq.toNat) (most : pq.toNat ≤ 2 ^ 63) (draws : Nat → PQDraw) :
    ∃ g, Ends (StartRound pq draws) ⟨0, 0, 0⟩ g ∧ g.toNat = starts pq.toNat draws 1000 0 0 0 := by
  refine @ends_of_variant _ _ (StartRound pq draws) (fun s => s.i ≤ s.iter)
    (fun s g => g.toNat = starts pq.toNat draws (1000 - s.i) s.i s.iter s.g.toNat) (fun s => 1000 - s.i)
    (fun s kept => ?_) ⟨0, 0, 0⟩ (Nat.le_refl 0)
  by_cases goes : s.i < 3 ∨ s.iter < 1000
  · obtain ⟨last, made, ends, positive, iter, found⟩ := start_ends least most draws s
    obtain ⟨fuel, fuel_eq⟩ : ∃ fuel, 1000 - s.i = fuel + 1 := ⟨1000 - s.i - 1, by omega⟩
    have proper : (last.g > 1 ∧ last.g < pq) ↔ 1 < last.g.toNat ∧ last.g.toNat < pq.toNat :=
      and_congr UInt64.lt_iff_toNat_lt UInt64.lt_iff_toNat_lt
    by_cases splits : last.g > 1 ∧ last.g < pq
    · refine .inl ⟨last.g, .found goes ends splits, ?_⟩
      rw [fuel_eq, starts, if_pos goes]
      simp only [found, if_pos (proper.mp splits)]
    · refine .inr ⟨_, .next goes ends splits, ?_, ?_, fun g result => ?_⟩
      · dsimp only
        omega
      · dsimp only
        omega
      · have rest : 1000 - (s.i + 1) = fuel := by omega
        rw [fuel_eq, starts, if_pos goes]
        simp only [found, if_neg (mt proper.mpr splits)]
        rw [result, iter, rest]
  · refine .inl ⟨s.g, .ended goes, ?_⟩
    cases 1000 - s.i with
    | zero => rfl
    | succ fuel => rw [starts, if_neg goes]

theorem outside_iff (pq : UInt64) : (pq < 2 ∨ pq > (1 : UInt64) <<< 63) ↔ pq.toNat < 2 ∨ 2 ^ 63 < pq.toNat :=
  or_congr UInt64.lt_iff_toNat_lt UInt64.lt_iff_toNat_lt

/-- The function returns what is computed, whatever is drawn. -/
theorem factorizing_ends (draws : Nat → PQDraw) (pq : UInt64) :
    ∃ d, FactorizeSmallPQ draws pq d ∧ d.toNat = factorizeSmallPQ draws pq.toNat := by
  by_cases outside : pq.toNat < 2 ∨ 2 ^ 63 < pq.toNat
  · refine ⟨1, .outside ((outside_iff pq).mpr outside), ?_⟩
    rw [factorizeSmallPQ, if_pos outside]
    rfl
  · obtain ⟨g, ends, g_eq⟩ := starting_ends (show 2 ≤ pq.toNat by omega) (by omega) draws
    have inside := mt (outside_iff pq).mp outside
    have quotient : (pq / g).toNat = pq.toNat / g.toNat := UInt64.toNat_div pq g
    have smaller : (g ≠ 0 ∧ pq / g < g) ↔ g.toNat ≠ 0 ∧ pq.toNat / g.toNat < g.toNat := by
      rw [UInt64.lt_iff_toNat_lt, quotient]
      exact and_congr_left fun _ => not_congr UInt64.toNat_inj.symm
    rw [factorizeSmallPQ, if_neg outside, ← g_eq]
    by_cases less : g ≠ 0 ∧ pq / g < g
    · refine ⟨pq / g, .smaller inside ends less, ?_⟩
      rw [quotient]
      exact (if_pos (smaller.mp less)).symm
    · exact ⟨g, .larger inside ends less, (if_neg (mt smaller.mpr less)).symm⟩

/-! ## One result -/

theorem difference_unique {x y z z' : UInt64} (one : Difference pq x y z) (other : Difference pq x y z') : z = z' := by
  cases one with
  | less less adds =>
      cases other with
      | less _ adds' => rw [sum_unique adds adds']
      | notLess more => exact absurd less more
  | notLess more =>
      cases other with
      | less less _ => exact absurd less more
      | notLess _ => rfl

/-- What a step computes is all that it can compute. -/
theorem step_unique {x y x' x'' z z' g g' : UInt64} (multiplies : Ends (MultiplyRound pq) (x, x, q) x')
    (differs : Difference pq x' y z) (divides : Gcd z pq g) (multiplies' : Ends (MultiplyRound pq) (x, x, q) x'')
    (differs' : Difference pq x'' y z') (divides' : Gcd z' pq g') : x' = x'' ∧ g = g' := by
  obtain rfl := multiplies.unique multiplying_functional multiplies'
  obtain rfl := difference_unique differs differs'
  exact ⟨rfl, gcd_unique divides divides'⟩

theorem searching_functional {lim : Nat} (s : SearchState) (one other : Round SearchState SearchState)
    (first : SearchRound pq q lim s one) (second : SearchRound pq q lim s other) : one = other := by
  cases first with
  | ended ended =>
      cases second with
      | ended _ => rfl
      | found more _ _ _ _ => exact absurd more ended
      | next more _ _ _ => exact absurd more ended
  | found more multiplies differs divides some =>
      cases second with
      | ended ended => exact absurd more ended
      | found _ multiplies' differs' divides' _ =>
          obtain ⟨rfl, rfl⟩ := step_unique multiplies differs divides multiplies' differs' divides'
          rfl
      | next _ multiplies' differs' divides' =>
          exact absurd (step_unique multiplies differs divides multiplies' differs' divides').2 some
  | next more multiplies differs divides =>
      cases second with
      | ended ended => exact absurd more ended
      | found _ multiplies' differs' divides' some =>
          exact absurd (step_unique multiplies' differs' divides' multiplies differs divides).2 some
      | next _ multiplies' differs' divides' =>
          obtain ⟨rfl, _⟩ := step_unique multiplies differs divides multiplies' differs' divides'
          rfl

theorem starting_functional {draws : Nat → PQDraw} (s : StartState) (one other : Round StartState UInt64)
    (first : StartRound pq draws s one) (second : StartRound pq draws s other) : one = other := by
  cases first with
  | ended ended =>
      cases second with
      | ended _ => rfl
      | found more _ _ => exact absurd more ended
      | next more _ _ => exact absurd more ended
  | found more ends splits =>
      cases second with
      | ended ended => exact absurd more ended
      | found _ ends' _ => rw [ends.unique searching_functional ends']
      | next _ ends' trivial => exact absurd (ends.unique searching_functional ends' ▸ splits) trivial
  | next more ends trivial =>
      cases second with
      | ended ended => exact absurd more ended
      | found _ ends' splits => exact absurd (ends'.unique searching_functional ends ▸ splits) trivial
      | next _ ends' _ => rw [ends.unique searching_functional ends']

theorem factorizing_unique {draws : Nat → PQDraw} {d d' : UInt64} (one : FactorizeSmallPQ draws pq d)
    (other : FactorizeSmallPQ draws pq d') : d = d' := by
  cases one with
  | outside outside =>
      cases other with
      | outside _ => rfl
      | smaller inside _ _ => exact absurd outside inside
      | larger inside _ _ => exact absurd outside inside
  | smaller inside ends less =>
      cases other with
      | outside outside => exact absurd outside inside
      | smaller _ ends' _ => rw [ends.unique starting_functional ends']
      | larger _ ends' more => exact absurd (ends.unique starting_functional ends' ▸ less) more
  | larger inside ends more =>
      cases other with
      | outside outside => exact absurd outside inside
      | smaller _ ends' less => exact absurd (ends'.unique starting_functional ends ▸ less) more
      | larger _ ends' _ => exact ends.unique starting_functional ends'

theorem factorizeSmallPQ_dvd (draws : Nat → PQDraw) {n : Nat} (most : n ≤ 2 ^ 63) : factorizeSmallPQ draws n ∣ n := by
  rcases factorizeSmallPQ_spec most with ⟨d, finds, result⟩ | ⟨_, result⟩
  · obtain ⟨_, _, divides⟩ := finds.proper
    rw [result]
    rcases Nat.le_total d (n / d) with less | less
    · rw [Nat.min_eq_left less]
      exact divides
    · rw [Nat.min_eq_right less]
      exact Nat.div_dvd_of_dvd divides
  · rw [result]
    exact one_dvd n

end Search

/-- The arithmetic of the search is exact: everything ends, with one result, which is the one of natural numbers. -/
theorem factorization_exact :
    (∀ a b : UInt64, ∃ d, (∀ d', Gcd a b d' ↔ d' = d) ∧ d.toNat = Nat.gcd a.toNat b.toNat) ∧
      ∀ pq : UInt64, 2 ≤ pq.toNat → pq.toNat ≤ 2 ^ 63 →
        (∀ q x : UInt64, q < pq → x < pq → ∃ c, (∀ c', Ends (MultiplyRound pq) (x, x, q) c' ↔ c' = c) ∧
          c.toNat = (q.toNat + x.toNat * x.toNat) % pq.toNat) ∧
        (∀ x y : UInt64, x < pq → y < pq → ∃ z, (∀ z', Difference pq x y z' ↔ z' = z) ∧ z < pq ∧
          (z.toNat : Int) ≡ x.toNat - y.toNat [ZMOD pq.toNat]) ∧
        ∀ draws : Nat → PQDraw, ∃ d, (∀ d', FactorizeSmallPQ draws pq d' ↔ d' = d) ∧ d.toNat ∣ pq.toNat := by
  refine ⟨fun a b => ?_, fun pq least most => ⟨fun q x adds inside => ?_, fun x y first second => ?_, fun draws => ?_⟩⟩
  · obtain ⟨d, ends, d_eq⟩ := exists_gcd a b
    exact ⟨d, fun d' => ⟨fun ends' => gcd_unique ends' ends, fun same => same ▸ ends⟩, d_eq⟩
  · obtain ⟨c, ends, _⟩ := @multiplying_ends pq x x q most adds inside
    exact ⟨c, fun c' => ⟨fun ends' => ends'.unique multiplying_functional ends, fun same => same ▸ ends⟩,
      (multiply_iff most adds inside).mp ends⟩
  · obtain ⟨z, only, below, z_eq⟩ := exists_difference most first second
    have first' := UInt64.lt_iff_toNat_lt.mp first
    have second' := UInt64.lt_iff_toNat_lt.mp second
    refine ⟨z, only, below, ?_⟩
    rw [z_eq, wrap, Nat.mod_eq_of_lt (by omega)]
    split_ifs with less
    · have shifted : ((pq.toNat + x.toNat - y.toNat : Nat) : Int) = x.toNat - y.toNat + pq.toNat := by omega
      rw [shifted]
      exact Int.add_modEq_right
    · have plain : ((x.toNat - y.toNat : Nat) : Int) = x.toNat - y.toNat := by omega
      rw [plain]
  · obtain ⟨d, ends, d_eq⟩ := factorizing_ends draws pq
    exact ⟨d, fun d' => ⟨fun ends' => factorizing_unique ends' ends, fun same => same ▸ ends⟩,
      d_eq ▸ factorizeSmallPQ_dvd draws most⟩

theorem fifteen_exact :
    (∃ c, (∀ c', Ends (MultiplyRound 15) (7, 7, 2) c' ↔ c' = c) ∧ c.toNat = 6) ∧
      ∃ d, (∀ d', FactorizeSmallPQ (fun _ => ⟨0, 0⟩) 15 d' ↔ d' = d) ∧ d.toNat ∣ 15 := by
  obtain ⟨multiplies, _, factorizes⟩ := factorization_exact.2 15 (by decide) (by decide)
  exact ⟨multiplies 2 7 (by decide) (by decide), factorizes _⟩

end IMeDesktop.Mtproto.Handshake
