import IMeDesktop.Mtproto.FactorizePQ
import Mathlib.Data.Nat.ModEq
import Mathlib.Data.Nat.Prime.Basic
import Mathlib.Tactic.Ring

/-! # What a factorization returns

The arithmetic of the search is that of natural numbers: no sum leaves its 64 bits. The divisor it ends
with is proper where a start finds one, and else one, which is returned as a factor.
-/

namespace IMeDesktop.Mtproto.Handshake

open Lib

/-! ## The greatest common divisor -/

theorem stripTwos_of_odd {a : Nat} (odd : a % 2 = 1) : stripTwos a = a := by
  rw [stripTwos, if_neg (by omega)]

theorem stripTwos_odd {a : Nat} (positive : 0 < a) : stripTwos a % 2 = 1 := by
  fun_induction stripTwos a with
  | case1 a even ih => exact ih (by omega)
  | case2 a odd => omega

theorem stripTwos_le (a : Nat) : stripTwos a ≤ a := by
  fun_induction stripTwos a with
  | case1 a even ih => omega
  | case2 a odd => exact le_rfl

theorem gcd_stripTwos {b : Nat} (odd : b % 2 = 1) (a : Nat) : Nat.gcd (stripTwos a) b = Nat.gcd a b := by
  fun_induction stripTwos a with
  | case1 a even ih =>
      have coprime : Nat.Coprime 2 b := Nat.coprime_two_left.mpr (Nat.odd_iff.mpr odd)
      have half : a = 2 * (a / 2) := by omega
      rw [ih]
      conv_rhs => rw [half]
      exact (coprime.gcd_mul_left_cancel _).symm
  | case2 a _ => rfl

theorem oddGcd_eq {fuel a b : Nat} (first : 0 < a) (second : 0 < b) (odd : a % 2 = 1 ∨ b % 2 = 1)
    (enough : a + b ≤ fuel) : oddGcd fuel a b = Nat.gcd a b := by
  induction fuel generalizing a b with
  | zero => omega
  | succ fuel ih =>
      have same : Nat.gcd (stripTwos a) (stripTwos b) = Nat.gcd a b := by
        rcases odd with odd | odd
        · rw [stripTwos_of_odd odd, Nat.gcd_comm, gcd_stripTwos odd, Nat.gcd_comm]
        · rw [stripTwos_of_odd odd, gcd_stripTwos odd]
      have a_odd := stripTwos_odd first
      have b_odd := stripTwos_odd second
      have a_le := stripTwos_le a
      have b_le := stripTwos_le b
      rw [oddGcd, ← same]
      generalize stripTwos a = a' at *
      generalize stripTwos b = b' at *
      split
      · rw [ih (by omega) (by omega) (.inr b_odd) (by omega), Nat.gcd_sub_self_left (by omega)]
      · split
        · rw [ih (by omega) (by omega) (.inl a_odd) (by omega), Nat.gcd_sub_self_right (by omega)]
        · rw [show b' = a' by omega, Nat.gcd_self]

theorem shiftGcd_eq {a b : Nat} (first : 0 < a) (second : 0 < b) : shiftGcd a b = Nat.gcd a b := by
  fun_induction shiftGcd a b with
  | case1 a b even ih =>
      rw [ih (by omega) (by omega), ← Nat.gcd_mul_right, Nat.div_mul_cancel (Nat.dvd_of_mod_eq_zero even.2.1),
        Nat.div_mul_cancel (Nat.dvd_of_mod_eq_zero even.2.2)]
  | case2 a b odd => exact oddGcd_eq first second (by omega) le_rfl

theorem gcd_eq (a b : Nat) : gcd a b = Nat.gcd a b := by
  rw [gcd]
  split
  · rename_i zero
    rw [zero, Nat.gcd_zero_left]
  · split
    · rename_i zero
      rw [zero, Nat.gcd_zero_right]
    · exact shiftGcd_eq (by omega) (by omega)

/-! ## A step of the search -/

/-- A sum of two remainders is reduced by one subtraction. -/
theorem reduced_sum {n a b : Nat} (most : n ≤ 2 ^ 63) (first : a < n) (second : b < n) :
    (if n ≤ wrap (a + b) then wrap (a + b) - n else wrap (a + b)) = (a + b) % n := by
  have whole : wrap (a + b) = a + b := Nat.mod_eq_of_lt (by omega)
  rw [whole]
  split
  · rename_i large
    rw [Nat.mod_eq_sub_mod large, Nat.mod_eq_of_lt (by omega)]
  · rename_i small
    exact (Nat.mod_eq_of_lt (by omega)).symm

theorem mulAdd_eq {n c a b : Nat} (most : n ≤ 2 ^ 63) (first : c < n) (second : a < n) :
    mulAdd n c a b = (c + a * b) % n := by
  induction b using Nat.strong_induction_on generalizing c a with
  | _ b ih =>
      rw [mulAdd]
      split
      · rename_i zero
        rw [zero, Nat.mul_zero, Nat.add_zero, Nat.mod_eq_of_lt first]
      · have positive : 0 < n := by omega
        have term : (if b % 2 = 1 then (c + a) % n else c) = (c + a * (b % 2)) % n := by
          split
          · rename_i odd
            rw [odd, Nat.mul_one]
          · rename_i even
            rw [show b % 2 = 0 by omega, Nat.mul_zero, Nat.add_zero, Nat.mod_eq_of_lt first]
        dsimp only
        rw [reduced_sum most first second, reduced_sum most second second, term,
          ih (b / 2) (by omega) (Nat.mod_lt _ positive) (Nat.mod_lt _ positive)]
        have bits : b = b % 2 + 2 * (b / 2) := by omega
        calc ((c + a * (b % 2)) % n + (a + a) % n * (b / 2)) % n
            = (c + a * (b % 2) + (a + a) * (b / 2)) % n := by
              rw [Nat.add_mod, Nat.mod_mod, Nat.mul_mod, Nat.mod_mod, ← Nat.mul_mod, ← Nat.add_mod]
          _ = (c + a * (b % 2 + 2 * (b / 2))) % n := by
              congr 1
              ring
          _ = (c + a * b) % n := by rw [← bits]

/-- The difference is taken modulo `n`. -/
theorem gcd_difference {n x y : Nat} (most : n ≤ 2 ^ 63) (first : x < n) (second : y < n) :
    gcd (if x < y then wrap (n + x) - y else x - y) n = Nat.gcd (Nat.dist x y) n := by
  rw [gcd_eq]
  split
  · rename_i less
    have whole : wrap (n + x) = n + x := Nat.mod_eq_of_lt (by omega)
    rw [whole, Nat.dist_eq_sub_of_le less.le, show n + x - y = n - (y - x) by omega]
    exact Nat.gcd_self_sub_left (by omega)
  · rw [Nat.dist_eq_sub_of_le_right (by omega)]

/-! ## A start of the search -/

/-- The value that is kept for the next step. -/
theorem kept_next (n c start : Nat) {j : Nat} (positive : 0 < j) :
    (if j &&& (j - 1) = 0 then rho n c start j else rho n c start (Rho.anchor j)) =
      rho n c start (Rho.anchor (j + 1)) := by
  split
  · rename_i power
    rw [Rho.anchor_pow ((Nat.and_sub_one_eq_zero_iff_isPowerOfTwo positive.ne').mp power)]
  · rename_i other
    rw [Rho.anchor_other positive fun power => other ((Nat.and_sub_one_eq_zero_iff_isPowerOfTwo positive.ne').mpr power)]

/-- A search from the `j`th step on ends at the first common divisor, or goes through all steps. -/
theorem search_spec {n c start : Nat} (most : n ≤ 2 ^ 63) (adds : c < n) (inside : start < n) (left : Nat) :
    ∀ {j : Nat}, 0 < j →
      (∃ k, j ≤ k ∧ k < j + left ∧ Rho.common n c start k ≠ 1 ∧
        (∀ i, j ≤ i → i < k → Rho.common n c start i = 1) ∧
        search n c left j (rho n c start (j - 1)) (rho n c start (Rho.anchor j)) =
          (Rho.common n c start k, k - j + 1)) ∨
      (∀ i, j ≤ i → i < j + left → Rho.common n c start i = 1) ∧
        search n c left j (rho n c start (j - 1)) (rho n c start (Rho.anchor j)) = (1, left) := by
  induction left with
  | zero =>
      intro j positive
      exact .inr ⟨fun i least below => by omega, rfl⟩
  | succ left ih =>
      intro j positive
      have here : rho n c start j = mulAdd n c (rho n c start (j - 1)) (rho n c start (j - 1)) := by
        rw [mulAdd_eq most adds (Rho.rho_lt inside _), Nat.add_comm]
        conv_lhs => rw [← Nat.sub_add_cancel positive]
        rfl
      rw [search, ← here, gcd_difference most (Rho.rho_lt inside _) (Rho.rho_lt inside _), ← Rho.common,
        kept_next n c start positive]
      by_cases one : Rho.common n c start j = 1
      · rw [if_neg (not_not.mpr one)]
        have next := ih (j := j + 1) (by omega)
        rw [Nat.add_sub_cancel] at next
        have extend {i k : Nat} (coprime : ∀ i, j + 1 ≤ i → i < k → Rho.common n c start i = 1) (least : j ≤ i)
            (below : i < k) : Rho.common n c start i = 1 := by
          rcases Nat.eq_or_lt_of_le least with rfl | more
          · exact one
          · exact coprime i more below
        rcases next with ⟨k, least, below, meets, coprime, result⟩ | ⟨coprime, result⟩
        · refine .inl ⟨k, by omega, by omega, meets, fun i => extend coprime, ?_⟩
          rw [result]
          exact Prod.ext rfl (show k - (j + 1) + 1 + 1 = k - j + 1 by omega)
        · refine .inr ⟨fun i least below => extend coprime least (by omega), ?_⟩
          rw [result]
      · rw [if_pos one]
        refine .inl ⟨j, le_rfl, by omega, one, fun i least below => by omega, ?_⟩
        rw [Nat.sub_self, Nat.zero_add]

section Search

variable (n : Nat) (draws : Nat → PQDraw)

/-- The first step of a start that finds something. -/
def MeetsAt (i k : Nat) : Prop := Rho.Meets n (startQ n (draws i)) (startX n (draws i)) (limit i) k

/-- A start finds a proper divisor. -/
def Splits (i d : Nat) : Prop :=
  1 < d ∧ d < n ∧ ∃ k, MeetsAt n draws i k ∧ Rho.common n (startQ n (draws i)) (startX n (draws i)) k = d

/-- The steps that a start makes. -/
def Takes (i made : Nat) : Prop := MeetsAt n draws i made ∨ made = limit i - 1 ∧ ∀ k, ¬MeetsAt n draws i k

/-- A start is made after the ones before it, unless these were three and made many steps. -/
def Made (i iter : Nat) : Prop := i < 3 ∨ iter < 1000

/-- The starts below `i` were made, with this many steps, and none found a proper divisor. -/
inductive Reaches : Nat → Nat → Prop
  | start : Reaches 0 0
  | next {i iter made : Nat} : Reaches i iter → Made i iter → Takes n draws i made → (∀ d, ¬Splits n draws i d) →
      Reaches (i + 1) (iter + made)

/-- The search ends with a proper divisor. -/
def Finds (d : Nat) : Prop := ∃ i iter, Reaches n draws i iter ∧ Made i iter ∧ Splits n draws i d

end Search

section Starts

variable {n : Nat} {draws : Nat → PQDraw}

theorem Takes.unique {i made other : Nat} (takes : Takes n draws i made) (takes' : Takes n draws i other) :
    made = other := by
  rcases takes with meets | ⟨all, none⟩
  · rcases takes' with meets' | ⟨-, none⟩
    · exact Rho.Meets.unique meets meets'
    · exact absurd meets (none made)
  · rcases takes' with meets' | ⟨all', -⟩
    · exact absurd meets' (none other)
    · exact all.trans all'.symm

theorem Splits.unique {i d e : Nat} (splits : Splits n draws i d) (splits' : Splits n draws i e) : d = e := by
  obtain ⟨-, -, k, meets, rfl⟩ := splits
  obtain ⟨-, -, l, meets', rfl⟩ := splits'
  rw [Rho.Meets.unique meets meets']

theorem Reaches.unique {i iter iter' : Nat} (reaches : Reaches n draws i iter) (reaches' : Reaches n draws i iter') :
    iter = iter' := by
  induction reaches generalizing iter' with
  | start => cases reaches' with | start => rfl
  | next before _ takes _ ih =>
      cases reaches' with
      | next before' _ takes' _ => rw [ih before', takes.unique takes']

/-- The search does not go on behind a start that is not made or finds a proper divisor. -/
theorem Reaches.before {i j iter iter' : Nat} (reaches : Reaches n draws i iter) (later : Reaches n draws j iter')
    (less : i < j) : Made i iter ∧ ∀ d, ¬Splits n draws i d := by
  induction later with
  | start => omega
  | next before made _ none ih =>
      rcases Nat.eq_or_lt_of_le (Nat.le_of_lt_succ less) with rfl | earlier
      · rw [reaches.unique before]
        exact ⟨made, none⟩
      · exact ih earlier

theorem Finds.unique {d e : Nat} (finds : Finds n draws d) (finds' : Finds n draws e) : d = e := by
  obtain ⟨i, iter, reaches, -, splits⟩ := finds
  obtain ⟨j, iter', reaches', -, splits'⟩ := finds'
  rcases Nat.lt_trichotomy i j with less | rfl | greater
  · exact absurd splits ((reaches.before reaches' less).2 d)
  · exact splits.unique splits'
  · exact absurd splits' ((reaches'.before reaches greater).2 e)

theorem not_finds_of_ended {i iter : Nat} (reaches : Reaches n draws i iter) (ended : ¬Made i iter) (d : Nat) :
    ¬Finds n draws d := by
  rintro ⟨j, iter', reaches', made, splits⟩
  rcases Nat.lt_trichotomy i j with less | rfl | greater
  · exact ended (reaches.before reaches' less).1
  · exact ended (reaches.unique reaches' ▸ made)
  · exact (reaches'.before reaches greater).2 d splits

theorem Finds.proper {d : Nat} (finds : Finds n draws d) : 1 < d ∧ d < n ∧ d ∣ n := by
  obtain ⟨i, iter, -, -, more, less, k, -, rfl⟩ := finds
  exact ⟨more, less, Rho.common_dvd _ _ _ _⟩

theorem two_le_limit (i : Nat) : 2 ≤ limit i :=
  (show 2 ≤ 2 ^ 18 by decide).trans (Nat.pow_le_pow_right (by decide) (Nat.le_add_left 18 _))

/-- A start gives what it finds and the steps it makes. -/
theorem search_start (least : 2 ≤ n) (most : n ≤ 2 ^ 63) (i : Nat) :
    ∃ g made, search n (startQ n (draws i)) (limit i - 1) 1 (startX n (draws i)) (startX n (draws i)) = (g, made) ∧
      Takes n draws i made ∧ 0 < made ∧ g ∣ n ∧ ∀ d, Splits n draws i d ↔ (1 < g ∧ g < n) ∧ d = g := by
  have two := two_le_limit i
  have adds : startQ n (draws i) < n := (Nat.mod_lt _ (by omega)).trans (by omega)
  have inside : startX n (draws i) < n := by
    have := Nat.mod_lt (draws i).value.toNat (show 0 < n - 1 by omega)
    unfold startX
    omega
  rcases search_spec most adds inside (limit i - 1) (j := 1) (by decide) with
      ⟨k, positive, below, meets, coprime, result⟩ | ⟨coprime, result⟩
  · have meetsAt : MeetsAt n draws i k := ⟨positive, by omega, meets, fun i positive => coprime i positive⟩
    refine ⟨_, _, result, .inl ?_, by omega, Rho.common_dvd _ _ _ _, ?_⟩
    · rwa [Nat.sub_add_cancel positive]
    · intro d
      constructor
      · rintro ⟨more, less, l, meets', rfl⟩
        rw [Rho.Meets.unique meets' meetsAt] at more less ⊢
        exact ⟨⟨more, less⟩, rfl⟩
      · rintro ⟨⟨more, less⟩, rfl⟩
        exact ⟨more, less, k, meetsAt, rfl⟩
  · have none (k) : ¬MeetsAt n draws i k := by
      intro meetsAt
      have below := meetsAt.below
      exact meetsAt.meets (coprime k meetsAt.positive (by omega))
    refine ⟨1, limit i - 1, result, .inr ⟨rfl, none⟩, by omega, one_dvd n, ?_⟩
    intro d
    constructor
    · rintro ⟨-, -, k, meetsAt, -⟩
      exact absurd meetsAt (none k)
    · rintro ⟨⟨more, -⟩, -⟩
      exact absurd more (lt_irrefl 1)

theorem Reaches.le {i iter : Nat} (least : 2 ≤ n) (most : n ≤ 2 ^ 63) (reaches : Reaches n draws i iter) : i ≤ iter := by
  induction reaches with
  | start => exact le_rfl
  | @next i iter made _ _ takes _ ih =>
      obtain ⟨g, made', -, takes', positive, -⟩ := @search_start n draws least most i
      rw [takes.unique takes']
      omega

/-- The search ends with the proper divisor that is found, or with a trivial one. -/
theorem starts_spec (least : 2 ≤ n) (most : n ≤ 2 ^ 63) (fuel : Nat) :
    ∀ {i iter g : Nat}, Reaches n draws i iter → 1000 ≤ i + fuel → (0 < i → g = 1 ∨ g = n) →
      Finds n draws (starts n draws fuel i iter g) ∨
      (∀ d, ¬Finds n draws d) ∧ (starts n draws fuel i iter g = 1 ∨ starts n draws fuel i iter g = n) := by
  induction fuel with
  | zero =>
      intro i iter g reaches enough trivial
      have all := reaches.le least most
      have ended : ¬Made i iter := by
        unfold Made
        omega
      exact .inr ⟨not_finds_of_ended reaches ended, trivial (by omega)⟩
  | succ fuel ih =>
      intro i iter g reaches enough trivial
      rw [starts]
      by_cases made : i < 3 ∨ iter < 1000
      · rw [if_pos made]
        obtain ⟨g', steps, result, takes, -, divides, splits⟩ := @search_start n draws least most i
        simp only [result]
        split
        · rename_i proper
          exact .inl ⟨i, iter, reaches, made, (splits g').mpr ⟨proper, rfl⟩⟩
        · rename_i improper
          have none (d) : ¬Splits n draws i d := fun found => improper ((splits d).mp found).1
          apply ih (.next reaches made takes none) (by omega)
          intro _
          have below := Nat.le_of_dvd (by omega) divides
          have above := Nat.pos_of_dvd_of_pos divides (by omega)
          omega
      · rw [if_neg made]
        have some : 0 < i := by omega
        exact .inr ⟨not_finds_of_ended reaches made, trivial some⟩

/-- The smaller one of the divisor that is found and what it leaves, or one. -/
theorem factorizeSmallPQ_spec (most : n ≤ 2 ^ 63) :
    (∃ d, Finds n draws d ∧ factorizeSmallPQ draws n = min d (n / d)) ∨
      (∀ d, ¬Finds n draws d) ∧ factorizeSmallPQ draws n = 1 := by
  by_cases least : 2 ≤ n
  · rw [factorizeSmallPQ, if_neg (by omega)]
    rcases @starts_spec n draws least most 1000 0 0 0 .start (by decide) nofun with found | ⟨none, trivial⟩
    · refine .inl ⟨_, found, ?_⟩
      have proper := found.proper
      generalize starts n draws 1000 0 0 0 = d at *
      dsimp only
      split
      · omega
      · omega
    · refine .inr ⟨none, ?_⟩
      rcases trivial with one | all
      · rw [one]
        exact if_neg (by omega)
      · rw [all]
        dsimp only
        rw [Nat.div_self (by omega), if_pos (by omega)]
  · refine .inr ⟨fun d finds => ?_, ?_⟩
    · have proper := finds.proper
      omega
    · rw [factorizeSmallPQ, if_pos (by omega)]

end Starts

/-! ## The strings -/

theorem readBytes_fourBytes (n : Nat) : readBytes (fourBytes n) = n % 2 ^ 32 := by
  simp only [readBytes, fourBytes, List.foldl_cons, List.foldl_nil, UInt8.toNat_ofNat']
  omega

theorem foldl_bytes_lt (bytes : List UInt8) (n : Nat) :
    bytes.foldl (fun n byte => n * 256 + byte.toNat) n < (n + 1) * 256 ^ bytes.length := by
  induction bytes generalizing n with
  | nil => simp
  | cons byte rest ih =>
      rw [List.foldl_cons, List.length_cons, Nat.pow_succ', ← Nat.mul_assoc]
      have small := byte.toNat_lt
      exact (ih _).trans_le (Nat.mul_le_mul_right _ (by omega))

/-- The highest bit is free on the path of small numbers. -/
theorem readBytes_lt {pqStr : List UInt8} (small : ¬TakesBig pqStr) : readBytes pqStr < 2 ^ 63 := by
  have bits : ∀ n : Fin 256, n.val &&& 128 = 0 → n.val < 128 := by decide +kernel
  unfold TakesBig at small
  rw [not_or, not_and, not_lt] at small
  obtain ⟨short, free⟩ := small
  cases pqStr with
  | nil => decide
  | cons first rest =>
      have below : readBytes (first :: rest) < (first.toNat + 1) * 256 ^ rest.length := by
        have bound := foldl_bytes_lt rest first.toNat
        rwa [readBytes, List.foldl_cons, Nat.zero_mul, Nat.zero_add]
      rw [List.length_cons] at short free
      rcases Nat.lt_or_ge rest.length 7 with less | full
      · have bytes : (first.toNat + 1) * 256 ^ rest.length ≤ 256 * 256 ^ 6 :=
          Nat.mul_le_mul first.toNat_lt (Nat.pow_le_pow_right (by decide) (by omega))
        exact below.trans_le (bytes.trans (by decide))
      · have seven : rest.length = 7 := by omega
        have zero : first &&& 128 = 0 := by
          by_contra set
          exact free (by rw [seven]) ⟨first, rfl, set⟩
        have value : first.toNat &&& 128 = 0 := by
          have same := congrArg UInt8.toNat zero
          rwa [UInt8.toNat_and] at same
        have low := bits ⟨first.toNat, first.toNat_lt⟩ value
        rw [seven] at below
        exact below.trans_le (Nat.mul_le_mul_right (256 ^ 7) (show first.toNat + 1 ≤ 128 from low))

/-- Nothing is returned, or two factors in order. -/
def Factors (pq : Nat) (result : List UInt8 × List UInt8) : Prop :=
  result = ([], []) ∨ (1 < readBytes result.1 ∧ readBytes result.1 ≤ readBytes result.2) ∧
    readBytes result.1 * readBytes result.2 = pq

/-- A proper divisor that is found is written with its cofactor, if both have four bytes. -/
theorem factors_iff_of_finds {draws : Nat → PQDraw} {pqStr : List UInt8} (small : ¬TakesBig pqStr) {d : Nat}
    (finds : Finds (readBytes pqStr) draws d) :
    Factors (readBytes pqStr) (factorizePQ draws pqStr) ↔ d < 2 ^ 32 ∧ readBytes pqStr / d < 2 ^ 32 := by
  have most := readBytes_lt small
  unfold factorizePQ
  generalize readBytes pqStr = pq at most finds ⊢
  have result : factorizeSmallPQ draws pq = min d (pq / d) := by
    rcases @factorizeSmallPQ_spec _ draws most.le with ⟨d', finds', result⟩ | ⟨none, -⟩
    · rwa [finds'.unique finds] at result
    · exact absurd finds (none d)
  obtain ⟨more, less, e, rfl⟩ := finds.proper
  have other : 1 < e := by
    by_contra least
    have := Nat.mul_le_mul_left d (show e ≤ 1 by omega)
    omega
  rw [Nat.mul_div_cancel_left e (by omega)] at result ⊢
  have product : d * e = min d e * max d e := (min_mul_max d e).symm
  have proper : 1 < min d e := lt_min more other
  have ordered : min d e ≤ max d e := min_le_max
  rw [← max_lt_iff]
  rw [product] at most result ⊢
  generalize min d e = p, max d e = q at most result proper ordered ⊢
  have cofactor : p * q / p = q := Nat.mul_div_cancel_left q (by omega)
  have divides : p * q % p = 0 := Nat.mul_mod_right p q
  have short : p < 2 ^ 32 := by
    by_contra large
    have square := Nat.mul_le_mul (show 2 ^ 32 ≤ p by omega) (show 2 ^ 32 ≤ q by omega)
    omega
  dsimp only
  rw [result, if_neg (by omega), cofactor]
  unfold Factors
  dsimp only
  rw [readBytes_fourBytes, readBytes_fourBytes, Nat.mod_eq_of_lt short]
  constructor
  · rintro (nothing | ⟨-, same⟩)
    · cases nothing
    · rw [← Nat.eq_of_mul_eq_mul_left (show 0 < p by omega) same]
      exact Nat.mod_lt _ (by decide)
  · intro fits
    rw [Nat.mod_eq_of_lt fits]
    exact .inr ⟨⟨proper, ordered⟩, rfl⟩

/-- Where nothing is found, one is written as a factor. -/
theorem not_factors {draws : Nat → PQDraw} {pqStr : List UInt8} (small : ¬TakesBig pqStr)
    (none : ∀ d, ¬Finds (readBytes pqStr) draws d) : ¬Factors (readBytes pqStr) (factorizePQ draws pqStr) := by
  have most := readBytes_lt small
  rcases @factorizeSmallPQ_spec _ draws most.le with ⟨d, finds, -⟩ | ⟨-, result⟩
  · exact absurd finds (none d)
  · unfold factorizePQ
    dsimp only
    rw [result, if_neg (by omega)]
    rintro (nothing | ⟨⟨more, -⟩, -⟩)
    · cases nothing
    · rw [readBytes_fourBytes] at more
      exact absurd more (by decide)

/-- What is returned is right if and only if a start finds a proper divisor, and both factors have four
    bytes. -/
theorem factorizePQ_factors_iff (draws : Nat → PQDraw) {pqStr : List UInt8} (small : ¬TakesBig pqStr) :
    Factors (readBytes pqStr) (factorizePQ draws pqStr) ↔
      ∃ d, Finds (readBytes pqStr) draws d ∧ d < 2 ^ 32 ∧ readBytes pqStr / d < 2 ^ 32 := by
  constructor
  · intro right
    by_contra other
    have none (d) : ¬Finds (readBytes pqStr) draws d := fun finds =>
      other ⟨d, finds, (factors_iff_of_finds small finds).mp right⟩
    exact not_factors small none right
  · rintro ⟨d, finds, short⟩
    exact (factors_iff_of_finds small finds).mpr short

/-- A prime has no proper divisor to find. -/
theorem not_finds_of_prime {pq : Nat} (prime : pq.Prime) (draws : Nat → PQDraw) (d : Nat) : ¬Finds pq draws d := by
  intro finds
  obtain ⟨more, less, divides⟩ := finds.proper
  rcases (Nat.dvd_prime prime).mp divides with one | all
  · omega
  · omega

theorem finds_first {pq d : Nat} {draws : Nat → PQDraw} (proper : 1 < d ∧ d < pq)
    (meets : Rho.common pq (startQ pq (draws 0)) (startX pq (draws 0)) 1 = d) : Finds pq draws d := by
  refine ⟨0, 0, .start, .inl (by decide), proper.1, proper.2, 1, ?_, meets⟩
  exact ⟨by decide, by decide, by omega, fun i positive below => by omega⟩

theorem factorizePQ_factors_fifteen :
    let draws : Nat → PQDraw := fun _ => ⟨0, 0⟩
    ¬TakesBig [15] ∧ Factors 15 (factorizePQ draws [15]) := by
  intro draws
  have small : ¬TakesBig [15] := by decide
  exact ⟨small, (factorizePQ_factors_iff draws small).mpr ⟨3, finds_first (by decide) (by decide), by decide, by decide⟩⟩

/-- A prime is returned as a product with one, and a long factor is cut. -/
theorem prime_factorized :
    ¬TakesBig [7] ∧ ¬Factors 7 (factorizePQ (fun _ => ⟨0, 0⟩) [7]) ∧
      ¬TakesBig [8, 0, 0, 0, 0] ∧ ¬Factors (2 ^ 35) (factorizePQ (fun _ => ⟨1, 1⟩) [8, 0, 0, 0, 0]) := by
  have small : ¬TakesBig [7] := by decide
  have long : ¬TakesBig [8, 0, 0, 0, 0] := by decide
  refine ⟨small, not_factors small (not_finds_of_prime Nat.prime_seven _), long, ?_⟩
  have finds : Finds (readBytes [8, 0, 0, 0, 0]) (fun _ => ⟨1, 1⟩) 4 := finds_first (by decide) (by decide +kernel)
  intro right
  exact absurd ((factors_iff_of_finds long finds).mp right).2 (by decide)

end IMeDesktop.Mtproto.Handshake
