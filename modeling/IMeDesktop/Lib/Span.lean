import Mathlib

/-! # Bounds-checked views of a byte buffer

`subspan` is the checked slicing of `gsl::span`: `none` is the terminated program.
Offsets and counts are the C++ expressions before their conversion to `size_t`.
A converted negative count is larger than any buffer, except that `-1` is
`dynamic_extent` and asks for the rest. A buffer that is written to while a view of
it is in use is seen through `window`.
-/

namespace IMeDesktop.Lib

abbrev Bytes := List UInt8

variable {α : Type}

def subspan (data : List α) (offset count : Int) : Option (List α) :=
  if 0 ≤ offset ∧ offset ≤ data.length then
    if count = -1 then some (data.drop offset.toNat)
    else if 0 ≤ count ∧ offset + count ≤ data.length then
      some ((data.drop offset.toNat).take count.toNat)
    else none
  else none

theorem subspan_inside {data : List α} {offset count : Nat} (inside : offset + count ≤ data.length) :
    subspan data offset count = some ((data.drop offset).take count) := by
  have below : (0 : Int) ≤ offset ∧ (offset : Int) ≤ data.length := by omega
  have within : (0 : Int) ≤ count ∧ (offset : Int) + count ≤ data.length := by omega
  rw [subspan, if_pos below, if_neg (by omega), if_pos within, Int.toNat_natCast, Int.toNat_natCast]

theorem subspan_first {data : List α} {count : Nat} (inside : count ≤ data.length) :
    subspan data 0 count = some (data.take count) :=
  @subspan_inside _ data 0 count (by omega)

/-- A view of the middle of a buffer. -/
theorem subspan_middle {front middle back : List α} {offset count : Int} (before : offset = front.length)
    (all : count = middle.length) : subspan (front ++ (middle ++ back)) offset count = some middle := by
  subst before all
  have inside : front.length + middle.length ≤ (front ++ (middle ++ back)).length := by
    rw [List.length_append, List.length_append]
    omega
  rw [subspan_inside inside, List.drop_left, List.take_left]

theorem subspan_back {front back : List α} {offset count : Int} (before : offset = front.length)
    (all : count = back.length) : subspan (front ++ back) offset count = some back := by
  have whole := @subspan_middle _ front back [] offset count before all
  rwa [List.append_nil] at whole

theorem subspan_outside {data : List α} (offset : Nat) {count : Int} (notRest : count ≠ -1)
    (outside : count < 0 ∨ (data.length : Int) < offset + count) : subspan data offset count = none := by
  unfold subspan
  split_ifs
  · omega
  · rfl
  · rfl

theorem subspan_rest {data : List α} {position : Nat} (inside : position ≤ data.length) :
    subspan data position (-1) = some (data.drop position) := by
  rw [subspan, if_pos (by omega), if_pos rfl, Int.toNat_natCast]

/-- Two bytes in network order, as `qFromBigEndian` reads them. -/
def fromBigEndian : Bytes → Nat
  | [] => 0
  | [low] => low.toNat
  | high :: low :: _ => high.toNat * 256 + low.toNat

theorem fromBigEndian_lt (data : Bytes) : fromBigEndian data < 2 ^ 16 := by
  match data with
  | [] => decide
  | [low] =>
      have := low.toNat_lt
      simp only [fromBigEndian]
      omega
  | high :: low :: _ =>
      have := high.toNat_lt
      have := low.toNat_lt
      simp only [fromBigEndian]
      omega

/-- `qToBigEndian(uint16(n))`. -/
def toBigEndian (n : Nat) : Bytes := [UInt8.ofNat (n / 256), UInt8.ofNat n]

@[simp]
theorem length_toBigEndian (n : Nat) : (toBigEndian n).length = 2 := rfl

theorem fromBigEndian_toBigEndian {n : Nat} (small : n < 2 ^ 16) (rest : Bytes) :
    fromBigEndian (toBigEndian n ++ rest) = n := by
  simp only [toBigEndian, List.cons_append, List.nil_append, fromBigEndian, UInt8.toNat_ofNat']
  omega

theorem toBigEndian_fromBigEndian (high low : UInt8) :
    toBigEndian (fromBigEndian [high, low]) = [high, low] := by
  have := high.toNat_lt
  have := low.toNat_lt
  simp only [toBigEndian, fromBigEndian, List.cons.injEq, and_true]
  constructor
  · rw [← UInt8.toNat_inj, UInt8.toNat_ofNat']
    omega
  · rw [← UInt8.toNat_inj, UInt8.toNat_ofNat']
    omega

theorem toBigEndian_injective {m n : Nat} (hm : m < 2 ^ 16) (hn : n < 2 ^ 16)
    (same : toBigEndian m = toBigEndian n) : m = n := by
  have read := congrArg fromBigEndian same
  rw [← List.append_nil (toBigEndian m), ← List.append_nil (toBigEndian n),
    fromBigEndian_toBigEndian hm, fromBigEndian_toBigEndian hn] at read
  exact read

/-- Bytes in host order, lowest first. -/
def fromLittleEndian : Bytes → Nat
  | [] => 0
  | low :: rest => low.toNat + 256 * fromLittleEndian rest

/-- The lowest `width` bytes of a number. -/
def toLittleEndian : Nat → Nat → Bytes
  | 0, _ => []
  | width + 1, n => UInt8.ofNat n :: toLittleEndian width (n / 256)

@[simp]
theorem length_toLittleEndian (width n : Nat) : (toLittleEndian width n).length = width := by
  induction width generalizing n with
  | zero => rfl
  | succ width ih => rw [toLittleEndian, List.length_cons, ih]

theorem fromLittleEndian_toLittleEndian {width n : Nat} (small : n < 256 ^ width) :
    fromLittleEndian (toLittleEndian width n) = n := by
  induction width generalizing n with
  | zero =>
      rw [Nat.pow_zero] at small
      simp only [toLittleEndian, fromLittleEndian]
      omega
  | succ width ih =>
      have less : n / 256 < 256 ^ width := by
        rw [Nat.pow_succ] at small
        omega
      simp only [toLittleEndian, fromLittleEndian, ih less, UInt8.toNat_ofNat']
      omega

/-! ## Windows of a buffer that is written to -/

/-- The bytes a view sees. -/
def window (data : List α) (start size : Nat) : List α := (data.drop start).take size

/-- Bytes copied into a buffer, which must hold them. -/
def overwrite (data : List α) (start : Nat) (bytes : List α) : Option (List α) :=
  if start + bytes.length ≤ data.length then
    some (data.take start ++ bytes ++ data.drop (start + bytes.length))
  else none

section Windows

variable {data bytes result : List α} {start size other : Nat}

theorem subspan_window (inside : start + size ≤ data.length) :
    subspan data start size = some (window data start size) := subspan_inside inside

theorem length_window (inside : start + size ≤ data.length) : (window data start size).length = size := by
  rw [window, List.length_take, List.length_drop]
  omega

/-- A part of a view is a view. -/
theorem window_window {inner count : Nat} (inside : inner + count ≤ size) :
    window (window data start size) inner count = window data (start + inner) count := by
  rw [window, window, List.drop_take, List.take_take, List.drop_drop, window,
    Nat.min_eq_left (by omega)]

theorem window_add (count : Nat) :
    window data start (size + count) = window data start size ++ window data (start + size) count := by
  rw [window, List.take_add, List.drop_drop]
  rfl

theorem overwrite_inside (inside : start + bytes.length ≤ data.length) :
    ∃ result, overwrite data start bytes = some result := by
  rw [overwrite, if_pos inside]
  exact ⟨_, rfl⟩

theorem overwrite_eq (written : overwrite data start bytes = some result) :
    start + bytes.length ≤ data.length ∧
      result = data.take start ++ (bytes ++ data.drop (start + bytes.length)) := by
  rw [overwrite] at written
  split_ifs at written with inside
  cases written
  exact ⟨inside, by rw [List.append_assoc]⟩

theorem length_overwrite (written : overwrite data start bytes = some result) :
    result.length = data.length := by
  obtain ⟨inside, rfl⟩ := overwrite_eq written
  simp only [List.length_append, List.length_take, List.length_drop]
  omega

theorem take_overwrite (written : overwrite data start bytes = some result) : result.take start = data.take start := by
  obtain ⟨inside, rfl⟩ := overwrite_eq written
  rw [List.take_left' (by rw [List.length_take]; omega)]

theorem drop_overwrite (written : overwrite data start bytes = some result) :
    result.drop start = bytes ++ data.drop (start + bytes.length) := by
  obtain ⟨inside, rfl⟩ := overwrite_eq written
  rw [List.drop_left' (by rw [List.length_take]; omega)]

theorem drop_overwrite_after (written : overwrite data start bytes = some result)
    (after : start + bytes.length ≤ other) : result.drop other = data.drop other := by
  have nothing : bytes.drop (other - start) = [] := List.drop_eq_nil_of_le (by omega)
  have rest := congrArg (List.drop (other - start)) (drop_overwrite written)
  rw [List.drop_drop, List.drop_append, nothing, List.nil_append, List.drop_drop,
    show start + (other - start) = other by omega,
    show start + bytes.length + (other - start - bytes.length) = other by omega] at rest
  exact rest

theorem window_overwrite (written : overwrite data start bytes = some result) :
    window result start bytes.length = bytes := by
  obtain ⟨inside, rfl⟩ := overwrite_eq written
  have length : (data.take start).length = start := by
    rw [List.length_take]
    omega
  rw [window, List.drop_left' length, List.take_left]

/-- What was written behind a view does not change it. -/
theorem window_overwrite_before (written : overwrite data start bytes = some result)
    (before : other + size ≤ start) : window result other size = window data other size := by
  obtain ⟨inside, rfl⟩ := overwrite_eq written
  have short : size ≤ ((data.take start).drop other).length := by
    rw [List.length_drop, List.length_take]
    omega
  rw [window, List.drop_append_of_le_length (by rw [List.length_take]; omega),
    List.take_append_of_le_length short, window, List.drop_take, List.take_take,
    Nat.min_eq_left (by omega)]

/-- Nor does what was written in front of it. -/
theorem window_overwrite_after (written : overwrite data start bytes = some result)
    (after : start + bytes.length ≤ other) : window result other size = window data other size := by
  obtain ⟨inside, rfl⟩ := overwrite_eq written
  have length : (data.take start ++ bytes).length = start + bytes.length := by
    rw [List.length_append, List.length_take]
    omega
  rw [window, window, ← List.append_assoc, List.drop_append, List.drop_eq_nil_of_le (by omega), length,
    List.nil_append, List.drop_drop, Nat.add_sub_cancel' after]

/-- Writing right behind a view extends it. -/
theorem window_overwrite_extend (written : overwrite data (start + size) bytes = some result) :
    window result start (size + bytes.length) = window data start size ++ bytes := by
  rw [window_add, window_overwrite written, window_overwrite_before written (Nat.le_refl _)]

end Windows

end IMeDesktop.Lib
