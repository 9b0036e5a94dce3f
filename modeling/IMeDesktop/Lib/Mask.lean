import IMeDesktop.Lib.Span
import Mathlib.Logic.Equiv.Basic

/-! # Bytes under a stream and counters of bytes

A stream cipher changes each byte by what its stream has at the byte's position, so it
undoes itself, and a piece can be changed without the others. A counter is a number kept
in a fixed number of bytes, lowest first; what does not fit is lost.
-/

namespace IMeDesktop.Lib

/-! ## Streams -/

/-- Bytes that start at a position. -/
def mask (stream : Nat → UInt8) : Nat → Bytes → Bytes
  | _, [] => []
  | position, byte :: rest => (byte ^^^ stream position) :: mask stream (position + 1) rest

section Mask

variable {stream : Nat → UInt8}

@[simp]
theorem length_mask (position : Nat) (data : Bytes) : (mask stream position data).length = data.length := by
  induction data generalizing position with
  | nil => rfl
  | cons byte rest ih => rw [mask, List.length_cons, List.length_cons, ih]

@[simp]
theorem mask_mask (position : Nat) (data : Bytes) : mask stream position (mask stream position data) = data := by
  induction data generalizing position with
  | nil => rfl
  | cons byte rest ih =>
      rw [mask, mask, ih, UInt8.xor_assoc, UInt8.xor_self, UInt8.xor_zero]

theorem mask_append (position : Nat) (front back : Bytes) :
    mask stream position (front ++ back) =
      mask stream position front ++ mask stream (position + front.length) back := by
  induction front generalizing position with
  | nil => rfl
  | cons byte rest ih =>
      rw [List.cons_append, mask, mask, ih, List.cons_append, List.length_cons]
      congr 3
      omega

theorem mask_take (position count : Nat) (data : Bytes) :
    mask stream position (data.take count) = (mask stream position data).take count := by
  induction data generalizing position count with
  | nil => simp [mask]
  | cons byte rest ih =>
      cases count with
      | zero => rfl
      | succ count => rw [List.take_succ_cons, mask, ih, mask, List.take_succ_cons]

theorem mask_drop (position count : Nat) (data : Bytes) :
    mask stream (position + count) (data.drop count) = (mask stream position data).drop count := by
  induction data generalizing position count with
  | nil => simp [mask]
  | cons byte rest ih =>
      cases count with
      | zero => rfl
      | succ count =>
          rw [List.drop_succ_cons, mask, List.drop_succ_cons, ← ih]
          congr 1
          omega

theorem mask_window (position start size : Nat) (data : Bytes) :
    mask stream (position + start) (window data start size) = window (mask stream position data) start size := by
  rw [window, mask_take, mask_drop, window]

/-- Streams that agree where the bytes are change them alike. -/
theorem mask_congr {other : Nat → UInt8} {position shift : Nat} {data : Bytes}
    (same : ∀ i < data.length, stream (position + i) = other (shift + i)) :
    mask stream position data = mask other shift data := by
  induction data generalizing position shift with
  | nil => rfl
  | cons byte rest ih =>
      have first := same 0 (by simp)
      have others := @ih (position + 1) (shift + 1) fun i inside => by
        have next := same (i + 1) (by simpa using inside)
        rwa [Nat.add_comm i 1, ← Nat.add_assoc, ← Nat.add_assoc] at next
      rw [mask, mask, others]
      simpa using first

end Mask

/-! ## Counters -/

/-- A sum byte by byte, until nothing is carried. -/
def addCarry : Bytes → Nat → Bytes
  | [], _ => []
  | low :: rest, increment =>
      let sum := increment + low.toNat
      UInt8.ofNat sum :: if sum / 256 = 0 then rest else addCarry rest (sum / 256)

@[simp]
theorem length_addCarry (bytes : Bytes) (increment : Nat) : (addCarry bytes increment).length = bytes.length := by
  induction bytes generalizing increment with
  | nil => rfl
  | cons low rest ih =>
      rw [addCarry, List.length_cons, List.length_cons]
      split_ifs
      · rfl
      · rw [ih]

theorem fromLittleEndian_lt (bytes : Bytes) : fromLittleEndian bytes < 256 ^ bytes.length := by
  induction bytes with
  | nil => exact Nat.one_pos
  | cons low rest ih =>
      have := low.toNat_lt
      rw [fromLittleEndian, List.length_cons, Nat.pow_succ]
      omega

theorem fromLittleEndian_injective {a b : Bytes} (width : a.length = b.length)
    (same : fromLittleEndian a = fromLittleEndian b) : a = b := by
  induction a generalizing b with
  | nil => exact (List.length_eq_zero_iff.mp width.symm).symm
  | cons low rest ih =>
      obtain _ | ⟨low', rest'⟩ := b
      · cases width
      · have := low.toNat_lt
        have := low'.toNat_lt
        rw [fromLittleEndian, fromLittleEndian] at same
        have head : low = low' := UInt8.toNat_inj.mp (by omega)
        rw [head, ih (by simpa using width) (by omega)]

theorem fromLittleEndian_addCarry (bytes : Bytes) (increment : Nat) :
    fromLittleEndian (addCarry bytes increment) = (fromLittleEndian bytes + increment) % 256 ^ bytes.length := by
  induction bytes generalizing increment with
  | nil => rw [addCarry, List.length_nil, Nat.pow_zero, Nat.mod_one, fromLittleEndian]
  | cons low rest ih =>
      have less := fromLittleEndian_lt rest
      -- The carry is added to the other bytes, also when there is none.
      have others : fromLittleEndian
          (if (increment + low.toNat) / 256 = 0 then rest else addCarry rest ((increment + low.toNat) / 256)) =
          (fromLittleEndian rest + (increment + low.toNat) / 256) % 256 ^ rest.length := by
        split_ifs with none
        · rw [none, Nat.add_zero, Nat.mod_eq_of_lt less]
        · exact ih _
      rw [addCarry, fromLittleEndian, others, fromLittleEndian, List.length_cons, Nat.pow_succ, Nat.mul_comm _ 256,
        Nat.mod_mul, UInt8.toNat_ofNat']
      have low_part : (low.toNat + 256 * fromLittleEndian rest + increment) % 256 = (increment + low.toNat) % 2 ^ 8 := by
        omega
      have high_part : (low.toNat + 256 * fromLittleEndian rest + increment) / 256 =
          fromLittleEndian rest + (increment + low.toNat) / 256 := by
        omega
      rw [low_part, high_part]

/-- Sums add up. -/
theorem addCarry_addCarry (bytes : Bytes) (m n : Nat) : addCarry (addCarry bytes m) n = addCarry bytes (m + n) := by
  apply fromLittleEndian_injective (by simp)
  rw [fromLittleEndian_addCarry, fromLittleEndian_addCarry, fromLittleEndian_addCarry, length_addCarry,
    Nat.mod_add_mod, Nat.add_assoc]

theorem addCarry_zero (bytes : Bytes) : addCarry bytes 0 = bytes := by
  apply fromLittleEndian_injective (by simp)
  rw [fromLittleEndian_addCarry, Nat.add_zero, Nat.mod_eq_of_lt (fromLittleEndian_lt bytes)]

/-! ## Two strings that change places -/

theorem length_swap {one other : Bytes} (same : one.length = other.length) (data : Bytes) :
    (Equiv.swap one other data).length = data.length := by
  rw [Equiv.swap_apply_def]
  split_ifs with first second
  · rw [first, same]
  · rw [second, same]
  · rfl

end IMeDesktop.Lib
