import IMeDesktop.Lib.Mask

/-! # Streams of numbers and strings

A number is written in so many bytes, the highest first, and a string of UTF-16 units after the count of
its bytes. A reader takes its bytes from the front, and fails where they are missing or make no sense.
-/

namespace IMeDesktop.Lib.DataStream

abbrev Stream (α : Type) := StateT Bytes Option α

def fail {α : Type} : Stream α := fun _ => none

def readRawData (count : Nat) : Stream Bytes := fun data =>
  if count ≤ data.length then some (data.take count, data.drop count) else none

def put (width n : Nat) : Bytes := (toLittleEndian width n).reverse

def get (width : Nat) : Stream Nat := do
  let bytes ← readRawData width
  pure (fromLittleEndian bytes.reverse)

def putUnits (text : List UInt16) : Bytes := text.flatMap fun unit => put 2 unit.toNat

def getUnits : Nat → Stream (List UInt16)
  | 0 => pure []
  | count + 1 => do
      let unit ← get 2
      let rest ← getUnits count
      pure (UInt16.ofNat unit :: rest)

/-- An empty string is written as a missing one. -/
def putString (text : List UInt16) : Bytes :=
  if text = [] then put 4 0xFFFFFFFF else put 4 (2 * text.length) ++ putUnits text

def getString : Stream (List UInt16) := do
  let bytes ← get 4
  if bytes = 0xFFFFFFFF then pure []
  else if bytes % 2 = 1 then fail
  else getUnits (bytes / 2)

def putInt32 (n : Int32) : Bytes := put 4 n.toUInt32.toNat

def getInt32 : Stream Int32 := do
  let unsigned ← get 4
  pure (UInt32.ofNat unsigned).toInt32

/-- A missing string is told from an empty one. -/
def putNullable : Option (List UInt16) → Bytes
  | none => put 4 0xFFFFFFFF
  | some text => put 4 (2 * text.length) ++ putUnits text

def getNullable : Stream (Option (List UInt16)) := do
  let bytes ← get 4
  if bytes = 0xFFFFFFFF then pure none
  else if bytes % 2 = 1 then fail
  else
    let text ← getUnits (bytes / 2)
    pure (some text)

/-- Bytes after their count, or the sign that they are missing. -/
def putByteArray : Option Bytes → Bytes
  | none => put 4 0xFFFFFFFF
  | some bytes => put 4 bytes.length ++ bytes

def getByteArray : Stream (Option Bytes) := do
  let len ← get 4
  if len = 0xFFFFFFFF then pure none
  else
    let bytes ← readRawData len
    pure (some bytes)

def getByteArrays : Nat → Stream (List (Option Bytes))
  | 0 => pure []
  | count + 1 => do
      let array ← getByteArray
      let rest ← getByteArrays count
      pure (array :: rest)

/-! ## What is read back -/

/-- The bytes are read as the value, whatever follows them. -/
def Reads {α : Type} (stream : Stream α) (bytes : Bytes) (value : α) : Prop :=
  ∀ rest, stream (bytes ++ rest) = some (value, rest)

variable {α β : Type} {first : Stream α} {g : α → Stream β} {bytes more : Bytes} {a : α} {b : β}

theorem reads_pure (a : α) : Reads (pure a : Stream α) [] a := fun _ => rfl

/-- The next reader goes on where the first one stopped. -/
theorem Reads.run (reads : Reads first bytes a) (g : α → Stream β) (rest : Bytes) :
    (first >>= g) (bytes ++ rest) = g a rest := by
  change (first (bytes ++ rest)).bind _ = _
  rw [reads]
  rfl

theorem Reads.bind (reads : Reads first bytes a) (next : Reads (g a) more b) :
    Reads (first >>= g) (bytes ++ more) b := by
  intro rest
  rw [List.append_assoc, reads.run]
  exact next rest

/-- The last of some readers only computes. -/
theorem Reads.map (reads : Reads first bytes a) (f : α → β) : Reads (do let x ← first; pure (f x)) bytes (f a) := by
  have all := reads.bind (g := fun x => pure (f x)) (reads_pure (f a))
  rwa [List.append_nil] at all

theorem reads_raw (bytes : Bytes) : Reads (readRawData bytes.length) bytes bytes := by
  intro rest
  simp [readRawData]

theorem length_put (width n : Nat) : (put width n).length = width := by
  rw [put, List.length_reverse, length_toLittleEndian]

theorem reads_get {width n : Nat} (small : n < 256 ^ width) : Reads (get width) (put width n) n := by
  have raw := reads_raw (put width n)
  rw [length_put] at raw
  have read := raw.map fun bytes => fromLittleEndian bytes.reverse
  rwa [put, List.reverse_reverse, fromLittleEndian_toLittleEndian small] at read

theorem reads_units (text : List UInt16) : Reads (getUnits text.length) (putUnits text) text := by
  induction text with
  | nil => exact reads_pure []
  | cons unit rest ih =>
      have small : unit.toNat < 256 ^ 2 := unit.toNat_lt
      have all := (reads_get small).bind (g := fun n => do
        let rest ← getUnits rest.length
        pure (UInt16.ofNat n :: rest)) (ih.map fun rest => UInt16.ofNat unit.toNat :: rest)
      rwa [UInt16.ofNat_toNat] at all

theorem reads_string {text : List UInt16} (short : text.length < 2 ^ 31) : Reads getString (putString text) text := by
  unfold putString
  split
  · rename_i empty
    subst empty
    have all := (reads_get (by decide : 0xFFFFFFFF < 256 ^ 4)).bind (g := fun bytes =>
      if bytes = 0xFFFFFFFF then pure [] else if bytes % 2 = 1 then fail else getUnits (bytes / 2)) (reads_pure [])
    rwa [List.append_nil] at all
  · have small : 2 * text.length < 256 ^ 4 := by omega
    refine (reads_get small).bind ?_
    rw [if_neg (by omega), if_neg (by omega), Nat.mul_div_cancel_left _ Nat.two_pos]
    exact reads_units text

theorem length_putUnits (text : List UInt16) : (putUnits text).length = 2 * text.length := by
  induction text with
  | nil => rfl
  | cons unit rest ih =>
      rw [putUnits, List.flatMap_cons, List.length_append, length_put]
      change 2 + (putUnits rest).length = _
      rw [ih, List.length_cons]
      omega

theorem reads_int32 (n : Int32) : Reads getInt32 (putInt32 n) n := by
  have read := (@reads_get 4 _ n.toUInt32.toNat_lt).map fun unsigned => (UInt32.ofNat unsigned).toInt32
  rwa [UInt32.ofNat_toNat, Int32.toInt32_toUInt32] at read

theorem length_putNullable (text : Option (List UInt16)) :
    (putNullable text).length = 4 + 2 * (text.getD []).length := by
  cases text with
  | none => rw [putNullable, length_put]; rfl
  | some text => rw [putNullable, List.length_append, length_put, length_putUnits]; rfl

theorem reads_nullable {text : Option (List UInt16)} (short : (text.getD []).length < 2 ^ 31) :
    Reads getNullable (putNullable text) text := by
  cases text with
  | none =>
      have all := (reads_get (by decide : 0xFFFFFFFF < 256 ^ 4)).bind (g := fun bytes =>
        if bytes = 0xFFFFFFFF then pure none else if bytes % 2 = 1 then fail else do
          let text ← getUnits (bytes / 2)
          pure (some text)) (reads_pure none)
      rwa [List.append_nil] at all
  | some text =>
      rw [Option.getD_some] at short
      have small : 2 * text.length < 256 ^ 4 := by omega
      refine (reads_get small).bind ?_
      rw [if_neg (by omega), if_neg (by omega), Nat.mul_div_cancel_left _ Nat.two_pos]
      exact (reads_units text).map some

theorem length_putByteArray (array : Option Bytes) : (putByteArray array).length = 4 + (array.getD []).length := by
  cases array with
  | none => rw [putByteArray, length_put]; rfl
  | some bytes => rw [putByteArray, List.length_append, length_put]; rfl

theorem reads_byteArray {array : Option Bytes} (short : (array.getD []).length < 2 ^ 31) :
    Reads getByteArray (putByteArray array) array := by
  cases array with
  | none =>
      have all := (reads_get (by decide : 0xFFFFFFFF < 256 ^ 4)).bind (g := fun len =>
        if len = 0xFFFFFFFF then pure none else do
          let bytes ← readRawData len
          pure (some bytes)) (reads_pure none)
      rwa [List.append_nil] at all
  | some bytes =>
      rw [Option.getD_some] at short
      refine (reads_get (by omega : bytes.length < 256 ^ 4)).bind ?_
      rw [if_neg (by omega)]
      exact (reads_raw bytes).map some

theorem reads_byteArrays {arrays : List (Option Bytes)}
    (short : ∀ array ∈ arrays, (array.getD []).length < 2 ^ 31) :
    Reads (getByteArrays arrays.length) (arrays.flatMap putByteArray) arrays := by
  induction arrays with
  | nil => exact reads_pure []
  | cons array rest ih =>
      have others := ih fun other member => short other (List.mem_cons_of_mem _ member)
      exact (reads_byteArray (short array List.mem_cons_self)).bind (others.map fun rest => array :: rest)

/-- What two readers found, one after another. -/
theorem bind_some {data rest : Bytes} (read : (first >>= g) data = some (b, rest)) :
    ∃ a middle, first data = some (a, middle) ∧ g a middle = some (b, rest) := by
  obtain ⟨⟨a, middle⟩, found, next⟩ := Option.bind_eq_some_iff.mp read
  exact ⟨a, middle, found, next⟩

theorem length_getUnits {count : Nat} {text : List UInt16} {data rest : Bytes}
    (read : getUnits count data = some (text, rest)) : text.length = count := by
  induction count generalizing text data with
  | zero =>
      cases read
      rfl
  | succ count ih =>
      obtain ⟨unit, middle, -, next⟩ := bind_some read
      obtain ⟨units, last, found, done⟩ := bind_some next
      cases done
      rw [List.length_cons, ih found]

theorem get_lt {width n : Nat} {data rest : Bytes} (read : get width data = some (n, rest)) : n < 256 ^ width := by
  obtain ⟨bytes, middle, found, done⟩ := bind_some read
  cases done
  unfold readRawData at found
  split at found
  · rename_i enough
    cases found
    have bound := fromLittleEndian_lt (data.take width).reverse
    rwa [List.length_reverse, List.length_take, Nat.min_eq_left enough] at bound
  · cases found

theorem length_getString {text : List UInt16} {data rest : Bytes} (read : getString data = some (text, rest)) :
    text.length < 2 ^ 31 := by
  obtain ⟨bytes, middle, count, next⟩ := bind_some read
  have small := get_lt count
  split at next
  · cases next
    decide
  · split at next
    · cases next
    · rw [length_getUnits next]
      omega

end IMeDesktop.Lib.DataStream
