import IMeDesktop.Lib.Cursor
import IMeDesktop.Mtproto.Scheme

/-! # Reading TL types

The readers of `lib_tl`, over the ints up to the end they are given. Each asks whether
enough ints are left before it takes them; that none of them passes the end is what
the rest relies on.
-/

namespace IMeDesktop.Mtproto

open Lib

/-- The ints that so many bytes take. -/
def primesOf (bytes : Nat) : Nat := bytes / 4 + if bytes % 4 = 0 then 0 else 1

/-- The bytes of an int, as they lie in memory. -/
def intBytes (int : Nat) : List Nat :=
  [int % 2 ^ 8, int / 2 ^ 8 % 2 ^ 8, int / 2 ^ 16 % 2 ^ 8, int / 2 ^ 24 % 2 ^ 8]

def readInt : Reader Nat Nat := do
  Reader.require 1
  Reader.get

def readLong : Reader Nat Nat := do
  Reader.require 2
  let low ← Reader.get
  let high ← Reader.get
  pure (longOf low high)

/-- The two halves of an `int128` are given as one number. -/
def readInt128 : Reader Nat Nat := do
  Reader.require 4
  let lowLow ← Reader.get
  let lowHigh ← Reader.get
  let highLow ← Reader.get
  let highHigh ← Reader.get
  pure (longOf lowLow lowHigh + 2 ^ 64 * longOf highLow highHigh)

/-- `HasBytes` and `GetBytes`. -/
def readBytes (count : Nat) : Reader Nat (List Nat) := do
  Reader.require (primesOf count)
  let ints ← Reader.get.times (primesOf count)
  pure ((ints.flatMap intBytes).take count)

def readString : Reader Nat (List Nat) := do
  Reader.require 1
  let first ← Reader.get
  let last := first % 2 ^ 8
  if last > 254 then Reader.fail
  else if last = 0 then pure []
  else if last = 1 then pure [first / 2 ^ 8 % 2 ^ 8]
  else if last = 2 then pure [first / 2 ^ 8 % 2 ^ 8, first / 2 ^ 16 % 2 ^ 8]
  else if last < 254 then do
    let bytes ← readBytes (last - 3)
    pure (first / 2 ^ 8 % 2 ^ 8 :: first / 2 ^ 16 % 2 ^ 8 :: first / 2 ^ 24 % 2 ^ 8 :: bytes)
  else readBytes (first / 2 ^ 8 % 2 ^ 24)

/-- `tl::boxed`, whose constructor decides what is read. -/
def readBoxed {β : Type} (bare : Nat → Reader Nat β) : Reader Nat β := do
  Reader.require 1
  let cons ← Reader.get
  bare cons

/-- A type with one constructor. -/
def readOnly {β : Type} (id : Nat) (fields : Reader Nat β) : Reader Nat β :=
  readBoxed fun cons => do
    Reader.check (cons = id)
    fields

/-- A boxed vector. -/
def readVector {β : Type} (item : Reader Nat β) : Reader Nat (List β) :=
  readOnly mtpcVector do
    Reader.require 1
    let count ← Reader.get
    item.times count

/-! ## Inside of the end -/

theorem safe_readInt : readInt.Safe 0 := Reader.Safe.require_bind Reader.safe_get

theorem safe_readLong : readLong.Safe 0 :=
  Reader.Safe.require_bind (Reader.Safe.get_bind fun _ => Reader.Safe.get_bind fun _ => Reader.safe_pure _)

theorem safe_readInt128 : readInt128.Safe 0 :=
  Reader.Safe.require_bind (Reader.Safe.get_bind fun _ => Reader.Safe.get_bind fun _ =>
    Reader.Safe.get_bind fun _ => Reader.Safe.get_bind fun _ => Reader.safe_pure _)

theorem safe_readBytes (count : Nat) : (readBytes count).Safe 0 :=
  Reader.Safe.require_bind ((Reader.safe_times_get _).bind fun _ => Reader.safe_pure _)

theorem safe_readString : readString.Safe 0 := by
  refine Reader.Safe.require_bind (Reader.Safe.get_bind fun first => ?_)
  dsimp only
  split_ifs
  · exact Reader.safe_fail
  · exact Reader.safe_pure _
  · exact Reader.safe_pure _
  · exact Reader.safe_pure _
  · exact (safe_readBytes _).bind fun _ => Reader.safe_pure _
  · exact safe_readBytes _

theorem safe_readBoxed {β : Type} {bare : Nat → Reader Nat β} (safe : ∀ cons, (bare cons).Safe 0) :
    (readBoxed bare).Safe 0 :=
  Reader.Safe.require_bind (Reader.Safe.get_bind safe)

theorem safe_readOnly {β : Type} {id : Nat} {fields : Reader Nat β} (safe : fields.Safe 0) :
    (readOnly id fields).Safe 0 :=
  safe_readBoxed fun _ => (Reader.safe_check _).bind fun _ => safe

theorem safe_readVector {β : Type} {item : Reader Nat β} (safe : item.Safe 0) : (readVector item).Safe 0 :=
  safe_readOnly (Reader.Safe.require_bind (Reader.Safe.get_bind fun count => safe.times count))

end IMeDesktop.Mtproto
