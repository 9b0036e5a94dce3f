import IMeDesktop.Lib.Span
import IMeDesktop.Mtproto.TlReader

/-! # Basic TL types

The values of `lib_tl` that are built from ints, words, strings and vectors, and how they
are written. A value is written to something that takes ints and bytes: a buffer, or a
counter that only adds up lengths. Sizes and lengths are 32 bits wide.

What is written is what is read again, and readers never pass the end of their data. A
double is the word it lies in memory as.
-/

namespace IMeDesktop.Mtproto

open Lib

inductive TlType where
  | int
  | long
  | double
  | int128
  | int256
  | string
  | vector (item : TlType)
  deriving DecidableEq, Repr

structure Int128 where
  l : UInt64
  h : UInt64
  deriving DecidableEq, Repr

structure Int256 where
  l : Int128
  h : Int128
  deriving DecidableEq, Repr

namespace TlType

@[reducible]
def Value : TlType → Type
  | int => UInt32
  | long => UInt64
  | double => UInt64
  | int128 => Int128
  | int256 => Int256
  | string => Bytes
  | vector item => List item.Value

/-! ## Writing -/

/-- `Writer<Accumulator>`. -/
structure Accumulator (α : Type) where
  put : α → Nat → α
  putBytes : α → Bytes → α

/-- Bytes in ints, with zeros behind the last ones. -/
def bytesInts : Bytes → List Nat
  | a :: b :: c :: d :: rest => fromLittleEndian [a, b, c, d] :: bytesInts rest
  | [] => []
  | last => [fromLittleEndian last]

/-- `Writer<mtpBuffer>`. -/
def buffer : Accumulator (List Nat) where
  put out value := out ++ [value]
  putBytes out bytes := out ++ bytesInts bytes

/-- `Writer<LengthCounter>`. -/
def lengthCounter : Accumulator Nat where
  put out _ := (out + 4) % 2 ^ 32
  putBytes out bytes := (out + primesOf bytes.length * 4) % 2 ^ 32

section Write

variable {α : Type} (writer : Accumulator α)

def writeLong (v : UInt64) (out : α) : α := writer.put (writer.put out (v.toNat % 2 ^ 32)) (v.toNat / 2 ^ 32)

def writeInt128 (v : Int128) (out : α) : α := writeLong writer v.h (writeLong writer v.l out)

/-- A size below 254 shares an int with up to three bytes. -/
def writeString (v : Bytes) (out : α) : Option α :=
  if v.length < 2 ^ 24 then
    let size := v.length
    match v with
    | [] => some (writer.put out size)
    | [a] => some (writer.put out (size + a.toNat * 2 ^ 8))
    | [a, b] => some (writer.put out (size + a.toNat * 2 ^ 8 + b.toNat * 2 ^ 16))
    | a :: b :: c :: rest =>
        if size < 254 then
          let out := writer.put out (size + a.toNat * 2 ^ 8 + b.toNat * 2 ^ 16 + c.toNat * 2 ^ 24)
          some (writer.putBytes out rest)
        else some (writer.putBytes (writer.put out (size * 2 ^ 8 + 254)) v)
  else none

/-- `none` where a string is too long, which is not expected. -/
def write : (t : TlType) → t.Value → α → Option α
  | int, v, out => some (writer.put out v.toNat)
  | long, v, out => some (writeLong writer v out)
  | double, v, out => some (writeLong writer v out)
  | int128, v, out => some (writeInt128 writer v out)
  | int256, v, out => some (writeInt128 writer v.h (writeInt128 writer v.l out))
  | string, v, out => writeString writer v out
  | vector item, v, out =>
      v.foldlM (fun out value => write item value out) (writer.put out (v.length % 2 ^ 32))

end Write

def countLength (t : TlType) (v : t.Value) : Option Nat := t.write lengthCounter v 0

/-! ## Reading -/

def readInt128Words : Reader Nat Int128 := do
  let both ← readInt128
  pure { l := UInt64.ofNat both, h := UInt64.ofNat (both / 2 ^ 64) }

def read : (t : TlType) → Reader Nat t.Value
  | int => do
      let v ← readInt
      pure (UInt32.ofNat v)
  | long => do
      let v ← readLong
      pure (UInt64.ofNat v)
  | double => do
      let v ← readLong
      pure (UInt64.ofNat v)
  | int128 => readInt128Words
  | int256 => do
      let l ← readInt128Words
      let h ← readInt128Words
      pure { l := l, h := h }
  | string => do
      let v ← readString
      pure (v.map UInt8.ofNat)
  | vector item => do
      Reader.require 1
      let count ← Reader.get
      (read item).times count

/-! ## Inside of the end -/

theorem safe_readInt128Words : readInt128Words.Safe 0 := safe_readInt128.bind fun _ => Reader.safe_pure _

theorem safe_read (t : TlType) : t.read.Safe 0 := by
  induction t with
  | int => exact safe_readInt.bind fun _ => Reader.safe_pure _
  | long => exact safe_readLong.bind fun _ => Reader.safe_pure _
  | double => exact safe_readLong.bind fun _ => Reader.safe_pure _
  | int128 => exact safe_readInt128Words
  | int256 => exact safe_readInt128Words.bind fun _ => safe_readInt128Words.bind fun _ => Reader.safe_pure _
  | string => exact safe_readString.bind fun _ => Reader.safe_pure _
  | vector item ih => exact Reader.Safe.require_bind (Reader.Safe.get_bind fun count => ih.times count)

theorem steady_readBytes (count : Nat) : (readBytes count).Steady :=
  (Reader.steady_require _).bind fun _ => (Reader.steady_get.times _).bind fun _ => Reader.steady_pure _

theorem steady_readString : readString.Steady := by
  refine (Reader.steady_require 1).bind fun _ => Reader.steady_get.bind fun first => ?_
  dsimp only
  split_ifs
  · exact Reader.steady_fail
  · exact Reader.steady_pure _
  · exact Reader.steady_pure _
  · exact Reader.steady_pure _
  · exact (steady_readBytes _).bind fun _ => Reader.steady_pure _
  · exact steady_readBytes _

theorem steady_readLong : readLong.Steady :=
  (Reader.steady_require 2).bind fun _ => Reader.steady_get.bind fun _ => Reader.steady_get.bind fun _ =>
    Reader.steady_pure _

theorem steady_readInt128Words : readInt128Words.Steady := by
  refine Reader.Steady.bind ?_ fun _ => Reader.steady_pure _
  exact (Reader.steady_require 4).bind fun _ => Reader.steady_get.bind fun _ => Reader.steady_get.bind fun _ =>
    Reader.steady_get.bind fun _ => Reader.steady_get.bind fun _ => Reader.steady_pure _

theorem steady_read (t : TlType) : t.read.Steady := by
  induction t with
  | int =>
      exact ((Reader.steady_require 1).bind fun _ => Reader.steady_get).bind fun _ => Reader.steady_pure _
  | long => exact steady_readLong.bind fun _ => Reader.steady_pure _
  | double => exact steady_readLong.bind fun _ => Reader.steady_pure _
  | int128 => exact steady_readInt128Words
  | int256 => exact steady_readInt128Words.bind fun _ => steady_readInt128Words.bind fun _ => Reader.steady_pure _
  | string => exact steady_readString.bind fun _ => Reader.steady_pure _
  | vector item ih => exact (Reader.steady_require 1).bind fun _ => Reader.steady_get.bind fun count => ih.times count

theorem takes_readLong : readLong.Takes 1 :=
  (Reader.takes_require 2).bind fun _ => (Reader.takes_get.bind fun _ => Reader.takes_get.bind fun _ =>
    Reader.takes_pure _).mono (Nat.le_add_left 1 1)

theorem takes_readInt128Words : readInt128Words.Takes 1 := by
  refine Reader.Takes.bind ?_ fun _ => Reader.takes_pure _
  exact (Reader.takes_require 4).bind fun _ => (Reader.takes_get.bind fun _ => Reader.takes_get.bind fun _ =>
    Reader.takes_get.bind fun _ => Reader.takes_get.bind fun _ => Reader.takes_pure _).mono (Nat.le_add_left 1 3)

theorem takes_readBytes (count : Nat) : (readBytes count).Takes 0 :=
  (Reader.takes_require _).bind fun _ => ((Reader.takes_get.times _).bind fun _ => Reader.takes_pure _).mono
    (Nat.zero_le _)

theorem takes_readString : readString.Takes 1 := by
  refine (Reader.takes_require 1).bind fun _ => @Reader.Takes.bind _ _ _ _ _ 1 0 Reader.takes_get fun first => ?_
  dsimp only
  split_ifs
  · exact Reader.takes_fail 0
  · exact Reader.takes_pure _
  · exact Reader.takes_pure _
  · exact Reader.takes_pure _
  · exact (takes_readBytes _).bind fun _ => Reader.takes_pure _
  · exact takes_readBytes _

/-- Every value takes an int at least. -/
theorem takes_read (t : TlType) : t.read.Takes 1 := by
  induction t with
  | int =>
      exact ((Reader.takes_require 1).bind fun _ => Reader.takes_get).bind fun _ => Reader.takes_pure _
  | long => exact takes_readLong.bind fun _ => Reader.takes_pure _
  | double => exact takes_readLong.bind fun _ => Reader.takes_pure _
  | int128 => exact takes_readInt128Words
  | int256 =>
      exact (takes_readInt128Words.bind fun _ => takes_readInt128Words.bind fun _ => Reader.takes_pure _).mono
        (Nat.le_add_left 1 1)
  | string => exact takes_readString.bind fun _ => Reader.takes_pure _
  | vector item ih =>
      exact (Reader.takes_require 1).bind fun _ => @Reader.Takes.bind _ _ _ _ _ 1 0 Reader.takes_get fun count =>
        (ih.times count).mono (Nat.zero_le count)

end TlType

end IMeDesktop.Mtproto
