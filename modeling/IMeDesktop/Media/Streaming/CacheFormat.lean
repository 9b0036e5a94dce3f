import IMeDesktop.Lib.SortedMap
import IMeDesktop.Lib.Span

/-! # What the streaming cache holds

The parts of a file that were loaded are put to the cache slice by slice, and the first parts
once more as a header. A slice without gaps is written as it is; any other is written with an
offset and a size in front of each part. Which of the two was written is told by the size of
the value alone.
-/

namespace IMeDesktop.Media.Streaming

open Lib

def kPartSize : Nat := 128 * 1024
def kPartsInSlice : Nat := 64
def kInSlice : Nat := kPartsInSlice * kPartSize
def kMaxPartsInHeader : Nat := 64
def kMaxOnlyInHeader : Nat := 80 * kPartSize
def kPartsOutsideFirstSliceGood : Nat := 8
def kSlicesInMemory : Nat := 2
def kPreloadPartsAhead : Nat := 8
def kLoadFromRemoteMax : Nat := 8

/-- Where an expectation of the source may fail. -/
inductive Assertion where
  | slicesCount
  | copyLoaded
  | processCacheData
  | addPart
  | slices
  | headerDone
  | processCacheResult
  | processCachedSizes
  | processPart
  | fill
  | serializeAndUnloadSlice
  | serializeAndUnloadFirstSliceNoHeader
  deriving DecidableEq, Repr

abbrev Attempt (α : Type) := Except Assertion α

abbrev PartsMap := SortedMap Nat Bytes

structure ParsedCacheEntry where
  parts : PartsMap
  included : Option PartsMap

/-- The `int` of the same bits as a `uint32`. -/
def toInt32 (n : Nat) : Int := if n % 2 ^ 32 < 2 ^ 31 then n % 2 ^ 32 else (n % 2 ^ 32 : Nat) - 2 ^ 32

def isContiguousSerialization (serializedSize : Nat) (maxSliceSize : Int) : Bool :=
  serializedSize % kPartSize = 0 || (serializedSize : Int) = maxSliceSize

def isFullInHeader (size : Nat) : Bool := size ≤ kMaxOnlyInHeader

def computeIsGoodHeader (size : Nat) (header : PartsMap) : Bool :=
  !isFullInHeader size && header.entries.countP (kInSlice ≤ ·.1) ≤ kPartsOutsideFirstSliceGood

def slicesCount (size : Nat) : Attempt Nat :=
  let result := (size + kInSlice - 1) % 2 ^ 32 / kInSlice
  if result < 0x1FF then .ok result else .error .slicesCount

def maxSliceSize (sliceNumber size : Nat) : Attempt Int :=
  if sliceNumber = 0 then .ok (toInt32 size)
  else do
    let count ← slicesCount size
    return toInt32 (if sliceNumber = count then size - (sliceNumber - 1) * kInSlice else kInSlice)

def takeInt (data : Bytes) : Option Nat × Bytes :=
  if data.length < 4 then (none, data) else (some (fromLittleEndian (data.take 4)), data.drop 4)

def takeBytes (data : Bytes) (count : Nat) : Bytes × Bytes :=
  if toInt32 count ≤ 0 || data.length < count then ([], data) else (data.take count, data.drop count)

/-- The loop over the parts; `maxSize` is compared as a `uint32`. -/
def parseParts (maxSize : Nat) : Nat → PartsMap → Bytes → PartsMap × Bytes
  | 0, result, data => (result, data)
  | count + 1, result, data =>
      let (offset, data) := takeInt data
      let (size, data) := takeInt data
      let offset := offset.getD 0
      let size := size.getD 0
      let (bytes, data) := takeBytes data size
      if offset ≥ maxSize || size = 0 || size > maxSize || (offset + size) % 2 ^ 32 > maxSize || bytes.length ≠ size then
        (result, [])
      else parseParts maxSize count (result.emplace offset bytes) data

def parseComplexCachedMap (result : PartsMap) (data : Bytes) (maxSize : Int) : PartsMap × Bytes :=
  match takeInt data with
  | (none, _) => (result, [])
  | (some count, data) =>
      if count = 0 || count > kMaxOnlyInHeader / kPartSize then (result, data)
      else parseParts (maxSize % 2 ^ 32).toNat count result data

def parseCachedMap (result : PartsMap) (data : Bytes) (maxSize : Int) : PartsMap × Bytes :=
  if isContiguousSerialization data.length maxSize then
    if data.length > maxSize then (result, [])
    else
      let offsets := (List.range ((data.length + kPartSize - 1) / kPartSize)).map (· * kPartSize)
      (offsets.foldl (fun parts offset => parts.emplace offset (window data offset kPartSize)) result, [])
  else parseComplexCachedMap result data maxSize

/-- The first slice is behind a good header. -/
def parseIncluded (parts : PartsMap) (remaining : Bytes) (sliceNumber size : Nat) : Attempt ParsedCacheEntry :=
  if sliceNumber = 0 && computeIsGoodHeader size parts then
    (maxSliceSize 1 size).map fun maxSize => ⟨parts, some (parseCachedMap .empty remaining maxSize).1⟩
  else .ok ⟨parts, none⟩

def parseCacheEntry (data : Bytes) (sliceNumber size : Nat) : Attempt ParsedCacheEntry := do
  let maxSize ← maxSliceSize sliceNumber size
  let (parts, remaining) := parseCachedMap .empty data maxSize
  parseIncluded parts remaining sliceNumber size

def findNotLoadedStart : List (Nat × Bytes) → Nat → Nat
  | [], offset => offset
  | (partStart, bytes) :: parts, offset =>
      let partEnd := partStart + bytes.length
      if partStart ≤ offset ∧ partEnd ≥ offset then findNotLoadedStart parts partEnd else offset

/-- What is copied to the buffer. -/
def copyLoaded : List (Nat × Bytes) → (offset till : Nat) → Attempt Bytes
  | [], _, _ => .ok []
  | (partStart, bytes) :: parts, filled, till =>
      let copyTill := min (partStart + bytes.length) till
      if partStart ≤ filled ∧ filled < copyTill then
        (copyLoaded parts copyTill till).map (window bytes (filled - partStart) (copyTill - filled) ++ ·)
      else .error .copyLoaded

def serializeParts (parts : List (Nat × Bytes)) : Bytes :=
  parts.flatMap fun part => toLittleEndian 4 part.1 ++ toLittleEndian 4 part.2.length ++ part.2

def serializeComplexSlice (parts : PartsMap) : Bytes := toLittleEndian 4 parts.size ++ serializeParts parts.entries

/-- Of three sizes in a row one is not that of a contiguous value. -/
theorem not_contiguous_thrice (size : Nat) (maxSize : Int) :
    isContiguousSerialization size maxSize = false ∨ isContiguousSerialization (size + 1) maxSize = false ∨
      isContiguousSerialization (size + 2) maxSize = false := by
  simp only [isContiguousSerialization, show kPartSize = 131072 from rfl, Bool.or_eq_false_iff, decide_eq_false_iff_not]
  omega

/-- How often something is still to be added. -/
def padding (size : Nat) (maxSize : Int) : Nat :=
  if isContiguousSerialization size maxSize then if isContiguousSerialization (size + 1) maxSize then 2 else 1 else 0

/-- Zeros are added until the value is not taken for a contiguous one. -/
def padded (maxSize : Int) (data : Bytes) : Bytes :=
  if isContiguousSerialization data.length maxSize then padded maxSize (data ++ [0]) else data
termination_by padding data.length maxSize
decreasing_by
  have := not_contiguous_thrice data.length maxSize
  rw [List.length_append, List.length_singleton]
  grind [padding]

end IMeDesktop.Media.Streaming
