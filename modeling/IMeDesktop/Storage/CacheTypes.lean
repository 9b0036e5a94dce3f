import IMeDesktop.Lib.SortedMap
import IMeDesktop.Lib.Span
import Mathlib.Data.Prod.Lex

/-! # Records of the cache binlog

The records of the cache database as values and as bytes, with the settings that both
sides of the binlog share. Whether a record is followed by the time it was written at
depends on the settings, so encoding takes `trackEstimatedTime`.

The bytes are those of the decrypted file. Its encryption, and the header of the
encrypted file itself, are not part of this.
-/

namespace IMeDesktop.Storage.Cache

open Lib

structure Key where
  high : UInt64
  low : UInt64
  deriving DecidableEq, Repr

/-- `operator<` compares the high parts first. -/
def Key.tied (k : Key) : Lex (Nat × Nat) := toLex (k.high.toNat, k.low.toNat)

theorem Key.tied_injective : Function.Injective Key.tied := by
  intro a b same
  cases a
  cases b
  simpa [Key.tied, UInt64.toNat_inj] using same

instance : LinearOrder Key := LinearOrder.lift' Key.tied Key.tied_injective

structure PlaceId where
  bytes : Bytes
  width : bytes.length = 7
  deriving DecidableEq, Repr

structure EstimatedTimePoint where
  relative : UInt64 := 0
  system : UInt32 := 0
  deriving DecidableEq, Repr

/-- `time` is part of the record in `StoreWithTime` only. -/
structure Store where
  tag : UInt8
  size : Nat
  place : PlaceId
  checksum : UInt32
  key : Key
  time : EstimatedTimePoint := {}
  deriving DecidableEq, Repr

inductive Record where
  | store (part : Store)
  | multiStore (parts : List Store)
  | multiRemove (keys : List Key)
  | multiAccess (time : EstimatedTimePoint) (keys : List Key)
  deriving DecidableEq, Repr

def kBlockSize : Nat := 16
def kDataSizeLimit : Nat := 2 ^ 24
def kBundledRecordsLimit : Nat := 2 ^ 24

def partSize (track : Bool) : Nat := if track then 48 else 32

/-- The settings that pass `checkSettings`, with blocks that can be decrypted and that hold any record. -/
structure Settings where
  maxBundledRecords : Nat := 16 * 1024
  readBlockSize : Nat := 8 * 1024 * 1024
  maxDataSize : Nat := kDataSizeLimit - 1
  writeBundleDelay : Nat := 15 * 60 * 1000
  staleRemoveChunk : Nat := 256
  compactAfterExcess : Nat := 8 * 1024 * 1024
  compactAfterFullSize : Nat := 0
  compactChunkSize : Nat := 16 * 1024
  trackEstimatedTime : Bool := true
  totalSizeLimit : Nat := 1024 * 1024 * 1024
  totalTimeLimit : Nat := 31 * 24 * 60 * 60
  removesSome : 0 < staleRemoveChunk := by decide
  bundlesSome : 0 < maxBundledRecords := by decide
  bundled : maxBundledRecords < kBundledRecordsLimit := by decide
  storesSome : 0 < maxDataSize := by decide
  sized : maxDataSize < kDataSizeLimit := by decide
  total : totalSizeLimit = 0 ∨ maxDataSize < totalSizeLimit := by decide
  compacts : 0 < compactChunkSize := by decide
  aligned : kBlockSize ∣ readBlockSize := by decide
  fits : kBlockSize + maxBundledRecords * partSize trackEstimatedTime ≤ readBlockSize := by decide

def defaultSettings : Settings := {}

/-! ## Bytes -/

def Key.encode (k : Key) : Bytes := toLittleEndian 8 k.high.toNat ++ toLittleEndian 8 k.low.toNat

def Key.decode (data : Bytes) : Key where
  high := UInt64.ofNat (fromLittleEndian (window data 0 8))
  low := UInt64.ofNat (fromLittleEndian (window data 8 8))

def PlaceId.decode (data : Bytes) : PlaceId where
  bytes := (data ++ List.replicate 7 0).take 7
  width := by simp

/-- The two halves of the relative time come lowest first. -/
def EstimatedTimePoint.encode (t : EstimatedTimePoint) : Bytes :=
  toLittleEndian 8 t.relative.toNat ++ toLittleEndian 4 t.system.toNat

def EstimatedTimePoint.decode (data : Bytes) : EstimatedTimePoint where
  relative := UInt64.ofNat (fromLittleEndian (window data 0 8))
  system := UInt32.ofNat (fromLittleEndian (window data 8 4))

def Store.encode (track : Bool) (s : Store) : Bytes :=
  [1, s.tag] ++ toLittleEndian 3 s.size ++ s.place.bytes ++ toLittleEndian 4 s.checksum.toNat ++ s.key.encode ++
    if track then s.time.encode ++ [0, 0, 0, 0] else []

def Store.decode (track : Bool) (data : Bytes) : Store where
  tag := data.getD 1 0
  size := fromLittleEndian (window data 2 3)
  place := PlaceId.decode (window data 5 7)
  checksum := UInt32.ofNat (fromLittleEndian (window data 12 4))
  key := Key.decode (window data 16 16)
  time := if track then EstimatedTimePoint.decode (window data 32 12) else {}

/-- The type, the number of parts, and twelve bytes more. -/
def multiHeader (type : UInt8) (count : Nat) (rest : Bytes) : Bytes :=
  [type] ++ toLittleEndian 3 count ++ rest

def Record.encode (track : Bool) : Record → Bytes
  | .store part => part.encode track
  | .multiStore parts => multiHeader 2 parts.length (List.replicate 12 0) ++ parts.flatMap (Store.encode track)
  | .multiRemove keys => multiHeader 3 keys.length (List.replicate 12 0) ++ keys.flatMap Key.encode
  | .multiAccess time keys => multiHeader 4 keys.length time.encode ++ keys.flatMap Key.encode

/-- The parts of a record, all of one size. -/
def partsOf (size : Nat) : Nat → Bytes → List Bytes
  | 0, _ => []
  | count + 1, data => data.take size :: partsOf size count (data.drop size)

def countOf (data : Bytes) : Nat := fromLittleEndian (window data 1 3)

/-- The record in bytes that `readRecordSize` found to be one. -/
def Record.decode (track : Bool) (data : Bytes) : Record :=
  let body := data.drop 16
  if data.head? = some 1 then .store (Store.decode track data)
  else if data.head? = some 2 then
    .multiStore ((partsOf (partSize track) (countOf data) body).map (Store.decode track))
  else if data.head? = some 3 then .multiRemove ((partsOf 16 (countOf data) body).map Key.decode)
  else .multiAccess (EstimatedTimePoint.decode (window data 4 12)) ((partsOf 16 (countOf data) body).map Key.decode)

inductive RecordSize where
  | unknown
  | invalid
  | known (size : Nat)
  deriving DecidableEq, Repr

section Sizes

variable (settings : Settings)

/-- `strict` counts are not zero. -/
def readRecordSizeMulti (data : Bytes) (strict : Bool) (part : Nat) : RecordSize :=
  if data.length < 16 then .unknown
  else if strict ∧ countOf data = 0 then .invalid
  else if countOf data ≤ settings.maxBundledRecords then .known (16 + countOf data * part)
  else .invalid

def readRecordSize : Bytes → RecordSize
  | [] => .unknown
  | type :: rest =>
      if type = 1 then .known (partSize settings.trackEstimatedTime)
      else if type = 2 then
        readRecordSizeMulti settings (type :: rest) true (partSize settings.trackEstimatedTime)
      else if type = 3 then readRecordSizeMulti settings (type :: rest) true 16
      else if type = 4 ∧ settings.trackEstimatedTime then readRecordSizeMulti settings (type :: rest) false 16
      else .invalid

end Sizes

/-! ## Reading back what was written -/

theorem window_between {α : Type} (before piece after : List α) :
    window (before ++ (piece ++ after)) before.length piece.length = piece := by
  simp [window]

@[simp]
theorem uint64_bytes (n : UInt64) : UInt64.ofNat (fromLittleEndian (toLittleEndian 8 n.toNat)) = n := by
  rw [fromLittleEndian_toLittleEndian (Nat.lt_of_lt_of_le n.toNat_lt (by decide)), UInt64.ofNat_toNat]

@[simp]
theorem uint32_bytes (n : UInt32) : UInt32.ofNat (fromLittleEndian (toLittleEndian 4 n.toNat)) = n := by
  rw [fromLittleEndian_toLittleEndian (Nat.lt_of_lt_of_le n.toNat_lt (by decide)), UInt32.ofNat_toNat]

@[simp]
theorem Key.length_encode (k : Key) : k.encode.length = 16 := by simp [Key.encode]

theorem Key.decode_encode (k : Key) (rest : Bytes) : Key.decode (k.encode ++ rest) = k := by
  have high : window (k.encode ++ rest) 0 8 = toLittleEndian 8 k.high.toNat := by
    simpa [Key.encode] using window_between [] (toLittleEndian 8 k.high.toNat) (toLittleEndian 8 k.low.toNat ++ rest)
  have low : window (k.encode ++ rest) 8 8 = toLittleEndian 8 k.low.toNat := by
    simpa [Key.encode] using window_between (toLittleEndian 8 k.high.toNat) (toLittleEndian 8 k.low.toNat) rest
  simp only [Key.decode, high, low, uint64_bytes]

theorem PlaceId.decode_bytes (place : PlaceId) : PlaceId.decode place.bytes = place := by
  cases place with
  | mk bytes width => simp [PlaceId.decode, width]

@[simp]
theorem EstimatedTimePoint.length_encode (t : EstimatedTimePoint) : t.encode.length = 12 := by
  simp [EstimatedTimePoint.encode]

theorem EstimatedTimePoint.decode_encode (t : EstimatedTimePoint) : EstimatedTimePoint.decode t.encode = t := by
  have relative : window t.encode 0 8 = toLittleEndian 8 t.relative.toNat := by
    simpa [EstimatedTimePoint.encode] using
      window_between [] (toLittleEndian 8 t.relative.toNat) (toLittleEndian 4 t.system.toNat)
  have system : window t.encode 8 4 = toLittleEndian 4 t.system.toNat := by
    simpa [EstimatedTimePoint.encode] using
      window_between (toLittleEndian 8 t.relative.toNat) (toLittleEndian 4 t.system.toNat) []
  simp only [EstimatedTimePoint.decode, relative, system, uint64_bytes, uint32_bytes]

@[simp]
theorem Store.length_encode (track : Bool) (s : Store) : (s.encode track).length = partSize track := by
  have := s.place.width
  cases track with
  | true => simp [Store.encode, partSize, *]
  | false => simp [Store.encode, partSize, *]

/-- A part that can be written down: its size has three bytes, and it has a time only where times are kept. -/
structure Store.Storable (track : Bool) (s : Store) : Prop where
  size : s.size < kDataSizeLimit
  time : track = false → s.time = {}

theorem Store.decode_encode {track : Bool} {s : Store} (h : s.Storable track) (rest : Bytes) :
    Store.decode track (s.encode track ++ rest) = s := by
  have width := s.place.width
  let time : Bytes := if track then s.time.encode ++ [0, 0, 0, 0] else []
  have bytes : s.encode track ++ rest =
      [1, s.tag] ++ (toLittleEndian 3 s.size ++ (s.place.bytes ++ (toLittleEndian 4 s.checksum.toNat ++
        (s.key.encode ++ (time ++ rest))))) := by
    simp [Store.encode, time]
  have size : window (s.encode track ++ rest) 2 3 = toLittleEndian 3 s.size := by
    simpa [bytes] using window_between [1, s.tag] (toLittleEndian 3 s.size) _
  have place : window (s.encode track ++ rest) 5 7 = s.place.bytes := by
    simpa [bytes, width] using window_between ([1, s.tag] ++ toLittleEndian 3 s.size) s.place.bytes _
  have checksum : window (s.encode track ++ rest) 12 4 = toLittleEndian 4 s.checksum.toNat := by
    simpa [bytes, width] using window_between ([1, s.tag] ++ toLittleEndian 3 s.size ++ s.place.bytes)
      (toLittleEndian 4 s.checksum.toNat) _
  have key : window (s.encode track ++ rest) 16 16 = s.key.encode := by
    simpa [bytes, width] using window_between
      ([1, s.tag] ++ toLittleEndian 3 s.size ++ s.place.bytes ++ toLittleEndian 4 s.checksum.toNat) s.key.encode _
  have stamped : track = true → window (s.encode track ++ rest) 32 12 = s.time.encode := by
    rintro rfl
    simpa [bytes, width, time] using window_between
      ([1, s.tag] ++ toLittleEndian 3 s.size ++ s.place.bytes ++ toLittleEndian 4 s.checksum.toNat ++ s.key.encode)
      s.time.encode _
  have known := Key.decode_encode s.key []
  rw [List.append_nil] at known
  have small : fromLittleEndian (toLittleEndian 3 s.size) = s.size :=
    fromLittleEndian_toLittleEndian h.size
  have tagged : (s.encode track ++ rest).getD 1 0 = s.tag := by simp [bytes]
  have timed : (if track = true then EstimatedTimePoint.decode (window (s.encode track ++ rest) 32 12) else {}) =
      s.time := by
    split_ifs with tracking
    · rw [stamped tracking, EstimatedTimePoint.decode_encode]
    · exact (h.time (Bool.eq_false_iff.mpr tracking)).symm
  simp only [Store.decode, tagged, size, small, place, PlaceId.decode_bytes, checksum, uint32_bytes, key, known, timed]

theorem partsOf_flatMap {α : Type} {encode : α → Bytes} {size : Nat} (sized : ∀ a, (encode a).length = size)
    (parts : List α) (rest : Bytes) :
    partsOf size parts.length (parts.flatMap encode ++ rest) = parts.map encode := by
  induction parts with
  | nil => rfl
  | cons a parts ih =>
      have first : (encode a ++ (parts.flatMap encode ++ rest)).take size = encode a := by
        simp [← sized a]
      have others : (encode a ++ (parts.flatMap encode ++ rest)).drop size = parts.flatMap encode ++ rest := by
        simp [← sized a]
      simp only [List.length_cons, List.flatMap_cons, List.append_assoc, partsOf, first, others, ih, List.map_cons]

theorem length_flatMap {α : Type} {encode : α → Bytes} {size : Nat} (sized : ∀ a, (encode a).length = size)
    (parts : List α) : (parts.flatMap encode).length = parts.length * size := by
  induction parts with
  | nil => simp
  | cons a parts ih => simp [ih, sized, Nat.succ_mul, Nat.add_comm]

theorem countOf_multiHeader {count : Nat} (small : count < kBundledRecordsLimit) (type : UInt8)
    (fields body : Bytes) : countOf (multiHeader type count fields ++ body) = count := by
  have bytes : window (multiHeader type count fields ++ body) 1 3 = toLittleEndian 3 count := by
    simpa [multiHeader] using window_between [type] (toLittleEndian 3 count) (fields ++ body)
  rw [countOf, bytes, fromLittleEndian_toLittleEndian small]

theorem length_multiHeader {fields : Bytes} (twelve : fields.length = 12) (type : UInt8) (count : Nat) :
    (multiHeader type count fields).length = 16 := by
  simp [multiHeader, twelve]

section Records

variable {settings : Settings}

/-- The parts that replaying accepts. -/
def Store.Accepted (settings : Settings) (s : Store) : Prop := 0 < s.size ∧ s.size ≤ settings.maxDataSize

instance (s : Store) : Decidable (s.Accepted settings) := inferInstanceAs (Decidable (_ ∧ _))

/-- The records that the database writes. -/
def Record.Valid (settings : Settings) : Record → Prop
  | .store part => part.Accepted settings ∧ part.Storable settings.trackEstimatedTime
  | .multiStore parts =>
      parts ≠ [] ∧ parts.length ≤ settings.maxBundledRecords ∧
        ∀ part ∈ parts, part.Accepted settings ∧ part.Storable settings.trackEstimatedTime
  | .multiRemove keys => keys ≠ [] ∧ keys.length ≤ settings.maxBundledRecords
  | .multiAccess _ keys => settings.trackEstimatedTime = true ∧ keys.length ≤ settings.maxBundledRecords

theorem Store.head_encode (track : Bool) (s : Store) (rest : Bytes) :
    ∃ more, s.encode track ++ rest = 1 :: more := ⟨_, by simp [Store.encode]; rfl⟩

theorem readRecordSizeMulti_header {type : UInt8} {count : Nat} {fields body : Bytes} {strict : Bool} {part : Nat}
    (twelve : fields.length = 12) (few : count ≤ settings.maxBundledRecords) (some : strict = true → count ≠ 0) :
    readRecordSizeMulti settings (multiHeader type count fields ++ body) strict part =
      .known (16 + count * part) := by
  have counted := countOf_multiHeader (Nat.lt_of_le_of_lt few settings.bundled) type fields body
  have long : ¬ (multiHeader type count fields ++ body).length < 16 := by
    rw [List.length_append, length_multiHeader twelve]
    omega
  have strictly : ¬ (strict = true ∧ count = 0) := fun ⟨strict, zero⟩ => some strict zero
  simp only [readRecordSizeMulti, counted, long, strictly, few, if_true, if_false]

theorem readRecordSize_encode {r : Record} (valid : r.Valid settings) (rest : Bytes) :
    readRecordSize settings (r.encode settings.trackEstimatedTime ++ rest) =
      .known (r.encode settings.trackEstimatedTime).length := by
  cases r with
  | store part =>
      obtain ⟨more, bytes⟩ := part.head_encode settings.trackEstimatedTime rest
      simp [Record.encode, bytes, readRecordSize]
  | multiStore parts =>
      obtain ⟨some, few, -⟩ := valid
      have size := @readRecordSizeMulti_header settings 2 parts.length (List.replicate 12 0)
        (parts.flatMap (Store.encode settings.trackEstimatedTime) ++ rest) true
        (partSize settings.trackEstimatedTime) rfl few fun _ => by simpa using some
      have total := length_flatMap (Store.length_encode settings.trackEstimatedTime) parts
      simp only [Record.encode, List.append_assoc, List.length_append, total, length_multiHeader (List.length_replicate)]
      simpa [readRecordSize, multiHeader] using size
  | multiRemove keys =>
      obtain ⟨some, few⟩ := valid
      have size := @readRecordSizeMulti_header settings 3 keys.length (List.replicate 12 0)
        (keys.flatMap Key.encode ++ rest) true 16 rfl few fun _ => by simpa using some
      have total := length_flatMap Key.length_encode keys
      simp only [Record.encode, List.append_assoc, List.length_append, total, length_multiHeader (List.length_replicate)]
      simpa [readRecordSize, multiHeader] using size
  | multiAccess time keys =>
      obtain ⟨track, few⟩ := valid
      have size := @readRecordSizeMulti_header settings 4 keys.length time.encode
        (keys.flatMap Key.encode ++ rest) false 16 time.length_encode few nofun
      have total := length_flatMap Key.length_encode keys
      simp only [Record.encode, List.append_assoc, List.length_append, total, length_multiHeader time.length_encode]
      simpa [readRecordSize, multiHeader, track] using size

theorem drop_multiHeader {fields : Bytes} (twelve : fields.length = 12) (type : UInt8) (count : Nat) (body : Bytes) :
    (multiHeader type count fields ++ body).drop 16 = body := by
  rw [← length_multiHeader twelve type count, List.drop_left]

theorem fields_multiHeader {fields : Bytes} (twelve : fields.length = 12) (type : UInt8) (count : Nat) (body : Bytes) :
    window (multiHeader type count fields ++ body) 4 12 = fields := by
  simpa [multiHeader, twelve] using window_between ([type] ++ toLittleEndian 3 count) fields body

/-- The keys of a record, read back from behind its header. -/
theorem decode_keys (keys : List Key) :
    (partsOf 16 keys.length (keys.flatMap Key.encode)).map Key.decode = keys := by
  have parts := partsOf_flatMap Key.length_encode keys []
  rw [List.append_nil] at parts
  rw [parts, List.map_map]
  conv_rhs => rw [← List.map_id keys]
  apply List.map_congr_left
  intro key _
  have decoded := Key.decode_encode key []
  rwa [List.append_nil] at decoded

theorem Record.decode_encode {r : Record} (valid : r.Valid settings) :
    Record.decode settings.trackEstimatedTime (r.encode settings.trackEstimatedTime) = r := by
  cases r with
  | store part =>
      obtain ⟨more, bytes⟩ := part.head_encode settings.trackEstimatedTime []
      have decoded := Store.decode_encode valid.2 []
      rw [List.append_nil] at bytes decoded
      rw [bytes] at decoded
      simp [Record.encode, Record.decode, decoded, bytes]
  | multiStore parts =>
      obtain ⟨-, few, storable⟩ := valid
      have counted := countOf_multiHeader (Nat.lt_of_le_of_lt few settings.bundled) 2 (List.replicate 12 0)
        (parts.flatMap (Store.encode settings.trackEstimatedTime))
      have split := partsOf_flatMap (Store.length_encode settings.trackEstimatedTime) parts []
      rw [List.append_nil] at split
      have decoded : (parts.map (Store.encode settings.trackEstimatedTime)).map
          (Store.decode settings.trackEstimatedTime) = parts := by
        rw [List.map_map]
        conv_rhs => rw [← List.map_id parts]
        apply List.map_congr_left
        intro part member
        have one := Store.decode_encode (storable part member).2 []
        rwa [List.append_nil] at one
      simp only [Record.encode, Record.decode, counted, drop_multiHeader (List.length_replicate), split, decoded]
      simp [multiHeader]
  | multiRemove keys =>
      obtain ⟨-, few⟩ := valid
      have counted := countOf_multiHeader (Nat.lt_of_le_of_lt few settings.bundled) 3 (List.replicate 12 0)
        (keys.flatMap Key.encode)
      simp only [Record.encode, Record.decode, counted, drop_multiHeader (List.length_replicate), decode_keys]
      simp [multiHeader]
  | multiAccess time keys =>
      obtain ⟨-, few⟩ := valid
      have counted := countOf_multiHeader (Nat.lt_of_le_of_lt few settings.bundled) 4 time.encode
        (keys.flatMap Key.encode)
      simp only [Record.encode, Record.decode, counted, drop_multiHeader time.length_encode,
        fields_multiHeader time.length_encode, EstimatedTimePoint.decode_encode, decode_keys]
      simp [multiHeader]

/-! ## Sizes of records -/

/-- Sixteen bytes are enough to know the size of a record. -/
theorem readRecordSize_append {data : Bytes} (long : 16 ≤ data.length) (more : Bytes) :
    readRecordSize settings (data ++ more) = readRecordSize settings data := by
  have counted : countOf (data ++ more) = countOf data := by
    simp only [countOf, window]
    rw [List.drop_append_of_le_length (by omega), List.take_append_of_le_length (by rw [List.length_drop]; omega)]
  cases data with
  | nil => simp at long
  | cons type rest =>
      have total : ¬ (type :: rest).length < 16 := by omega
      have grown : ¬ (type :: rest ++ more).length < 16 := by
        rw [List.length_append]
        omega
      rw [List.cons_append] at counted grown ⊢
      simp only [readRecordSize, readRecordSizeMulti, counted, total, grown, if_false]

theorem readRecordSizeMulti_known {data : Bytes} {strict : Bool} {part size : Nat} (sized : kBlockSize ∣ part)
    (small : part ≤ partSize settings.trackEstimatedTime)
    (known : readRecordSizeMulti settings data strict part = .known size) :
    kBlockSize ∣ size ∧ kBlockSize ≤ size ∧ size ≤ settings.readBlockSize := by
  unfold readRecordSizeMulti at known
  split_ifs at known with short empty few
  cases known
  have fits := settings.fits
  have less := Nat.mul_le_mul few small
  simp only [kBlockSize] at *
  refine ⟨?_, by omega, by omega⟩
  exact Nat.dvd_add (Nat.dvd_refl 16) (Nat.dvd_mul_left_of_dvd sized _)

/-- A record is made of whole blocks and fits into what is read at once. -/
theorem readRecordSize_known {data : Bytes} {size : Nat} (known : readRecordSize settings data = .known size) :
    kBlockSize ∣ size ∧ kBlockSize ≤ size ∧ size ≤ settings.readBlockSize := by
  have blocks : kBlockSize ∣ partSize settings.trackEstimatedTime ∧
      kBlockSize ≤ partSize settings.trackEstimatedTime := by
    cases settings.trackEstimatedTime with
    | true => decide
    | false => decide
  cases data with
  | nil => cases known
  | cons type rest =>
      rw [readRecordSize] at known
      split_ifs at known
      · cases known
        have fits := settings.fits
        have one := Nat.mul_le_mul settings.bundlesSome (Nat.le_refl (partSize settings.trackEstimatedTime))
        refine ⟨blocks.1, blocks.2, by omega⟩
      · exact readRecordSizeMulti_known blocks.1 (Nat.le_refl _) known
      · exact readRecordSizeMulti_known (Nat.dvd_refl _) blocks.2 known
      · exact readRecordSizeMulti_known (Nat.dvd_refl _) blocks.2 known

end Records

end IMeDesktop.Storage.Cache
