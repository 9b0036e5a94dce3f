import IMeDesktop.Storage.BinlogReader

/-! # The cache database

`DatabaseObject` keeps an index of the stored values in memory and writes every change
of it to the binlog: what is stored at once, what is removed or used in bundles. The
files of the values are outside: an operation is given what it would read from them,
the place that is free for a new one, and the clock.

File operations succeed here. Timers are not modelled, so bundles can be written and
stale entries cleared at any time; nor are callbacks and the published statistics.
-/

namespace IMeDesktop.Storage.Cache

open Lib

theorem length_noPlace : (List.replicate 7 (0 : UInt8)).length = 7 := rfl

structure Entry where
  useTime : UInt64 := 0
  size : Nat := 0
  checksum : UInt32 := 0
  place : PlaceId := ⟨List.replicate 7 0, length_noPlace⟩
  tag : UInt8 := 0
  deriving DecidableEq, Repr

structure TaggedSummary where
  count : Int := 0
  totalSize : Int := 0
  deriving DecidableEq, Repr

structure TaggedValue where
  bytes : Bytes := []
  tag : UInt8 := 0
  deriving DecidableEq, Repr

structure DatabaseObject where
  binlog : File
  map : SortedMap Key Entry := .empty
  removing : SortedMap Key Unit := .empty
  accessed : SortedMap Key Unit := .empty
  stale : List Key := []
  time : EstimatedTimePoint := {}
  binlogExcessLength : Int := 0
  totalSize : Int := 0
  minimalEntryTime : UInt64 := 0
  entriesWithMinimalTimeCount : Nat := 0
  taggedStats : UInt8 → TaggedSummary := fun _ => {}

/-- What an operation finds outside: the clock, the values in their files, a free place, and the checksum. -/
structure Surroundings where
  now : UInt32
  readValueData : PlaceId → Nat → Bytes
  place : PlaceId
  countChecksum : Bytes → UInt32
  whole : ∀ place size, readValueData place size = [] ∨ (readValueData place size).length = size

/-- The order in which an unordered map is walked through. -/
structure Iteration where
  order : List (Key × Entry) → List (Key × Entry)
  perm : ∀ entries, (order entries).Perm entries

namespace DatabaseObject

/-! ## The index -/

def addSummary (d : DatabaseObject) (tag : UInt8) (count totalSize : Int) : DatabaseObject :=
  if tag = 0 then d
  else
    { d with
      taggedStats := Function.update d.taggedStats tag
        { count := (d.taggedStats tag).count + count, totalSize := (d.taggedStats tag).totalSize + totalSize } }

def present (entry : Entry) : Int := if entry.size ≠ 0 then 1 else 0

def updateStats (d : DatabaseObject) (was now : Entry) : DatabaseObject :=
  let d := { d with totalSize := d.totalSize + (now.size - was.size) }
  if now.tag = was.tag then d.addSummary now.tag (present now - present was) (now.size - was.size)
  else (d.addSummary now.tag (present now) now.size).addSummary was.tag (-present was) (-was.size)

/-- One entry less has the minimal time. -/
def dropMinimal (d : DatabaseObject) : DatabaseObject :=
  { d with
    entriesWithMinimalTimeCount := d.entriesWithMinimalTimeCount - 1
    minimalEntryTime := if d.entriesWithMinimalTimeCount - 1 = 0 then 0 else d.minimalEntryTime }

def updateMinimal (d : DatabaseObject) (already entry : Entry) : DatabaseObject :=
  if entry.useTime ≠ 0 ∧ (entry.useTime < d.minimalEntryTime ∨ d.minimalEntryTime = 0) then
    { d with minimalEntryTime := entry.useTime, entriesWithMinimalTimeCount := 1 }
  else if d.minimalEntryTime ≠ 0 ∧ already.useTime ≠ entry.useTime then
    if entry.useTime = d.minimalEntryTime then
      { d with entriesWithMinimalTimeCount := d.entriesWithMinimalTimeCount + 1 }
    else if already.useTime = d.minimalEntryTime then d.dropMinimal
    else d
  else d

def eraseMapEntry (d : DatabaseObject) (key : Key) (entry : Entry) : DatabaseObject :=
  let d := d.updateStats entry {}
  let d := if d.minimalEntryTime ≠ 0 ∧ entry.useTime = d.minimalEntryTime then d.dropMinimal else d
  { d with map := d.map.erase key }

def setUseTime (relative : UInt64) (d : DatabaseObject) (key : Key) : DatabaseObject :=
  match d.map.find? key with
  | none => d
  | some entry => { d with map := (d.map.erase key).emplace key { entry with useTime := relative } }

def applyTimePoint (d : DatabaseObject) (time : EstimatedTimePoint) : DatabaseObject :=
  if time.relative > d.time.relative then { d with time := time } else d

def countTimePoint (d : DatabaseObject) (now : UInt32) : EstimatedTimePoint where
  relative := d.time.relative + UInt64.ofNat (now.toNat - d.time.system.toNat)
  system := now

section Operations

variable (settings : Settings)

def setMapEntry (d : DatabaseObject) (key : Key) (entry : Entry) : DatabaseObject :=
  let already := (d.map.find? key).getD {}
  let d := d.updateStats already entry
  let d :=
    if already.size ≠ 0 then
      { d with binlogExcessLength := d.binlogExcessLength + partSize settings.trackEstimatedTime }
    else d
  let d := d.updateMinimal already entry
  { d with map := (d.map.erase key).emplace key entry }

/-! ## Replaying records -/

def processRecordStore (d : DatabaseObject) (record : Store) : Bool × DatabaseObject :=
  if record.size = 0 ∨ record.size > settings.maxDataSize then (false, d)
  else
    let d' := if settings.trackEstimatedTime then d.applyTimePoint record.time else d
    let entry : Entry :=
      { place := record.place, tag := record.tag, checksum := record.checksum, size := record.size
        useTime := if settings.trackEstimatedTime then record.time.relative else d.time.relative }
    (true, d'.setMapEntry settings record.key entry)

def processRecordMultiStore (d : DatabaseObject) : List Store → Bool × DatabaseObject
  | [] => (true, d)
  | record :: parts =>
      match d.processRecordStore settings record with
      | (true, d) => processRecordMultiStore d parts
      | (false, d) => (false, d)

def processRemoved (d : DatabaseObject) (key : Key) : DatabaseObject :=
  let d := { d with binlogExcessLength := d.binlogExcessLength + 16 }
  match d.map.find? key with
  | none => d
  | some entry => d.eraseMapEntry key entry

def processRecordMultiRemove (d : DatabaseObject) (keys : List Key) : DatabaseObject :=
  keys.foldl processRemoved { d with binlogExcessLength := d.binlogExcessLength + 16 }

def processRecordMultiAccess (d : DatabaseObject) (time : EstimatedTimePoint) (keys : List Key) :
    DatabaseObject :=
  let d := d.applyTimePoint time
  let d := { d with binlogExcessLength := d.binlogExcessLength + 16 + 16 * keys.length }
  keys.foldl (setUseTime time.relative) d

def processRecord (d : DatabaseObject) : Record → Bool × DatabaseObject
  | .store part => d.processRecordStore settings part
  | .multiStore parts => d.processRecordMultiStore settings parts
  | .multiRemove keys => (true, d.processRecordMultiRemove keys)
  | .multiAccess time keys => (true, d.processRecordMultiAccess time keys)

/-! ## Bundles -/

def writeRecord (d : DatabaseObject) (record : Record) : DatabaseObject :=
  { d with binlog := d.binlog.write (record.encode settings.trackEstimatedTime) }

def writeMultiRemove (d : DatabaseObject) : DatabaseObject :=
  if d.removing.isEmpty then d
  else
    let keys := d.removing.entries.map Prod.fst
    let d := { d with removing := .empty }.writeRecord settings (.multiRemove keys)
    { d with binlogExcessLength := d.binlogExcessLength + (16 + 16 * keys.length) }

def writeMultiRemoveLazy (d : DatabaseObject) : DatabaseObject :=
  if d.removing.size = settings.maxBundledRecords then d.writeMultiRemove settings else d

def writeMultiAccessBlock (d : DatabaseObject) (now : UInt32) : DatabaseObject :=
  let time := d.countTimePoint now
  let keys := d.accessed.entries.map Prod.fst
  let d := keys.foldl (setUseTime time.relative) { d with accessed := .empty, time := time }
  let d := d.writeRecord settings (.multiAccess time keys)
  { d with binlogExcessLength := d.binlogExcessLength + (16 + 16 * keys.length) }

def writeMultiAccess (d : DatabaseObject) (now : UInt32) : DatabaseObject :=
  if d.accessed.isEmpty then d else d.writeMultiAccessBlock settings now

def writeMultiAccessLazy (d : DatabaseObject) (now : UInt32) : DatabaseObject :=
  if d.accessed.size = settings.maxBundledRecords then d.writeMultiAccess settings now else d

def writeBundles (d : DatabaseObject) (now : UInt32) : DatabaseObject :=
  let d := d.writeMultiRemove settings
  if settings.trackEstimatedTime then d.writeMultiAccess settings now else d

def recordEntryAccess (d : DatabaseObject) (now : UInt32) (key : Key) : DatabaseObject :=
  if settings.trackEstimatedTime then
    { d with accessed := d.accessed.emplace key () }.writeMultiAccessLazy settings now
  else d

/-! ## Opening and closing -/

/-- `BasicHeader`, with the flag `kTrackEstimatedTime`. -/
def encodeHeader (systemTime : UInt32) : Bytes :=
  [0, if settings.trackEstimatedTime then 1 else 0, 0, 0] ++ toLittleEndian 4 systemTime.toNat ++
    List.replicate 8 0

def readHeader (data : Bytes) : Option UInt32 :=
  if data.length < 16 then none
  else if data.getD 0 0 ≠ 0 then none
  else if settings.trackEstimatedTime ≠ decide (data.getD 1 0 % 2 = 1) then none
  else some (UInt32.ofNat (fromLittleEndian (window data 4 4)))

/-- The time goes back when the clock did. -/
def adjustRelativeTime (d : DatabaseObject) (now : UInt32) : DatabaseObject :=
  if settings.trackEstimatedTime ∧ now < d.time.system then d.writeMultiAccessBlock settings now else d

def readBinlog (d : DatabaseObject) (now : UInt32) : DatabaseObject :=
  let till := d.binlog.size
  let (d, wrapper) := BinlogWrapper.readAll settings (processRecord settings) (till - d.binlog.offset + 1) d
    { binlog := d.binlog, till := till }
  { d with binlog := wrapper.binlog }.adjustRelativeTime settings now

/-- A new file gets a header; the header of another one has to fit the settings. -/
def openBinlog (data : Bytes) (now : UInt32) : Option DatabaseObject :=
  if data = [] then
    let systemTime := if settings.trackEstimatedTime then now else 0
    let d : DatabaseObject :=
      { binlog := File.write { data := [] } (encodeHeader settings systemTime)
        time := { relative := systemTime.toUInt64, system := systemTime } }
    some (d.readBinlog settings now)
  else
    match readHeader settings data with
    | none => none
    | some systemTime =>
        let d : DatabaseObject :=
          { binlog := { data := data, offset := 16 }
            time := { relative := systemTime.toUInt64, system := systemTime } }
        some (d.readBinlog settings now)

/-- What is left in the file. -/
def close (d : DatabaseObject) (now : UInt32) : Bytes := (d.writeBundles settings now).binlog.data

/-! ## Storing and removing -/

def remove (d : DatabaseObject) (key : Key) : DatabaseObject :=
  match d.map.find? key with
  | none => d
  | some entry =>
      ({ d with removing := d.removing.emplace key () }.writeMultiRemoveLazy settings).eraseMapEntry key entry

/-- Times that differ little are written as the old one. -/
def recordTime (d : DatabaseObject) (now : UInt32) : EstimatedTimePoint :=
  if settings.trackEstimatedTime then
    let time := d.countTimePoint now
    if (time.relative - d.time.relative).toNat * 1000 < settings.writeBundleDelay then d.time else time
  else {}

def writeStore (d : DatabaseObject) (record : Store) : DatabaseObject :=
  ((d.writeRecord settings (.store record)).processRecordStore settings record).2

/-- `none` when nothing changed. -/
def chooseKeyPlace (d : DatabaseObject) (around : Surroundings) (key : Key) (value : TaggedValue)
    (checksum : UInt32) : Option PlaceId :=
  match d.map.find? key with
  | none => some around.place
  | some already =>
      if already.tag = value.tag ∧ already.size = value.bytes.length ∧ already.checksum = checksum ∧
          around.readValueData already.place value.bytes.length = value.bytes then none
      else some around.place

def writeKeyPlace (d : DatabaseObject) (now : UInt32) (key : Key) (place : PlaceId) (value : TaggedValue)
    (checksum : UInt32) : DatabaseObject :=
  d.writeStore settings
    { tag := value.tag, size := value.bytes.length, place := place, checksum := checksum, key := key
      time := d.recordTime settings now }

def put (d : DatabaseObject) (around : Surroundings) (key : Key) (value : TaggedValue) : DatabaseObject :=
  if value.bytes = [] then d.remove settings key
  else
    let d := { d with removing := d.removing.erase key, stale := d.stale.filter fun k => k ≠ key }
    let checksum := around.countChecksum value.bytes
    match d.chooseKeyPlace around key value checksum with
    | none => d.recordEntryAccess settings around.now key
    | some place => d.writeKeyPlace settings around.now key place value checksum

def writeExistingPlace (d : DatabaseObject) (around : Surroundings) (key : Key) (entry : Entry) :
    DatabaseObject :=
  let record : Store :=
    { tag := entry.tag, size := entry.size, place := entry.place, checksum := entry.checksum, key := key
      time := d.recordTime settings around.now }
  match d.map.find? key with
  | none => d.writeStore settings record
  | some already =>
      if already.tag = entry.tag ∧ already.size = entry.size ∧ already.checksum = entry.checksum ∧
          around.readValueData already.place already.size = around.readValueData entry.place entry.size then d
      else d.writeStore settings record

/-- The value is given to `done`; a value that cannot be read is removed. -/
def get (d : DatabaseObject) (around : Surroundings) (key : Key)
    (done : TaggedValue → DatabaseObject → DatabaseObject) : DatabaseObject :=
  match d.map.find? key with
  | none => done {} d
  | some entry =>
      let bytes := around.readValueData entry.place entry.size
      if bytes = [] ∨ around.countChecksum bytes ≠ entry.checksum then done {} (d.remove settings key)
      else (done { bytes := bytes, tag := entry.tag } d).recordEntryAccess settings around.now key

def putIfEmpty (d : DatabaseObject) (around : Surroundings) (key : Key) (value : TaggedValue) : DatabaseObject :=
  if d.map.contains key then d else d.put settings around key value

def copyIfEmpty (d : DatabaseObject) (reading writing : Surroundings) (source target : Key) : DatabaseObject :=
  if d.map.contains target then d
  else d.get settings reading source fun value d => d.put settings writing target value

def moveIfEmpty (d : DatabaseObject) (around : Surroundings) (source target : Key) : DatabaseObject :=
  if d.map.contains target then d
  else
    match d.map.find? source with
    | none => d
    | some entry =>
        let d := { d with removing := d.removing.emplace source () }.eraseMapEntry source entry
        let d := d.writeMultiRemove settings
        let d := { d with removing := d.removing.erase target, stale := d.stale.filter fun k => k ≠ target }
        d.writeExistingPlace settings around target entry

/-! ## Clearing -/

def clearStaleChunk (d : DatabaseObject) : DatabaseObject :=
  let count := d.stale.length
  let clear := min count settings.staleRemoveChunk
  let d' := (d.stale.drop (count - clear)).foldl (remove settings) d
  { d' with stale := d'.stale.take (count - clear) }

def clearByTag (d : DatabaseObject) (walk : Iteration) (tag : UInt8) : DatabaseObject :=
  let tagged := (walk.order d.map.entries).filter fun e => e.2.tag = tag
  let d' := { d with stale := d.stale ++ tagged.map Prod.fst }
  if d.stale = [] then d'.clearStaleChunk settings else d'

def pruneBeforeTime (d : DatabaseObject) (now : UInt32) : UInt64 :=
  let relative := (d.countTimePoint now).relative
  if settings.totalTimeLimit ≠ 0 ∧ relative.toNat > settings.totalTimeLimit then
    relative - UInt64.ofNat settings.totalTimeLimit
  else 0

/-- The keys to remove, with the size of their entries. -/
structure Stale where
  keys : SortedMap Key Unit := .empty
  totalSize : Int := 0

/-- One entry of `collectTimeStale`. -/
def collectTime (before : UInt64) (state : Stale × DatabaseObject) (e : Key × Entry) : Stale × DatabaseObject :=
  let (stale, d) := state
  if e.2.useTime ≤ before then
    ({ keys := stale.keys.emplace e.1 (), totalSize := stale.totalSize + e.2.size }, d)
  else if d.minimalEntryTime = 0 ∨ d.minimalEntryTime > e.2.useTime then
    (stale, { d with minimalEntryTime := e.2.useTime, entriesWithMinimalTimeCount := 1 })
  else if d.minimalEntryTime = e.2.useTime then
    (stale, { d with entriesWithMinimalTimeCount := d.entriesWithMinimalTimeCount + 1 })
  else (stale, d)

def collectTimeStale (d : DatabaseObject) (walk : Iteration) (before : UInt64) : Stale × DatabaseObject :=
  if settings.totalTimeLimit = 0 ∨ d.minimalEntryTime = 0 ∨ d.minimalEntryTime > before then ({}, d)
  else
    (walk.order d.map.entries).foldl (collectTime before)
      ({}, { d with minimalEntryTime := 0, entriesWithMinimalTimeCount := 0 })

/-- The keys of `oldest` are signed. -/
def int64 (useTime : UInt64) : Int := useTime.toInt64.toInt

/-- `flat_multi_map` with `std::greater`: behind the entries that are not older. -/
def emplaceOldest (e : Key × Entry) : List (Key × Entry) → List (Key × Entry)
  | [] => [e]
  | first :: rest =>
      if int64 first.2.useTime < int64 e.2.useTime then e :: first :: rest else first :: emplaceOldest e rest

/-- Entries that are not needed once an older one is added. -/
def removeFirst (removeSize : Int) (adding : Entry) : List (Key × Entry) → Int → List (Key × Entry) × Int
  | [], total => ([], total)
  | first :: rest, total =>
      if adding.useTime ≤ first.2.useTime ∧ total + adding.size - removeSize ≥ first.2.size then
        removeFirst removeSize adding rest (total - first.2.size)
      else (first :: rest, total)

/-- One entry of `collectSizeStale`, with `oldest` and its total size. -/
def collectSize (stale : SortedMap Key Unit) (removeSize : Int) (state : List (Key × Entry) × Int)
    (e : Key × Entry) : List (Key × Entry) × Int :=
  let (oldest, total) := state
  if stale.contains e.1 then (oldest, total)
  else if total < removeSize ∨ oldest.head?.any (fun first => e.2.useTime < first.2.useTime) then
    let (oldest, total) := removeFirst removeSize e.2 oldest total
    (emplaceOldest e oldest, total + e.2.size)
  else (oldest, total)

def collectSizeStale (d : DatabaseObject) (walk : Iteration) (stale : Stale) : Stale :=
  let removeSize : Int :=
    if settings.totalSizeLimit > 0 then d.totalSize - stale.totalSize - settings.totalSizeLimit else 0
  if removeSize ≤ 0 then stale
  else
    let (oldest, total) := (walk.order d.map.entries).foldl (collectSize stale.keys removeSize) ([], 0)
    { keys := oldest.foldl (fun keys e => keys.emplace e.1 ()) stale.keys
      totalSize := stale.totalSize + total }

def prune (d : DatabaseObject) (walk : Iteration) (now : UInt32) : DatabaseObject :=
  if d.stale ≠ [] then d
  else
    let (stale, d) := d.collectTimeStale settings walk (d.pruneBeforeTime settings now)
    let stale := d.collectSizeStale settings walk stale
    let keys := stale.keys.entries.map Prod.fst
    if keys.length ≤ settings.staleRemoveChunk then keys.foldl (remove settings) d
    else { d with stale := keys }.clearStaleChunk settings

/-! ## Runs -/

/-- What can happen to an open database. Values are not larger than the settings allow. -/
inductive Operation where
  | put (around : Surroundings) (key : Key) (value : TaggedValue)
      (fits : value.bytes.length ≤ settings.maxDataSize)
  | putIfEmpty (around : Surroundings) (key : Key) (value : TaggedValue)
      (fits : value.bytes.length ≤ settings.maxDataSize)
  | copyIfEmpty (reading writing : Surroundings) (source target : Key)
  | moveIfEmpty (around : Surroundings) (source target : Key)
  | get (around : Surroundings) (key : Key)
  | remove (key : Key)
  | clearByTag (walk : Iteration) (tag : UInt8)
  | prune (walk : Iteration) (now : UInt32)
  | clearStaleChunk
  | writeMultiRemove
  | writeMultiAccess (now : UInt32)
  | writeBundles (now : UInt32)

def step (d : DatabaseObject) : Operation settings → DatabaseObject
  | .put around key value _ => d.put settings around key value
  | .putIfEmpty around key value _ => d.putIfEmpty settings around key value
  | .copyIfEmpty reading writing source target => d.copyIfEmpty settings reading writing source target
  | .moveIfEmpty around source target => d.moveIfEmpty settings around source target
  | .get around key => d.get settings around key fun _ d => d
  | .remove key => d.remove settings key
  | .clearByTag walk tag => d.clearByTag settings walk tag
  | .prune walk now => d.prune settings walk now
  | .clearStaleChunk => d.clearStaleChunk settings
  | .writeMultiRemove => d.writeMultiRemove settings
  | .writeMultiAccess now => if settings.trackEstimatedTime then d.writeMultiAccess settings now else d
  | .writeBundles now => d.writeBundles settings now

def run (d : DatabaseObject) (operations : List (Operation settings)) : DatabaseObject :=
  operations.foldl (step settings) d

end Operations

end DatabaseObject

end IMeDesktop.Storage.Cache
