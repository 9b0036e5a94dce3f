import IMeDesktop.Storage.DatabaseObject

/-! # Compacting the binlog

`CompactorObject` works on a queue of its own. It reads the keys of the binlog up to where it
ended when compaction began, chunk by chunk, asks the database for what it has under these keys
now, and writes what it gets into a new file. Then it copies what was appended to the binlog
meanwhile, as long as this gets less, and the database copies the rest and takes the new file.

The two queues share the file of the binlog only, so what the compactor sees of it is given to
each of its steps. File operations succeed here, and the paths are left out.
-/

namespace IMeDesktop.Storage.Cache

open Lib

/-- `Compactor::Info`, without the count of keys, which only reserves memory. -/
structure CompactorInfo where
  till : Nat
  systemTime : UInt32
  deriving DecidableEq, Repr

structure CompactorObject where
  info : CompactorInfo
  compact : Bytes
  wrapper : BinlogWrapper
  written : List Key := []
  list : List Store := []

/-- The bytes `from..till` of one file, behind those of another. Nothing when the file is shorter than it was. -/
def copyBytes (binlog : Bytes) (block till : Nat) : Nat → Nat → Bytes → Option Bytes
  | 0, _, _ => none
  | fuel + 1, source, compact =>
      let read := window binlog source (min (till - source) block)
      if read = [] then none
      else if source + read.length = till then some (compact ++ read)
      else copyBytes binlog block till fuel (source + read.length) (compact ++ read)

/-- `CatchUp`, with the end of the binlog and the file that is copied to. -/
def catchUp (compact binlog : Bytes) (source block : Nat) : Option (Nat × Bytes) :=
  let till := binlog.length
  if till = source then some (till, compact)
  else if till < source then none
  else (copyBytes binlog block till (till - source) source compact).map fun compact => (till, compact)

namespace CompactorObject

section Steps

variable (settings : Settings)

/-- The keys that a record stores something under. -/
def storeKeys : Record → List Key
  | .store part => [part.key]
  | .multiStore parts => parts.map Store.key
  | .multiRemove _ => []
  | .multiAccess _ _ => []

/-- The handlers of `readBlock`, which accept everything. -/
def push (result : List Key) (record : Record) : Bool × List Key := (true, result ++ storeKeys record)

/-- The header of the binlog is the one of the new file. -/
def start (binlog : Bytes) (info : CompactorInfo) : Option CompactorObject :=
  if binlog.length < info.till then none
  else if (DatabaseObject.readHeader settings binlog).isNone then none
  else
    some
      { info := info
        compact := binlog.take 16
        wrapper := { binlog := { data := binlog, offset := 16 }, till := info.till } }

/-- The loop of `readChunk`. -/
def readBlocks : Nat → List Key → BinlogWrapper → List Key × BinlogWrapper
  | 0, result, wrapper => (result, wrapper)
  | fuel + 1, result, wrapper =>
      if settings.compactChunkSize ≤ result.length then (result, wrapper)
      else
        match BinlogWrapper.readTillEnd settings push result wrapper with
        | (true, result, wrapper) => (result, wrapper)
        | (false, result, wrapper) => readBlocks fuel result wrapper

def readChunk (c : CompactorObject) (binlog : Bytes) : List Key × CompactorObject :=
  let wrapper := { c.wrapper with binlog := { c.wrapper.binlog with data := binlog } }
  let (result, wrapper) := readBlocks settings (wrapper.till - wrapper.binlog.offset + 1) [] wrapper
  (result, { c with wrapper := wrapper })

/-- What is written of an entry. -/
def listRecord (info : CompactorInfo) (raw : Key × Entry) : Store where
  key := raw.1
  size := raw.2.size
  checksum := raw.2.checksum
  tag := raw.2.tag
  place := raw.2.place
  time := if settings.trackEstimatedTime then { relative := raw.2.useTime, system := info.systemTime } else {}

def addListRecord (c : CompactorObject) (raw : Key × Entry) : CompactorObject :=
  if raw.1 ∈ c.written then c
  else { c with written := raw.1 :: c.written, list := c.list ++ [listRecord settings c.info raw] }

/-- The values that do not fit into the list are left. -/
def fillList (c : CompactorObject) : List (Key × Entry) → List (Key × Entry) × CompactorObject
  | [] => ([], c)
  | raw :: left =>
      if c.list.length = settings.maxBundledRecords then (raw :: left, c)
      else (c.addListRecord settings raw).fillList left

/-- `writeMultiStore`. -/
def writeList (c : CompactorObject) : CompactorObject :=
  if c.list = [] then c
  else
    { c with
      compact := c.compact ++ (Record.multiStore c.list).encode settings.trackEstimatedTime
      list := [] }

def processValues : Nat → CompactorObject → List (Key × Entry) → CompactorObject
  | 0, c, _ => c
  | fuel + 1, c, values =>
      match c.fillList settings values with
      | ([], c) => c
      | (raw :: left, c) => processValues fuel (c.writeList settings) (raw :: left)

end Steps

end CompactorObject

namespace DatabaseObject

def getManyRaw (d : DatabaseObject) (keys : List Key) : List (Key × Entry) :=
  keys.filterMap fun key => (d.map.find? key).map fun entry => (key, entry)

end DatabaseObject

/-! ## A database with its compactor -/

/-- What is to be done next about a compaction. The compactor parses, fills its list and catches up, the database answers
and takes the result. -/
inductive CompactorPhase where
  | parsing
  | asked (keys : List Key)
  | answered (values : List (Key × Entry))
  | catching (source lastCatchUp : Nat)
  | done (till : Nat)
  | failed

/-- `CompactorWrap`, with the object on its queue. -/
structure CompactorWrap where
  object : Option (CompactorObject × CompactorPhase) := none
  excessLength : Int := 0
  nextAttempt : Nat := 0
  delayAfterFailure : Nat := 10 * 1000

def kMaxDelayAfterFailure : Nat := 24 * 60 * 60 * 1000

structure Compacting where
  database : DatabaseObject
  compactor : CompactorWrap := {}

namespace Compacting

section Steps

variable (settings : Settings)

/-- What can happen on the two queues. The times are those of `crl::now`, and `seen` is how much the compactor sees of
the binlog, which may be just written to. -/
inductive Event where
  | operate (operation : DatabaseObject.Operation settings)
  | checkCompactor (now : Nat)
  | parseChunk
  | getManyRaw
  | processValues
  | catchUp (seen : Nat)
  | take (now : Nat)

def shouldCompact (s : Compacting) (now : Nat) : Bool :=
  let excess := s.database.binlogExcessLength
  s.compactor.object.isNone && settings.compactAfterExcess ≠ 0 && settings.compactAfterExcess ≤ excess &&
    (settings.compactAfterFullSize = 0 ||
      settings.compactAfterExcess * (s.database.binlog.size : Int) ≤ excess * settings.compactAfterFullSize) &&
    s.compactor.nextAttempt ≤ now

def checkCompactor (s : Compacting) (now : Nat) : Compacting :=
  if s.shouldCompact settings now then
    let info : CompactorInfo := { till := s.database.binlog.size, systemTime := s.database.time.system }
    let object :=
      match CompactorObject.start settings s.database.binlog.data info with
      | some c => (c, .parsing)
      | none =>
          ({ info := info, compact := [], wrapper := { binlog := s.database.binlog, till := info.till } }, .failed)
    { s with compactor := { s.compactor with object := some object, excessLength := s.database.binlogExcessLength } }
  else s

/-- The list is written when there are no more keys. -/
def parseChunk (s : Compacting) (c : CompactorObject) : CompactorObject × CompactorPhase :=
  let (keys, c) := c.readChunk settings s.database.binlog.data
  if c.wrapper.failed then (c, .failed)
  else if keys = [] then (c.writeList settings, .catching c.info.till 0)
  else (c, .asked keys)

/-- One round of `finalize`. -/
def finalize (s : Compacting) (c : CompactorObject) (source lastCatchUp seen : Nat) :
    CompactorObject × CompactorPhase :=
  match IMeDesktop.Storage.Cache.catchUp c.compact (s.database.binlog.data.take seen) source settings.readBlockSize with
  | none => (c, .failed)
  | some (till, compact) =>
      if till = source ∨ (0 < lastCatchUp ∧ lastCatchUp ≤ till - source) then ({ c with compact := compact }, .done till)
      else ({ c with compact := compact }, .catching till (till - source))

def compactorFail (s : Compacting) (now : Nat) : Compacting :=
  { s with
    compactor :=
      { nextAttempt := now + s.compactor.delayAfterFailure
        delayAfterFailure := min (s.compactor.delayAfterFailure * 2) kMaxDelayAfterFailure } }

def install (s : Compacting) (compact : Bytes) : Compacting where
  database :=
    { s.database with
      binlog := { data := compact, offset := compact.length }
      binlogExcessLength := s.database.binlogExcessLength - s.compactor.excessLength }

def compactorDone (s : Compacting) (c : CompactorObject) (originalReadTill now : Nat) : Compacting :=
  let size := s.database.binlog.size
  if originalReadTill = size then s.install c.compact
  else
    match IMeDesktop.Storage.Cache.catchUp c.compact s.database.binlog.data originalReadTill settings.readBlockSize with
    | none => s.compactorFail now
    | some (till, compact) => if till = size then s.install compact else s.compactorFail now

def withObject (s : Compacting) (object : CompactorObject × CompactorPhase) : Compacting :=
  { s with compactor := { s.compactor with object := some object } }

/-- An event that does not come next does nothing. -/
def step (s : Compacting) : Event settings → Compacting
  | .operate operation => { s with database := s.database.step settings operation }
  | .checkCompactor now => s.checkCompactor settings now
  | .parseChunk =>
      match s.compactor.object with
      | some (c, .parsing) => s.withObject (s.parseChunk settings c)
      | _ => s
  | .getManyRaw =>
      match s.compactor.object with
      | some (c, .asked keys) => s.withObject (c, .answered (s.database.getManyRaw keys))
      | _ => s
  | .processValues =>
      match s.compactor.object with
      | some (c, .answered values) => s.withObject (c.processValues settings (values.length + 2) values, .parsing)
      | _ => s
  | .catchUp seen =>
      match s.compactor.object with
      | some (c, .catching source lastCatchUp) => s.withObject (s.finalize settings c source lastCatchUp seen)
      | _ => s
  | .take now =>
      match s.compactor.object with
      | some (c, .done till) => s.compactorDone settings c till now
      | some (_, .failed) => s.compactorFail now
      | _ => s

def run (s : Compacting) (events : List (Event settings)) : Compacting := events.foldl (step settings) s

end Steps

end Compacting

end IMeDesktop.Storage.Cache
