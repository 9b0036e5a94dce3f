import IMeDesktop.Media.Streaming.CacheFormat

/-! # Slices of a streamed file

`Reader::Slices` keeps the parts of the file that are in memory: the header and the slices,
each with what is known of its value in the cache. All numbers are below the size of the file,
which with one slice more still fits 32 bits.
-/

namespace IMeDesktop.Media.Streaming

open Lib

structure Flags where
  loadingFromCache : Bool := false
  loadedFromCache : Bool := false
  changedSinceCache : Bool := false
  fullInCache : Bool := false
  deriving DecidableEq, Repr

structure Slice where
  parts : PartsMap := .empty
  flags : Flags := {}
  deriving DecidableEq

structure PrepareFillResult where
  offsetsFromLoader : List Nat := []
  /-- From `start` to `finish`. -/
  loaded : List (Nat × Bytes) := []
  ready : Bool := true

inductive FillState where
  | success
  | waitingCache
  | waitingRemote
  | failed
  deriving DecidableEq, Repr

inductive HeaderMode where
  | unknown
  | small
  | good
  | full
  | noCache
  deriving DecidableEq, Repr

structure SerializedSlice where
  number : Nat
  data : Bytes

/-- `buffer` is what was copied to the buffer. -/
structure FillResult where
  sliceNumbersFromCache : List Nat := []
  offsetsFromLoader : List Nat := []
  toCache : Option SerializedSlice := none
  state : FillState := .waitingRemote
  buffer : Bytes := []

/-- `StackIntVector::add`, when nobody asks whether there was room. -/
def addValue (room : Nat) (values : List Nat) (value : Nat) : List Nat :=
  if values.length < room then values ++ [value] else values

namespace Slice

def processCacheData (slice : Slice) (data : PartsMap) : Attempt Slice :=
  if slice.flags.loadingFromCache && !slice.flags.loadedFromCache then
    .ok {
      parts := if slice.parts.isEmpty then data
        else data.entries.foldl (fun parts part => parts.emplace part.1 part.2) slice.parts
      flags := { slice.flags with loadedFromCache := true, loadingFromCache := false } }
  else .error .processCacheData

def addPart (slice : Slice) (offset : Nat) (bytes : Bytes) : Attempt Slice :=
  if slice.parts.contains offset then .error .addPart
  else .ok {
    parts := slice.parts.emplace offset bytes
    flags := { slice.flags with changedSinceCache := slice.flags.changedSinceCache || slice.flags.loadedFromCache } }

/-- The loop over the offsets; `check` are the parts that were not passed yet. -/
def notLoaded (check : List (Nat × Bytes)) (result : List Nat) : List Nat → List Nat
  | [] => result
  | offset :: offsets =>
      let check := check.dropWhile (·.1 < offset)
      if check.head?.any (·.1 = offset) then notLoaded check result offsets
      else if result.length < kLoadFromRemoteMax then notLoaded check (result ++ [offset]) offsets
      else result

def offsetsFromLoader (slice : Slice) (start till : Nat) : List Nat :=
  let after := (slice.parts.entries.takeWhile (·.1 ≤ start)).length
  notLoaded (slice.parts.entries.drop (after - 1)) []
    ((List.range ((till - start) / kPartSize)).map fun i => start + i * kPartSize)

def prepareFill (slice : Slice) (start till : Nat) : PrepareFillResult :=
  let fromOffset := start / kPartSize * kPartSize
  let tillPart := (till + kPartSize - 1) / kPartSize
  let preloadTillOffset := (tillPart + kPreloadPartsAhead) * kPartSize
  let after := (slice.parts.entries.takeWhile (·.1 ≤ start)).length
  if after = 0 then
    { offsetsFromLoader := slice.offsetsFromLoader fromOffset preloadTillOffset, ready := false }
  else
    let loaded := (slice.parts.entries.drop (after - 1)).takeWhile (·.1 < till)
    let haveTill := findNotLoadedStart loaded fromOffset
    if haveTill < till then
      { offsetsFromLoader := slice.offsetsFromLoader haveTill preloadTillOffset, ready := false }
    else
      { offsetsFromLoader := slice.offsetsFromLoader (tillPart * kPartSize) preloadTillOffset, loaded }

end Slice

structure Slices where
  data : List Slice
  header : Slice
  usedSlices : List Nat := []
  size : Nat
  headerMode : HeaderMode := .unknown
  fullInCache : Bool := false
  deriving DecidableEq

namespace Slices

def create (size : Nat) (useCache : Bool) : Attempt Slices :=
  if size = 0 then .error .slices
  else do
    let count ← if isFullInHeader size then .ok 0 else slicesCount size
    return {
      data := List.replicate count {}
      header := { flags := { loadingFromCache := useCache } }
      size
      headerMode := if useCache then .unknown else .noCache }

def headerModeUnknown (s : Slices) : Bool := s.headerMode = .unknown

def isFullInHeader (s : Slices) : Bool := Streaming.isFullInHeader s.size

def isGoodHeader (s : Slices) : Bool := s.headerMode = .good

def computeIsGoodHeader (s : Slices) : Bool := Streaming.computeIsGoodHeader s.size s.header.parts

def headerWontBeFilled (s : Slices) : Bool := s.headerModeUnknown && s.header.parts.size ≥ kMaxPartsInHeader

def waitingForHeaderCache (s : Slices) : Bool := s.header.flags.loadingFromCache

def requestSliceSizesCount (s : Slices) : Nat := if !s.headerModeUnknown || s.isFullInHeader then 0 else s.data.length

def modifySlice (s : Slices) (index : Nat) (f : Slice → Attempt Slice) : Attempt Slices :=
  match s.data[index]? with
  | none => .error .slices
  | some slice => (f slice).map fun slice => { s with data := s.data.set index slice }

def modeFromHeader (s : Slices) : HeaderMode :=
  if s.isFullInHeader then .full else if s.computeIsGoodHeader then .good else .small

def headerDone (s : Slices) (fromCache : Bool) : Attempt Slices :=
  if !s.headerModeUnknown then .ok s
  else
    let s := { s with headerMode := s.modeFromHeader }
    if fromCache then .ok s
    else if s.data.any fun slice => slice.flags.loadingFromCache || slice.flags.loadedFromCache then .error .headerDone
    else .ok { s with data := s.data.map fun slice => { slice with flags := { slice.flags with loadedFromCache := true } } }

/-- The parts of the header up to a slice are added to the slices. -/
def applyWhile (s : Slices) (predicate : Nat → Bool) : Attempt Slices :=
  (s.header.parts.entries.takeWhile fun part => predicate (part.1 / kInSlice)).foldlM
    (fun s part => s.modifySlice (part.1 / kInSlice) (·.addPart (part.1 - part.1 / kInSlice * kInSlice) part.2)) s

def applyHeaderCacheData (s : Slices) : Attempt Slices :=
  if s.header.parts.isEmpty then .ok s
  else if s.headerMode = .good then s.applyWhile (· = 0)
  else if s.headerMode ≠ .unknown then .ok s
  else if s.isFullInHeader then s.headerDone true
  else do (← s.applyWhile (· < s.data.length)).headerDone true

def partsCount (s : Slices) (sliceNumber : Nat) : Nat :=
  if sliceNumber = 0 then (s.size + kPartSize - 1) / kPartSize
  else if sliceNumber < s.data.length then kPartsInSlice
  else (s.size - (sliceNumber - 1) * kInSlice + kPartSize - 1) / kPartSize

def checkFullInCache (s : Slices) : Bool :=
  if s.isFullInHeader then s.header.flags.fullInCache else s.data.all (·.flags.fullInCache)

def withFull (slice : Slice) (full : Bool) : Slice := { slice with flags := { slice.flags with fullInCache := full } }

/-- The header as slice 0. -/
def slice? (s : Slices) (sliceNumber : Nat) : Option Slice :=
  if sliceNumber = 0 then some s.header else s.data[sliceNumber - 1]?

def setSlice (s : Slices) (sliceNumber : Nat) (slice : Slice) : Slices :=
  if sliceNumber = 0 then { s with header := slice } else { s with data := s.data.set (sliceNumber - 1) slice }

def checkSliceFullLoaded (s : Slices) (sliceNumber : Nat) : Attempt Slices :=
  if sliceNumber = 0 && !s.isFullInHeader then .ok s
  else
    match s.slice? sliceNumber with
    | none => .error .slices
    | some slice =>
        let loaded : Bool := slice.parts.size = s.partsCount sliceNumber
        if slice.flags.fullInCache && !loaded then
          let s := s.setSlice sliceNumber (withFull slice false)
          .ok { s with fullInCache := false }
        else if !slice.flags.fullInCache && loaded then
          let s := s.setSlice sliceNumber (withFull slice true)
          .ok { s with fullInCache := s.checkFullInCache }
        else .ok s

/-- What was found in the cache is taken in, unless nobody waits for it any more. -/
def takeResult (s : Slices) (sliceNumber : Nat) (result : PartsMap) : Attempt Slices :=
  match s.slice? sliceNumber with
  | none => .error .processCacheResult
  | some slice =>
      if !slice.flags.loadingFromCache then .ok s
      else do
        let s ← (s.setSlice sliceNumber (← slice.processCacheData result)).checkSliceFullLoaded sliceNumber
        if sliceNumber ≠ 0 then return s
        else
          let s ← s.applyHeaderCacheData
          if s.isGoodHeader then
            s.modifySlice 0 fun slice => .ok { slice with flags := { slice.flags with loadingFromCache := true } }
          else return s

/-- In a good header the first slice is read with the header once more. -/
def processCacheResult (s : Slices) (sliceNumber : Nat) (result : PartsMap) : Attempt Slices :=
  if sliceNumber = 0 && s.isGoodHeader then
    match s.data[0]? with
    | none => .error .slices
    | some first =>
        if !first.flags.loadingFromCache then .ok s
        else
          let flags := { s.header.flags with loadingFromCache := true, loadedFromCache := false }
          ({ s with header := { s.header with flags } } : Slices).takeResult 0 result
  else s.takeResult sliceNumber result

def sliceSize (s : Slices) (sliceNumber : Nat) : Nat :=
  if sliceNumber < s.data.length then kInSlice else s.size - (sliceNumber - 1) * kInSlice

def processCachedSizes (s : Slices) (sizes : List Nat) : Attempt Slices :=
  if sizes.length ≠ s.data.length then .error .processCachedSizes
  else
    let data := (s.data.zip sizes).mapIdx fun i (slice, size) =>
      withFull slice (slice.flags.fullInCache || size = s.sliceSize (i + 1))
    .ok { s with data, fullInCache := data.all (·.flags.fullInCache) }

def processPart (s : Slices) (offset : Nat) (bytes : Bytes) : Attempt Slices :=
  let index := offset / kInSlice
  if s.isFullInHeader then do
    let header ← s.header.addPart offset bytes
    ({ s with header } : Slices).checkSliceFullLoaded 0
  else if index ≥ s.data.length then .error .processPart
  else if s.headerModeUnknown && s.header.parts.contains offset then .ok s
  else do
    let header ←
      if s.headerModeUnknown && s.header.parts.size < kMaxPartsInHeader then s.header.addPart offset bytes
      else .ok s.header
    let s ← ({ s with header } : Slices).modifySlice index (·.addPart (offset - index * kInSlice) bytes)
    s.checkSliceFullLoaded (index + 1)

def markSliceUsed (s : Slices) (sliceIndex : Nat) : Slices :=
  { s with usedSlices := s.usedSlices.erase sliceIndex ++ [sliceIndex] }

/-- Only the mark that the slice is full stays. -/
def unloadSlice (slice : Slice) : Slice := { flags := { fullInCache := slice.flags.fullInCache } }

/-- The parts of the first slice that are not in the header, as the slice is dropped. -/
def serializeAndUnloadFirstSliceNoHeader (s : Slices) : Attempt (Bytes × Slices) :=
  match s.data[0]? with
  | none => .error .slices
  | some first =>
      if first.flags.loadedFromCache then
        let parts := s.header.parts.entries.foldl (fun parts part => parts.erase part.1) first.parts
        .ok (serializeComplexSlice parts, { s with data := s.data.set 0 (unloadSlice first) })
      else .error .serializeAndUnloadFirstSliceNoHeader

/-- The value for the cache; the header stays in memory. -/
def serializeAndUnload (s : Slices) (sliceNumber : Nat) : Attempt (SerializedSlice × Slices) :=
  match s.slice? sliceNumber with
  | none => .error .serializeAndUnloadSlice
  | some slice =>
      if slice.parts.isEmpty then .error .serializeAndUnloadSlice
      else do
        let writeHeaderAndSlice := s.isGoodHeader && sliceNumber = 0
        let continuousTill := if writeHeaderAndSlice then 0 else findNotLoadedStart slice.parts.entries 0
        let (data, s) ←
          if slice.parts.entries.getLast?.any (continuousTill > ·.1) then
            .ok (slice.parts.entries.flatMap Prod.snd, s)
          else do
            let (more, s) ← if writeHeaderAndSlice then s.serializeAndUnloadFirstSliceNoHeader else .ok ([], s)
            let maxSize ← maxSliceSize sliceNumber s.size
            .ok (padded maxSize (serializeComplexSlice slice.parts ++ more), s)
        let unloaded :=
          if sliceNumber = 0 then { slice with flags := { slice.flags with changedSinceCache := false } }
          else unloadSlice slice
        return (⟨sliceNumber, data⟩, s.setSlice sliceNumber unloaded)

def serializeAndUnloadSlice (s : Slices) (sliceNumber : Nat) : Attempt (SerializedSlice × Slices) :=
  if s.headerMode = .unknown ∨ s.headerMode = .noCache ∨ sliceNumber > s.data.length then
    .error .serializeAndUnloadSlice
  else s.serializeAndUnload (if s.isGoodHeader && sliceNumber = 1 then 0 else sliceNumber)

def noNeedToSaveToCache (s : Slices) (purgeSlice : Nat) (slice : Slice) : Bool :=
  s.headerMode = .noCache ||
    !slice.flags.changedSinceCache && (!s.isGoodHeader || purgeSlice > 0 || !s.header.flags.changedSinceCache)

def serializeAndUnloadUnused (s : Slices) : Attempt (Option SerializedSlice × Slices) :=
  if s.headerMode = .unknown ∨ s.usedSlices.length ≤ kSlicesInMemory then .ok (none, s)
  else
    match s.usedSlices with
    | [] => .ok (none, s)
    | purgeSlice :: usedSlices =>
        let s := { s with usedSlices }
        match s.data[purgeSlice]? with
        | none => .error .slices
        | some slice =>
            if !slice.flags.loadedFromCache then .ok (none, s)
            else if s.noNeedToSaveToCache purgeSlice slice then
              .ok (none, { s with data := s.data.set purgeSlice (unloadSlice slice) })
            else (s.serializeAndUnloadSlice (purgeSlice + 1)).map fun (saved, s) => (some saved, s)

def unloadToCache (s : Slices) : Attempt (Option SerializedSlice × Slices) :=
  if s.headerMode = .unknown ∨ s.headerMode = .noCache then .ok (none, s)
  else if s.header.flags.changedSinceCache then
    (s.serializeAndUnloadSlice 0).map fun (saved, s) => (some saved, s)
  else
    match s.data.findIdx? (·.flags.changedSinceCache) with
    | none => .ok (none, s)
    | some i => (s.serializeAndUnloadSlice (i + 1)).map fun (saved, s) => (some saved, s)

def cacheNotLoaded (s : Slices) (slice : Slice) : Bool :=
  s.headerMode ≠ .noCache && s.headerMode ≠ .unknown && !slice.flags.loadedFromCache

def handlePrepareResult (s : Slices) (sliceIndex : Nat) (slice : Slice) (prepared : PrepareFillResult)
    (offsets : List Nat) : List Nat :=
  if s.cacheNotLoaded slice then offsets
  else
    (prepared.offsetsFromLoader.filter fun offset => offset < kInSlice && offset + sliceIndex * kInSlice < s.size).foldl
      (fun offsets offset => addValue kLoadFromRemoteMax offsets (offset + sliceIndex * kInSlice)) offsets

def handleReadFromCache (s : Slices) (sliceIndex : Nat) (result : FillResult) : Attempt (FillResult × Slices) :=
  match s.data[sliceIndex]? with
  | none => .error .slices
  | some slice =>
      if !s.cacheNotLoaded slice then .ok (result, s)
      else if slice.flags.loadingFromCache then .ok ({ result with state := .waitingCache }, s)
      else
        let slice := { slice with flags := { slice.flags with loadingFromCache := true } }
        .ok ({ result with
            state := .waitingCache
            sliceNumbersFromCache := addValue 2 result.sliceNumbersFromCache (sliceIndex + 1) },
          { s with data := s.data.set sliceIndex slice })

def fillFromHeader (s : Slices) (offset length : Nat) : Attempt (FillResult × Slices) := do
  let till := offset + length
  let prepared := s.header.prepareFill offset till
  let offsetsFromLoader := (prepared.offsetsFromLoader.filter (· < s.size)).foldl (addValue kLoadFromRemoteMax) []
  if prepared.ready then
    return ({ offsetsFromLoader, buffer := ← copyLoaded prepared.loaded offset till, state := .success }, s)
  else return ({ offsetsFromLoader }, s)

/-- The range is in one slice. -/
def fillOne (s : Slices) (index offset till : Nat) : Attempt (FillResult × Slices) :=
  match s.data[index]? with
  | none => .error .fill
  | some slice => do
      let prepared := slice.prepareFill offset till
      let result : FillResult := { offsetsFromLoader := s.handlePrepareResult index slice prepared [] }
      if prepared.ready then
        let buffer ← copyLoaded prepared.loaded offset till
        let (toCache, s) ← (s.markSliceUsed index).serializeAndUnloadUnused
        return ({ result with buffer, toCache, state := .success }, s)
      else s.handleReadFromCache index result

/-- The range goes on in the next slice. -/
def fillTwo (s : Slices) (index offset till : Nat) : Attempt (FillResult × Slices) :=
  match s.data[index]?, s.data[index + 1]? with
  | some slice, some next => do
      let first := slice.prepareFill offset kInSlice
      let second := next.prepareFill 0 till
      let result : FillResult :=
        { offsetsFromLoader := s.handlePrepareResult (index + 1) next second (s.handlePrepareResult index slice first []) }
      if first.ready && second.ready then
        let buffer ← copyLoaded first.loaded offset kInSlice
        let more ← copyLoaded second.loaded 0 till
        let (toCache, s) ← ((s.markSliceUsed index).markSliceUsed (index + 1)).serializeAndUnloadUnused
        return ({ result with buffer := buffer ++ more, toCache, state := .success }, s)
      else
        let (result, s) ← s.handleReadFromCache index result
        s.handleReadFromCache (index + 1) result
  | _, _ => .error .fill

def fill (s : Slices) (offset length : Nat) : Attempt (FillResult × Slices) :=
  if length = 0 ∨ offset ≥ s.size ∨ offset + length > s.size ∨ length > kInSlice then .error .fill
  else if s.headerMode ≠ .noCache && !s.header.flags.loadedFromCache then
    if s.waitingForHeaderCache then .ok ({}, s) else .error .fill
  else if s.isFullInHeader then s.fillFromHeader offset length
  else
    let till := offset + length
    let fromSlice := offset / kInSlice
    let tillSlice := (till + kInSlice - 1) / kInSlice
    let firstFrom := offset - fromSlice * kInSlice
    if fromSlice + 1 = tillSlice then s.fillOne fromSlice firstFrom (till - fromSlice * kInSlice)
    else if fromSlice + 2 = tillSlice then s.fillTwo fromSlice firstFrom (till - (fromSlice + 1) * kInSlice)
    else .error .fill

def partForDownloader (s : Slices) (offset : Nat) : Bytes :=
  match s.header.parts.find? offset with
  | some bytes => bytes
  | none =>
      if s.isFullInHeader then []
      else
        let index := offset / kInSlice
        (s.data[index]?.bind (·.parts.find? (offset - index * kInSlice))).getD []

def readCacheForDownloaderRequired (s : Slices) (offset : Nat) : Bool :=
  !s.isFullInHeader && s.data[offset / kInSlice]?.any (!·.flags.loadedFromCache)

end Slices

end IMeDesktop.Media.Streaming
