import IMeDesktop.Lib.Patch
import Mathlib

/-! # A file loader

A `mtpFileLoader` asks for the parts of a file in their order and gets them in any. They are written to their
places in memory or in a file. What the loader counts for its progress is the size of that less the bytes it
skipped.

The cache and the file system do what they are asked for. The names of the file and of the key in the cache are
left out but for that there are any, and so are the format of an image and a loader that may not load from
the cloud.
-/

namespace IMeDesktop.Storage.FileDownload

open Lib

def kDownloadPartSize : Nat := 128 * 1024

def kMaxFileInMemory : Nat := 10 * 1024 * 1024

inductive LoadToCacheSetting where
  | loadToFileOnly
  | loadToCacheAsWell
  deriving DecidableEq, Repr

inductive LocalStatus where
  | notTried
  | notFound
  | loading
  | loaded
  deriving DecidableEq, Repr

/-- `sent` has the offsets of the requests without an answer and of the parts without a hash. -/
structure MtpFileLoader where
  hasFilename : Bool
  hasCacheKey : Bool
  toCache : LoadToCacheSetting
  fullSize : Nat
  loadSize : Nat
  localStatus : LocalStatus := .notTried
  data : Bytes := []
  file : Bytes := []
  fileIsOpen : Bool := false
  skippedBytes : Int := 0
  nextRequestOffset : Nat := 0
  lastComplete : Bool := false
  sent : List Nat := []
  finished : Bool := false
  finalized : Nat := 0
  put : List Bytes := []
  deriving DecidableEq, Repr

namespace MtpFileLoader

/-- The text in front of data that are not all. -/
def partialPrefix : Bytes := [0x70, 0x61, 0x72, 0x74, 0x69, 0x61, 0x6C, 0x3A]

def kPrefix : Nat := 8

def currentOffset (l : MtpFileLoader) : Int :=
  (if l.fileIsOpen then (l.file.length : Int) else l.data.length) - l.skippedBytes

/-- `fill` is what new bytes are in memory. -/
def writeResultPart (fill : UInt8) (l : MtpFileLoader) (offset : Nat) (buffer : Bytes) : MtpFileLoader :=
  if buffer = [] then l
  else if l.fileIsOpen then
    let fsize := l.file.length
    let skippedBytes :=
      if offset < fsize then l.skippedBytes - buffer.length
      else if offset > fsize then l.skippedBytes + (offset - fsize)
      else l.skippedBytes
    -- The file system fills what a write leaves out.
    { l with skippedBytes := skippedBytes, file := patch 0 l.file offset buffer }
  else
    let l := if offset > l.data.length then
        { l with
          skippedBytes := l.skippedBytes + (offset - l.data.length)
          data := resize fill l.data offset }
      else l
    if offset = l.data.length then { l with data := l.data ++ buffer }
    else
      let data := if offset + buffer.length > l.data.length then resize fill l.data (offset + buffer.length) else l.data
      { l with
        skippedBytes := l.skippedBytes - buffer.length
        data := data.take offset ++ buffer ++ data.drop (offset + buffer.length) }

def finalizeResult (l : MtpFileLoader) : MtpFileLoader :=
  let l := { l with finalized := l.finalized + 1 }
  let l := if l.hasFilename && l.toCache = .loadToCacheAsWell then { l with file := l.data } else l
  let l := { l with finished := true, fileIsOpen := false }
  if l.localStatus = .notFound ∧ l.toCache = .loadToCacheAsWell ∧ l.data.length ≤ kMaxFileInMemory ∧ l.hasCacheKey then
    { l with put := l.put ++ [if l.fullSize = 0 ∨ l.data.length = l.fullSize then l.data else partialPrefix ++ l.data] }
  else l

def finishWithBytes (l : MtpFileLoader) (data : Bytes) : MtpFileLoader :=
  let l := { l with data := data, localStatus := .loaded }
  let l := if l.hasFilename && l.toCache = .loadToCacheAsWell then { l with file := l.data } else l
  { l with finished := true, fileIsOpen := false }

def haveSentRequests (l : MtpFileLoader) : Bool := l.sent ≠ []

def readyToRequest (l : MtpFileLoader) : Bool :=
  !l.finished && !l.lastComplete && (l.fullSize ≠ 0 || !l.haveSentRequests) &&
    (l.fullSize = 0 || l.nextRequestOffset < l.loadSize)

/-- The request is sent. -/
def takeNextRequestOffset (l : MtpFileLoader) : MtpFileLoader :=
  { l with
    nextRequestOffset := l.nextRequestOffset + kDownloadPartSize
    sent := l.sent ++ [l.nextRequestOffset] }

def feedPart (fill : UInt8) (l : MtpFileLoader) (offset : Nat) (bytes : Bytes) : MtpFileLoader :=
  let l := l.writeResultPart fill offset bytes
  let l := if bytes = [] ∨ bytes.length % 1024 ≠ 0 then { l with lastComplete := true } else l
  if !l.haveSentRequests && (l.lastComplete || (l.fullSize ≠ 0 && l.nextRequestOffset ≥ l.loadSize)) then
    l.finalizeResult
  else l

def checkForOpen (l : MtpFileLoader) : MtpFileLoader :=
  if !l.hasFilename || l.toCache ≠ .loadToFileOnly || l.fileIsOpen then l
  else { l with fileIsOpen := true, file := [] }

def startLoadingWithPartial (fill : UInt8) (l : MtpFileLoader) (data : Bytes) : MtpFileLoader :=
  let use := (data.length - kPrefix) / kDownloadPartSize * kDownloadPartSize
  if use > 0 then
    { l with nextRequestOffset := use }.feedPart fill 0 ((data.drop kPrefix).take use)
  else l

def localLoaded (fill : UInt8) (l : MtpFileLoader) (data : Bytes) : MtpFileLoader :=
  if data = [] then { l with localStatus := .notFound }.checkForOpen
  else
    let isPartial := partialPrefix.isPrefixOf data
    if isPartial && data.length < l.loadSize + kPrefix then
      { l with localStatus := .notFound }.checkForOpen.startLoadingWithPartial fill data
    else l.finishWithBytes (if isPartial then data.drop kPrefix else data)

/-- With what is found in the cache, if the loader asks it. -/
def start (fill : UInt8) (l : MtpFileLoader) (found : Bytes) : MtpFileLoader :=
  if l.toCache = .loadToCacheAsWell ∧ l.hasCacheKey then { l with localStatus := .loading }.localLoaded fill found
  else { l with localStatus := .notFound }.checkForOpen

/-- `none` where an expectation is not met. -/
def increaseLoadSize (l : MtpFileLoader) (size : Nat) : Option MtpFileLoader :=
  if size > l.loadSize ∧ size ≤ l.fullSize then some { l with loadSize := size } else none

end MtpFileLoader

open MtpFileLoader

/-! ## Runs -/

inductive Event where
  | request
  | arrive (offset : Nat)
  | increaseLoadSize (size : Nat)
  deriving DecidableEq, Repr

/-- What the server has at an offset. -/
def part (whole : Bytes) (offset : Nat) : Bytes := (whole.drop offset).take kDownloadPartSize

/-- A loader, and how many bytes it got. -/
structure Download where
  loader : MtpFileLoader
  received : Nat
  deriving DecidableEq, Repr

/-- `none` is an event that cannot happen. -/
def step (fill : UInt8) (whole : Bytes) (d : Download) : Event → Option Download
  | .request =>
      if d.loader.readyToRequest then some { d with loader := d.loader.takeNextRequestOffset } else none
  | .arrive offset =>
      if offset ∈ d.loader.sent then
        some
          { loader := { d.loader with sent := d.loader.sent.erase offset }.feedPart fill offset (part whole offset)
            received := d.received + (part whole offset).length }
      else none
  | .increaseLoadSize size =>
      if d.loader.finished then none
      else (d.loader.increaseLoadSize size).map fun loader => { d with loader := loader }

def run (fill : UInt8) (whole : Bytes) (d : Download) (events : List Event) : Option Download :=
  events.foldl (fun d event => d.bind fun d => step fill whole d event) (some d)

end IMeDesktop.Storage.FileDownload
