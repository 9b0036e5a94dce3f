import IMeDesktop.Lib.Runs
import IMeDesktop.Lib.SortedMap
import IMeDesktop.Ui.TextEntity

/-! # The list of downloads

The downloads that were saved are resolved from the end of their list, in batches: an entry whose file
is gone is marked by an empty path, the messages of the others are asked for, and once all the answers
are here every entry of the batch gets an object or is removed.

The state is that of one session, with the requests that are in flight and the resolves that wait for
the main thread. What is being downloaded, and who listens to the changes, are left out. An access to
an element outside of the list is `none`.
-/

namespace IMeDesktop.Data.Downloads

open Lib Ui

inductive DownloadType where
  | document
  | photo
  deriving DecidableEq, Repr

structure DownloadId where
  objectId : UInt64
  type : DownloadType
  deriving DecidableEq, Repr

abbrev PeerId := Fin (2 ^ 64)

instance instNeZeroPeerId : NeZero (2 ^ 64) := ⟨by decide⟩

structure FullMsgId where
  peer : PeerId
  msg : Int64
  deriving DecidableEq, Repr

/-- An item, by its address, with what it shows. -/
structure DownloadObject where
  item : Nat
  document : Option UInt64 := none
  photo : Option UInt64 := none
  deriving DecidableEq, Repr

structure DownloadedId where
  download : DownloadId
  started : Int64
  path : QString
  size : Nat
  itemId : FullMsgId
  peerAccessHash : UInt64
  object : Option DownloadObject := none
  deriving DecidableEq, Repr

structure Prepared where
  peerAccessHash : UInt64 := 0
  ids : List Int32 := []
  deriving DecidableEq, Repr

structure SessionData where
  downloaded : List DownloadedId
  resolveNeeded : Int
  resolveSentRequests : Int := 0
  resolveSentTotal : Int := 0
  loadedResolveDone : Bool := false
  inFlight : List (PeerId × Prepared) := []
  posted : Nat := 0
  deriving DecidableEq, Repr

/-- The files, and the messages the session knows. -/
structure Outside where
  fileSize : QString → Option Nat
  message : FullMsgId → Option DownloadObject
  userPeerId : PeerId
  generateFakeItem : DownloadedId → DownloadObject
  noPath : fileSize [] = none

def kMaxFileSize : Nat := 4000 * (1024 * 1024)
def kMaxResolvePerAttempt : Int := 100

def IsServerMsgId (id : Int64) : Bool := 0 < id.toInt && id.toInt < 2 ^ 56

def peerIsChannel (id : PeerId) : Bool := id.val / 2 ^ 48 % 256 = 2

namespace SessionData

/-- `trackSession` -/
def track (downloaded : List DownloadedId) : SessionData where
  downloaded := downloaded
  resolveNeeded := downloaded.length

section Resolving

variable (outside : Outside)

/-! ## Resolving -/

def generateEntry (id : DownloadedId) : DownloadedId := { id with object := some (outside.generateFakeItem id) }

/-- An entry of a batch that was answered. -/
def resolved (id : DownloadedId) : DownloadedId :=
  match outside.message id.itemId with
  | none => generateEntry outside id
  | some item =>
      if id.download.type = .document ∧ item.document ≠ some id.download.objectId then generateEntry outside id
      else if id.download.type = .photo ∧ item.photo ≠ some id.download.objectId then generateEntry outside id
      else { id with object := some item }

/-- The loop of `resolveRequestsFinished`, for so many entries of the batch. -/
def resolveBatch : Nat → SessionData → Option SessionData
  | 0, d => some d
  | count + 1, d =>
      let needed := d.resolveNeeded - 1
      if needed < 0 then none
      else
        match d.downloaded[needed.toNat]? with
        | none => none
        | some id =>
            let downloaded :=
              if id.path = [] then d.downloaded.eraseIdx needed.toNat
              else d.downloaded.set needed.toNat (resolved outside id)
            resolveBatch count
              { d with downloaded := downloaded, resolveNeeded := needed, resolveSentTotal := d.resolveSentTotal - 1 }

def resolveRequestsFinished (d : SessionData) : Option SessionData := do
  let d ← resolveBatch outside d.resolveSentTotal.toNat d
  some { d with posted := d.posted + 1 }

def checkFullResolveDone (d : SessionData) : SessionData :=
  if d.loadedResolveDone ∨ d.resolveSentTotal < d.resolveNeeded ∨ d.resolveSentRequests > 0 then d
  else { d with loadedResolveDone := true }

def check (d : SessionData) : Option SessionData :=
  if d.resolveSentRequests = 0 then d.resolveRequestsFinished outside else some d

/-- The request that the message of an entry becomes a part of. -/
def prepare (prepared : SortedMap PeerId Prepared) (id : DownloadedId) : SortedMap PeerId Prepared :=
  let channel := peerIsChannel id.itemId.peer
  let groupByPeer := if channel then id.itemId.peer else outside.userPeerId
  let perPeer := (prepared.find? groupByPeer).getD {}
  let peerAccessHash := if channel ∧ perPeer.peerAccessHash = 0 then id.peerAccessHash else perPeer.peerAccessHash
  prepared.set groupByPeer ⟨peerAccessHash, perPeer.ids ++ [id.itemId.msg.toInt32]⟩

/-- The loop of `resolve`, before an entry. -/
def resolveFrom : Nat → List DownloadedId → Int → SortedMap PeerId Prepared →
    Option (List DownloadedId × Int × SortedMap PeerId Prepared)
  | 0, downloaded, sent, prepared => some (downloaded, sent, prepared)
  | i + 1, downloaded, sent, prepared =>
      match downloaded[i]? with
      | none => none
      | some id =>
          let gone := decide (outside.fileSize id.path ≠ some id.size)
          let downloaded := if gone then downloaded.set i { id with path := [] } else downloaded
          let prepared :=
            if !gone && (outside.message id.itemId).isNone && IsServerMsgId id.itemId.msg then
              prepare outside prepared id
            else prepared
          if sent + 1 ≥ kMaxResolvePerAttempt then some (downloaded, sent + 1, prepared)
          else resolveFrom i downloaded (sent + 1) prepared

def resolveSome (d : SessionData) : Option SessionData :=
  if d.resolveSentTotal ≥ d.resolveNeeded ∨ d.resolveSentTotal ≥ kMaxResolvePerAttempt then some d
  else do
    let (downloaded, sent, prepared) ←
      resolveFrom outside (d.resolveNeeded - d.resolveSentTotal).toNat d.downloaded d.resolveSentTotal .empty
    check outside
      { d with
        downloaded := downloaded
        resolveSentTotal := sent
        resolveSentRequests := d.resolveSentRequests + prepared.size
        inFlight := d.inFlight ++ prepared.entries }

def resolve (d : SessionData) : Option SessionData := do
  let d ← d.resolveSome outside
  some d.checkFullResolveDone

/-- A request is answered, or failed. -/
def requestFinished (index : Nat) (d : SessionData) : Option SessionData :=
  check outside
    { d with resolveSentRequests := d.resolveSentRequests - 1, inFlight := d.inFlight.eraseIdx index }

end Resolving

/-! ## Changes of the list -/

/-- A file of at least a byte, and not larger than allowed, is added. -/
def addLoaded (outside : Outside) (d : SessionData) (object : DownloadObject) (path : QString) (started : Int64)
    (itemId : FullMsgId) (peerAccessHash : UInt64) : SessionData :=
  let size := (outside.fileSize path).getD 0
  if size = 0 ∨ size > kMaxFileSize then d
  else
    let download :=
      match object.document with
      | some document => ⟨document, .document⟩
      | none => ⟨object.photo.getD 0, .photo⟩
    { d with
      downloaded := d.downloaded ++
        [{ download := download, started := started, path := path, size := size, itemId := itemId
           peerAccessHash := peerAccessHash, object := some object }] }

/-- The entry with the item is removed. -/
def deleteFile (d : SessionData) (item : Nat) : SessionData :=
  match d.downloaded.findIdx? fun id => id.object.any fun object => object.item = item with
  | none => d
  | some k => { d with downloaded := d.downloaded.eraseIdx k }

def deleteFiles (d : SessionData) (items : List Nat) : SessionData := items.foldl deleteFile d

def deleteAll (d : SessionData) : SessionData := { d with downloaded := [] }

end SessionData

/-! ## Runs -/

/-- What happens to the downloads of a session. A path is a `QString`, and has a length that fits. -/
inductive Event where
  | loadedList (outside : Outside)
  | answered (outside : Outside) (index : Nat)
  | onMain (outside : Outside)
  | addLoaded (outside : Outside) (object : DownloadObject) (path : QString) (started : Int64) (itemId : FullMsgId)
      (peerAccessHash : UInt64) (fits : path.length < 2 ^ 31)
  | deleteFiles (items : List Nat)
  | deleteAll

/-- Only a request in flight is answered, and only a posted resolve is run. -/
def step (d : SessionData) : Event → Option SessionData
  | .loadedList outside => d.resolve outside
  | .answered outside index => if index < d.inFlight.length then d.requestFinished outside index else some d
  | .onMain outside => if 0 < d.posted then { d with posted := d.posted - 1 }.resolve outside else some d
  | .addLoaded outside object path started itemId peerAccessHash _ =>
      some (d.addLoaded outside object path started itemId peerAccessHash)
  | .deleteFiles items => some (d.deleteFiles items)
  | .deleteAll => some d.deleteAll

def next (d : Option SessionData) (event : Event) : Option SessionData := d.bind fun d => step d event

def run (saved : List DownloadedId) (events : List Event) : Option SessionData :=
  events.foldl next (some (.track saved))

end IMeDesktop.Data.Downloads
