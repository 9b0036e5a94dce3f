import IMeDesktop.Data.DownloadManager
import IMeDesktop.Lib.FlatSet

/-! # What is being downloaded

The manager watches documents that are being downloaded, for each message from which that was asked. For a while it
keeps an entry that is done. Beside the entries it keeps which messages and which documents they are about, and how much
is downloaded of how much. A download that is done goes to another list of the session, where a message that is destroyed
is replaced by one that is generated.

Sessions, messages, documents and photos are told apart by their addresses. Sizes and dates are integers. Left out are
who listens to the changes, what is written down, how the files are deleted, how saved downloads are resolved, and that
hidden entries are shown when a message leaves the view.

Cancelling a document makes it tell at once that it has changed, which the manager listens to. So a function that
cancels documents one after another is several steps here, and anything may happen between them.
-/

namespace IMeDesktop.Data.Loading

open Lib Ui Downloads

abbrev Session := Nat
abbrev HistoryItem := Nat
abbrev DocumentData := Nat
abbrev PhotoData := Nat

/-! ## Iterators -/

/-- `ranges::find`: the place of an element, and the element there. -/
def find {α : Type} (l : List α) (p : α → Bool) : Option (Nat × α) := (l.findIdx? p).bind fun i => l[i]?.map (i, ·)

theorem find_some {α : Type} {l : List α} {p : α → Bool} {i : Nat} {a : α} (found : find l p = some (i, a)) :
    l[i]? = some a ∧ p a = true := by
  obtain ⟨j, first, there⟩ := Option.bind_eq_some_iff.mp found
  obtain ⟨b, here, same⟩ := Option.map_eq_some_iff.mp there
  obtain ⟨rfl, rfl⟩ := Prod.mk.inj same
  obtain ⟨inside, holds, -⟩ := List.findIdx?_eq_some_iff_getElem.mp first
  obtain ⟨_, element⟩ := List.getElem?_eq_some_iff.mp here
  exact ⟨here, element ▸ holds⟩

theorem find_none {α : Type} {l : List α} {p : α → Bool} : find l p = none ↔ ∀ a ∈ l, p a = false := by
  unfold find
  cases first : l.findIdx? p with
  | none => simpa using List.findIdx?_eq_none_iff.mp first
  | some i =>
      obtain ⟨inside, holds, -⟩ := List.findIdx?_eq_some_iff_getElem.mp first
      have there : (Option.some i).bind (fun i => l[i]?.map (i, ·)) = some (i, l[i]) := by simp [inside]
      rw [there]
      constructor
      · nofun
      · intro nothing
        simp [nothing l[i] (List.getElem_mem inside)] at holds

/-! ## The data -/

structure WebPage where
  document : Option DocumentData := none
  photo : Option PhotoData := none
  deriving DecidableEq, Repr

/-- The media of a message. -/
structure Media where
  webpage : Option WebPage := none
  document : Option DocumentData := none
  photo : Option PhotoData := none
  deriving DecidableEq, Repr

structure DownloadObject where
  item : HistoryItem
  document : Option DocumentData := none
  photo : Option PhotoData := none
  deriving DecidableEq, Repr

structure DownloadedId where
  download : DownloadId
  started : Int
  path : QString
  size : Int
  itemId : Downloads.FullMsgId
  peerAccessHash : UInt64
  object : Option DownloadObject := none
  deriving DecidableEq, Repr

structure DownloadingId where
  object : DownloadObject
  started : Int
  path : QString
  ready : Int := 0
  total : Int
  hiddenByView : Bool := false
  done : Bool := false
  deriving DecidableEq, Repr

structure DownloadProgress where
  ready : Int := 0
  total : Int := 0
  deriving DecidableEq, Repr

structure SessionData where
  downloaded : List DownloadedId := []
  downloading : List DownloadingId := []
  deriving DecidableEq, Repr

structure DownloadManager where
  sessions : SortedMap Session SessionData := .empty
  loading : FlatSet HistoryItem := .empty
  loadingDocuments : FlatSet DocumentData := .empty
  loadingDone : FlatSet HistoryItem := .empty
  loaded : FlatSet HistoryItem := .empty
  generated : FlatSet HistoryItem := .empty
  generatedDocuments : FlatSet DocumentData := .empty
  lastStartedBase : Int := 0
  lastStartedAdded : Int := 0
  loadingProgress : DownloadProgress := {}
  clearLoadingTimer : Bool := false

/-- What the code relies on, apart from the assertions that are checked together. -/
inductive Failure where
  /-- A session that is not tracked. -/
  | sessionData
  /-- `addLoading` without a document, or `addLoaded` without a document and a photo. -/
  | object
  /-- An entry that is being downloaded is not there, or has no document. -/
  | downloading
  /-- An entry that was downloaded is not there, or has no object. -/
  | downloaded
  /-- A message that is to be replaced was generated itself. -/
  | generated
  | clearLoading
  deriving DecidableEq, Repr

/-! ## What is outside -/

/-- The sessions that messages and documents belong to. -/
structure World where
  itemSession : HistoryItem → Session
  documentSession : DocumentData → Session

/-- What the manager reads. `makeMessage` is the message that is generated next. -/
structure Outside where
  media : HistoryItem → Option Media := fun _ => none
  fullId : HistoryItem → Downloads.FullMsgId := fun _ => ⟨0, 0⟩
  peerAccessHash : HistoryItem → UInt64 := fun _ => 0
  queryItemVisibility : HistoryItem → Bool := fun _ => false
  makeMessage : HistoryItem := 0
  documentId : DocumentData → UInt64 := fun _ => 0
  size : DocumentData → Int := fun _ => 0
  loading : DocumentData → Bool := fun _ => false
  loadOffset : DocumentData → Int := fun _ => 0
  loadingFilePath : DocumentData → QString := fun _ => []
  filepath : DocumentData → QString := fun _ => []
  photoId : PhotoData → UInt64 := fun _ => 0
  fileSize : QString → Int := fun _ => 0
  now : Int := 0

namespace Outside

def ItemPhoto (o : Outside) (item : HistoryItem) : Option PhotoData :=
  (o.media item).bind fun media =>
    match media.webpage with
    | some page => if page.document.isSome then none else page.photo
    | none => media.photo

def ItemDocument (o : Outside) (item : HistoryItem) : Option DocumentData :=
  (o.media item).bind fun media =>
    match media.webpage with
    | some page => page.document
    | none => media.document

/-- The message does not show any more what was downloaded. -/
def replaced (o : Outside) (item : HistoryItem) (object : DownloadObject) : Bool :=
  let photo := (o.media item).bind (·.photo)
  let document := (o.media item).bind (·.document)
  object.photo ≠ photo || object.document ≠ document

end Outside

def removeDocument (documents : FlatSet DocumentData) : Option DocumentData → FlatSet DocumentData
  | none => documents
  | some document => documents.remove document

theorem mem_removeDocument {documents : FlatSet DocumentData} {removed : Option DocumentData}
    {document : DocumentData} :
    document ∈ removeDocument documents removed ↔ document ∈ documents ∧ removed ≠ some document := by
  cases removed with
  | none => simp [removeDocument]
  | some other => simp [removeDocument, FlatSet.mem_remove, eq_comm]

/-- `ByItem`. -/
def DownloadingId.by (item : HistoryItem) (entry : DownloadingId) : Bool := entry.object.item = item

/-- `ByDocument`. -/
def DownloadingId.byDocument (document : DocumentData) (entry : DownloadingId) : Bool :=
  entry.object.document = some document

/-- `ByItem`. -/
def DownloadedId.by (item : HistoryItem) (id : DownloadedId) : Bool := id.object.map (·.item) = some item

namespace DownloadManager

variable (w : World) (o : Outside) (m : DownloadManager)

def sessionData (session : Session) : Except Failure SessionData :=
  match m.sessions.find? session with
  | none => .error .sessionData
  | some data => .ok data

def setData (session : Session) (data : SessionData) : DownloadManager :=
  { m with sessions := m.sessions.set session data }

/-! ## What is downloading -/

def computeNextStartDate : Int × DownloadManager :=
  let base := if m.lastStartedBase ≠ o.now then o.now else m.lastStartedBase
  let added := if m.lastStartedBase ≠ o.now then 0 else m.lastStartedAdded + 1
  (base * 1000 + added, { m with lastStartedBase := base, lastStartedAdded := added })

/-- Also `cancel`, which cancels the document afterwards. -/
def remove (session : Session) (data : SessionData) (i : Nat) (entry : DownloadingId) : DownloadManager :=
  let m : DownloadManager :=
    { m.setData session { data with downloading := data.downloading.eraseIdx i } with
      loading := m.loading.remove entry.object.item
      loadingDone := m.loadingDone.remove entry.object.item
      loadingDocuments := removeDocument m.loadingDocuments entry.object.document
      loadingProgress :=
        { ready := m.loadingProgress.ready - entry.ready, total := m.loadingProgress.total - entry.total } }
  if m.loading.items = [] ∧ m.loadingDone.items ≠ [] then { m with clearLoadingTimer := true } else m

/-- An entry whose document is downloaded. -/
def finishedId (document : DocumentData) (entry : DownloadingId) : DownloadingId :=
  let totalChange := o.size document - entry.total
  let readyChange := o.size document - entry.ready
  { entry with ready := entry.ready + readyChange, total := entry.total + totalChange, done := true }

def markDone (session : Session) (data : SessionData) (i : Nat) (entry : DownloadingId) (document : DocumentData) :
    DownloadManager :=
  let totalChange := o.size document - entry.total
  let readyChange := o.size document - entry.ready
  let m : DownloadManager :=
    { m.setData session { data with downloading := data.downloading.set i (finishedId o document entry) } with
      loadingDocuments := m.loadingDocuments.remove document
      loading := m.loading.remove entry.object.item
      loadingDone := m.loadingDone.insert entry.object.item
      loadingProgress :=
        { ready := m.loadingProgress.ready + readyChange, total := m.loadingProgress.total + totalChange } }
  if m.loading.items = [] then { m with clearLoadingTimer := true } else m

/-- The part of `addLoaded` about an entry that was being downloaded. -/
def finishLoading (session : Session) (data : SessionData) (i : Nat) (entry : DownloadingId) :
    Except Failure DownloadManager :=
  if entry.object.item ∉ m.loading then
    .ok { m with loadingDocuments := removeDocument m.loadingDocuments entry.object.document }
  else
    match entry.object.document with
    | none => .error .downloading
    | some document => .ok (m.markDone o session data i entry document)

/-- The entry of a download that is done. -/
def downloadedId (object : DownloadObject) (path : QString) (started : Int) : DownloadedId :=
  { download :=
      match object.document with
      | some document => ⟨o.documentId document, .document⟩
      | none => ⟨(object.photo.map o.photoId).getD 0, .photo⟩
    started := started
    path := path
    size := o.fileSize path
    itemId := o.fullId object.item
    peerAccessHash := o.peerAccessHash object.item
    object := some object }

/-- The part of `addLoaded` about what is downloaded. -/
def pushLoaded (session : Session) (data : SessionData) (object : DownloadObject) (path : QString) (started : Int) :
    DownloadManager :=
  { m.setData session { data with downloaded := data.downloaded ++ [downloadedId o object path started] } with
    loaded := m.loaded.insert object.item }

def addLoaded (object : DownloadObject) (path : QString) (started : Int) : Except Failure DownloadManager :=
  if object.document = none ∧ object.photo = none then .error .object
  else if o.fileSize path ≤ 0 ∨ o.fileSize path > kMaxFileSize then .ok m
  else do
    let session := w.itemSession object.item
    let data ← m.sessionData session
    let m := m.pushLoaded o session data object path started
    let data ← m.sessionData session
    match find data.downloading (DownloadingId.by object.item) with
    | none => .ok m
    | some (i, entry) => m.finishLoading o session data i entry

/-- An entry that is downloaded further. -/
def progress (session : Session) (data : SessionData) (i : Nat) (entry : DownloadingId)
    (readyChange totalChange : Int) : DownloadManager :=
  let moved := { entry with ready := entry.ready + readyChange, total := entry.total + totalChange }
  { m.setData session { data with downloading := data.downloading.set i moved } with
    loadingProgress :=
      { ready := m.loadingProgress.ready + readyChange, total := m.loadingProgress.total + totalChange } }

/-- `check` with an iterator. -/
def check (session : Session) (data : SessionData) (i : Nat) (entry : DownloadingId) :
    Except Failure DownloadManager :=
  let photo := o.ItemPhoto entry.object.item
  let document := o.ItemDocument entry.object.item
  if entry.object.photo ≠ photo ∨ entry.object.document ≠ document then .ok (m.remove session data i entry)
  else
    match document with
    | none => .error .downloading
    | some document =>
        let path := o.filepath document
        if path ≠ [] then
          if entry.object.item ∈ m.loading then m.addLoaded w o entry.object path entry.started else .ok m
        else if o.loading document = false then .ok (m.remove session data i entry)
        else
          let totalChange := o.size document - entry.total
          let readyChange := o.loadOffset document - entry.ready
          if readyChange = 0 ∧ totalChange = 0 then .ok m
          else .ok (m.progress session data i entry readyChange totalChange)

def checkItem (item : HistoryItem) : Except Failure DownloadManager := do
  let session := w.itemSession item
  let data ← m.sessionData session
  match find data.downloading (DownloadingId.by item) with
  | none => .error .downloading
  | some (i, entry) => m.check w o session data i entry

def checkDocument (document : DocumentData) : Except Failure DownloadManager := do
  let session := w.documentSession document
  let data ← m.sessionData session
  match find data.downloading (DownloadingId.byDocument document) with
  | none => .error .downloading
  | some (i, entry) => m.check w o session data i entry

/-- A new entry. If the entries of the session are not shown, it is hidden when the message is in view. -/
def downloadingId (data : SessionData) (object : DownloadObject) (document : DocumentData) (started : Int) :
    DownloadingId :=
  let shownExists := data.downloading.head?.any fun entry => !entry.hiddenByView
  { object := object
    started := started
    path := o.loadingFilePath document
    total := o.size document
    hiddenByView := !shownExists && o.queryItemVisibility object.item }

def pushLoading (session : Session) (data : SessionData) (object : DownloadObject) (document : DocumentData) :
    DownloadManager :=
  let next := m.computeNextStartDate o
  let entry := downloadingId o data object document next.1
  { next.2.setData session { data with downloading := data.downloading ++ [entry] } with
    loading := m.loading.insert object.item
    loadingDocuments := m.loadingDocuments.insert document
    loadingProgress := { m.loadingProgress with total := m.loadingProgress.total + o.size document }
    clearLoadingTimer := false }

/-- The part of `addLoading` about a message that has no entry. -/
def startLoading (object : DownloadObject) (document : DocumentData) : Except Failure DownloadManager :=
  if o.loadingFilePath document = [] then .ok m
  else do
    let session := w.itemSession object.item
    let data ← m.sessionData session
    (m.pushLoading o session data object document).checkItem w o object.item

def addLoading (object : DownloadObject) : Except Failure DownloadManager :=
  match object.document with
  | none => .error .object
  | some document => do
      let session := w.itemSession object.item
      let data ← m.sessionData session
      match find data.downloading (DownloadingId.by object.item) with
      | none => m.startLoading w o object document
      | some (i, already) =>
          if already.object.document = object.document ∧ already.object.photo = object.photo then
            m.checkItem w o object.item
          else (m.remove session data i already).startLoading w o object document

/-- One round of a loop that removes or cancels the entries of a session from the last one on. -/
def removeLast (session : Session) : DownloadManager :=
  match m.sessions.find? session with
  | none => m
  | some data =>
      match data.downloading.getLast? with
      | none => m
      | some entry => m.remove session data (data.downloading.length - 1) entry

/-- Such a loop, where nothing happens between the rounds. -/
def removeAll (session : Session) : DownloadManager :=
  (fun m => m.removeLast session)^[((m.sessions.find? session).map (·.downloading.length)).getD 0] m

def clearLoading : Except Failure DownloadManager :=
  if m.loading.items ≠ [] then .error .clearLoading
  else .ok (m.sessions.entries.foldl (fun m e => m.removeAll e.1) m)

/-- The timer fires once. Also `clearIfFinished`. -/
def timerFires : Except Failure DownloadManager :=
  if m.clearLoadingTimer then { m with clearLoadingTimer := false }.clearLoading else .ok m

/-! ## What is downloaded -/

def generateItem (document : Option DocumentData) (photo : Option PhotoData) :
    Except Failure (HistoryItem × DownloadManager) :=
  if document = none ∧ photo = none then .error .object
  else .ok (o.makeMessage, { m with generated := m.generated.insert o.makeMessage })

def detach (session : Session) (data : SessionData) (i : Nat) (id : DownloadedId) : Except Failure DownloadManager :=
  match id.object with
  | none => .error .downloaded
  | some object =>
      if object.item ∉ m.loaded then .error .downloaded
      else if object.item ∈ m.generated then .error .generated
      else do
        let (now, m) ← m.generateItem o object.document object.photo
        let detached := { id with object := some { object with item := now } }
        .ok
          { m.setData session { data with downloaded := data.downloaded.set i detached } with
            loaded := (m.loaded.remove object.item).insert now }

/-- The first half of `changed` and of `removed`: a download that the message is about, if it `leaves`, is detached. -/
def detachLoaded (leaves : DownloadObject → Bool) (item : HistoryItem) : Except Failure DownloadManager :=
  if item ∉ m.loaded then .ok m
  else do
    let session := w.itemSession item
    let data ← m.sessionData session
    match find data.downloaded (DownloadedId.by item) with
    | none => .error .downloaded
    | some (i, id) => if id.object.any leaves then m.detach o session data i id else .ok m

def changed (item : HistoryItem) : Except Failure DownloadManager := do
  let m ← m.detachLoaded w o (o.replaced item) item
  if item ∈ m.loading ∨ item ∈ m.loadingDone then m.checkItem w o item else .ok m

def removed (item : HistoryItem) : Except Failure DownloadManager := do
  let m ← m.detachLoaded w o (fun _ => true) item
  if item ∈ m.loading ∨ item ∈ m.loadingDone then
    let session := w.itemSession item
    let data ← m.sessionData session
    match find data.downloading (DownloadingId.by item) with
    | none => .error .downloading
    | some (i, entry) => .ok (m.remove session data i entry)
  else .ok m

/-- The messages of downloads are forgotten. -/
def forget (downloaded : List DownloadedId) : DownloadManager :=
  downloaded.foldl (fun m id =>
    match id.object with
    | none => m
    | some object =>
        { m with
          loaded := m.loaded.remove object.item
          generated := m.generated.remove object.item
          generatedDocuments := removeDocument m.generatedDocuments object.document }) m

/-- What `deleteFiles` does with one message, before its document is cancelled. -/
def deleteLoading (item : HistoryItem) : DownloadManager :=
  let session := w.itemSession item
  match m.sessions.find? session with
  | none => m
  | some data =>
      match find data.downloading (DownloadingId.by item) with
      | none => m
      | some (i, entry) => m.remove session data i entry

/-- What `deleteFiles` does with one message afterwards. -/
def deleteLoaded (item : HistoryItem) : DownloadManager :=
  let session := w.itemSession item
  match m.sessions.find? session with
  | none => m
  | some data =>
      match find data.downloaded (DownloadedId.by item) with
      | none => m
      | some (i, id) =>
          (m.forget [id]).setData session { data with downloaded := data.downloaded.eraseIdx i }

/-- What `deleteAll` does with one session, when nothing is being downloaded there any more. -/
def takeDownloaded (session : Session) : DownloadManager :=
  match m.sessions.find? session with
  | none => m
  | some data => (m.setData session { data with downloaded := [] }).forget data.downloaded

/-! ## Sessions -/

def trackSession (session : Session) (saved : List DownloadedId) : DownloadManager :=
  m.setData session { (m.sessions.find? session).getD {} with downloaded := saved }

def untrack (session : Session) : Except Failure DownloadManager := do
  let data ← m.sessionData session
  let m := (m.forget data.downloaded).removeAll session
  .ok { m with sessions := m.sessions.erase session }

end DownloadManager

/-! ## Steps -/

/-- `loadingStop` is a number of times `cancelLast`, `deleteAll` is that and then `takeDownloaded`, for one session
after another, and `deleteFiles` is `deleteLoading` and then `deleteLoaded`, for one message after another. -/
inductive Step where
  | trackSession (session : Session) (saved : List DownloadedId)
  | untrack (session : Session)
  | addLoading (object : DownloadObject)
  | addLoaded (object : DownloadObject) (path : QString) (started : Int)
  | documentLoadProgress (document : DocumentData)
  | itemLayoutChanged (item : HistoryItem)
  | changed (item : HistoryItem)
  | removed (item : HistoryItem)
  | deleteLoading (item : HistoryItem)
  | deleteLoaded (item : HistoryItem)
  | cancelLast (session : Session)
  | takeDownloaded (session : Session)
  | timerFires
  deriving DecidableEq, Repr

namespace DownloadManager

/-- What is listened to goes through the filters of `trackSession`. -/
def step (w : World) (o : Outside) (m : DownloadManager) : Step → Except Failure DownloadManager
  | .trackSession session saved => .ok (m.trackSession session saved)
  | .untrack session => m.untrack session
  | .addLoading object => m.addLoading w o object
  | .addLoaded object path started => m.addLoaded w o object path started
  | .documentLoadProgress document => if document ∈ m.loadingDocuments then m.checkDocument w o document else .ok m
  | .itemLayoutChanged item => if item ∈ m.loading then m.checkItem w o item else .ok m
  | .changed item => m.changed w o item
  | .removed item => m.removed w o item
  | .deleteLoading item => .ok (m.deleteLoading w item)
  | .deleteLoaded item => .ok (m.deleteLoaded w item)
  | .cancelLast session => .ok (m.removeLast session)
  | .takeDownloaded session => .ok (m.takeDownloaded session)
  | .timerFires => m.timerFires

/-- The step with what is outside when it is made. Nothing comes after a failure. -/
def advance (w : World) (s : Except Failure DownloadManager) (e : Outside × Step) : Except Failure DownloadManager :=
  s.bind fun m => m.step w e.1 e.2

end DownloadManager

end IMeDesktop.Data.Loading
