import IMeDesktop.Lib.SortedMap

/-! # Requests about the history of a chat

`Data::Histories` sends requests about chats: parts of the history, read positions and deletions.
A deletion calls back the history requests that are in flight and postpones new ones till it
finishes; an entry of the dialogs list that a deletion or a read position overtakes is asked for
again. What is modelled is what there is about one chat: its `State`, its entries of the maps and
its requests. Other chats share the counters and the posted calls, which are events here.

What the loaded messages of the chat say and what handlers of the session call in turn comes with
an event. An assertion that fails is written down; what is done after it does not count.
-/

namespace IMeDesktop.Data

open Lib

namespace Histories

abbrev MsgId := Int

def serverMaxMsgId : MsgId := 2 ^ 56

def isServerMsgId (id : MsgId) : Prop := 0 < id ∧ id < serverMaxMsgId

instance (id : MsgId) : Decidable (isServerMsgId id) := inferInstanceAs (Decidable (_ ∧ _))

def kReadRequestTimeout : Nat := 3000

/-- Requests of type `Send` are not made here. -/
inductive RequestType where
  | history
  | readInbox
  | delete
  deriving DecidableEq, Repr

inductive PeerKind where
  | user
  | chat
  | channel
  deriving DecidableEq, Repr

structure Peer where
  kind : PeerKind
  amCreator : Bool := false
  canDelete : Bool := false
  deriving DecidableEq, Repr

/-- The functions given to `sendRequest`, with what they captured. -/
inductive Generator where
  | fakeChatListMessage
  | groupAround (aroundId : MsgId)
  | readInbox (tillId : MsgId)
  | deleteMessages (ids : List MsgId) (revoke : Bool)
  | deleteAllMessages (deleteTillId : MsgId) (justClear revoke : Bool)
  | deleteMessagesByDates (minDate maxDate : Int) (revoke : Bool)
  deriving DecidableEq, Repr

/-- API requests by their method. -/
inductive Method where
  | getHistory (offsetId addOffset limit : Int)
  | channelsReadHistory (tillId : MsgId)
  | messagesReadHistory (tillId : MsgId)
  | channelsDeleteMessages (ids : List MsgId)
  | messagesDeleteMessages (revoke : Bool) (ids : List MsgId)
  | deleteChannel
  | channelsDeleteHistory (forEveryone : Bool) (deleteTillId : MsgId)
  | deleteChat
  | messagesDeleteHistory (justClear revoke : Bool) (dates : Option (Int × Int))
  deriving DecidableEq, Repr

namespace Generator

def type : Generator → RequestType
  | .fakeChatListMessage => .history
  | .groupAround _ => .history
  | .readInbox _ => .readInbox
  | .deleteMessages .. => .delete
  | .deleteAllMessages .. => .delete
  | .deleteMessagesByDates .. => .delete

/-- `kMaxAlbumCount`. -/
def kMaxAlbumCount : Int := 10

def method (peer : Peer) : Generator → Method
  | .fakeChatListMessage => .getHistory 0 0 2
  | .groupAround aroundId => .getHistory aroundId (-kMaxAlbumCount) (2 * kMaxAlbumCount - 1)
  | .readInbox tillId =>
      if peer.kind = .channel then .channelsReadHistory tillId else .messagesReadHistory tillId
  | .deleteMessages ids revoke =>
      if peer.kind = .channel then .channelsDeleteMessages ids else .messagesDeleteMessages revoke ids
  | .deleteAllMessages deleteTillId justClear revoke =>
      if !justClear && revoke && decide (peer.kind = .channel) && peer.canDelete then .deleteChannel
      else if peer.kind = .channel then .channelsDeleteHistory revoke deleteTillId
      else if revoke && decide (peer.kind = .chat) && peer.amCreator then .deleteChat
      else .messagesDeleteHistory justClear revoke none
  | .deleteMessagesByDates minDate maxDate revoke => .messagesDeleteHistory true revoke (some (minDate, maxDate))

end Generator

structure SentRequest where
  generator : Generator
  id : Nat
  type : RequestType
  deriving DecidableEq, Repr

structure State where
  postponed : SortedMap Nat Generator := .empty
  sent : SortedMap Nat SentRequest := .empty
  willReadTill : MsgId := 0
  sentReadTill : MsgId := 0
  willReadWhen : Nat := 0
  sentReadDone : Bool := false
  postponedRequestEntry : Bool := false

/-- What waits for the answer of an API request. -/
inductive Handler where
  | request (id : Nat) (generator : Generator) (method : Method)
  /-- Joined again, to delete for those who are not in the chat. -/
  | addSelf (deleteTillId : MsgId) (justClear revoke : Bool)
  deriving DecidableEq, Repr

/-- A request of dialog entries that asks for this chat, and whether a deletion or a read position
    of the chat was in flight since it was sent. -/
structure EntryRequest where
  id : Nat
  overtaken : Bool := false
  deriving DecidableEq, Repr

structure ChatListGroupRequest where
  aroundId : MsgId
  requestId : Nat
  deriving DecidableEq, Repr

inductive Assertion where
  /-- `Expects(state.willReadTill > state.sentReadTill)`. -/
  | willReadTill
  /-- `Assert(state != nullptr)`. -/
  | stateLost
  /-- `Assert(!state->sentReadTill || state->sentReadTill > tillId)`. -/
  | sentReadTill
  /-- `Assert(i != end(_dialogRequests))`. -/
  | entryLost
  /-- `Assert(ok)` after the entry was moved to `_dialogRequestsPending`. -/
  | entryPending
  deriving DecidableEq, Repr

/-- Callbacks are numbered as they are registered. -/
abbrev Callback := Nat

end Histories

open Histories

structure Histories where
  now : Nat := 0
  peer : Peer
  /-- `_states.find(history)`. -/
  state : Option State := none
  /-- The ids of `_historyByRequest` that stand for this chat. -/
  historyByRequest : List Nat := []
  requestAutoincrement : Nat := 0
  dialogRequests : Option (List Callback) := none
  dialogRequestsPending : Option (List Callback) := none
  /-- A call of `sendDialogRequests` is posted. -/
  posted : Bool := false
  fakeChatListRequest : Bool := false
  chatListGroupRequest : Option ChatListGroupRequest := none
  /-- API requests in flight. -/
  flights : SortedMap Nat Handler := .empty
  entryRequests : List EntryRequest := []
  nextApi : Nat := 1
  /-- `History::_inboxReadBefore` and `_unreadCount`. -/
  inboxReadBefore : Option Histories.MsgId := none
  unreadCount : Option Int := none
  /-- Read positions as they were sent. -/
  readSent : List Histories.MsgId := []
  /-- How many callbacks were registered, and those that were run, each with whether no deletion and
      no read position of the chat was in flight during the flight of the entry. -/
  registered : Nat := 0
  ran : List (Callback × Bool) := []
  /-- States that were erased. -/
  erased : List State := []
  broken : List Assertion := []

namespace Histories

/-- What the loaded messages of the chat say. -/
structure Loaded where
  stillUnread : Option Int := none
  trackUnreadMessages : Bool := true
  lastServerMessage : Option MsgId := none
  msgIdForRead : MsgId := 0
  lastOutgoing : Bool := false
  folderKnown : Bool := true
  clientSideUnread : Nat := 0
  deriving DecidableEq, Repr

/-- `postponeHistoryRequest`. -/
def State.postponeHistoryRequest (s : State) : Bool := s.sent.entries.any (·.2.type = .delete)

/-- `postponeEntryRequest`. -/
def State.postponeEntryRequest (s : State) : Bool := s.sent.entries.any (·.2.type ≠ .history)

/-- An entry that was asked for is postponed. -/
def State.postponeEntry (s : State) (asked : Bool) : State :=
  if !s.postponedRequestEntry && s.postponeEntryRequest && asked then { s with postponedRequestEntry := true } else s

def State.isEmpty (s : State) : Bool :=
  s.postponed.isEmpty && !s.postponedRequestEntry && s.sent.isEmpty && decide (s.willReadTill = 0) &&
    decide (s.sentReadTill = 0)

/-- `_states[history]`. -/
def entry (h : Histories) : State := h.state.getD {}

def assert (h : Histories) (holds : Bool) (assertion : Assertion) : Histories :=
  if holds then h else { h with broken := h.broken ++ [assertion] }

def checkEmptyState (h : Histories) : Histories :=
  match h.state with
  | some s => if s.isEmpty then { h with state := none, erased := h.erased ++ [s] } else h
  | none => h

/-! ## Requests -/

/-- A generator sends its API request. -/
def generate (h : Histories) (id : Nat) (generator : Generator) : Histories :=
  { h with flights := h.flights.emplace h.nextApi (.request id generator (generator.method h.peer))
           nextApi := h.nextApi + 1
           readSent := match generator with
            | .readInbox tillId => h.readSent ++ [tillId]
            | _ => h.readSent }

def cancelApi (h : Histories) (id : Nat) : Histories := { h with flights := h.flights.erase id }

/-- Entries in flight are overtaken. -/
def overtake (h : Histories) : Histories :=
  { h with entryRequests := h.entryRequests.map ({ · with overtaken := true }) }

/-- A history request in flight is called back and postponed. -/
def resendHistoryRequest (h : Histories) (pair : Nat × SentRequest) : Histories :=
  if pair.2.type ≠ .history then h
  else
    let s := h.entry
    { h with state := some { s with postponed := s.postponed.emplace pair.1 pair.2.generator
                                    sent := s.sent.erase pair.1 } }.cancelApi pair.2.id

/-- The request is sent and put in `sent`; an entry that was asked for is postponed if it has to. -/
def sendNow (h : Histories) (id : Nat) (generator : Generator) : Histories :=
  let s := { h.entry with sent := h.entry.sent.emplace id ⟨generator, h.nextApi, generator.type⟩ }
  let s := s.postponeEntry h.dialogRequests.isSome
  let h := h.generate id generator
  let h := if generator.type ≠ .history then h.overtake else h
  { h with state := some s }

/-- A deletion calls the history requests back. -/
def resendHistoryRequests (h : Histories) : Histories :=
  if h.entry.postponeHistoryRequest then h.entry.sent.entries.foldl resendHistoryRequest h else h

def sendRequest (h : Histories) (generator : Generator) : Histories :=
  let id := h.requestAutoincrement + 1
  let s := h.entry
  let h := { h with requestAutoincrement := id, historyByRequest := h.historyByRequest ++ [id] }
  if generator.type = .history ∧ s.postponeHistoryRequest then
    { h with state := some { s with postponed := s.postponed.emplace id generator } }
  else (h.sendNow id generator).resendHistoryRequests

/-- A call of `sendDialogRequests` is posted, now or before for another chat. -/
def postponeRequestDialogEntries (h : Histories) : Histories := { h with posted := true }

/-- A postponed request is sent after all. -/
def sendPostponed (h : Histories) (pair : Nat × Generator) : Histories :=
  let s := h.entry
  let sent := s.sent.emplace pair.1 ⟨pair.2, h.nextApi, .history⟩
  { h with state := some { s with sent := sent } }.generate pair.1 pair.2

/-- The entry that was overtaken is asked for again. -/
def requestEntryAgain (h : Histories) : Histories :=
  let s := h.entry
  if s.postponedRequestEntry && !s.postponeEntryRequest then
    let h := h.assert h.dialogRequests.isSome .entryLost
    let h := h.assert h.dialogRequestsPending.isNone .entryPending
    let pending := h.dialogRequestsPending.orElse fun _ => some (h.dialogRequests.getD [])
    { h with dialogRequestsPending := pending, dialogRequests := none
             state := some { s with postponedRequestEntry := false } }.postponeRequestDialogEntries
  else h

/-- The request is not in `sent` any more. -/
def dropSent (h : Histories) (id : Nat) : Histories :=
  match h.entry.sent.find? id with
  | some sent => { h.cancelApi sent.id with state := some { h.entry with sent := h.entry.sent.erase id } }
  | none => h

/-- What was postponed is sent when no deletion is left. -/
def resendPostponed (h : Histories) : Histories :=
  if !h.entry.postponed.isEmpty && !h.entry.postponeHistoryRequest then
    h.entry.postponed.entries.foldl sendPostponed { h with state := some { h.entry with postponed := .empty } }
  else h

def finishSentRequest (h : Histories) (id : Nat) : Histories :=
  let h := { h with historyByRequest := h.historyByRequest.filter (· ≠ id) }
  (h.dropSent id).resendPostponed.requestEntryAgain.checkEmptyState

/-- The callback of the requests: `checkPostponed`. -/
def finish (h : Histories) (id : Nat) : Histories := if h.state.isSome then h.finishSentRequest id else h

def cancelRequest (h : Histories) (id : Nat) : Histories :=
  if id = 0 then h
  else if id ∉ h.historyByRequest then h
  else
    let h := { h with historyByRequest := h.historyByRequest.filter (· ≠ id) }
    match h.state with
    | none => h
    | some s => { h with state := some { s with postponed := s.postponed.erase id } }.finishSentRequest id

/-! ## Entries of the dialogs list -/

def requestDialogEntry (h : Histories) (callback : Bool) : Histories :=
  let registered := if callback then [h.registered] else []
  let h := { h with registered := h.registered + registered.length }
  match h.dialogRequests with
  | some callbacks => { h with dialogRequests := some (callbacks ++ registered) }
  | none =>
      match h.dialogRequestsPending with
      | some callbacks => { h with dialogRequestsPending := some (callbacks ++ registered) }
      | none => { h with dialogRequestsPending := some registered }.postponeRequestDialogEntries

/-- The posted call. Without a pending entry it is about other chats. -/
def sendDialogRequests (h : Histories) : Histories :=
  let h := { h with posted := false }
  match h.dialogRequestsPending with
  | none => h
  | some callbacks =>
      let moved := h.dialogRequests.orElse fun _ => some callbacks
      let asked := { h with dialogRequests := moved, dialogRequestsPending := none }
      if h.entry.postponeEntryRequest then
        { asked with state := some { h.entry with postponedRequestEntry := true } }
      else { asked with entryRequests := asked.entryRequests ++ [⟨asked.nextApi, false⟩], nextApi := asked.nextApi + 1 }

/-! ## The group of the last message -/

def requestFakeChatListMessage (h : Histories) : Histories :=
  if h.fakeChatListRequest then h else { h with fakeChatListRequest := true }.sendRequest .fakeChatListMessage

def requestGroupAround (h : Histories) (id : MsgId) : Histories :=
  let start (h : Histories) : Histories :=
    let requestId := h.requestAutoincrement + 1
    { h.sendRequest (.groupAround id) with chatListGroupRequest := some ⟨id, requestId⟩ }
  match h.chatListGroupRequest with
  | none => start h
  | some group => if group.aroundId = id then h else start (h.cancelRequest group.requestId)

/-! ## Read positions -/

def setInboxReadTill (h : Histories) (upTo : MsgId) : Histories :=
  { h with inboxReadBefore := match h.inboxReadBefore with
            | some before => some (max before (upTo + 1))
            | none => some (upTo + 1) }

def setUnreadCount (h : Histories) (loaded : Loaded) (newUnreadCount : Int) : Histories :=
  if h.unreadCount = some newUnreadCount then h
  else
    let h := { h with unreadCount := some newUnreadCount }
    if newUnreadCount = 1 ∧ loaded.lastOutgoing = false then
      if loaded.msgIdForRead ≠ 0 then h.setInboxReadTill (loaded.msgIdForRead - 1) else h
    else if newUnreadCount = 0 then
      if loaded.msgIdForRead ≠ 0 then h.setInboxReadTill loaded.msgIdForRead else h
    else h

/-- `readClientSideMessages`: each unread message that only the client knows is read. -/
def readClientSideMessages (h : Histories) (loaded : Loaded) : Nat → Histories
  | 0 => h
  | n + 1 =>
      let h := if h.unreadCount.getD 0 ≠ 0 then h.setUnreadCount loaded (h.unreadCount.getD 0 - 1) else h
      h.readClientSideMessages loaded n

def unreadCountRefreshNeeded (h : Histories) (readTillId : MsgId) : Bool :=
  h.unreadCount.isNone || decide (readTillId + 1 > h.inboxReadBefore.getD 0)

def sendReadRequest (h : Histories) (s : State) : Histories :=
  let h := h.assert (s.willReadTill > s.sentReadTill) .willReadTill
  { h with state := some { s with sentReadTill := s.willReadTill, willReadTill := 0, willReadWhen := 0
                                  sentReadDone := false } }.sendRequest (.readInbox s.willReadTill)

/-- This chat in the loop of `sendReadRequests`. -/
def sendReadRequests (h : Histories) : Histories :=
  match h.state with
  | none => h
  | some s => if s.willReadTill = 0 then h else if s.willReadWhen ≤ h.now then h.sendReadRequest s else h

def sendPendingReadInbox (h : Histories) : Histories :=
  match h.state with
  | none => h
  | some s =>
      if s.willReadTill ≠ 0 ∧ s.willReadWhen ≠ 0 then
        { h with state := some { s with willReadWhen := 0 } }.sendReadRequests
      else h

/-- The end of `readInboxTill`, which a read position with an unknown count does not come to. -/
def markRead (h : Histories) (loaded : Loaded) (tillId : MsgId) : Option Int → Histories
  | none => h
  | some still => (h.setInboxReadTill tillId).setUnreadCount loaded still

/-- `readInboxTill` without its guard. -/
def readInboxTillUnguarded (h : Histories) (loaded : Loaded) (tillId : MsgId) (force : Bool) : Histories :=
  let h := h.readClientSideMessages loaded loaded.clientSideUnread
  let needsRequest : Bool := decide (isServerMsgId tillId) && decide (h.inboxReadBefore.getD 1 ≤ tillId)
  if !needsRequest && !force then h
  else if !loaded.trackUnreadMessages then h
  else
    match h.state with
    | some s =>
        if s.sentReadTill ≥ tillId then h
        else if s.willReadTill ≥ tillId then if force then h.sendPendingReadInbox else h
        else if !needsRequest && decide (s.willReadTill = 0) then h
        else continueReading h loaded tillId force
    | none => if !needsRequest then h else continueReading h loaded tillId force
where
  continueReading (h : Histories) (loaded : Loaded) (tillId : MsgId) (force : Bool) : Histories :=
    if !force && loaded.stillUnread.isSome && h.unreadCount.isSome && decide (loaded.stillUnread = h.unreadCount) then
      h.setInboxReadTill tillId
    else
      let s := { h.entry with willReadTill := tillId }
      if force || decide (loaded.stillUnread.getD 0 = 0) then
        ({ h with state := some { s with willReadWhen := 0 } }.sendReadRequests).markRead loaded tillId
          loaded.stillUnread
      else if s.willReadWhen = 0 then
        { h with state := some { s with willReadWhen := h.now + kReadRequestTimeout } }.markRead loaded tillId
          loaded.stillUnread
      else { h with state := some s }.markRead loaded tillId loaded.stillUnread

def readInboxTill (h : Histories) (loaded : Loaded) (tillId : MsgId) (force : Bool) : Histories :=
  let h := h.readInboxTillUnguarded loaded tillId force
  if h.unreadCount.getD 0 > 0 ∧ loaded.lastServerMessage = some tillId then h.setUnreadCount loaded 0 else h

def inboxRead (h : Histories) (loaded : Loaded) (upTo : MsgId) (stillUnread : Option Int) : Histories :=
  let h :=
    match stillUnread, loaded.folderKnown, loaded.stillUnread with
    | some still, true, _ => h.setUnreadCount loaded still
    | _, _, some still => h.setUnreadCount loaded still
    | _, _, none => h.requestDialogEntry false
  h.setInboxReadTill upTo

/-- `applyInboxReadUpdate`: the folder may be another one, the `pts` of the channel too. -/
def applyInboxReadUpdate (h : Histories) (loaded : Loaded) (otherFolder samePts : Bool) (upTo : MsgId)
    (stillUnread : Int) : Histories :=
  let h := if otherFolder then h.requestDialogEntry false else h
  if h.inboxReadBefore.getD 1 ≤ upTo then h.inboxRead loaded upTo (if samePts then some stillUnread else none) else h

/-! ## Calls and answers -/

/-- A read position as `readInboxTill` expects it. -/
structure ReadPosition where
  tillId : MsgId
  force : Bool
  expected : isServerMsgId tillId ∨ tillId = 0 ∧ force = false

/-- What the history calls when its entry is applied. -/
inductive HistoryCall where
  | requestDialogEntry (callback : Bool)
  | requestFakeChatListMessage
  | requestGroupAround (id : MsgId)
  deriving DecidableEq, Repr

inductive Call where
  | history (c : HistoryCall)
  | readInboxTill (loaded : Loaded) (position : ReadPosition)
  | sendPendingReadInbox
  | deleteMessages (ids : List MsgId) (revoke : Bool)
  | deleteAllMessages (deleteTillId : MsgId) (justClear revoke : Bool)
  /-- The messages that are destroyed at once may leave the last one unknown. -/
  | deleteMessagesByDates (minDate maxDate : Int) (revoke : Bool) (destroyed : List HistoryCall)
  | applyInboxReadUpdate (loaded : Loaded) (otherFolder samePts : Bool) (upTo : MsgId) (stillUnread : Int)
  | setUnreadCount (loaded : Loaded) (newUnreadCount : Int)

def callHistory (h : Histories) : HistoryCall → Histories
  | .requestDialogEntry callback => h.requestDialogEntry callback
  | .requestFakeChatListMessage => h.requestFakeChatListMessage
  | .requestGroupAround id => h.requestGroupAround id

def call (h : Histories) : Call → Histories
  | .history c => h.callHistory c
  | .readInboxTill loaded position => h.readInboxTill loaded position.tillId position.force
  | .sendPendingReadInbox => h.sendPendingReadInbox
  | .deleteMessages ids revoke => h.sendRequest (.deleteMessages ids revoke)
  | .deleteAllMessages deleteTillId justClear revoke => h.sendRequest (.deleteAllMessages deleteTillId justClear revoke)
  | .deleteMessagesByDates minDate maxDate revoke destroyed =>
      destroyed.foldl callHistory (h.sendRequest (.deleteMessagesByDates minDate maxDate revoke))
  | .applyInboxReadUpdate loaded otherFolder samePts upTo stillUnread =>
      h.applyInboxReadUpdate loaded otherFolder samePts upTo stillUnread
  | .setUnreadCount loaded newUnreadCount => h.setUnreadCount loaded newUnreadCount

def feed (h : Histories) (calls : List Call) : Histories := calls.foldl call h

/-- An answer, with what its handler calls before, while and after it finishes the request. -/
structure Answer where
  done : Bool
  errorType : String := ""
  /-- What `applyAffectedHistory` returns: there is more to delete. -/
  offset : Int := 0
  before : List Call := []
  between : List Call := []
  after : List Call := []

/-- The `finished` of `sendReadRequest`. -/
def finishedRead (h : Histories) (id : Nat) (tillId : MsgId) : Histories :=
  let h :=
    match h.state with
    | none => h.assert false .stateLost
    | some s =>
        if s.sentReadTill = tillId then
          let h := { h with state := some { s with sentReadDone := true } }
          if h.unreadCountRefreshNeeded tillId then h.requestDialogEntry false
          else { h with state := some { s with sentReadDone := true, sentReadTill := 0 } }
        else h.assert (decide (s.sentReadTill = 0) || decide (s.sentReadTill > tillId)) .sentReadTill
  h.sendReadRequests.finish id

/-- What the deletion of a part leaves to be deleted is asked for again. -/
def deleteMore (h : Histories) (generator : Generator) (a : Answer) : Histories :=
  if a.offset > 0 then (h.sendRequest generator).feed a.between else h

def addChatUser (h : Histories) (deleteTillId : MsgId) (justClear revoke : Bool) : Histories :=
  { h with flights := h.flights.emplace h.nextApi (.addSelf deleteTillId justClear revoke), nextApi := h.nextApi + 1 }

def handle (h : Histories) (id : Nat) (generator : Generator) (method : Method) (a : Answer) : Histories :=
  match generator with
  | .fakeChatListMessage => (({ h with fakeChatListRequest := false } : Histories).feed a.before).finish id
  | .groupAround _ =>
      let h := if a.done then h.feed a.before else h
      let h := { h with chatListGroupRequest := none }
      (if a.done then h.feed a.between else h).finish id
  | .readInbox tillId => (if a.done then h.feed a.before else h).finishedRead id tillId
  | .deleteMessages .. => if a.done then ((h.feed a.before).finish id).feed a.after else h.finish id
  | .deleteAllMessages deleteTillId justClear revoke =>
      match method with
      | .deleteChannel => if a.done then h.feed a.before else h -- nothing finishes this request
      | .deleteChat =>
          if !a.done && decide (a.errorType = "PEER_ID_INVALID") then
            (h.addChatUser deleteTillId justClear revoke).finish id
          else h.finish id
      | .messagesDeleteHistory .. =>
          if a.done then ((h.feed a.before).deleteMore generator a).finish id else h.finish id
      | _ => h.finish id
  | .deleteMessagesByDates .. =>
      if a.done then ((h.feed a.before).deleteMore generator a).finish id else h.finish id

def answer (h : Histories) (api : Nat) (a : Answer) : Histories :=
  match h.flights.find? api with
  | none => h
  | some (.request id generator method) => (h.cancelApi api).handle id generator method a
  | some (.addSelf deleteTillId justClear revoke) =>
      let h := h.cancelApi api
      if a.done then (h.feed a.before).sendRequest (.deleteAllMessages deleteTillId justClear revoke) else h

/-- The fields of a dialog that are about reading. -/
structure Dialog where
  unreadCount : Int
  readInboxMaxId : MsgId
  /-- `clearUnreadOnClientSide`, with the last message, if any. -/
  clearUnread : Option (Option MsgId) := none
  deriving DecidableEq, Repr

/-- The answer of an entry request, or an entry from elsewhere. -/
structure Entry where
  dialog : Option Dialog := none
  loaded : Loaded := {}
  before : List Call := []
  between : List Call := []
  history : List HistoryCall := []
  again : List HistoryCall := []
  callbacks : Callback → List Call := fun _ => []

def runCallback (fresh : Bool) (callbacks : Callback → List Call) (h : Histories) (callback : Callback) : Histories :=
  ({ h with ran := h.ran ++ [(callback, fresh)] } : Histories).feed (callbacks callback)

/-- A read position that was answered is let go when the entry is there. -/
def applySentRead (h : Histories) (known : Bool) : Histories :=
  match known, h.state with
  | true, some s =>
      if s.sentReadTill ≠ 0 ∧ s.sentReadDone then
        (({ h with state := some { s with sentReadTill := 0 } } : Histories).setInboxReadTill
          s.sentReadTill).checkEmptyState
      else h
  | _, _ => h

def dialogEntryApplied (h : Histories) (fresh : Bool) (calls : List HistoryCall) (callbacks : Callback → List Call) :
    Histories :=
  let known := h.state.isSome
  if h.entry.postponedRequestEntry then h
  else
    let h := calls.foldl callHistory h
    let h :=
      match h.dialogRequestsPending with
      | some pending => pending.foldl (runCallback fresh callbacks) { h with dialogRequestsPending := none }
      | none => h
    let h :=
      match h.dialogRequests with
      | some requests => requests.foldl (runCallback fresh callbacks) { h with dialogRequests := none }
      | none => h
    h.applySentRead known

def applyDialogFields (h : Histories) (loaded : Loaded) (d : Dialog) : Histories :=
  let h :=
    if d.clearUnread.isNone ∧ d.readInboxMaxId + 1 ≥ h.inboxReadBefore.getD 1 then
      (h.setUnreadCount loaded d.unreadCount).setInboxReadTill d.readInboxMaxId
    else h
  match d.clearUnread with
  | some (some last) => (h.setUnreadCount loaded 0).setInboxReadTill last
  | some none => h.setUnreadCount loaded 0
  | none => h

def applyDialog (h : Histories) (fresh : Bool) (e : Entry) (d : Dialog) : Histories :=
  ((h.applyDialogFields e.loaded d).feed e.between).dialogEntryApplied fresh e.history e.callbacks

/-- The handler of `sendDialogRequests` for this chat. -/
def answerEntry (h : Histories) (request : EntryRequest) (e : Entry) : Histories :=
  let fresh := !request.overtaken
  let h := { h with entryRequests := h.entryRequests.filter (·.id ≠ request.id) }
  let h :=
    match e.dialog with
    | some d => (h.feed e.before).applyDialog fresh e d
    | none => h
  if h.entry.postponedRequestEntry then h else h.dialogEntryApplied fresh e.again e.callbacks

/-! ## Runs -/

inductive Event where
  | call (c : Call)
  | cancelRequest (id : Nat)
  | elapse (ms : Nat)
  /-- A request about another chat takes a number. -/
  | otherRequest
  | peerChanged (amCreator canDelete : Bool)
  | sendReadRequests
  | sendDialogRequests
  | answer (api : Nat) (a : Answer)
  | entryAnswer (id : Nat) (e : Entry)
  /-- The chat is in a list of dialogs that was not asked for here. -/
  | applyDialog (e : Entry) (d : Dialog)

def step (h : Histories) : Event → Histories
  | .call c => h.call c
  | .cancelRequest id => h.cancelRequest id
  | .elapse ms => { h with now := h.now + ms }
  | .otherRequest => { h with requestAutoincrement := h.requestAutoincrement + 1 }
  | .peerChanged amCreator canDelete => { h with peer := { h.peer with amCreator, canDelete } }
  | .sendReadRequests => h.sendReadRequests
  | .sendDialogRequests => h.sendDialogRequests
  | .answer api a => h.answer api a
  | .entryAnswer id e =>
      match h.entryRequests.find? (·.id = id) with
      | some request => h.answerEntry request e
      | none => h
  | .applyDialog e d => h.applyDialog false e d

def run (h : Histories) (events : List Event) : Histories := events.foldl step h

end Histories

end IMeDesktop.Data
