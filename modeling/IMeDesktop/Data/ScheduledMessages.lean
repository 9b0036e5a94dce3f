import IMeDesktop.Lib.SortedMap

/-! # Scheduled messages of a chat

The client keeps the scheduled messages of a chat in a list sorted by position and, by their remote
ids, in a map. An item that is being sent, or whose sending failed, is in the list only. What is
modelled is one chat: its entry of `_data`, the updates and answers about it. Items are known by their
address, since the map points to the items of the list.
-/

namespace IMeDesktop.Data

open Lib

namespace ScheduledMessages

abbrev MsgId := Int

def ServerMaxMsgId : MsgId := 2 ^ 56

def StartClientMsgId : MsgId := 1 - 2 ^ 58

def EndClientMsgId : MsgId := -2 ^ 57

def IsServerMsgId (id : MsgId) : Prop := 0 < id ∧ id < ServerMaxMsgId

instance (id : MsgId) : Decidable (IsServerMsgId id) := inferInstanceAs (Decidable (_ ∧ _))

def IsClientMsgId (id : MsgId) : Prop := StartClientMsgId ≤ id ∧ id < EndClientMsgId

instance (id : MsgId) : Decidable (IsClientMsgId id) := inferInstanceAs (Decidable (_ ∧ _))

def RemoteToLocalMsgId (id : MsgId) : MsgId := ServerMaxMsgId + id + 1

def LocalToRemoteMsgId (id : MsgId) : MsgId := id - ServerMaxMsgId - 1

/-- An id from `nextLocalMessageId`. -/
abbrev ClientMsgId := { id : MsgId // IsClientMsgId id }

def kScheduledUntilOnlineTimestamp : Int := 0x7FFFFFFE

structure MessagePosition where
  id : MsgId
  date : Int
  deriving DecidableEq, Repr

/-- `operator<`. -/
def MessagePosition.less (a b : MessagePosition) : Bool :=
  if a.date < b.date then true else if b.date < a.date then false else decide (a.id < b.id)

structure HistoryItem where
  /-- The address of the item. -/
  address : Nat
  id : MsgId
  date : Int
  isSending : Bool
  hasFailed : Bool
  deriving DecidableEq, Repr

namespace HistoryItem

def position (item : HistoryItem) : MessagePosition := ⟨item.id, item.date⟩

def onServer (item : HistoryItem) : Bool := !item.isSending && !item.hasFailed

def HasScheduledDate (item : HistoryItem) (now : Int) : Bool :=
  decide (item.date ≠ kScheduledUntilOnlineTimestamp) && decide (now < item.date)

end HistoryItem

/-- The list may be put in order: no item is less than one before it. -/
def NotLess (a b : HistoryItem) : Prop := b.position.less a.position = false

instance : DecidableRel NotLess := fun _ _ => inferInstanceAs (Decidable (_ = _))

structure ItemsList where
  items : List HistoryItem := []
  itemById : SortedMap MsgId Nat := .empty

/-- A message of an answer or an update. -/
structure Message where
  id : MsgId
  date : Int
  /-- `MTPDmessage`, not a service message or an empty one. -/
  plain : Bool := true
  /-- `addNewMessage` makes an item of this chat. -/
  here : Bool := true
  deriving DecidableEq, Repr

end ScheduledMessages

open ScheduledMessages

structure ScheduledMessages where
  /-- `_data.find(history)`. -/
  data : Option ItemsList := none
  nextAddress : Nat := 0

namespace ScheduledMessages

/-- `_data[history]`. -/
def list (h : ScheduledMessages) : ItemsList := h.data.getD {}

def items (h : ScheduledMessages) : List HistoryItem := h.list.items

def itemById (h : ScheduledMessages) : SortedMap MsgId Nat := h.list.itemById

def sort (list : ItemsList) : ItemsList := { list with items := list.items.insertionSort NotLess }

/-- The item changes where it is. -/
def modify (h : ScheduledMessages) (address : Nat) (f : HistoryItem → HistoryItem) : ScheduledMessages :=
  { h with data := h.data.map fun list =>
            { list with items := list.items.map fun item => if item.address = address then f item else item } }

/-- `remove`, called as the item is destroyed. -/
def destroy (h : ScheduledMessages) (address : Nat) : ScheduledMessages :=
  match h.items.find? (·.address = address) with
  | none => h
  | some item =>
      let itemById := if item.onServer then h.itemById.erase (LocalToRemoteMsgId item.id) else h.itemById
      let items := h.items.filter (·.address ≠ address)
      { h with data := if items.isEmpty then none else some ⟨items, itemById⟩ }

def sorted (h : ScheduledMessages) : ScheduledMessages := { h with data := h.data.map sort }

def updated (h : ScheduledMessages) (clear : List Nat) : ScheduledMessages := (clear.foldl destroy h).sorted

/-- The item of the message, if there is one. The content of an item that exists is not modelled, but
    for its date. -/
def append (h : ScheduledMessages) (message : Message) : ScheduledMessages × Option Nat :=
  match h.itemById.find? message.id with
  | some existing =>
      (if message.plain then h.modify existing ({ · with date := message.date }) else h, some existing)
  | none =>
      if ¬IsServerMsgId message.id then (h, none)
      else if !message.here then (h, none)
      else
        let item : HistoryItem := ⟨h.nextAddress, RemoteToLocalMsgId message.id, message.date, false, false⟩
        ({ data := some ⟨h.items ++ [item], h.itemById.emplace message.id item.address⟩
           nextAddress := h.nextAddress + 1 }, some item.address)

def applyNew (h : ScheduledMessages) (message : Message) : ScheduledMessages :=
  ({ h with data := some h.list }.append message).1.sorted

def clearNotSending (h : ScheduledMessages) : ScheduledMessages :=
  match h.data with
  | none => h
  | some list => h.updated ((list.items.filter fun item => !item.isSending && !item.hasFailed).map (·.address))

/-- A message of a list is appended; its item is received. -/
def receive (pair : ScheduledMessages × List Nat) (message : Message) : ScheduledMessages × List Nat :=
  let appended := pair.1.append message
  (appended.1, pair.2 ++ appended.2.toList)

/-- Without messages, the list is not modified. -/
def parse (h : ScheduledMessages) : Option (List Message) → ScheduledMessages
  | none => h
  | some [] => h.clearNotSending
  | some messages =>
      let pair := messages.foldl receive ({ h with data := some h.list }, [])
      pair.1.updated
        ((pair.1.items.filter fun item => !item.isSending && decide (item.address ∉ pair.2)).map (·.address))

def deleteOne (h : ScheduledMessages) (id : MsgId) : ScheduledMessages :=
  match h.itemById.find? id with
  | some address => h.destroy address
  | none => h

def applyDelete (h : ScheduledMessages) (ids : List MsgId) : ScheduledMessages := ids.foldl deleteOne h

def setRealId (item : HistoryItem) (id : MsgId) : HistoryItem := { item with id, isSending := false }

/-- The id of a message that is being sent. -/
def applyMessageId (h : ScheduledMessages) (item : HistoryItem) (id : MsgId) : ScheduledMessages :=
  if (h.itemById.find? id).isSome ∨ ¬IsServerMsgId id then h.destroy item.address
  else
    let h := h.modify item.address (setRealId · (RemoteToLocalMsgId id))
    { h with data := h.data.map fun list => { list with itemById := list.itemById.emplace id item.address } }

def appendSending (h : ScheduledMessages) (id : ClientMsgId) (date : Int) : ScheduledMessages :=
  let item : HistoryItem := ⟨h.nextAddress, id, date, true, false⟩
  { data := some (sort { h.list with items := h.items ++ [item] }), nextAddress := h.nextAddress + 1 }

def sendFailed (item : HistoryItem) : HistoryItem := { item with hasFailed := true, isSending := false }

/-- The message was sent at once, and the server tells of it by an update. -/
def checkEntitiesAndUpdate (h : ScheduledMessages) (id : MsgId) (now : Int) : ScheduledMessages :=
  match h.itemById.find? id with
  | none => h
  | some existing =>
      match h.items.find? (·.address = existing) with
      | some item => if item.HasScheduledDate now then h else h.destroy existing
      | none => h

/-! ## Runs -/

/-- An id or a failure comes for a message that is being sent: with either, its random id is forgotten. -/
inductive Event where
  | appendSending (id : ClientMsgId) (date : Int)
  | messageId (address : Nat) (id : MsgId)
  | sendFailed (address : Nat)
  | newMessage (message : Message)
  | deleteMessages (ids : List MsgId)
  | list (messages : Option (List Message))
  | removeSending (address : Nat)
  | checkEntitiesAndUpdate (id : MsgId) (now : Int)
  | sendNowSimpleMessage (address : Nat) (now : Int)

/-- The item that is being sent. -/
def sending (h : ScheduledMessages) (address : Nat) : Option HistoryItem :=
  h.items.find? fun item => item.address = address && item.isSending

def step (h : ScheduledMessages) : Event → ScheduledMessages
  | .appendSending id date => h.appendSending id date
  | .messageId address id =>
      match h.sending address with
      | some item => h.applyMessageId item id
      | none => h
  | .sendFailed address =>
      match h.sending address with
      | some item => h.modify item.address ScheduledMessages.sendFailed
      | none => h
  | .newMessage message => h.applyNew message
  | .deleteMessages ids => h.applyDelete ids
  | .list messages => h.parse messages
  | .removeSending address =>
      match h.items.find? fun item => item.address = address && !item.onServer with
      | some item => h.destroy item.address
      | none => h
  | .checkEntitiesAndUpdate id now => h.checkEntitiesAndUpdate id now
  | .sendNowSimpleMessage address now =>
      match h.sending address with
      | some item => if item.HasScheduledDate now then h else h.destroy item.address
      | none => h

def run (h : ScheduledMessages) (events : List Event) : ScheduledMessages := events.foldl step h

end ScheduledMessages

end IMeDesktop.Data
