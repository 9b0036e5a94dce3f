import IMeDesktop.Lib.SortedMap

/-! # Requests and message ids of a session

A session keeps its requests in several places at once: those waiting in `toSend`,
those on their way in `haveSent`, and, by message id only, those that are being sent
again, were acknowledged, or went out inside a container. This module has the state
and how it sends; receiving is `SessionReceive`.

A request is an object shared by these places, so there is one per request id and the
maps refer to it. Its bytes are not modelled, nor are sequence numbers, salts and
timers: where the source asks a clock, a step says what the answer is. Message ids
come from `base::unixtime::mtproto_msg_id`, which is the sequence of ids it returns.
-/

namespace IMeDesktop.Mtproto.Requests

open Lib

def kIdsBufferSize : Nat := 400

/-- `mtpRequestId(0xFFFFFFFF)`, what stands for a message without a request. -/
def kNoRequest : Nat := 0xFFFFFFFF

structure SerializedRequest where
  msgId : Nat := 0
  needAck : Bool := true
  forceSendInContainer : Bool := false

inductive SessionState where
  | disconnected
  | connecting
  | connected
  deriving DecidableEq, Repr

structure ReceivedMessage where
  reply : List Nat
  outerMsgId : Nat
  requestId : Nat := 0
  deriving DecidableEq, Repr

/-- `SessionPrivate` with the maps of its `SessionData`. `generated` counts the message ids that
were asked for. -/
structure SessionPrivate where
  requests : Nat → SerializedRequest := fun _ => {}
  toSend : SortedMap Nat Unit := .empty
  haveSent : SortedMap Nat Nat := .empty
  haveReceivedMessages : List ReceivedMessage := []
  state : SessionState := .disconnected
  pingId : Nat := 0
  pingIdToSend : Nat := 0
  pingMsgId : Nat := 0
  sessionMarkedAsStarted : Bool := false
  ackRequestData : List Nat := []
  resendRequestData : List Nat := []
  stateRequestData : SortedMap Nat Unit := .empty
  receivedMessageIds : SortedMap Nat Bool := .empty
  resendingIds : SortedMap Nat Nat := .empty
  ackedIds : SortedMap Nat Nat := .empty
  stateAndResendRequests : SortedMap Nat (List Nat) := .empty
  sentContainers : SortedMap Nat (List Nat) := .empty
  keyCreator : Bool := false
  bindMsgId : Nat := 0
  generated : Nat := 0

namespace SessionPrivate

def setMsgId (s : SessionPrivate) (requestId msgId : Nat) : SessionPrivate :=
  { s with requests := Function.update s.requests requestId { s.requests requestId with msgId := msgId } }

/-! ## The session's interface -/

def sendPrepared (s : SessionPrivate) (requestId : Nat) (needAck : Bool) : SessionPrivate :=
  { s with
    toSend := s.toSend.emplace requestId ()
    requests := Function.update s.requests requestId
      { s.requests requestId with msgId := 0, needAck := needAck } }

def cancel (s : SessionPrivate) (requestId msgId : Nat) : SessionPrivate :=
  { s with
    toSend := if requestId ≠ 0 then s.toSend.erase requestId else s.toSend
    haveSent := if msgId ≠ 0 then s.haveSent.erase msgId else s.haveSent }

/-! ## Message ids -/

section Ids

variable (mtprotoMsgId : Nat → Nat)

def nextMsgId (s : SessionPrivate) : Nat × SessionPrivate :=
  (mtprotoMsgId s.generated, { s with generated := s.generated + 1 })

def isUsed (s : SessionPrivate) (id : Nat) : Bool :=
  s.resendingIds.contains id || s.ackedIds.contains id || s.haveSent.contains id

/-- The loop of `replaceMsgId`, over at most as many ids as are in use. -/
def skipUsed : Nat → SessionPrivate → Nat → Nat × SessionPrivate
  | 0, s, newId => (newId, s)
  | fuel + 1, s, newId =>
      if s.isUsed newId then
        let (newId, s) := s.nextMsgId mtprotoMsgId
        skipUsed fuel s newId
      else (newId, s)

/-- Move the entry of a key. -/
def moveKey (m : SortedMap Nat Nat) (oldId newId : Nat) : SortedMap Nat Nat :=
  match m.find? oldId with
  | none => m
  | some requestId => (m.erase oldId).emplace newId requestId

def renameInside (containers : SortedMap Nat (List Nat)) (oldId newId : Nat) : SortedMap Nat (List Nat) where
  entries := containers.entries.map fun e => (e.1, e.2.map fun id => if id = oldId then newId else id)
  sorted := List.pairwise_map.mpr containers.sorted

def replaceMsgId (s : SessionPrivate) (oldMsgId newId : Nat) : Nat × SessionPrivate :=
  if oldMsgId = newId then (newId, s)
  else
    let fuel := s.resendingIds.size + s.ackedIds.size + s.haveSent.size
    let (newId, s) := skipUsed mtprotoMsgId fuel s newId
    (newId, { s with
      resendingIds := moveKey s.resendingIds oldMsgId newId
      ackedIds := moveKey s.ackedIds oldMsgId newId
      haveSent := moveKey s.haveSent oldMsgId newId
      sentContainers := renameInside s.sentContainers oldMsgId newId })

/-- For a request with this message id; what is returned becomes its message id. -/
def prepareToSend (s : SessionPrivate) (msgId currentLastId : Nat) (forceNewMsgId : Bool) :
    Nat × SessionPrivate :=
  if msgId ≠ 0 then
    -- resending this request
    let s := { s with resendingIds := s.resendingIds.erase msgId }
    if forceNewMsgId ∨ msgId > currentLastId then replaceMsgId mtprotoMsgId s msgId currentLastId
    else (msgId, s)
  else (currentLastId, s)

/-- A container needs an id above those of its messages. -/
def raiseBigMsgId (s : SessionPrivate) (msgId bigMsgId : Nat) : Nat × SessionPrivate :=
  if msgId ≥ bigMsgId then s.nextMsgId mtprotoMsgId else (bigMsgId, s)

/-! ## Sending -/

/-- What `tryToSend` finds outside of the session: `ready` that there are a connection and a key,
`ping` a random id when it is time for a ping. -/
structure Sending where
  ready : Bool := true
  ping : Nat := 0
  usingHttpWait : Bool := false
  readyToBind : Bool := false

/-- The service requests that go out, as `tryToSend` collects them: with the ping's id and the ids
that the others are about. -/
structure ServiceRequests where
  ping : Bool := false
  ack : Option (List Nat) := none
  resend : Option (List Nat) := none
  state : Option (List Nat) := none
  httpWait : Bool := false
  bind : Option Nat := none

def ServiceRequests.count (service : ServiceRequests) : Nat :=
  service.ping.toNat + service.ack.isSome.toNat + service.resend.isSome.toNat +
    service.state.isSome.toNat + service.httpWait.toNat + service.bind.isSome.toNat

def takeServiceRequests (s : SessionPrivate) (sending : Sending) (sendOnlyFirstPing : Bool) :
    ServiceRequests × SessionPrivate :=
  let ping := s.pingIdToSend ≠ 0
  let s := if ping then { s with pingId := s.pingIdToSend, pingIdToSend := 0 } else s
  if sendOnlyFirstPing then ({ ping := ping }, s)
  else
    let service : ServiceRequests :=
      { ping := ping
        ack := if s.ackRequestData = [] then none else some s.ackRequestData
        resend := if s.resendRequestData = [] then none else some s.resendRequestData
        state := if s.stateRequestData.isEmpty then none
          else some (s.stateRequestData.entries.map Prod.fst)
        httpWait := sending.usingHttpWait }
    let s := { s with ackRequestData := [], resendRequestData := [], stateRequestData := .empty }
    if s.bindMsgId = 0 ∧ s.keyCreator ∧ sending.readyToBind then
      let (msgId, s) := s.nextMsgId mtprotoMsgId
      ({ service with bind := some msgId }, s)
    else (service, s)

def rememberSent (s : SessionPrivate) (msgId requestId : Nat) : SessionPrivate :=
  if (s.requests requestId).needAck then { s with haveSent := s.haveSent.emplace msgId requestId }
  else { s with ackedIds := s.ackedIds.emplace msgId requestId }

def sendRequest (s : SessionPrivate) (requestId currentLastId : Nat) (forceNewMsgId : Bool) :
    Nat × SessionPrivate :=
  let (msgId, s) := prepareToSend mtprotoMsgId s (s.requests requestId).msgId currentLastId forceNewMsgId
  (msgId, (s.setMsgId requestId msgId).rememberSent msgId requestId)

/-- One message without a container: a service request, or `toSend.begin()`. -/
def sendSingle (s : SessionPrivate) (service : ServiceRequests) (sendAll forceNewMsgId : Bool) :
    SessionPrivate :=
  let queued := s.toSend
  let s := if sendAll then { s with toSend := .empty } else s
  let (newId, s) := s.nextMsgId mtprotoMsgId
  match service.bind with
  | some bindMsgId =>
      let (msgId, s) := prepareToSend mtprotoMsgId s bindMsgId newId false
      { s with bindMsgId := msgId }
  | none =>
      if service.ping then { s with pingMsgId := newId }
      else
        match service.state, service.resend with
        | some ids, _ => { s with stateAndResendRequests := s.stateAndResendRequests.emplace newId ids }
        | none, some ids => { s with stateAndResendRequests := s.stateAndResendRequests.emplace newId ids }
        | none, none =>
            if service.ack.isSome ∨ service.httpWait then s
            else
              match queued.entries with
              | [] => s
              | (requestId, _) :: _ => (sendRequest mtprotoMsgId s requestId newId forceNewMsgId).2

/-- The requests of a container, with the ids it will remember. -/
def sendQueued (forceNewMsgId : Bool) :
    SessionPrivate → Nat → List Nat → List Nat × Nat × SessionPrivate
  | s, bigMsgId, [] => ([], bigMsgId, s)
  | s, bigMsgId, requestId :: queued =>
      let (msgId, s) := sendRequest mtprotoMsgId s requestId bigMsgId forceNewMsgId
      let (bigMsgId, s) := raiseBigMsgId mtprotoMsgId s msgId bigMsgId
      let (messages, bigMsgId, s) := sendQueued forceNewMsgId s bigMsgId queued
      (if (s.requests requestId).needAck then msgId :: messages else messages, bigMsgId, s)

def placeToContainer (s : SessionPrivate) (bigMsgId reqMsgId : Nat) (forceNewMsgId : Bool) :
    Nat × Nat × SessionPrivate :=
  let (msgId, s) := prepareToSend mtprotoMsgId s reqMsgId bigMsgId forceNewMsgId
  let (bigMsgId, s) := raiseBigMsgId mtprotoMsgId s msgId bigMsgId
  (msgId, bigMsgId, s)

def placeBind (s : SessionPrivate) (bigMsgId : Nat) : Option Nat → Nat × SessionPrivate
  | none => (bigMsgId, s)
  | some bindMsgId =>
      let (msgId, bigMsgId, s) := placeToContainer mtprotoMsgId s bigMsgId bindMsgId false
      (bigMsgId, { s with bindMsgId := msgId })

def placePing (s : SessionPrivate) (bigMsgId : Nat) (forceNewMsgId present : Bool) : Nat × SessionPrivate :=
  if present then
    let (msgId, bigMsgId, s) := placeToContainer mtprotoMsgId s bigMsgId 0 forceNewMsgId
    (bigMsgId, { s with pingMsgId := msgId })
  else (bigMsgId, s)

def placeStateRequest (s : SessionPrivate) (bigMsgId : Nat) (forceNewMsgId : Bool) :
    Option (List Nat) → Nat × SessionPrivate
  | none => (bigMsgId, s)
  | some ids =>
      let (msgId, bigMsgId, s) := placeToContainer mtprotoMsgId s bigMsgId 0 forceNewMsgId
      (bigMsgId, { s with stateAndResendRequests := s.stateAndResendRequests.emplace msgId ids })

def placeUntracked (s : SessionPrivate) (bigMsgId : Nat) (forceNewMsgId present : Bool) :
    Nat × SessionPrivate :=
  if present then (placeToContainer mtprotoMsgId s bigMsgId 0 forceNewMsgId).2 else (bigMsgId, s)

def sendContainer (s : SessionPrivate) (service : ServiceRequests) (sendAll forceNewMsgId : Bool) :
    SessionPrivate :=
  let (bigMsgId, s) := s.nextMsgId mtprotoMsgId
  let (bigMsgId, s) := placeBind mtprotoMsgId s bigMsgId service.bind
  let (bigMsgId, s) := placePing mtprotoMsgId s bigMsgId forceNewMsgId service.ping
  let queued := if sendAll then s.toSend.entries.map Prod.fst else []
  let (messages, bigMsgId, s) := sendQueued mtprotoMsgId forceNewMsgId s bigMsgId queued
  let s := if sendAll then { s with toSend := .empty } else s
  let (bigMsgId, s) := placeStateRequest mtprotoMsgId s bigMsgId forceNewMsgId service.state
  let (bigMsgId, s) := placeStateRequest mtprotoMsgId s bigMsgId forceNewMsgId service.resend
  let (bigMsgId, s) := placeUntracked mtprotoMsgId s bigMsgId forceNewMsgId service.ack.isSome
  let (bigMsgId, s) := placeUntracked mtprotoMsgId s bigMsgId forceNewMsgId service.httpWait
  let (containerMsgId, s) := prepareToSend mtprotoMsgId s 0 bigMsgId forceNewMsgId
  { s with sentContainers := s.sentContainers.emplace containerMsgId messages }

/-- Whether the one message that goes out has to be inside a container. -/
def forcedInContainer (s : SessionPrivate) (service : ServiceRequests) : Bool :=
  if service.count ≠ 0 then false
  else
    match s.toSend.entries with
    | [] => false
    | (requestId, _) :: _ => (s.requests requestId).forceSendInContainer

def tryToSend (s : SessionPrivate) (sending : Sending) : SessionPrivate :=
  if !sending.ready then s
  else
    let sendOnlyFirstPing : Bool := s.state ≠ .connected
    let sendAll := !sendOnlyFirstPing && !s.keyCreator
    if sendOnlyFirstPing ∧ s.pingIdToSend = 0 then s
    else
      let s :=
        if !sendOnlyFirstPing ∧ s.pingIdToSend = 0 ∧ s.pingId = 0 then
          { s with pingIdToSend := sending.ping }
        else s
      let forceNewMsgId := sendAll && !s.sessionMarkedAsStarted
      let s := if sendAll then { s with sessionMarkedAsStarted := true } else s
      let (service, s) := takeServiceRequests mtprotoMsgId s sending sendOnlyFirstPing
      let toSendCount := service.count + if sendAll then s.toSend.size else 0
      if toSendCount = 0 then s
      else if toSendCount = 1 ∧ !s.forcedInContainer service then
        sendSingle mtprotoMsgId s service sendAll forceNewMsgId
      else sendContainer mtprotoMsgId s service sendAll forceNewMsgId

end Ids

end SessionPrivate

end IMeDesktop.Mtproto.Requests
