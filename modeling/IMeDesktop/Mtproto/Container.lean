import IMeDesktop.Mtproto.SerializedRequest

/-! # Containers that are sent

The container branch of `tryToSend` on ints. The size of the container is counted before
anything is placed in it, and corrected for each request that turns out to need an
`invokeAfterMsg` in front of it; the layer and the connection's parameters go in front of a
request until the connection is known to be inited.

Message ids are those of `Session`. A write outside of a buffer makes the whole branch
`none`.
-/

namespace IMeDesktop.Mtproto.Requests

open Lib

/-- A session with the ints of its requests, which are kept by request id. The session's own record of them is
not used. -/
structure Outbox where
  session : SessionPrivate
  data : Nat → RequestData
  messagesCounter : Nat := 0

/-- What is written in front of a request until the connection is inited: `initWrapper` are the ints of
`initConnection`. -/
structure Layer where
  needsLayer : Bool := false
  initWrapper : List Nat := []

namespace Layer

def initSerialized (layer : Layer) : List Nat := mtpcInvokeWithLayer :: kCurrentLayer :: layer.initWrapper

def initSizeInInts (layer : Layer) : Nat := if layer.needsLayer then layer.initWrapper.length + 2 else 0

end Layer

/-! ## Placing ints -/

/-- `WrapInvokeAfter`, for the id `afterId` of the request that comes before. -/
def wrapInvokeAfter (haveSent : SortedMap Nat Nat) (ints : List Nat) (request : RequestData)
    (afterId skipBeforeRequest : Nat) : Option (List Nat) := do
  let size := ints.length
  let lenInInts := countLength request.sizeInBytes / 4
  let headlen := 4
  let fulllen := headlen + lenInInts
  if afterId = 0 ∨ haveSent.contains afterId = false then
    let ints := resize 0 ints (size + fulllen + skipBeforeRequest)
    if skipBeforeRequest ≠ 0 then
      let ints ← copyInto ints size request.ints 4 headlen
      copyInto ints (size + headlen + skipBeforeRequest) request.ints (4 + headlen) lenInInts
    else copyInto ints size request.ints 4 fulllen
  else
    let ints := resize 0 ints (size + fulllen + skipBeforeRequest + 3)
    let ints ← copyInto ints size request.ints 4 headlen
    let ints ← changeAt ints (size + 3) (· + 3 * 4)
    let ints ← overwrite ints (size + headlen + skipBeforeRequest) [mtpcInvokeAfterMsg]
    let ints ← overwrite ints (size + headlen + skipBeforeRequest + 1) (longInts afterId)
    let ints ← copyInto ints (size + headlen + skipBeforeRequest + 3) request.ints (4 + headlen) lenInInts
    if size + 3 ≠ 7 then changeAt ints 7 (· + 3 * 4) else some ints

/-- The message without anything in front of it. -/
def appendPlain (ints : List Nat) (request : RequestData) : Option (List Nat) :=
  let len := request.messageSize
  copyInto (resize 0 ints (ints.length + len)) ints.length request.ints 4 len

def appendRequest (layer : Layer) (initSerialized : List Nat) (haveSent : SortedMap Nat Nat)
    (afterId : Option Nat) (ints : List Nat) (requestId : Nat) (request : RequestData) : Option (List Nat) :=
  let initSizeInInts := layer.initSizeInInts
  let reqNeedsLayer := if layer.needsLayer && request.needsLayer then ints.length else 0
  if requestId ≠ 0 ∧ request.needAck then
    match afterId with
    | some afterId => do
        let ints ← wrapInvokeAfter haveSent ints request afterId (if reqNeedsLayer ≠ 0 then initSizeInInts else 0)
        if reqNeedsLayer ≠ 0 then
          let ints ← copyInto ints (reqNeedsLayer + 4) initSerialized 0 initSizeInInts
          changeAt ints (reqNeedsLayer + 3) (· + initSizeInInts * 4)
        else some ints
    | none =>
        if reqNeedsLayer ≠ 0 then do
          let ints := resize 0 ints (reqNeedsLayer + initSizeInInts + request.messageSize)
          let ints ← copyInto ints reqNeedsLayer request.ints 4 4
          let ints ← copyInto ints (reqNeedsLayer + 4) initSerialized 0 initSizeInInts
          let ints ← copyInto ints (reqNeedsLayer + 4 + initSizeInInts) request.ints 8
            (countLength request.sizeInBytes / 4)
          changeAt ints (reqNeedsLayer + 3) (· + initSizeInInts * 4)
        else appendPlain ints request
  else appendPlain ints request

/-! ## Ids and numbers -/

namespace Outbox

def setData (o : Outbox) (requestId : Nat) (request : RequestData) : Outbox :=
  { o with data := Function.update o.data requestId request }

def nextRequestSeqNumber (o : Outbox) (needAck : Bool) : Nat × Outbox :=
  (o.messagesCounter * 2 + needAck.toNat, { o with messagesCounter := o.messagesCounter + needAck.toNat })

/-- `setMsgId` and `setSeqNo` with the next number. -/
def number (o : Outbox) (request : RequestData) (msgId : Nat) : RequestData × Outbox :=
  let (seqNo, o) := o.nextRequestSeqNumber request.needAck
  ({ request with msgId := msgId, seqNo := seqNo }, o)

variable (mtprotoMsgId : Nat → Nat)

def replaceMsgId (o : Outbox) (request : RequestData) (newId : Nat) : RequestData × Outbox :=
  if request.msgId = newId then (request, o)
  else
    let (newId, session) := o.session.replaceMsgId mtprotoMsgId request.msgId newId
    { o with session := session }.number request newId

/-- The request's message id is what the source returns. -/
def prepareToSend (o : Outbox) (request : RequestData) (currentLastId : Nat) (forceNewMsgId : Bool) :
    RequestData × Outbox :=
  if request.msgId ≠ 0 then
    let session := { o.session with resendingIds := o.session.resendingIds.erase request.msgId }
    let o := { o with session := session }
    if forceNewMsgId ∨ request.msgId > currentLastId then o.replaceMsgId mtprotoMsgId request currentLastId
    else (request, o)
  else o.number request currentLastId

end Outbox

/-! ## The container -/

/-- The container while it is filled: its ints, the id above all of its messages, and the ids it will
remember. -/
structure Building where
  outbox : Outbox
  ints : List Nat
  bigMsgId : Nat
  messages : List Nat := []

namespace Building

variable (mtprotoMsgId : Nat → Nat) (forceNewMsgId : Bool)

/-- A message gets its id, and the container an id above it. -/
def prepare (b : Building) (forceNewMsgId : Bool) (request : RequestData) : RequestData × Building :=
  let (request, outbox) := b.outbox.prepareToSend mtprotoMsgId request b.bigMsgId forceNewMsgId
  let (bigMsgId, session) := outbox.session.raiseBigMsgId mtprotoMsgId request.msgId b.bigMsgId
  (request, { b with outbox := { outbox with session := session }, bigMsgId := bigMsgId })

def setSession (b : Building) (session : SessionPrivate) : Building :=
  { b with outbox := { b.outbox with session := session } }

def placeToContainer (b : Building) (forceNewMsgId : Bool) (request : RequestData) : Option (Nat × Building) := do
  let (request, b) := b.prepare mtprotoMsgId forceNewMsgId request
  let ints ← appendPlain b.ints request
  some (request.msgId, { b with ints := ints })

def placeBind (b : Building) : Option RequestData → Option Building
  | none => some b
  | some request => do
      let (msgId, b) ← b.placeToContainer mtprotoMsgId false request
      some (b.setSession { b.outbox.session with bindMsgId := msgId })

def placePing (b : Building) : Option RequestData → Option Building
  | none => some b
  | some request => do
      let (msgId, b) ← b.placeToContainer mtprotoMsgId forceNewMsgId request
      some (b.setSession { b.outbox.session with pingMsgId := msgId })

/-- A request for states or for messages again, about these ids. -/
def placeStateRequest (b : Building) (serialized : List Nat → RequestData) : Option (List Nat) → Option Building
  | none => some b
  | some ids => do
      let (msgId, b) ← b.placeToContainer mtprotoMsgId forceNewMsgId (serialized ids)
      let session := b.outbox.session
      some (b.setSession
        { session with stateAndResendRequests := session.stateAndResendRequests.emplace msgId ids })

def placeUntracked (b : Building) : Option RequestData → Option Building
  | none => some b
  | some request => do
      let (_, b) ← b.placeToContainer mtprotoMsgId forceNewMsgId request
      some b

/-- A queued request has its id and is on its way. -/
def rememberSent (b : Building) (requestId : Nat) (request : RequestData) : Building :=
  let session := b.outbox.session
  if requestId = 0 then b
  else if request.needAck then
    { b.setSession { session with haveSent := session.haveSent.emplace request.msgId requestId } with
      messages := b.messages ++ [request.msgId] }
  else b.setSession { session with ackedIds := session.ackedIds.emplace request.msgId requestId }

def placeRequest (b : Building) (layer : Layer) (initSerialized : List Nat) (requestId : Nat) :
    Option Building := do
  let (request, b) := b.prepare mtprotoMsgId forceNewMsgId (b.outbox.data requestId)
  let b := { b with outbox := b.outbox.setData requestId request }
  let afterId := request.after.map fun requestId => (b.outbox.data requestId).msgId
  let ints ← appendRequest layer initSerialized b.outbox.session.haveSent afterId b.ints requestId request
  some ({ b with ints := ints }.rememberSent requestId request)

def placeRequests (layer : Layer) (initSerialized : List Nat) : Building → List Nat → Option Building
  | b, [] => some b
  | b, requestId :: queued => do
      let b ← b.placeRequest mtprotoMsgId forceNewMsgId layer initSerialized requestId
      placeRequests layer initSerialized b queued

end Building

/-- The service requests of one `tryToSend`; `state` and `resend` are the ids these are about. -/
structure ServiceData where
  bind : Option RequestData := none
  ping : Option RequestData := none
  state : Option (List Nat) := none
  resend : Option (List Nat) := none
  ack : Option (List Nat) := none
  httpWait : Bool := false

namespace ServiceData

variable (service : ServiceData)

def httpWaitData : Option RequestData := if service.httpWait then some httpWaitRequest else none

/-- Those that are placed before the queued requests, and those after them. -/
def before : List RequestData := service.bind.toList ++ service.ping.toList

def behind : List RequestData :=
  (service.state.map stateRequest).toList ++ ((service.resend.map resendRequestOf).toList ++
    ((service.ack.map ackRequest).toList ++ service.httpWaitData.toList))

end ServiceData

namespace Outbox

variable (mtprotoMsgId : Nat → Nat)

/-- The requests that are sent with everything else. -/
def queued (o : Outbox) (sendAll : Bool) : List Nat :=
  if sendAll then o.session.toSend.entries.map Prod.fst else []

def toSendCount (o : Outbox) (service : ServiceData) (sendAll : Bool) : Nat :=
  (o.queued sendAll).length + (service.before.length + service.behind.length)

def containerSize (o : Outbox) (service : ServiceData) (layer : Layer) (sendAll : Bool) : Nat :=
  1 + 1 + ((service.before ++ service.behind).map RequestData.messageSize).sum +
    ((o.queued sendAll).map fun requestId => (o.data requestId).messageSize +
      if layer.needsLayer && (o.data requestId).needsLayer then layer.initSizeInInts else 0).sum

/-- The container branch of `tryToSend`, with the ints that are encrypted and sent. -/
def sendContainer (o : Outbox) (service : ServiceData) (layer : Layer) (sendAll forceNewMsgId : Bool) :
    Option (List Nat × Outbox) := do
  let queued := o.queued sendAll
  let willNeedInit := queued.any fun requestId => layer.needsLayer && (o.data requestId).needsLayer
  let initSerialized := if willNeedInit then layer.initSerialized else []
  let ints := prepareInts (o.containerSize service layer sendAll) ++
    [mtpcMsgContainer, o.toSendCount service sendAll]
  let (bigMsgId, session) := o.session.nextMsgId mtprotoMsgId
  let b : Building := { outbox := { o with session := session }, ints := ints, bigMsgId := bigMsgId }
  let b ← b.placeBind mtprotoMsgId service.bind
  let b ← b.placePing mtprotoMsgId forceNewMsgId service.ping
  let b ← b.placeRequests mtprotoMsgId forceNewMsgId layer initSerialized queued
  let session := b.outbox.session
  let b := if sendAll then b.setSession { session with toSend := .empty } else b
  let b ← b.placeStateRequest mtprotoMsgId forceNewMsgId stateRequest service.state
  let b ← b.placeStateRequest mtprotoMsgId forceNewMsgId resendRequestOf service.resend
  let b ← b.placeUntracked mtprotoMsgId forceNewMsgId (service.ack.map ackRequest)
  let b ← b.placeUntracked mtprotoMsgId forceNewMsgId service.httpWaitData
  -- `Prepare` left its id zero, so the container is numbered like a new message that needs no ack
  let (containerMsgId, session) :=
    b.outbox.session.prepareToSend mtprotoMsgId (getMsgId b.ints) b.bigMsgId forceNewMsgId
  let (seqNo, outbox) := { b.outbox with session := session }.nextRequestSeqNumber false
  let ints ← setNumbers b.ints containerMsgId seqNo
  let session := { session with sentContainers := session.sentContainers.emplace containerMsgId b.messages }
  some (ints, { outbox with session := session })

end Outbox

end IMeDesktop.Mtproto.Requests
