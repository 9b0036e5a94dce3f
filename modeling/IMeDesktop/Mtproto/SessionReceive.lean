import IMeDesktop.Mtproto.Dcenter
import IMeDesktop.Mtproto.Session

/-! # What a session does with received messages

Messages are taken as parsed: `unreadable` is one whose `read` fails, and the parts of
a container are a list that may break off. The decompressor, the callbacks of the
instance and the answer of the key binder are given with each step.

`requestsAcked` and `resend` follow containers that hold containers; they carry the
number of containers as fuel, since each one they follow is erased first.
-/

namespace IMeDesktop.Mtproto.Requests

open Lib

def mtpcGzipPacked : Nat := 0x3072cfa1
def mtpcRpcError : Nat := 0x2144ca19

inductive HandleResult where
  | success
  | ignored
  | restartConnection
  | resetSession
  | destroyTemporaryKey
  | parseError
  deriving DecidableEq, Repr

structure OuterInfo where
  outerMsgId : Nat
  badTime : Bool := false
  deriving DecidableEq, Repr

mutual

inductive Message where
  | unreadable
  | gzipBroken
  | gzipPacked (unpacked : Message)
  | msgContainer (messages : Messages)
  | msgsAck (msgIds : List Nat)
  | badMsgNotification (badMsgId errorCode : Nat)
  | badServerSalt (badMsgId : Nat)
  | msgsStateInfo (reqMsgId : Nat) (states : List Nat)
  | msgsAllInfo (msgIds states : List Nat)
  | msgDetailedInfo (msgId answerMsgId : Nat)
  | msgNewDetailedInfo (answerMsgId : Nat)
  | rpcResult (reqMsgId typeId : Nat) (rest : List Nat)
  | newSessionCreated (firstMsgId : Nat) (update : List Nat)
  | pong (msgId pingId : Nat)
  | updates (update : List Nat)

/-- The rest of a container. `broken` is a header that cannot be used, `tooLong` a message that
ends behind the container. -/
inductive Messages where
  | done
  | broken (result : HandleResult) (failed : result = .parseError ∨ result = .restartConnection)
  | tooLong (msgId : Nat) (needAck : Bool)
  | next (msgId : Nat) (needAck : Bool) (message : Message) (rest : Messages)

end

/-- What a step finds outside of the session. -/
structure Surroundings where
  hasCallback : Nat → Bool := fun _ => true
  ungzip : List Nat → List Nat := id
  isDestroyedTemporaryKeyError : List Nat → Bool := fun _ => false
  bindState : DcKeyBindState := .success
  releaseKeyCreationOnDone : Bool := true
  destroyOldEnoughPersistentKey : Bool := false
  regularDc : Bool := true

namespace SessionPrivate

/-! ## Received ids -/

inductive Registered where
  | success
  | duplicate
  | tooOld
  deriving DecidableEq, Repr

def registerMsgId (s : SessionPrivate) (msgId : Nat) (needAck : Bool) : Registered × SessionPrivate :=
  let ids := s.receivedMessageIds
  if ids.contains msgId then (.duplicate, s)
  else if ids.size < kIdsBufferSize ∨ (ids.entries.head?.elim 0 Prod.fst) < msgId then
    (.success, { s with receivedMessageIds := ids.emplace msgId needAck })
  else (.tooOld, s)

def shrinkReceived (s : SessionPrivate) : SessionPrivate :=
  { s with
    receivedMessageIds := s.receivedMessageIds.eraseFirst (s.receivedMessageIds.size - kIdsBufferSize) }

def ackReceived (s : SessionPrivate) (msgId : Nat) (needAck : Bool) : SessionPrivate :=
  if needAck then { s with ackRequestData := s.ackRequestData ++ [msgId] } else s

/-! ## Acknowledged and repeated requests -/

def wasSent (s : SessionPrivate) (msgId : Nat) : Nat :=
  if msgId = s.pingMsgId ∨ msgId = s.bindMsgId then kNoRequest
  else
    match s.resendingIds.find? msgId with
    | some requestId => requestId
    | none =>
        match s.ackedIds.find? msgId with
        | some requestId => requestId
        | none =>
            if s.sentContainers.contains msgId then kNoRequest
            else
              match s.haveSent.find? msgId with
              | some requestId => if requestId ≠ 0 then requestId else kNoRequest
              | none => 0

section Steps

variable (around : Surroundings)

/-- One id of `requestsAcked`, with the ids it adds to `toAckMore`. -/
def requestAcked (byResponse : Bool) (s : SessionPrivate) (msgId : Nat) : List Nat × SessionPrivate :=
  match s.sentContainers.find? msgId with
  | some messages => (messages, { s with sentContainers := s.sentContainers.erase msgId })
  | none =>
      if s.stateAndResendRequests.contains msgId then
        ([], { s with stateAndResendRequests := s.stateAndResendRequests.erase msgId })
      else
        match s.haveSent.find? msgId with
        | some requestId =>
            if !byResponse && around.hasCallback requestId then ([], s)
            else
              ([], { s with
                haveSent := s.haveSent.erase msgId
                ackedIds := s.ackedIds.emplace msgId requestId })
        | none =>
            match s.resendingIds.find? msgId with
            | none => ([], s)
            | some requestId =>
                if !byResponse && around.hasCallback requestId then ([], s)
                else
                  let s := { s with resendingIds := s.resendingIds.erase msgId }
                  if s.toSend.contains requestId then
                    ([], { s with
                      ackedIds := s.ackedIds.emplace msgId requestId
                      toSend := s.toSend.erase requestId })
                  else ([], s)

def requestsAckedLoop (byResponse : Bool) : SessionPrivate → List Nat → List Nat × SessionPrivate
  | s, [] => ([], s)
  | s, msgId :: ids =>
      let (more, s) := requestAcked around byResponse s msgId
      let (toAckMore, s) := requestsAckedLoop byResponse s ids
      (more ++ toAckMore, s)

def trimAcked (s : SessionPrivate) : SessionPrivate :=
  { s with ackedIds := s.ackedIds.eraseFirst (s.ackedIds.size - kIdsBufferSize) }

def requestsAckedCalls : Nat → SessionPrivate → List Nat → Bool → SessionPrivate
  | 0, s, _, _ => s
  | fuel + 1, s, ids, byResponse =>
      let (toAckMore, s) := requestsAckedLoop around byResponse s ids
      let s := s.trimAcked
      if toAckMore = [] then s else requestsAckedCalls fuel s toAckMore false

def requestsAcked (s : SessionPrivate) (ids : List Nat) (byResponse : Bool) : SessionPrivate :=
  requestsAckedCalls around (s.sentContainers.size + 1) s ids byResponse

def requestsFixTimeSalt (s : SessionPrivate) (ids : List Nat) : Bool := ids.any fun id => s.wasSent id ≠ 0

def clearSpecialMsgId (s : SessionPrivate) (msgId : Nat) : SessionPrivate :=
  if msgId = s.pingMsgId then { s with pingMsgId := 0, pingId := 0 }
  else if msgId = s.bindMsgId then { s with bindMsgId := 0 }
  else s

/-- A request goes back from `haveSent` to `toSend`. -/
def resendRequest (s : SessionPrivate) (msgId requestId : Nat) : SessionPrivate :=
  { s with
    haveSent := s.haveSent.erase msgId
    requests := Function.update s.requests requestId
      { s.requests requestId with forceSendInContainer := true }
    resendingIds := s.resendingIds.emplace msgId requestId
    toSend := s.toSend.emplace requestId () }

def resendCalls : Nat → SessionPrivate → Nat → SessionPrivate
  | 0, s, _ => s
  | fuel + 1, s, msgId =>
      let s :=
        match s.sentContainers.find? msgId with
        | some messages =>
            messages.foldl (resendCalls fuel) { s with sentContainers := s.sentContainers.erase msgId }
        | none =>
            match s.haveSent.find? msgId with
            | some requestId => s.resendRequest msgId requestId
            | none => s
      s.clearSpecialMsgId msgId

def resend (s : SessionPrivate) (msgId : Nat) : SessionPrivate :=
  resendCalls (s.sentContainers.size + 1) s msgId

def resendAll (s : SessionPrivate) : SessionPrivate :=
  s.haveSent.entries.foldl (fun s e => s.resendRequest e.1 e.2) s

/-- `setState(ConnectedState, ConnectingState)`, with what follows it. -/
def becomeConnected (s : SessionPrivate) : SessionPrivate :=
  if s.state = .connecting then { s with state := .connected }.resendAll else s

/-- The loop of `handleMsgsStates`, with the ids that it acknowledges. -/
def handleMsgsStatesLoop : SessionPrivate → List (Nat × Nat) → List Nat × SessionPrivate
  | s, [] => ([], s)
  | s, (requestMsgId, state) :: rest =>
      let wasReceived : Bool := state % 8 = 4
      if s.haveSent.contains requestMsgId then
        if wasReceived then
          let (acked, s) := handleMsgsStatesLoop s rest
          (requestMsgId :: acked, s)
        else handleMsgsStatesLoop (s.resend requestMsgId) rest
      else
        -- a request that is being sent again will be removed from there
        let cancelled := s.resendingIds.contains requestMsgId && wasReceived
        let (acked, s) := handleMsgsStatesLoop s rest
        (if cancelled then requestMsgId :: acked else acked, s)

def handleMsgsStates (s : SessionPrivate) (ids states : List Nat) : SessionPrivate :=
  if ids = [] ∨ states.length ≠ ids.length then s
  else
    let (acked, s) := handleMsgsStatesLoop s (ids.zip states)
    requestsAcked around s acked false

def handleBindResponse (s : SessionPrivate) (requestMsgId : Nat) : HandleResult × SessionPrivate :=
  if !s.keyCreator || s.bindMsgId = 0 || s.bindMsgId ≠ requestMsgId then (.ignored, s)
  else
    let s := { s with bindMsgId := 0 }
    match around.bindState with
    | .success =>
        let s := { s with keyCreator := false }
        (if around.releaseKeyCreationOnDone then .success else .destroyTemporaryKey, s)
    | .definitelyDestroyed =>
        (if around.destroyOldEnoughPersistentKey then .destroyTemporaryKey else .success, s)
    | .failed => (.success, s)

def received (s : SessionPrivate) (message : ReceivedMessage) : SessionPrivate :=
  { s with haveReceivedMessages := s.haveReceivedMessages ++ [message] }

def ignoredIf (badTime : Bool) : HandleResult := if badTime then .ignored else .success

/-- The bytes of a response; none when they cannot be unpacked. -/
def rpcResponse (typeId : Nat) (rest : List Nat) : List Nat :=
  if typeId = mtpcGzipPacked then around.ungzip rest else typeId :: rest

def destroysTemporaryKey (response : List Nat) : Bool :=
  response.head? = some mtpcRpcError && around.isDestroyedTemporaryKeyError response

/-- The answer to a request, whose time is good. -/
def handleRpcResult (s : SessionPrivate) (info : OuterInfo) (requestMsgId typeId : Nat) (rest : List Nat) :
    HandleResult × SessionPrivate :=
  let response := rpcResponse around typeId rest
  if response = [] then (.restartConnection, s)
  else if destroysTemporaryKey around response then (.destroyTemporaryKey, s)
  else
    let s := requestsAcked around s [requestMsgId] true
    match handleBindResponse around s requestMsgId with
    | (.ignored, s) =>
        let requestId := s.wasSent requestMsgId
        if requestId ≠ 0 ∧ requestId ≠ kNoRequest then
          (.success, s.received { reply := response, outerMsgId := info.outerMsgId, requestId := requestId })
        else (.success, s)
    | (bindResult, s) => (bindResult, s)

/-- The serialized `rpc_error` with the code 500 and the text `PROTOCOL_ERROR`. -/
def protocolError : List Nat := [mtpcRpcError, 500, 0x4F52500E, 0x4F434F54, 0x52455F4C, 0x00524F52]

def handleBadMsgNotification (s : SessionPrivate) (info : OuterInfo) (resendId errorCode : Nat) :
    HandleResult × SessionPrivate :=
  if errorCode = 16 ∨ errorCode = 17 ∨ errorCode = 32 ∨ errorCode = 33 ∨ errorCode = 64 then
    if s.wasSent resendId = 0 then (ignoredIf info.badTime, s)
    else if errorCode = 16 ∨ errorCode = 17 ∨ errorCode = 64 then (.success, s.resend resendId)
    else (.resetSession, s)
  else
    let requestId := s.wasSent resendId
    let s :=
      if requestId ≠ 0 then
        s.received { reply := protocolError, outerMsgId := info.outerMsgId, requestId := requestId }
      else s
    (ignoredIf info.badTime, s)

/-- An answer that was not received yet is asked for again. -/
def ackOrRequest (s : SessionPrivate) (answerMsgId : Nat) : SessionPrivate :=
  if s.receivedMessageIds.contains answerMsgId then
    { s with ackRequestData := s.ackRequestData ++ [answerMsgId] }
  else { s with resendRequestData := s.resendRequestData ++ [answerMsgId] }

def pongReceived (s : SessionPrivate) (pingId : Nat) : SessionPrivate :=
  if pingId = s.pingId then { s with pingId := 0 } else s

mutual

def handleOneReceived (s : SessionPrivate) (info : OuterInfo) : Message → HandleResult × SessionPrivate
  | .unreadable => (.parseError, s)
  | .gzipBroken => (.restartConnection, s)
  | .gzipPacked unpacked => handleOneReceived s info unpacked
  | .msgContainer messages => handleContainer s info messages
  | .msgsAck ids =>
      if ids = [] then (ignoredIf info.badTime, s)
      else if info.badTime && !s.requestsFixTimeSalt ids then (.ignored, s)
      else (.success, requestsAcked around s ids false)
  | .badMsgNotification badMsgId errorCode => handleBadMsgNotification s info badMsgId errorCode
  | .badServerSalt badMsgId =>
      if s.wasSent badMsgId = 0 then (ignoredIf info.badTime, s)
      else (.success, s.becomeConnected.resend badMsgId)
  | .msgsStateInfo reqMsgId states =>
      match s.stateAndResendRequests.find? reqMsgId with
      | none => (ignoredIf info.badTime, s)
      | some ids => (.success, handleMsgsStates around (requestsAcked around s [reqMsgId] true) ids states)
  | .msgsAllInfo ids states =>
      if info.badTime then (.ignored, s) else (.success, handleMsgsStates around s ids states)
  | .msgDetailedInfo msgId answerMsgId =>
      if info.badTime && !s.requestsFixTimeSalt [msgId] then (.ignored, s)
      else (.success, (requestsAcked around s [msgId] false).ackOrRequest answerMsgId)
  | .msgNewDetailedInfo answerMsgId =>
      if info.badTime then (.ignored, s) else (.success, s.ackOrRequest answerMsgId)
  | .rpcResult reqMsgId typeId rest =>
      if info.badTime && !s.requestsFixTimeSalt [reqMsgId] then (.ignored, s)
      else handleRpcResult around s info reqMsgId typeId rest
  | .newSessionCreated firstMsgId update =>
      if info.badTime && !s.requestsFixTimeSalt [firstMsgId] then (.ignored, s)
      else
        let older := s.haveSent.entries.takeWhile fun e => e.1 < firstMsgId
        let toResend := (older.filter fun e => e.2 ≠ 0).map Prod.fst
        (.success, (toResend.foldl resend s).received { reply := update, outerMsgId := info.outerMsgId })
  | .pong msgId pingId =>
      if s.wasSent msgId = 0 then (.ignored, s)
      else
        let s := s.pongReceived pingId
        if info.badTime && !s.requestsFixTimeSalt [msgId] then (.ignored, s)
        else (.success, requestsAcked around s [msgId] true)
  | .updates update =>
      if info.badTime then (.resetSession, s)
      else if around.regularDc then (.success, s.received { reply := update, outerMsgId := info.outerMsgId })
      else (.success, s)

def handleContainer (s : SessionPrivate) (info : OuterInfo) : Messages → HandleResult × SessionPrivate
  | .done => (.success, s)
  | .broken result _ => (result, s)
  | .tooLong msgId needAck =>
      (.parseError, s.ackReceived msgId needAck)
  | .next msgId needAck message rest =>
      match (s.ackReceived msgId needAck).registerMsgId msgId needAck with
      | (.success, s) =>
          match handleOneReceived s info message with
          | (.success, s) => handleContainer s { info with badTime := false } rest
          | (result, s) => (result, s)
      | (.duplicate, s) => handleContainer s info rest
      | (.tooOld, s) => (.resetSession, s)

end

/-- A message of the connection, outside of containers. `newSalt` is a salt other than the
session's. -/
def handleReceived (s : SessionPrivate) (msgId : Nat) (needAck badTime newSalt : Bool) (message : Message) :
    SessionPrivate :=
  let s := if newSalt && !badTime then s.becomeConnected else s
  match (s.ackReceived msgId needAck).registerMsgId msgId needAck with
  | (.success, s) =>
      shrinkReceived (handleOneReceived around s { outerMsgId := msgId, badTime := badTime } message).2
  | (_, s) => s.shrinkReceived

/-! ## Timers and connections -/

/-- `old` are the messages sent long ago. -/
def checkSentRequests (s : SessionPrivate) (old : Nat → Bool) : SessionPrivate :=
  let due := s.haveSent.entries.filter fun e => old e.1
  { s with stateRequestData := due.foldl (fun data e => data.emplace e.1 ()) s.stateRequestData }

def clearOldContainers (s : SessionPrivate) (old : Nat → Bool) : SessionPrivate :=
  (s.sentContainers.entries.filter fun e => old e.1).foldl
    (fun s e => e.2.foldl resend { s with sentContainers := s.sentContainers.erase e.1 }) s

/-- A new connection; a key may have to be created for it. -/
def connectToServer (s : SessionPrivate) (keyCreator : Bool) : SessionPrivate :=
  { s with
    state := .connecting, keyCreator := keyCreator, bindMsgId := 0
    pingId := 0, pingMsgId := 0, pingIdToSend := 0 }

def authKeyChecked (s : SessionPrivate) (hasSalt : Bool) (pingId : Nat) : SessionPrivate :=
  let s := if hasSalt ∧ s.state ≠ .connected then { s with state := .connected }.resendAll else s
  { s with pingIdToSend := pingId }

def changeSessionId (s : SessionPrivate) : SessionPrivate :=
  { s with
    sessionMarkedAsStarted := false, ackRequestData := [], resendRequestData := []
    stateRequestData := .empty, receivedMessageIds := .empty }

/-- `Session::start`: a new `SessionPrivate` with the old `SessionData`. -/
def start (s : SessionPrivate) : SessionPrivate :=
  { requests := s.requests, toSend := s.toSend, haveSent := s.haveSent
    haveReceivedMessages := s.haveReceivedMessages, generated := s.generated }

/-- The instance takes what was received. -/
def tryToReceive (s : SessionPrivate) : SessionPrivate := { s with haveReceivedMessages := [] }

end Steps

/-! ## Runs -/

/-- What can happen to a session. Request ids are positive, as `GetNextRequestId` gives them. -/
inductive Event where
  | sendPrepared (requestId : Nat) (positive : 0 < requestId) (int : requestId < 2 ^ 31) (needAck : Bool)
  | cancel (requestId msgId : Nat)
  | tryToSend (sending : Sending)
  | handleReceived (around : Surroundings) (msgId : Nat) (needAck badTime newSalt : Bool) (message : Message)
  | checkSentRequests (old : Nat → Bool)
  | clearOldContainers (old : Nat → Bool)
  | connectToServer (keyCreator : Bool)
  | authKeyChecked (hasSalt : Bool) (pingId : Nat)
  | changeSessionId
  | start
  | tryToReceive

def step (mtprotoMsgId : Nat → Nat) (s : SessionPrivate) : Event → SessionPrivate
  | .sendPrepared requestId _ _ needAck => s.sendPrepared requestId needAck
  | .cancel requestId msgId => s.cancel requestId msgId
  | .tryToSend sending => s.tryToSend mtprotoMsgId sending
  | .handleReceived around msgId needAck badTime newSalt message =>
      s.handleReceived around msgId needAck badTime newSalt message
  | .checkSentRequests old => s.checkSentRequests old
  | .clearOldContainers old => s.clearOldContainers old
  | .connectToServer keyCreator => s.connectToServer keyCreator
  | .authKeyChecked hasSalt pingId => s.authKeyChecked hasSalt pingId
  | .changeSessionId => s.changeSessionId
  | .start => s.start
  | .tryToReceive => s.tryToReceive

def run (mtprotoMsgId : Nat → Nat) (s : SessionPrivate) (events : List Event) : SessionPrivate :=
  events.foldl (step mtprotoMsgId) s

end SessionPrivate

end IMeDesktop.Mtproto.Requests
