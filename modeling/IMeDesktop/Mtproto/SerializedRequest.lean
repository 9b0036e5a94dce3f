import IMeDesktop.Lib.Buffer
import IMeDesktop.Mtproto.Scheme
import IMeDesktop.Mtproto.Session

/-! # Requests as ints

A request is a vector of ints from the moment it is serialized: eight of them are in
front of the message, for the salt, the session, the message id, the sequence number and
the length in bytes. Padding may follow, since a request that was sent alone is padded in
place.

The fields say what is at which position; a request without a message cannot be built.
The length is a number, not an `int32`: it is counted from ints that are in memory.
-/

namespace IMeDesktop.Mtproto.Requests

open Lib

def kMessageIdPosition : Nat := 4
def kSeqNoPosition : Nat := 6
def kMessageLengthPosition : Nat := 7
def kMessageBodyPosition : Nat := 8

/-- `tl::count_length` of so many bytes, which are written as whole ints. -/
def countLength (bytes : Nat) : Nat := (bytes / 4 + if bytes % 4 = 0 then 0 else 1) * 4

/-- `after` is the request that has to be handled before. -/
structure RequestData where
  salt : Nat := 0
  sessionId : Nat := 0
  msgId : Nat := 0
  seqNo : Nat := 0
  body : List Nat
  padding : List Nat := []
  after : Option Nat := none
  needsLayer : Bool := false
  forceSendInContainer : Bool := false
  nonempty : body ≠ []

namespace RequestData

variable (request : RequestData)

def ints : List Nat :=
  longInts request.salt ++ (longInts request.sessionId ++ (longInts request.msgId ++
    request.seqNo :: 4 * request.body.length :: (request.body ++ request.padding)))

/-- The header that goes into a container: the id, the number and the length. -/
def head : List Nat := longInts request.msgId ++ [request.seqNo, 4 * request.body.length]

def sizeInBytes : Nat := (request.ints.drop kMessageLengthPosition).headD 0

def messageSize : Nat := 2 + 1 + 1 + countLength request.sizeInBytes / 4

def needAck : Bool :=
  let type := (request.ints.drop kMessageBodyPosition).headD 0
  !(type = mtpcMsgContainer || type = mtpcMsgsAck || type = mtpcHttpWait || type = mtpcBadMsgNotification ||
    type = mtpcMsgsAllInfo || type = mtpcMsgsStateInfo || type = mtpcMsgDetailedInfo ||
    type = mtpcMsgNewDetailedInfo)

/-- The same request in the model that has no ints. -/
def toRequest : SerializedRequest where
  msgId := request.msgId
  needAck := request.needAck
  forceSendInContainer := request.forceSendInContainer

@[simp]
theorem sizeInBytes_eq : request.sizeInBytes = 4 * request.body.length := rfl

theorem countLength_body : countLength request.sizeInBytes / 4 = request.body.length := by
  rw [sizeInBytes_eq, countLength, if_pos (by omega)]
  omega

theorem messageSize_eq : request.messageSize = 4 + request.body.length := by
  rw [messageSize, countLength_body]

@[simp]
theorem length_head : request.head.length = 4 := rfl

/-- What stands where. -/
theorem ints_pieces : request.ints =
    (longInts request.salt ++ longInts request.sessionId) ++ (request.head ++ (request.body ++ request.padding)) := by
  simp only [ints, head, List.append_assoc, List.cons_append, List.nil_append]

theorem getMsgId_ints :
    longOf ((request.ints.drop kMessageIdPosition).headD 0) ((request.ints.drop (kMessageIdPosition + 1)).headD 0) =
      request.msgId := longOf_longInts request.msgId

end RequestData

/-- `SerializedRequest::Prepare`, before the message is written behind it. -/
def prepareInts (size : Nat) : List Nat := List.replicate kMessageLengthPosition 0 ++ [4 * size]

/-- `SerializedRequest::Serialize`. -/
def serialize (body : List Nat) (nonempty : body ≠ []) : RequestData := { body := body, nonempty := nonempty }

theorem ints_serialize (body : List Nat) (nonempty : body ≠ []) :
    (serialize body nonempty).ints = prepareInts body.length ++ body := by
  simp [serialize, RequestData.ints, prepareInts, kMessageLengthPosition, longInts, List.replicate]

/-! ## Writing ids and numbers -/

def getMsgId (ints : List Nat) : Nat :=
  longOf ((ints.drop kMessageIdPosition).headD 0) ((ints.drop (kMessageIdPosition + 1)).headD 0)

/-- `setMsgId` and `setSeqNo`. -/
def setNumbers (ints : List Nat) (msgId seqNo : Nat) : Option (List Nat) :=
  if kMessageBodyPosition < ints.length then
    (overwrite ints kMessageIdPosition (longInts msgId)).bind fun ints =>
      overwrite ints kSeqNoPosition [seqNo]
  else none

/-- On the ints of a request this sets its fields. -/
theorem setNumbers_ints (request : RequestData) (msgId seqNo : Nat) :
    setNumbers request.ints msgId seqNo = some { request with msgId := msgId, seqNo := seqNo }.ints := by
  obtain ⟨a, body, shape⟩ := List.exists_cons_of_ne_nil request.nonempty
  have long : kMessageBodyPosition < request.ints.length := by
    simp only [RequestData.ints, shape, longInts, List.length_append, List.length_cons, List.length_nil,
      kMessageBodyPosition]
    omega
  have number : overwrite ((longInts request.salt ++ longInts request.sessionId) ++
        (longInts request.msgId ++ request.seqNo :: 4 * request.body.length :: (request.body ++ request.padding)))
      kMessageIdPosition (longInts msgId) =
      some ((longInts request.salt ++ longInts request.sessionId) ++
        (longInts msgId ++ request.seqNo :: 4 * request.body.length :: (request.body ++ request.padding))) :=
    overwrite_pieces rfl rfl
  have order : overwrite ((longInts request.salt ++ (longInts request.sessionId ++ longInts msgId)) ++
        ([request.seqNo] ++ 4 * request.body.length :: (request.body ++ request.padding))) kSeqNoPosition [seqNo] =
      some ((longInts request.salt ++ (longInts request.sessionId ++ longInts msgId)) ++
        ([seqNo] ++ 4 * request.body.length :: (request.body ++ request.padding))) :=
    overwrite_pieces rfl rfl
  simp only [List.append_assoc, List.cons_append, List.nil_append] at number order
  rw [setNumbers, if_pos long, RequestData.ints, number, Option.bind_some, order, RequestData.ints]

/-! ## Service requests -/

/-- A boxed `Vector<long>`. -/
def longsInts (ids : List Nat) : List Nat := mtpcVector :: ids.length :: ids.flatMap longInts

def kPingDelayDisconnect : Nat := 60

def pingRequest (pingId : Nat) (delayed : Bool) : RequestData :=
  if delayed then serialize (mtpcPingDelayDisconnect :: (longInts pingId ++ [kPingDelayDisconnect])) nofun
  else serialize (mtpcPing :: longInts pingId) nofun

def ackRequest (ids : List Nat) : RequestData := serialize (mtpcMsgsAck :: longsInts ids) nofun

def resendRequestOf (ids : List Nat) : RequestData := serialize (mtpcMsgResendReq :: longsInts ids) nofun

def stateRequest (ids : List Nat) : RequestData := serialize (mtpcMsgsStateReq :: longsInts ids) nofun

def httpWaitRequest : RequestData := serialize [mtpcHttpWait, 100, 30, 25000] nofun

end IMeDesktop.Mtproto.Requests
