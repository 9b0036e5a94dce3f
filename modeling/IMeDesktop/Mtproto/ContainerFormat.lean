import IMeDesktop.Mtproto.Container

/-! # The format of sent containers

What is placed in a container is a list of messages, and the ints of the container are
theirs, one after another: the length that was counted in advance comes out right however
the messages are wrapped, and reading the container gives the messages back.
-/

namespace IMeDesktop.Mtproto.Requests

open Lib

/-- A message of a container. -/
structure InnerMessage where
  msgId : Nat
  seqNo : Nat
  body : List Nat
  deriving DecidableEq, Repr

namespace InnerMessage

def ints (message : InnerMessage) : List Nat :=
  longInts message.msgId ++ (message.seqNo :: 4 * message.body.length :: message.body)

def size (message : InnerMessage) : Nat := 4 + message.body.length

@[simp]
theorem length_ints (message : InnerMessage) : message.ints.length = message.size := by
  simp only [ints, size, longInts, List.length_append, List.length_cons, List.length_nil]
  omega

end InnerMessage

/-- One round of the loop of `handleOneReceived` over a container. -/
def readMessage : List Nat → Option (InnerMessage × List Nat)
  | low :: high :: seqNo :: bytes :: rest =>
      if bytes % 4 ≠ 0 ∨ bytes < 4 then none
      else if bytes / 4 > rest.length then none
      else some (⟨longOf low high, seqNo, rest.take (bytes / 4)⟩, rest.drop (bytes / 4))
  | _ => none

def readMessages : Nat → List Nat → Option (List InnerMessage × List Nat)
  | 0, ints => some ([], ints)
  | count + 1, ints => do
      let (message, ints) ← readMessage ints
      let (messages, ints) ← readMessages count ints
      some (message :: messages, ints)

theorem readMessage_ints {message : InnerMessage} (nonempty : message.body ≠ []) (rest : List Nat) :
    readMessage (message.ints ++ rest) = some (message, rest) := by
  have positive : 0 < message.body.length := List.length_pos_iff.mpr nonempty
  have whole : 4 * message.body.length / 4 = message.body.length := by omega
  have fits : ¬ message.body.length > (message.body ++ rest).length := by
    rw [List.length_append]
    omega
  simp only [InnerMessage.ints, longInts, List.cons_append, List.nil_append, readMessage]
  rw [if_neg (by omega), whole, if_neg fits, longOf_longInts, List.take_left, List.drop_left]

theorem readMessages_ints (messages : List InnerMessage) (nonempty : ∀ m ∈ messages, m.body ≠ []) :
    readMessages messages.length (messages.flatMap InnerMessage.ints) = some (messages, []) := by
  induction messages with
  | nil => rfl
  | cons message messages ih =>
      obtain ⟨first, others⟩ := List.forall_mem_cons.mp nonempty
      rw [List.length_cons, List.flatMap_cons, readMessages, readMessage_ints first]
      simp [ih others]

/-! ## Placing one message -/

section Append

variable {haveSent : SortedMap Nat Nat} {request : RequestData} {afterId skip requestId : Nat}

theorem appendPlain_eq (ints : List Nat) (request : RequestData) :
    appendPlain ints request = some (ints ++ (request.head ++ request.body)) := by
  have copied : copyInto (ints ++ (List.replicate request.messageSize 0 ++ [])) ints.length
      ((longInts request.salt ++ longInts request.sessionId) ++ ((request.head ++ request.body) ++ request.padding))
      4 request.messageSize = some (ints ++ ((request.head ++ request.body) ++ [])) :=
    copyInto_pieces rfl (by simp [request.messageSize_eq]) rfl (by simp [request.messageSize_eq])
  rw [appendPlain, resize_add, request.ints_pieces]
  simpa only [List.append_nil, List.append_assoc] using copied

/-- What `WrapInvokeAfter` writes in front of a request. -/
def invokeAfter (haveSent : SortedMap Nat Nat) (afterId : Nat) : List Nat :=
  if afterId = 0 ∨ haveSent.contains afterId = false then [] else mtpcInvokeAfterMsg :: longInts afterId

theorem copyHead (request : RequestData) (front back : List Nat) :
    copyInto (front ++ (List.replicate 4 0 ++ back)) front.length request.ints 4 4 =
      some (front ++ (request.head ++ back)) := by
  rw [request.ints_pieces]
  exact copyInto_pieces rfl rfl rfl rfl

theorem copyBody (request : RequestData) (front back : List Nat) {position : Nat} (at_ : position = front.length) :
    copyInto (front ++ (List.replicate request.body.length 0 ++ back)) position request.ints 8
      request.body.length = some (front ++ (request.body ++ back)) := by
  have pieces : request.ints = (longInts request.salt ++ longInts request.sessionId ++ request.head) ++
      (request.body ++ request.padding) := by
    rw [request.ints_pieces, List.append_assoc _ request.head]
  rw [pieces]
  exact copyInto_pieces at_ List.length_replicate.symm rfl rfl

theorem wrapInvokeAfter_plain (ints : List Nat) (absent : afterId = 0 ∨ haveSent.contains afterId = false) :
    wrapInvokeAfter haveSent ints request afterId skip =
      some (ints ++ (request.head ++ (List.replicate skip 0 ++ request.body))) := by
  have zeros : resize 0 ints (ints.length + (4 + request.body.length) + skip) =
      ints ++ (List.replicate 4 0 ++ (List.replicate skip 0 ++ List.replicate request.body.length 0)) := by
    rw [Nat.add_assoc, resize_add, ← List.replicate_add, ← List.replicate_add]
    congr 2
    omega
  simp only [wrapInvokeAfter, request.countLength_body, if_pos absent, zeros]
  by_cases skipped : skip = 0
  · subst skipped
    simp only [ne_eq, not_true, if_false, List.replicate_zero, List.nil_append]
    have copied := appendPlain_eq ints request
    rw [appendPlain, resize_add, request.messageSize_eq, List.replicate_add] at copied
    exact copied
  · rw [if_pos skipped, copyHead]
    have behind : ints.length + 4 + skip = (ints ++ (request.head ++ List.replicate skip 0)).length := by
      simp [Nat.add_assoc]
    have copied := copyBody request (ints ++ (request.head ++ List.replicate skip 0)) [] behind
    simp only [List.append_nil, List.append_assoc] at copied
    exact copied

/-- The length of the request and of the container grow by three ints. -/
theorem wrapInvokeAfter_sent {front back : List Nat} {length : Nat} (seven : front.length = 7)
    (present : afterId ≠ 0) (sent : haveSent.contains afterId = true) :
    wrapInvokeAfter haveSent (front ++ length :: back) request afterId skip =
      some ((front ++ (length + 3 * 4) :: back) ++ (longInts request.msgId ++ (request.seqNo ::
        (4 * request.body.length + 3 * 4) :: (List.replicate skip 0 ++
          (mtpcInvokeAfterMsg :: (longInts afterId ++ request.body)))))) := by
  generalize whole : front ++ length :: back = ints
  have found : ¬ (afterId = 0 ∨ haveSent.contains afterId = false) := by simp [present, sent]
  have zeros : resize 0 ints (ints.length + (4 + request.body.length) + skip + 3) =
      ints ++ (List.replicate 4 0 ++ (List.replicate skip 0 ++ ([0] ++ ([0, 0] ++
        List.replicate request.body.length 0)))) := by
    have three : ([0] ++ ([0, 0] ++ List.replicate request.body.length 0) : List Nat) =
        List.replicate (3 + request.body.length) 0 := by
      rw [List.replicate_add]
      rfl
    rw [three, Nat.add_assoc, Nat.add_assoc, resize_add, ← List.replicate_add, ← List.replicate_add]
    congr 2
    omega
  let tail := List.replicate skip 0 ++ ([0] ++ ([0, 0] ++ List.replicate request.body.length 0))
  have longer : changeAt ((ints ++ (longInts request.msgId ++ [request.seqNo])) ++ 4 * request.body.length :: tail)
      (ints.length + 3) (· + 3 * 4) =
      some ((ints ++ (longInts request.msgId ++ [request.seqNo])) ++ (4 * request.body.length + 3 * 4) :: tail) :=
    changeAt_pieces (by simp)
  let head := longInts request.msgId ++ [request.seqNo, 4 * request.body.length + 3 * 4]
  have four : head.length = 4 := rfl
  have name : overwrite ((ints ++ (head ++ List.replicate skip 0)) ++
      ([0] ++ ([0, 0] ++ List.replicate request.body.length 0))) (ints.length + 4 + skip) [mtpcInvokeAfterMsg] =
      some ((ints ++ (head ++ List.replicate skip 0)) ++
        ([mtpcInvokeAfterMsg] ++ ([0, 0] ++ List.replicate request.body.length 0))) :=
    overwrite_pieces (by simp only [List.length_append, List.length_replicate, four]; omega) rfl
  have number : overwrite ((ints ++ (head ++ (List.replicate skip 0 ++ [mtpcInvokeAfterMsg]))) ++
      ([0, 0] ++ List.replicate request.body.length 0)) (ints.length + 4 + skip + 1) (longInts afterId) =
      some ((ints ++ (head ++ (List.replicate skip 0 ++ [mtpcInvokeAfterMsg]))) ++
        (longInts afterId ++ List.replicate request.body.length 0)) :=
    overwrite_pieces (by simp only [List.length_append, List.length_replicate, List.length_singleton, four]; omega) rfl
  have behind : ints.length + 4 + skip + 3 =
      (ints ++ (head ++ (List.replicate skip 0 ++ ([mtpcInvokeAfterMsg] ++ longInts afterId)))).length := by
    simp only [List.length_append, List.length_replicate, List.length_singleton, length_longInts, four]
    omega
  have body := copyBody request _ [] behind
  have total : ∀ behind : List Nat, changeAt (ints ++ behind) 7 (· + 3 * 4) =
      some ((front ++ (length + 3 * 4) :: back) ++ behind) := by
    intro behind
    rw [← whole, List.append_assoc, List.cons_append, changeAt_pieces seven.symm, List.append_assoc,
      List.cons_append]
  have container : ints.length + 3 ≠ 7 := by
    rw [← whole, List.length_append, List.length_cons]
    omega
  simp only [head, tail, List.append_assoc, List.cons_append, List.nil_append, List.append_nil] at longer name number body
  simp only [wrapInvokeAfter, request.countLength_body, if_neg found, zeros, copyHead, Option.bind_eq_bind,
    Option.bind_some, RequestData.head, List.append_assoc, List.cons_append, List.nil_append, longer, name, number,
    body, if_pos container, total]

/-- The ints of the layer, between the header of a message and the rest of it. -/
theorem copyInit {init : List Nat} (ints rest : List Nat) (msgId seqNo bytes : Nat) :
    copyInto (ints ++ (longInts msgId ++ seqNo :: bytes :: (List.replicate init.length 0 ++ rest))) (ints.length + 4)
      init 0 init.length = some (ints ++ (longInts msgId ++ seqNo :: bytes :: (init ++ rest))) := by
  have copied : copyInto ((ints ++ (longInts msgId ++ [seqNo, bytes])) ++ (List.replicate init.length 0 ++ rest))
      (ints.length + 4) ([] ++ (init ++ [])) 0 init.length =
      some ((ints ++ (longInts msgId ++ [seqNo, bytes])) ++ (init ++ rest)) :=
    copyInto_pieces (by simp [longInts]) List.length_replicate.symm rfl rfl
  simpa only [List.append_assoc, List.cons_append, List.nil_append, List.append_nil] using copied

theorem raiseLength (ints rest : List Nat) (msgId seqNo bytes more : Nat) :
    changeAt (ints ++ (longInts msgId ++ seqNo :: bytes :: rest)) (ints.length + 3) (· + more) =
      some (ints ++ (longInts msgId ++ seqNo :: (bytes + more) :: rest)) := by
  have changed : changeAt ((ints ++ (longInts msgId ++ [seqNo])) ++ bytes :: rest) (ints.length + 3) (· + more) =
      some ((ints ++ (longInts msgId ++ [seqNo])) ++ (bytes + more) :: rest) :=
    changeAt_pieces (by simp [longInts])
  simpa only [List.append_assoc, List.cons_append, List.nil_append] using changed

/-- The branch of a request with the layer and without a request before it. -/
theorem appendLayered (ints init : List Nat) (request : RequestData) :
    ((copyInto (resize 0 ints (ints.length + init.length + request.messageSize)) ints.length request.ints 4 4).bind
      fun ints' => (copyInto ints' (ints.length + 4) init 0 init.length).bind
      fun ints' => (copyInto ints' (ints.length + 4 + init.length) request.ints 8 request.body.length).bind
      fun ints' => changeAt ints' (ints.length + 3) (· + init.length * 4)) =
      some (ints ++ (longInts request.msgId ++ request.seqNo :: (4 * request.body.length + init.length * 4) ::
        (init ++ request.body))) := by
  have zeros : resize 0 ints (ints.length + init.length + request.messageSize) =
      ints ++ (List.replicate 4 0 ++ (List.replicate init.length 0 ++ List.replicate request.body.length 0)) := by
    rw [Nat.add_assoc, resize_add, request.messageSize_eq, ← List.replicate_add, ← List.replicate_add]
    congr 2
    omega
  have filled := @copyInit init ints (List.replicate request.body.length 0) request.msgId request.seqNo
    (4 * request.body.length)
  have behind : ints.length + 4 + init.length = (ints ++ (request.head ++ init)).length := by
    simp only [List.length_append, RequestData.length_head]
    omega
  have body := copyBody request _ [] behind
  simp only [RequestData.head, List.append_assoc, List.cons_append, List.nil_append, List.append_nil] at body
  simp only [zeros, copyHead, Option.bind_some, RequestData.head, List.append_assoc, List.cons_append,
    List.nil_append, filled, body, raiseLength]

theorem Layer.length_initSerialized {layer : Layer} (needed : layer.needsLayer = true) :
    layer.initSizeInInts = layer.initSerialized.length := by
  simp [initSizeInInts, needed, initSerialized]

/-- What is written in front of the requests that are wrapped: the layer, and the request that comes before. -/
def layerInts (layer : Layer) (request : RequestData) : List Nat :=
  if layer.needsLayer && request.needsLayer then layer.initSerialized else []

def afterInts (haveSent : SortedMap Nat Nat) (afterId : Option Nat) (requestId : Nat) (request : RequestData) :
    List Nat :=
  if requestId ≠ 0 ∧ request.needAck then afterId.elim [] (invokeAfter haveSent) else []

/-- `WrapInvokeAfter` in both of its branches. -/
theorem wrapInvokeAfter_eq {front back : List Nat} {length : Nat} (seven : front.length = 7) :
    wrapInvokeAfter haveSent (front ++ length :: back) request afterId skip =
      some ((front ++ (length + 4 * (invokeAfter haveSent afterId).length) :: back) ++
        (longInts request.msgId ++ request.seqNo ::
          (4 * request.body.length + 4 * (invokeAfter haveSent afterId).length) ::
            (List.replicate skip 0 ++ (invokeAfter haveSent afterId ++ request.body)))) := by
  by_cases absent : afterId = 0 ∨ haveSent.contains afterId = false
  · rw [wrapInvokeAfter_plain _ absent, invokeAfter, if_pos absent]
    simp only [RequestData.head, List.append_assoc, List.cons_append, List.nil_append, List.length_nil,
      Nat.mul_zero, Nat.add_zero]
  · obtain ⟨present, sent⟩ := not_or.mp absent
    rw [wrapInvokeAfter_sent seven present (by simpa using sent), invokeAfter, if_neg absent]
    simp only [List.length_cons, length_longInts, List.cons_append]

variable {layer : Layer} {initSerialized : List Nat}

/-- A request is appended as one message, and the container gets longer by what was not counted. -/
theorem appendRequest_eq {front back : List Nat} {length : Nat} (afterId : Option Nat) (seven : front.length = 7)
    (init : (layer.needsLayer && request.needsLayer) = true → initSerialized = layer.initSerialized)
    (wrapped : (layer.needsLayer && request.needsLayer) = true → requestId ≠ 0 ∧ request.needAck = true) :
    appendRequest layer initSerialized haveSent afterId (front ++ length :: back) requestId request =
      some ((front ++ (length + 4 * (afterInts haveSent afterId requestId request).length) :: back) ++
        InnerMessage.ints ⟨request.msgId, request.seqNo, layerInts layer request ++
          (afterInts haveSent afterId requestId request ++ request.body)⟩) := by
  have filled : (front ++ length :: back).length ≠ 0 := by simp
  have plain : ∀ length : Nat, (front ++ length :: back) ++ (request.head ++ request.body) =
      (front ++ length :: back) ++ InnerMessage.ints ⟨request.msgId, request.seqNo, request.body⟩ := by
    intro length
    simp only [RequestData.head, InnerMessage.ints, List.append_assoc, List.cons_append, List.nil_append]
  by_cases layered : (layer.needsLayer && request.needsLayer) = true
  · have size := Layer.length_initSerialized (Bool.and_eq_true_iff.mp layered).1
    have tracked := wrapped layered
    cases afterId with
    | none =>
        have appended := appendLayered (front ++ length :: back) layer.initSerialized request
        simp only [afterInts, if_pos tracked, Option.elim_none, List.length_nil, Nat.mul_zero, Nat.add_zero,
          List.nil_append, layerInts, layered, if_true, InnerMessage.ints]
        rw [List.length_append, Nat.mul_add, Nat.add_comm (4 * _), Nat.mul_comm 4 layer.initSerialized.length]
        generalize front ++ length :: back = ints at filled appended ⊢
        simp only [appendRequest, if_pos tracked, layered, if_true, if_pos filled, init layered, size,
          request.countLength_body, Option.bind_eq_bind, appended]
    | some id =>
        have widths : (front ++ length :: back).length =
            (front ++ (length + 4 * (invokeAfter haveSent id).length) :: back).length := by simp
        have wrap := @wrapInvokeAfter_eq haveSent request id layer.initSerialized.length _ back length seven
        simp only [afterInts, if_pos tracked, Option.elim_some, layerInts, layered, if_true, InnerMessage.ints]
        generalize front ++ length :: back = ints at filled widths wrap ⊢
        generalize front ++ (length + 4 * (invokeAfter haveSent id).length) :: back = longer at widths wrap ⊢
        rw [widths] at filled
        simp only [appendRequest, if_pos tracked, layered, if_true, if_pos filled, init layered, size,
          Option.bind_eq_bind, wrap, Option.bind_some, widths, copyInit, raiseLength, List.length_append]
        congr 6
        omega
  · have none_ints : layerInts layer request = [] := by rw [layerInts, if_neg layered]
    by_cases tracked : requestId ≠ 0 ∧ request.needAck = true
    · cases afterId with
      | none =>
          simp only [appendRequest, if_pos tracked, layered, Bool.false_eq_true, if_false, ne_eq, not_true,
            appendPlain_eq, none_ints, afterInts, Option.elim_none, List.length_nil, Nat.mul_zero, Nat.add_zero,
            List.nil_append, plain]
      | some id =>
          simp only [appendRequest, if_pos tracked, layered, Bool.false_eq_true, if_false, ne_eq, not_true,
            wrapInvokeAfter_eq seven, Option.bind_eq_bind, Option.bind_some, none_ints, afterInts,
            Option.elim_some, List.replicate_zero, List.nil_append, InnerMessage.ints, List.length_append]
          congr 6
          omega
    · simp only [appendRequest, if_neg tracked, appendPlain_eq, none_ints, afterInts, List.length_nil, Nat.mul_zero,
        Nat.add_zero, List.nil_append, plain]

end Append

/-! ## Ids and numbers keep the message -/

theorem Outbox.prepareToSend_request (mtprotoMsgId : Nat → Nat) (o : Outbox) (request : RequestData)
    (currentLastId : Nat) (forceNewMsgId : Bool) :
    (∃ msgId seqNo, (o.prepareToSend mtprotoMsgId request currentLastId forceNewMsgId).1 =
      { request with msgId := msgId, seqNo := seqNo }) ∧
    (o.prepareToSend mtprotoMsgId request currentLastId forceNewMsgId).2.data = o.data := by
  have kept : ∃ msgId seqNo, request = { request with msgId := msgId, seqNo := seqNo } := ⟨_, _, rfl⟩
  rw [prepareToSend]
  split
  · split
    · rw [replaceMsgId]
      split
      · exact ⟨kept, rfl⟩
      · exact ⟨⟨_, _, rfl⟩, rfl⟩
    · exact ⟨kept, rfl⟩
  · exact ⟨⟨_, _, rfl⟩, rfl⟩

namespace Building

variable (mtprotoMsgId : Nat → Nat) (forceNewMsgId : Bool)

/-- Only the message's id and number change, and the container only in its ids. -/
theorem prepare_request (b : Building) (request : RequestData) :
    ∃ msgId seqNo b', b.prepare mtprotoMsgId forceNewMsgId request =
      ({ request with msgId := msgId, seqNo := seqNo }, b') ∧
      b'.ints = b.ints ∧ b'.outbox.data = b.outbox.data := by
  obtain ⟨⟨msgId, seqNo, prepared⟩, data⟩ :=
    b.outbox.prepareToSend_request mtprotoMsgId request b.bigMsgId forceNewMsgId
  exact ⟨msgId, seqNo, _, Prod.ext prepared rfl, rfl, data⟩

/-! ## Filling a container -/

/-- The ints of a container with these messages, while `counted` ints of the length are still to come. -/
def filledInts (count counted : Nat) (placed : List InnerMessage) : List Nat :=
  List.replicate 7 0 ++ 4 * (2 + counted + (placed.map InnerMessage.size).sum) ::
    (mtpcMsgContainer :: count :: placed.flatMap InnerMessage.ints)

/-- One more message, which may be longer than what was counted for it. -/
theorem filledInts_append (count size counted more : Nat) (placed : List InnerMessage) (message : InnerMessage)
    (total : message.size = size + more) :
    (List.replicate 7 0 ++ (4 * (2 + (size + counted) + (placed.map InnerMessage.size).sum) + 4 * more) ::
      (mtpcMsgContainer :: count :: placed.flatMap InnerMessage.ints)) ++ message.ints =
      filledInts count counted (placed ++ [message]) := by
  have length : 4 * (2 + (size + counted) + (placed.map InnerMessage.size).sum) + 4 * more =
      4 * (2 + counted + ((placed ++ [message]).map InnerMessage.size).sum) := by
    simp only [List.map_append, List.map_cons, List.map_nil, List.sum_append, List.sum_cons, List.sum_nil, total]
    omega
  rw [length, filledInts, List.flatMap_append, List.flatMap_singleton, List.append_assoc, List.cons_append,
    List.cons_append, List.cons_append]

variable {mtprotoMsgId forceNewMsgId} {b : Building} {count counted : Nat} {placed : List InnerMessage}

theorem placeToContainer_prepared {request sent : RequestData} {b' : Building}
    (prepared : b.prepare mtprotoMsgId forceNewMsgId request = (sent, b')) :
    b.placeToContainer mtprotoMsgId forceNewMsgId request =
      some (sent.msgId, { b' with ints := b'.ints ++ InnerMessage.ints ⟨sent.msgId, sent.seqNo, sent.body⟩ }) := by
  rw [placeToContainer, prepared]
  simp only [appendPlain_eq, Option.bind_eq_bind, Option.bind_some, InnerMessage.ints, RequestData.head,
    List.append_assoc, List.cons_append, List.nil_append]

theorem placeToContainer_filled (request : RequestData)
    (filled : b.ints = filledInts count (request.messageSize + counted) placed) :
    ∃ msgId b' message, b.placeToContainer mtprotoMsgId forceNewMsgId request = some (msgId, b') ∧
      b'.ints = filledInts count counted (placed ++ [message]) ∧ message.body = request.body ∧
      b'.outbox.data = b.outbox.data := by
  obtain ⟨msgId, seqNo, b', prepared, ints, data⟩ := prepare_request mtprotoMsgId forceNewMsgId b request
  let message : InnerMessage := ⟨msgId, seqNo, request.body⟩
  have appended := filledInts_append count request.messageSize counted 0 placed message request.messageSize_eq.symm
  refine ⟨msgId, { b' with ints := b.ints ++ message.ints }, message, ?_, ?_, rfl, data⟩
  · rw [placeToContainer_prepared prepared, ints]
  · rw [← appended, filled, filledInts, Nat.mul_zero, Nat.add_zero]

/-- Service requests are placed as they are. -/
def Places (place : Building → Option Building) (requests : List RequestData) : Prop :=
  ∀ b count counted placed,
    b.ints = filledInts count ((requests.map RequestData.messageSize).sum + counted) placed →
    ∃ b' messages, place b = some b' ∧ b'.ints = filledInts count counted (placed ++ messages) ∧
      List.Forall₂ (fun request message => message.body = request.body) requests messages ∧
      b'.outbox.data = b.outbox.data

theorem Places.comp {place next : Building → Option Building} {requests others : List RequestData}
    (first : Places place requests) (second : Places next others) :
    Places (fun b => (place b).bind next) (requests ++ others) := by
  intro b count counted placed filled
  rw [List.map_append, List.sum_append, Nat.add_assoc] at filled
  obtain ⟨b', messages, done, ints, carried, data⟩ := first _ _ _ _ filled
  obtain ⟨b'', more, done', ints', carried', data'⟩ := second _ _ _ _ ints
  refine ⟨b'', messages ++ more, ?_, ?_, List.rel_append carried carried', data'.trans data⟩
  · simp only [done, Option.bind_some, done']
  · rw [ints', List.append_assoc]

/-- The functions for service requests differ in what they remember about the message. -/
def placeService (mtprotoMsgId : Nat → Nat) (forceNewMsgId : Bool) (remember : Nat → SessionPrivate → SessionPrivate)
    (request : Option RequestData) (b : Building) : Option Building :=
  match request with
  | none => some b
  | some request => (b.placeToContainer mtprotoMsgId forceNewMsgId request).bind fun (msgId, b) =>
      some (b.setSession (remember msgId b.outbox.session))

def rememberBind (msgId : Nat) (s : SessionPrivate) : SessionPrivate := { s with bindMsgId := msgId }

def rememberPing (msgId : Nat) (s : SessionPrivate) : SessionPrivate := { s with pingMsgId := msgId }

def rememberState (ids : Option (List Nat)) (msgId : Nat) (s : SessionPrivate) : SessionPrivate :=
  { s with stateAndResendRequests := s.stateAndResendRequests.emplace msgId (ids.getD []) }

def rememberNothing (_ : Nat) (s : SessionPrivate) : SessionPrivate := s

theorem placeBind_eq (request : Option RequestData) (b : Building) :
    b.placeBind mtprotoMsgId request =
      placeService mtprotoMsgId false rememberBind request b := by
  cases request <;> rfl

theorem placePing_eq (request : Option RequestData) (b : Building) :
    b.placePing mtprotoMsgId forceNewMsgId request =
      placeService mtprotoMsgId forceNewMsgId rememberPing request b := by
  cases request <;> rfl

theorem placeStateRequest_eq (serialized : List Nat → RequestData) (ids : Option (List Nat)) (b : Building) :
    b.placeStateRequest mtprotoMsgId forceNewMsgId serialized ids =
      placeService mtprotoMsgId forceNewMsgId (rememberState ids) (ids.map serialized) b := by
  cases ids <;> rfl

theorem placeUntracked_eq (request : Option RequestData) (b : Building) :
    b.placeUntracked mtprotoMsgId forceNewMsgId request =
      placeService mtprotoMsgId forceNewMsgId rememberNothing request b := by
  cases request <;> rfl

theorem places_placeService (remember : Nat → SessionPrivate → SessionPrivate) (request : Option RequestData) :
    Places (placeService mtprotoMsgId forceNewMsgId remember request) request.toList := by
  intro b count counted placed filled
  cases request with
  | none => exact ⟨b, [], rfl, by simpa using filled, List.Forall₂.nil, rfl⟩
  | some request =>
      obtain ⟨msgId, b', message, done, ints, carried, data⟩ :=
        @placeToContainer_filled mtprotoMsgId forceNewMsgId b count counted placed request (by simpa using filled)
      refine ⟨b'.setSession (remember msgId b'.outbox.session), [message], ?_, ints, ?_, data⟩
      · rw [placeService, done, Option.bind_some]
      · exact List.Forall₂.cons carried List.Forall₂.nil

def placeBefore (mtprotoMsgId : Nat → Nat) (forceNewMsgId : Bool) (service : ServiceData) (b : Building) :
    Option Building :=
  (b.placeBind mtprotoMsgId service.bind).bind fun b => b.placePing mtprotoMsgId forceNewMsgId service.ping

def placeBehind (mtprotoMsgId : Nat → Nat) (forceNewMsgId : Bool) (service : ServiceData) (b : Building) :
    Option Building :=
  (b.placeStateRequest mtprotoMsgId forceNewMsgId stateRequest service.state).bind fun b =>
    (b.placeStateRequest mtprotoMsgId forceNewMsgId resendRequestOf service.resend).bind fun b =>
      (b.placeUntracked mtprotoMsgId forceNewMsgId (service.ack.map ackRequest)).bind fun b =>
        b.placeUntracked mtprotoMsgId forceNewMsgId service.httpWaitData

theorem places_before (mtprotoMsgId : Nat → Nat) (forceNewMsgId : Bool) (service : ServiceData) :
    Places (placeBefore mtprotoMsgId forceNewMsgId service) service.before := by
  simp only [Places, placeBefore, placeBind_eq, placePing_eq]
  exact (places_placeService _ _).comp (places_placeService _ _)

theorem places_behind (mtprotoMsgId : Nat → Nat) (forceNewMsgId : Bool) (service : ServiceData) :
    Places (placeBehind mtprotoMsgId forceNewMsgId service) service.behind := by
  simp only [Places, placeBehind, placeStateRequest_eq, placeUntracked_eq]
  exact (places_placeService _ _).comp
    ((places_placeService _ _).comp ((places_placeService _ _).comp (places_placeService _ _)))

/-! ## Queued requests -/

/-- A message that carries a request: behind the layer and the request that comes before it, if it needs them. -/
structure Carries (layer : Layer) (request sent : RequestData) (message : InnerMessage) : Prop where
  msgId : message.msgId = sent.msgId
  seqNo : message.seqNo = sent.seqNo
  body : ∃ after, message.body = layerInts layer request ++ (after ++ request.body) ∧
    (after = [] ∨ request.after.isSome ∧ ∃ afterId, after = mtpcInvokeAfterMsg :: longInts afterId)

theorem afterInts_cases (haveSent : SortedMap Nat Nat) (request : RequestData) (ids : Nat → Nat) (requestId : Nat) :
    afterInts haveSent (request.after.map ids) requestId request = [] ∨ request.after.isSome ∧
      ∃ afterId, afterInts haveSent (request.after.map ids) requestId request =
        mtpcInvokeAfterMsg :: longInts afterId := by
  rw [afterInts]
  split
  · cases request.after with
    | none => exact Or.inl rfl
    | some after =>
        rw [Option.map_some, Option.elim_some, invokeAfter]
        split
        · exact Or.inl rfl
        · exact Or.inr ⟨rfl, _, rfl⟩
  · exact Or.inl rfl

/-- The ints that were counted for a queued request. -/
def countedSize (layer : Layer) (request : RequestData) : Nat :=
  request.messageSize + if layer.needsLayer && request.needsLayer then layer.initSizeInInts else 0

theorem countedSize_eq (layer : Layer) (request : RequestData) :
    countedSize layer request = request.messageSize + (layerInts layer request).length := by
  rw [countedSize, layerInts]
  split
  · rename_i layered
    rw [Layer.length_initSerialized (Bool.and_eq_true_iff.mp layered).1]
  · rfl

variable {layer : Layer} {initSerialized : List Nat}

/-- Also a request whose layer is left out, as it is not tracked, is placed as one message. -/
theorem placeRequest_prepared {requestId : Nat} {sent : RequestData} {b' : Building} {front back : List Nat}
    {length : Nat} (prepared : b.prepare mtprotoMsgId forceNewMsgId (b.outbox.data requestId) = (sent, b'))
    (ints : b'.ints = front ++ length :: back) (seven : front.length = 7)
    (init : (layer.needsLayer && sent.needsLayer) = true → initSerialized = layer.initSerialized) :
    ∃ more body, body ≠ [] ∧
      b.placeRequest mtprotoMsgId forceNewMsgId layer initSerialized requestId =
        some ({ b' with
          outbox := b'.outbox.setData requestId sent
          ints := (front ++ (length + more) :: back) ++ InnerMessage.ints ⟨sent.msgId, sent.seqNo, body⟩ }.rememberSent
            requestId sent) := by
  have filled : ∀ front : List Nat, front ++ sent.body ≠ [] := by
    intro front empty
    exact sent.nonempty (List.append_eq_nil_iff.mp empty).2
  by_cases wrapped : (layer.needsLayer && sent.needsLayer) = true → requestId ≠ 0 ∧ sent.needAck = true
  · let later := b'.outbox.setData requestId sent
    let after := afterInts later.session.haveSent (sent.after.map fun r => (later.data r).msgId) requestId sent
    refine ⟨4 * after.length, layerInts layer sent ++ (after ++ sent.body), ?_, ?_⟩
    · rw [← List.append_assoc]
      exact filled _
    · rw [placeRequest, prepared]
      simp only [ints, appendRequest_eq _ seven init wrapped, Option.bind_eq_bind, Option.bind_some]
      rfl
  · have plain : ¬ (requestId ≠ 0 ∧ sent.needAck = true) := fun tracked => wrapped fun _ => tracked
    refine ⟨0, sent.body, sent.nonempty, ?_⟩
    rw [placeRequest, prepared]
    simp only [appendRequest, if_neg plain, appendPlain_eq, Option.bind_eq_bind, Option.bind_some, ints,
      InnerMessage.ints, RequestData.head, List.append_assoc, List.cons_append, List.nil_append, Nat.add_zero]

theorem placeRequest_filled (requestId : Nat)
    (init : (layer.needsLayer && (b.outbox.data requestId).needsLayer) = true →
      initSerialized = layer.initSerialized)
    (wrapped : (layer.needsLayer && (b.outbox.data requestId).needsLayer) = true →
      requestId ≠ 0 ∧ (b.outbox.data requestId).needAck = true)
    (filled : b.ints = filledInts count (countedSize layer (b.outbox.data requestId) + counted) placed) :
    ∃ b' sent message, b.placeRequest mtprotoMsgId forceNewMsgId layer initSerialized requestId = some b' ∧
      b'.ints = filledInts count counted (placed ++ [message]) ∧
      Carries layer (b.outbox.data requestId) sent message ∧
      b'.outbox.data = Function.update b.outbox.data requestId sent := by
  generalize request_eq : b.outbox.data requestId = request at *
  obtain ⟨msgId, seqNo, b', prepared, ints, data⟩ := prepare_request mtprotoMsgId forceNewMsgId b request
  let sent : RequestData := { request with msgId := msgId, seqNo := seqNo }
  let later := { b' with outbox := b'.outbox.setData requestId sent }
  let afterId := request.after.map fun requestId => (later.outbox.data requestId).msgId
  let after := afterInts later.outbox.session.haveSent afterId requestId sent
  let message : InnerMessage := ⟨msgId, seqNo, layerInts layer request ++ (after ++ request.body)⟩
  have appended : appendRequest layer initSerialized later.outbox.session.haveSent afterId
      (filledInts count (countedSize layer request + counted) placed) requestId sent = _ :=
    appendRequest_eq afterId List.length_replicate init wrapped
  have size : message.size = countedSize layer request + after.length := by
    rw [countedSize_eq, request.messageSize_eq]
    simp only [message, InnerMessage.size, List.length_append]
    omega
  refine ⟨{ later with ints := filledInts count counted (placed ++ [message]) }.rememberSent requestId sent, sent,
    message, ?_, ?_, ⟨rfl, rfl, after, rfl, ?_⟩, ?_⟩
  · rw [placeRequest, request_eq, prepared]
    simp only [ints, filled, Option.bind_eq_bind]
    rw [appended, ← filledInts_append count _ counted _ placed message size]
    rfl
  · rw [rememberSent]
    split_ifs <;> rfl
  · exact afterInts_cases later.outbox.session.haveSent request _ requestId
  · have kept : ∀ b : Building, (b.rememberSent requestId sent).outbox.data = b.outbox.data := by
      intro b
      rw [rememberSent]
      split_ifs <;> rfl
    rw [kept, ← data]
    rfl

theorem placeRequests_filled (queued : List Nat) (nodup : queued.Nodup)
    (init : ∀ r ∈ queued, (layer.needsLayer && (b.outbox.data r).needsLayer) = true →
      initSerialized = layer.initSerialized)
    (wrapped : ∀ r ∈ queued, (layer.needsLayer && (b.outbox.data r).needsLayer) = true →
      r ≠ 0 ∧ (b.outbox.data r).needAck = true)
    (filled : b.ints = filledInts count
      ((queued.map fun r => countedSize layer (b.outbox.data r)).sum + counted) placed) :
    ∃ b' messages, placeRequests mtprotoMsgId forceNewMsgId layer initSerialized b queued = some b' ∧
      b'.ints = filledInts count counted (placed ++ messages) ∧
      List.Forall₂ (fun r message => Carries layer (b.outbox.data r) (b'.outbox.data r) message) queued messages ∧
      ∀ r, r ∉ queued → b'.outbox.data r = b.outbox.data r := by
  induction queued generalizing b placed with
  | nil => exact ⟨b, [], rfl, by simpa using filled, List.Forall₂.nil, fun _ _ => rfl⟩
  | cons requestId queued ih =>
      obtain ⟨fresh, nodup⟩ := List.nodup_cons.mp nodup
      obtain ⟨initFirst, init⟩ := List.forall_mem_cons.mp init
      obtain ⟨wrappedFirst, wrapped⟩ := List.forall_mem_cons.mp wrapped
      rw [List.map_cons, List.sum_cons, Nat.add_assoc] at filled
      obtain ⟨b', sent, message, done, ints, carried, data⟩ :=
        @placeRequest_filled mtprotoMsgId forceNewMsgId _ _ _ _ _ _ requestId initFirst wrappedFirst filled
      -- the requests behind it are other objects
      have others : ∀ r, r ≠ requestId → b'.outbox.data r = b.outbox.data r := by
        intro r different
        rw [data, Function.update_of_ne different]
      have kept : ∀ r ∈ queued, b'.outbox.data r = b.outbox.data r := by
        intro r member
        exact others r (fun same => fresh (same ▸ member))
      have sizes : (queued.map fun r => countedSize layer (b'.outbox.data r)) =
          queued.map fun r => countedSize layer (b.outbox.data r) :=
        List.map_congr_left fun r member => by rw [kept r member]
      obtain ⟨b'', messages, done', ints', carried', outside⟩ := @ih b' (placed ++ [message]) nodup
        (fun r member => by rw [kept r member]; exact init r member)
        (fun r member => by rw [kept r member]; exact wrapped r member) (by rw [sizes]; exact ints)
      refine ⟨b'', message :: messages, ?_, ?_, ?_, ?_⟩
      · rw [placeRequests, done]
        exact done'
      · rw [ints', List.append_assoc, List.singleton_append]
      · refine List.Forall₂.cons ?_ ?_
        · rw [outside requestId fresh, data, Function.update_self]
          exact carried
        · refine ((List.forall₂_and_left _ _).mpr ⟨kept, carried'⟩).imp ?_
          rintro r message ⟨same, carries⟩
          exact same ▸ carries
      · intro r missing
        obtain ⟨different, missing⟩ := not_or.mp (mt List.mem_cons.mpr missing)
        rw [outside r missing, others r different]

end Building

namespace Outbox

variable (mtprotoMsgId : Nat → Nat)

theorem queued_nodup (o : Outbox) (sendAll : Bool) : (o.queued sendAll).Nodup := by
  rw [queued]
  split
  · exact List.pairwise_map.mpr (o.session.toSend.sorted.imp fun below => ne_of_lt below)
  · exact List.nodup_nil

theorem containerSize_eq (o : Outbox) (service : ServiceData) (layer : Layer) (sendAll : Bool) :
    o.containerSize service layer sendAll = 2 + ((service.before.map RequestData.messageSize).sum +
      (((o.queued sendAll).map fun r => Building.countedSize layer (o.data r)).sum +
        ((service.behind.map RequestData.messageSize).sum + 0))) := by
  simp only [containerSize, List.map_append, List.sum_append, Building.countedSize]
  omega

/-- The container gets its id and number in front of what was placed. -/
theorem setNumbers_container (length : Nat) (ints : List Nat) (msgId seqNo : Nat) :
    setNumbers (List.replicate 7 0 ++ length :: (mtpcMsgContainer :: ints)) msgId seqNo =
      some ([0, 0, 0, 0] ++ (longInts msgId ++ seqNo :: length :: mtpcMsgContainer :: ints)) := by
  have long : kMessageBodyPosition < (List.replicate 7 0 ++ length :: (mtpcMsgContainer :: ints)).length := by
    simp only [List.length_append, List.length_replicate, List.length_cons, kMessageBodyPosition]
    omega
  rw [setNumbers, if_pos long]
  rfl

/-- The messages of a container, and what each of them carries. -/
structure Contents (o o' : Outbox) (service : ServiceData) (layer : Layer) (sendAll : Bool)
    (before queued behind : List InnerMessage) : Prop where
  before : List.Forall₂ (fun request message => message.body = request.body) service.before before
  queued : List.Forall₂ (fun r message => Building.Carries layer (o.data r) (o'.data r) message)
    (o.queued sendAll) queued
  behind : List.Forall₂ (fun request message => message.body = request.body) service.behind behind

namespace Contents

variable {o o' : Outbox} {service : ServiceData} {layer : Layer} {sendAll : Bool}
  {before queued behind : List InnerMessage}

theorem length_eq (contents : Contents o o' service layer sendAll before queued behind) :
    (before ++ (queued ++ behind)).length = o.toSendCount service sendAll := by
  simp only [List.length_append, ← contents.before.length_eq, ← contents.queued.length_eq,
    ← contents.behind.length_eq, toSendCount]
  omega

theorem forall_right {α β : Type} {R : α → β → Prop} {p : β → Prop} (imp : ∀ a b, R a b → p b) {l : List α}
    {m : List β} (related : List.Forall₂ R l m) : ∀ b ∈ m, p b := by
  induction related with
  | nil => exact List.forall_mem_nil _
  | cons first _ ih => exact List.forall_mem_cons.mpr ⟨imp _ _ first, ih⟩

theorem nonempty (contents : Contents o o' service layer sendAll before queued behind) :
    ∀ message ∈ before ++ (queued ++ behind), message.body ≠ [] := by
  have plain : ∀ (request : RequestData) (message : InnerMessage), message.body = request.body →
      message.body ≠ [] := by
    intro request message same
    exact same ▸ request.nonempty
  have wrapped : ∀ r message, Building.Carries layer (o.data r) (o'.data r) message → message.body ≠ [] := by
    intro r message carries empty
    obtain ⟨after, body, -⟩ := carries.body
    rw [body] at empty
    exact (o.data r).nonempty (List.append_eq_nil_iff.mp (List.append_eq_nil_iff.mp empty).2).2
  intro message member
  rcases List.mem_append.mp member with member | member
  · exact forall_right plain contents.before message member
  · rcases List.mem_append.mp member with member | member
    · exact forall_right wrapped contents.queued message member
    · exact forall_right plain contents.behind message member

end Contents

/-- The container before anything is placed in it, without the queued requests, and when it is complete. -/
def startContainer (o : Outbox) (service : ServiceData) (layer : Layer) (sendAll : Bool) : Building :=
  { outbox := { o with session := (o.session.nextMsgId mtprotoMsgId).2 }
    ints := prepareInts (o.containerSize service layer sendAll) ++ [mtpcMsgContainer, o.toSendCount service sendAll]
    bigMsgId := (o.session.nextMsgId mtprotoMsgId).1 }

def clearQueue (sendAll : Bool) (b : Building) : Building :=
  if sendAll then b.setSession { b.outbox.session with toSend := .empty } else b

def finishContainer (forceNewMsgId : Bool) (b : Building) : Option (List Nat × Outbox) :=
  let prepared := b.outbox.session.prepareToSend mtprotoMsgId (getMsgId b.ints) b.bigMsgId forceNewMsgId
  let numbered := { b.outbox with session := prepared.2 }.nextRequestSeqNumber false
  (setNumbers b.ints prepared.1 numbered.1).bind fun ints =>
    some (ints, { numbered.2 with session := { prepared.2 with
      sentContainers := prepared.2.sentContainers.emplace prepared.1 b.messages } })

def initInts (o : Outbox) (layer : Layer) (sendAll : Bool) : List Nat :=
  if (o.queued sendAll).any fun r => layer.needsLayer && (o.data r).needsLayer then layer.initSerialized else []

theorem initInts_eq (o : Outbox) (layer : Layer) (sendAll : Bool) :
    ∀ r ∈ o.queued sendAll, (layer.needsLayer && (o.data r).needsLayer) = true →
      o.initInts layer sendAll = layer.initSerialized := by
  intro r member needed
  exact if_pos (List.any_eq_true.mpr ⟨r, member, needed⟩)

theorem clearQueue_same (sendAll : Bool) (b : Building) :
    (clearQueue sendAll b).ints = b.ints ∧ (clearQueue sendAll b).outbox.data = b.outbox.data := by
  rw [clearQueue]
  split <;> exact ⟨rfl, rfl⟩

/-- `Prepare` left the container's id zero, so it gets the id that was kept for it. -/
theorem finishContainer_ints (forceNewMsgId : Bool) {b : Building} {length : Nat} {ints : List Nat}
    (shape : b.ints = List.replicate 7 0 ++ length :: (mtpcMsgContainer :: ints)) :
    ∃ o' seqNo, finishContainer mtprotoMsgId forceNewMsgId b =
      some ([0, 0, 0, 0] ++ (longInts b.bigMsgId ++ seqNo :: length :: mtpcMsgContainer :: ints), o') ∧
      o'.data = b.outbox.data ∧ o'.session = { b.outbox.session with
        sentContainers := b.outbox.session.sentContainers.emplace b.bigMsgId b.messages } := by
  let numbered := b.outbox.nextRequestSeqNumber false
  refine ⟨{ numbered.2 with session := { b.outbox.session with
    sentContainers := b.outbox.session.sentContainers.emplace b.bigMsgId b.messages } }, numbered.1, ?_, rfl, rfl⟩
  rw [finishContainer]
  simp only [shape, setNumbers_container, Option.bind_some]
  rfl

/-- The branch as the stages of filling the container. -/
theorem sendContainer_eq (o : Outbox) (service : ServiceData) (layer : Layer) (sendAll forceNewMsgId : Bool) :
    o.sendContainer mtprotoMsgId service layer sendAll forceNewMsgId =
      ((o.startContainer mtprotoMsgId service layer sendAll).placeBefore mtprotoMsgId forceNewMsgId service).bind fun b =>
        (b.placeRequests mtprotoMsgId forceNewMsgId layer (o.initInts layer sendAll) (o.queued sendAll)).bind fun b =>
          ((clearQueue sendAll b).placeBehind mtprotoMsgId forceNewMsgId service).bind
            (finishContainer mtprotoMsgId forceNewMsgId) := by
  simp only [Building.placeBefore, Building.placeBehind, Option.bind_assoc]
  rfl

/-- The ints of a container that is sent. -/
def containerInts (msgId seqNo : Nat) (messages : List InnerMessage) : List Nat :=
  [0, 0, 0, 0] ++ (longInts msgId ++ seqNo :: 4 * (2 + (messages.map InnerMessage.size).sum) ::
    mtpcMsgContainer :: messages.length :: messages.flatMap InnerMessage.ints)

variable {o : Outbox} {service : ServiceData} {layer : Layer} {sendAll : Bool}

theorem sendContainer_ints (forceNewMsgId : Bool)
    (wrapped : ∀ r ∈ o.queued sendAll, (layer.needsLayer && (o.data r).needsLayer) = true →
      r ≠ 0 ∧ (o.data r).needAck = true) :
    ∃ o' before queued behind msgId seqNo,
      o.sendContainer mtprotoMsgId service layer sendAll forceNewMsgId =
        some (containerInts msgId seqNo (before ++ (queued ++ behind)), o') ∧
      Contents o o' service layer sendAll before queued behind := by
  let count := o.toSendCount service sendAll
  have opened : (o.startContainer mtprotoMsgId service layer sendAll).ints =
      Building.filledInts count ((service.before.map RequestData.messageSize).sum +
        (((o.queued sendAll).map fun r => Building.countedSize layer (o.data r)).sum +
          ((service.behind.map RequestData.messageSize).sum + 0))) [] := by
    simp only [startContainer, containerSize_eq]
    rfl
  obtain ⟨b, before, done, ints, carriedBefore, data⟩ :=
    Building.places_before mtprotoMsgId forceNewMsgId service _ _ _ _ opened
  have sameData : b.outbox.data = o.data := data
  have init := o.initInts_eq layer sendAll
  rw [← sameData] at init wrapped ints
  obtain ⟨b', queued, done', ints', carried, -⟩ :=
    @Building.placeRequests_filled mtprotoMsgId forceNewMsgId _ _ _ _ _ _ _ (o.queued_nodup sendAll) init wrapped ints
  obtain ⟨sameInts, sameData'⟩ := clearQueue_same sendAll b'
  obtain ⟨b'', behind, done'', ints'', carriedBehind, data''⟩ :=
    Building.places_behind mtprotoMsgId forceNewMsgId service _ _ _ _ (sameInts.trans ints')
  rw [List.append_assoc, List.append_assoc, List.nil_append] at ints''
  have contents : ∀ o' : Outbox, o'.data = b''.outbox.data →
      Contents o o' service layer sendAll before queued behind := by
    intro o' same
    refine ⟨carriedBefore, ?_, carriedBehind⟩
    rw [same, data'', sameData', ← sameData]
    exact carried
  obtain ⟨o', seqNo, finished, data, -⟩ := finishContainer_ints mtprotoMsgId forceNewMsgId ints''
  refine ⟨o', before, queued, behind, b''.bigMsgId, seqNo, ?_, contents o' data⟩
  rw [sendContainer_eq, done, Option.bind_some, done', Option.bind_some, done'', Option.bind_some, finished,
    containerInts, (contents o' data).length_eq]

/-- A container announces its length and how many messages it has, and is read back as exactly these messages. -/
theorem sendContainer_well_formed (o : Outbox) (service : ServiceData) (layer : Layer) (sendAll forceNewMsgId : Bool)
    (wrapped : ∀ r ∈ o.queued sendAll, (layer.needsLayer && (o.data r).needsLayer) = true →
      r ≠ 0 ∧ (o.data r).needAck = true) :
    ∃ ints o' before queued behind,
      o.sendContainer mtprotoMsgId service layer sendAll forceNewMsgId = some (ints, o') ∧
      ints[kMessageLengthPosition]? = some (4 * (ints.length - kMessageBodyPosition)) ∧
      ints[kMessageBodyPosition]? = some mtpcMsgContainer ∧
      ints[kMessageBodyPosition + 1]? = some (before ++ (queued ++ behind)).length ∧
      readMessages (before ++ (queued ++ behind)).length (ints.drop (kMessageBodyPosition + 2)) =
        some (before ++ (queued ++ behind), []) ∧
      (before ++ (queued ++ behind)).length = o.toSendCount service sendAll ∧
      Contents o o' service layer sendAll before queued behind := by
  obtain ⟨o', before, queued, behind, msgId, seqNo, sent, contents⟩ :=
    @sendContainer_ints mtprotoMsgId o service layer sendAll forceNewMsgId wrapped
  have read := readMessages_ints _ contents.nonempty
  have length : ((before ++ (queued ++ behind)).flatMap InnerMessage.ints).length =
      ((before ++ (queued ++ behind)).map InnerMessage.size).sum := by
    rw [List.length_flatMap]
    simp only [InnerMessage.length_ints]
  refine ⟨_, o', before, queued, behind, sent, ?_, rfl, rfl, read, contents.length_eq, contents⟩
  have whole : (containerInts msgId seqNo (before ++ (queued ++ behind))).length =
      8 + (2 + ((before ++ (queued ++ behind)).map InnerMessage.size).sum) := by
    simp only [containerInts, List.length_append, List.length_cons, List.length_nil, length_longInts, ← length]
    omega
  rw [whole, kMessageBodyPosition, Nat.add_sub_cancel_left]
  rfl

/-- Two queued requests, the second of them sent again and behind the first, with the layer. -/
theorem sendContainer_well_formed_resent :
    let request : RequestData := { body := [7], needsLayer := true, nonempty := nofun }
    let resent : RequestData := { body := [8, 9], msgId := 5, after := some 1, nonempty := nofun }
    let o : Outbox :=
      { session := { toSend := (SortedMap.empty.emplace 1 ()).emplace 2 () }
        data := fun r => if r = 1 then request else resent }
    let layer : Layer := { needsLayer := true, initWrapper := [6] }
    (∀ r ∈ o.queued true, (layer.needsLayer && (o.data r).needsLayer) = true →
      r ≠ 0 ∧ (o.data r).needAck = true) ∧
    ∃ ints o' before queued behind,
      o.sendContainer (fun n => 4 * n + 4) { httpWait := true } layer true true = some (ints, o') ∧
      ints[kMessageLengthPosition]? = some (4 * (ints.length - kMessageBodyPosition)) ∧
      ints[kMessageBodyPosition]? = some mtpcMsgContainer ∧
      ints[kMessageBodyPosition + 1]? = some (before ++ (queued ++ behind)).length ∧
      readMessages (before ++ (queued ++ behind)).length (ints.drop (kMessageBodyPosition + 2)) =
        some (before ++ (queued ++ behind), []) ∧
      (before ++ (queued ++ behind)).length = o.toSendCount { httpWait := true } true ∧
      Contents o o' { httpWait := true } layer true before queued behind := by
  intro request resent o layer
  have wrapped : ∀ r ∈ o.queued true, (layer.needsLayer && (o.data r).needsLayer) = true →
      r ≠ 0 ∧ (o.data r).needAck = true := by decide
  exact ⟨wrapped, sendContainer_well_formed _ o { httpWait := true } layer true true wrapped⟩

end Outbox

end IMeDesktop.Mtproto.Requests
