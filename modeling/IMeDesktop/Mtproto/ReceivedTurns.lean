import IMeDesktop.Mtproto.SessionReceive

/-! # The order in which messages are handled

A message of a packet is handled when `handleOneReceived` is called for it: its turn. The
turns of a packet are listed here in their order, each with the session it finds and with
the number of calls around it.

Two things are said about them. The loop over a container stops at a message that is
ignored, so the messages behind a `pong` for something that was not sent have no turn. And
the loop takes the time of a packet for good after any message that succeeds, which is
right unless that message is a container in which nothing is handled.
-/

namespace IMeDesktop.Mtproto.Requests

open Lib Requests.SessionPrivate

structure Turn where
  depth : Nat
  msgId : Nat
  session : SessionPrivate
  info : OuterInfo
  message : Message

section Turns

variable (around : Surroundings)

mutual

def turns (depth msgId : Nat) (s : SessionPrivate) (info : OuterInfo) : Message → List Turn
  | .gzipPacked unpacked => ⟨depth, msgId, s, info, .gzipPacked unpacked⟩ :: turns (depth + 1) msgId s info unpacked
  | .msgContainer messages =>
      ⟨depth, msgId, s, info, .msgContainer messages⟩ :: containerTurns (depth + 1) s info messages
  | message => [⟨depth, msgId, s, info, message⟩]

/-- The turns of what is left of a container, by the same cases as `handleContainer`. -/
def containerTurns (depth : Nat) (s : SessionPrivate) (info : OuterInfo) : Messages → List Turn
  | .next msgId needAck message rest =>
      match (s.ackReceived msgId needAck).registerMsgId msgId needAck with
      | (.success, s) =>
          turns depth msgId s info message ++
            match s.handleOneReceived around info message with
            | (.success, s) => containerTurns depth s { info with badTime := false } rest
            | _ => []
      | (.duplicate, s) => containerTurns depth s info rest
      | (.tooOld, _) => []
  | _ => []

end

/-- The turns of a packet: its message has one when its id was not received before. -/
def packetTurns (s : SessionPrivate) (msgId : Nat) (needAck badTime newSalt : Bool) (message : Message) :
    List Turn :=
  let s := if newSalt && !badTime then s.becomeConnected else s
  match (s.ackReceived msgId needAck).registerMsgId msgId needAck with
  | (.success, s) => turns around 0 msgId s { outerMsgId := msgId, badTime := badTime } message
  | _ => []

variable {around}

/-- A message that holds no other ones has its own turn only. -/
def Message.Leaf : Message → Prop
  | .gzipPacked _ => False
  | .msgContainer _ => False
  | _ => True

theorem turns_leaf (depth msgId : Nat) (s : SessionPrivate) (info : OuterInfo) {message : Message}
    (leaf : message.Leaf) : turns around depth msgId s info message = [⟨depth, msgId, s, info, message⟩] := by
  cases message with
  | gzipPacked unpacked => exact leaf.elim
  | msgContainer messages => exact leaf.elim
  | _ => rfl

theorem Message.cases_leaf (message : Message) :
    message.Leaf ∨ (∃ unpacked, message = .gzipPacked unpacked) ∨ ∃ messages, message = .msgContainer messages := by
  cases message with
  | gzipPacked unpacked => exact .inr (.inl ⟨unpacked, rfl⟩)
  | msgContainer messages => exact .inr (.inr ⟨messages, rfl⟩)
  | _ => exact .inl trivial

/-- What the loop does with one message of a container: it goes on when the message was handled or is a duplicate, and
stops otherwise. -/
theorem next_cases (depth : Nat) (s : SessionPrivate) (info : OuterInfo) (msgId : Nat) (needAck : Bool)
    (message : Message) (rest : Messages) :
    (∃ first later, (s.ackReceived msgId needAck).registerMsgId msgId needAck = (.success, first) ∧
      first.handleOneReceived around info message = (.success, later) ∧
      s.handleContainer around info (.next msgId needAck message rest) =
        later.handleContainer around { info with badTime := false } rest ∧
      containerTurns around depth s info (.next msgId needAck message rest) =
        turns around depth msgId first info message ++
          containerTurns around depth later { info with badTime := false } rest) ∨
    (∃ first result later, (s.ackReceived msgId needAck).registerMsgId msgId needAck = (.success, first) ∧
      first.handleOneReceived around info message = (result, later) ∧ result ≠ .success ∧
      s.handleContainer around info (.next msgId needAck message rest) = (result, later) ∧
      containerTurns around depth s info (.next msgId needAck message rest) =
        turns around depth msgId first info message) ∨
    (∃ later, (s.ackReceived msgId needAck).registerMsgId msgId needAck = (.duplicate, later) ∧
      s.handleContainer around info (.next msgId needAck message rest) = later.handleContainer around info rest ∧
      containerTurns around depth s info (.next msgId needAck message rest) =
        containerTurns around depth later info rest) ∨
    (∃ later, (s.ackReceived msgId needAck).registerMsgId msgId needAck = (.tooOld, later) ∧
      s.handleContainer around info (.next msgId needAck message rest) = (.resetSession, later) ∧
      containerTurns around depth s info (.next msgId needAck message rest) = []) := by
  rw [handleContainer, containerTurns]
  rcases (s.ackReceived msgId needAck).registerMsgId msgId needAck with ⟨_ | _ | _, first⟩
  · rcases handled : first.handleOneReceived around info message with ⟨result, later⟩
    by_cases success : result = .success
    · subst success
      refine .inl ⟨first, later, rfl, handled, ?_⟩
      simp only [handled, and_self]
    · refine .inr (.inl ⟨first, result, later, rfl, handled, success, ?_⟩)
      cases result with
      | success => exact absurd rfl success
      | _ => simp only [handled, List.append_nil, and_self]
  · exact .inr (.inr (.inl ⟨first, rfl, rfl, rfl⟩))
  · exact .inr (.inr (.inr ⟨first, rfl, rfl, rfl⟩))

mutual

/-- The turn of a message comes first, and those inside of it are deeper. -/
theorem exists_turns_eq (depth msgId : Nat) (s : SessionPrivate) (info : OuterInfo) (message : Message) :
    ∃ inside, turns around depth msgId s info message = ⟨depth, msgId, s, info, message⟩ :: inside ∧
      ∀ turn ∈ inside, depth < turn.depth := by
  rcases message.cases_leaf with leaf | ⟨unpacked, rfl⟩ | ⟨messages, rfl⟩
  · exact ⟨[], turns_leaf depth msgId s info leaf, nofun⟩
  · obtain ⟨inside, same, deeper⟩ := exists_turns_eq (depth + 1) msgId s info unpacked
    refine ⟨_, by rw [turns], ?_⟩
    rw [same]
    refine List.forall_mem_cons.mpr ⟨Nat.lt_succ_self depth, ?_⟩
    exact fun turn member => Nat.lt_of_succ_lt (deeper turn member)
  · refine ⟨_, by rw [turns], ?_⟩
    exact fun turn member => depth_of_mem_containerTurns (depth + 1) s info messages turn member
termination_by sizeOf message

theorem depth_of_mem_containerTurns (depth : Nat) (s : SessionPrivate) (info : OuterInfo) (messages : Messages) :
    ∀ turn ∈ containerTurns around depth s info messages, depth ≤ turn.depth := by
  cases messages with
  | next msgId needAck message rest =>
      rcases next_cases depth s info msgId needAck message rest with
        ⟨first, later, -, -, -, same⟩ | ⟨first, result, later, -, -, -, -, same⟩ | ⟨later, -, -, same⟩ | ⟨later, -, -, same⟩
      · rw [same]
        obtain ⟨inside, whole, deeper⟩ := exists_turns_eq depth msgId first info message
        rw [whole]
        refine List.forall_mem_append.mpr ⟨?_, depth_of_mem_containerTurns depth later _ rest⟩
        exact List.forall_mem_cons.mpr ⟨Nat.le_refl depth, fun turn member => (deeper turn member).le⟩
      · rw [same]
        obtain ⟨inside, whole, deeper⟩ := exists_turns_eq depth msgId first info message
        rw [whole]
        exact List.forall_mem_cons.mpr ⟨Nat.le_refl depth, fun turn member => (deeper turn member).le⟩
      · rw [same]
        exact depth_of_mem_containerTurns depth later info rest
      · rw [same]
        nofun
  | _ => rw [containerTurns] <;> nofun
termination_by sizeOf messages

end

/-! ## Messages that are ignored -/

/-- A `pong` for something that was not sent, or not recently. -/
def Turn.unknownPong (turn : Turn) : Bool :=
  match turn.message with
  | .pong msgId _ => turn.session.wasSent msgId = 0
  | _ => false

def lastUnknown (handled : List Turn) : Bool := handled.getLast?.any Turn.unknownPong

variable (around) in
/-- The message is such a `pong`, or the last one that is handled inside of it is. -/
def endsUnknown (s : SessionPrivate) (info : OuterInfo) (message : Message) : Bool :=
  lastUnknown (turns around 0 0 s info message)

theorem handleRpcResult_not_ignored (s : SessionPrivate) (info : OuterInfo) (requestMsgId typeId : Nat)
    (rest : List Nat) : (s.handleRpcResult around info requestMsgId typeId rest).1 ≠ .ignored := by
  rw [handleRpcResult]
  split
  · nofun
  · split
    · nofun
    · dsimp only
      split
      · split <;> nofun
      · rename_i other _
        exact other

theorem handleBadMsgNotification_not_ignored (s : SessionPrivate) {info : OuterInfo} (good : info.badTime = false)
    (resendId errorCode : Nat) : (s.handleBadMsgNotification info resendId errorCode).1 ≠ .ignored := by
  simp only [handleBadMsgNotification, good, ignoredIf, Bool.false_eq_true, if_false]
  split_ifs <;> nofun

/-- When the time is good, only a `pong` is ignored. -/
theorem leaf_ignored_iff (s : SessionPrivate) {info : OuterInfo} (good : info.badTime = false) {message : Message}
    (leaf : message.Leaf) :
    (s.handleOneReceived around info message).1 = .ignored ↔
      Turn.unknownPong ⟨0, 0, s, info, message⟩ = true := by
  cases message with
  | gzipPacked unpacked => exact leaf.elim
  | msgContainer messages => exact leaf.elim
  | badMsgNotification badMsgId errorCode =>
      exact iff_of_false (handleBadMsgNotification_not_ignored s good badMsgId errorCode) nofun
  | rpcResult reqMsgId typeId rest =>
      rw [handleOneReceived, good]
      exact iff_of_false (handleRpcResult_not_ignored s info reqMsgId typeId rest) nofun
  | msgsStateInfo reqMsgId states =>
      simp only [handleOneReceived, good, ignoredIf, Turn.unknownPong]
      split <;> exact iff_of_false nofun nofun
  | pong msgId pingId =>
      by_cases unknown : s.wasSent msgId = 0 <;> simp [handleOneReceived, Turn.unknownPong, good, unknown]
  | unreadable => exact iff_of_false nofun nofun
  | gzipBroken => exact iff_of_false nofun nofun
  | msgsAck | badServerSalt | updates =>
      simp only [handleOneReceived, good, ignoredIf, Turn.unknownPong, Bool.false_and, if_false, Bool.false_eq_true]
      refine iff_of_false ?_ nofun
      split_ifs <;> nofun
  | msgsAllInfo | msgDetailedInfo | msgNewDetailedInfo | newSessionCreated =>
      simp only [handleOneReceived, good, Turn.unknownPong, Bool.false_and, if_false, Bool.false_eq_true]
      exact iff_of_false nofun nofun

theorem lastUnknown_append {first : List Turn} (known : lastUnknown first = false) (second : List Turn) :
    lastUnknown (first ++ second) = lastUnknown second := by
  cases second with
  | nil => rw [List.append_nil, known]; rfl
  | cons turn rest => rw [lastUnknown, List.getLast?_append_of_ne_nil first (List.cons_ne_nil turn rest), lastUnknown]

theorem lastUnknown_cons {turn : Turn} (known : turn.unknownPong = false) (rest : List Turn) :
    lastUnknown (turn :: rest) = lastUnknown rest := by
  have single : lastUnknown [turn] = false := known
  exact lastUnknown_append single rest

mutual

theorem lastUnknown_turns (depth msgId : Nat) (s : SessionPrivate) {info : OuterInfo} (good : info.badTime = false)
    (message : Message) :
    lastUnknown (turns around depth msgId s info message) = true ↔
      (s.handleOneReceived around info message).1 = .ignored := by
  rcases message.cases_leaf with leaf | ⟨unpacked, rfl⟩ | ⟨messages, rfl⟩
  · rw [turns_leaf depth msgId s info leaf, leaf_ignored_iff s good leaf]
    rfl
  · rw [turns, lastUnknown_cons rfl, handleOneReceived]
    exact lastUnknown_turns (depth + 1) msgId s good unpacked
  · rw [turns, lastUnknown_cons rfl, handleOneReceived]
    exact lastUnknown_containerTurns (depth + 1) s good messages
termination_by sizeOf message

theorem lastUnknown_containerTurns (depth : Nat) (s : SessionPrivate) {info : OuterInfo} (good : info.badTime = false)
    (messages : Messages) :
    lastUnknown (containerTurns around depth s info messages) = true ↔
      (s.handleContainer around info messages).1 = .ignored := by
  cases messages with
  | done => exact iff_of_false nofun nofun
  | broken result failed =>
      refine iff_of_false nofun ?_
      rintro rfl
      exact absurd failed (by decide)
  | tooLong msgId needAck => exact iff_of_false nofun nofun
  | next msgId needAck message rest =>
      rcases next_cases depth s info msgId needAck message rest with
        ⟨first, later, -, handled, result, same⟩ | ⟨first, _, later, -, handled, -, result, same⟩ |
        ⟨later, -, result, same⟩ | ⟨later, -, result, same⟩
      · have known : lastUnknown (turns around depth msgId first info message) = false := by
          rw [Bool.eq_false_iff, ne_eq, lastUnknown_turns depth msgId first good message, handled]
          nofun
        rw [same, result, lastUnknown_append known]
        exact lastUnknown_containerTurns depth later rfl rest
      · rw [same, result, lastUnknown_turns depth msgId first good message, handled]
      · rw [same, result]
        exact lastUnknown_containerTurns depth later good rest
      · rw [same, result]
        exact iff_of_false nofun nofun
termination_by sizeOf messages

end

/-! ## Containers that are delivered -/

/-- A message in a container. -/
structure Inner where
  msgId : Nat
  needAck : Bool
  message : Message

def containerOf : List Inner → Messages
  | [] => .done
  | inner :: rest => .next inner.msgId inner.needAck inner.message (containerOf rest)

def Inner.registered (inner : Inner) (s : SessionPrivate) : Registered × SessionPrivate :=
  (s.ackReceived inner.msgId inner.needAck).registerMsgId inner.msgId inner.needAck

variable (around) in
/-- What `handleOneReceived` gives for the message once it is registered. -/
def Inner.handled (inner : Inner) (s : SessionPrivate) (info : OuterInfo) : HandleResult × SessionPrivate :=
  (inner.registered s).2.handleOneReceived around info inner.message

variable (around) in
/-- Each message is new and not too old when its turn comes, and then makes no trouble by itself. -/
def Proper (info : OuterInfo) : SessionPrivate → List Inner → Prop
  | _, [] => True
  | s, inner :: rest =>
      (inner.registered s).1 = .success ∧
        ((inner.handled around s info).1 = .success ∨ (inner.handled around s info).1 = .ignored) ∧
        Proper info (inner.handled around s info).2 rest

variable (around) in
/-- No message but the last one is, or ends with, a `pong` for something that was not sent, when its turn comes. -/
def OnlyLastUnknown (info : OuterInfo) : SessionPrivate → List Inner → Prop
  | _, [] => True
  | s, inner :: rest =>
      (rest ≠ [] → endsUnknown around (inner.registered s).2 info inner.message = false) ∧
        OnlyLastUnknown info (inner.handled around s info).2 rest

def Turn.inner (turn : Turn) : Nat × Message := (turn.msgId, turn.message)

/-- The messages of a container that had a turn. -/
def delivered (depth : Nat) (handled : List Turn) : List (Nat × Message) :=
  (handled.filter fun turn => turn.depth = depth).map Turn.inner

theorem delivered_append (depth : Nat) (first second : List Turn) :
    delivered depth (first ++ second) = delivered depth first ++ delivered depth second := by
  rw [delivered, List.filter_append, List.map_append]
  rfl

theorem delivered_turns (depth msgId : Nat) (s : SessionPrivate) (info : OuterInfo) (message : Message) :
    delivered depth (turns around depth msgId s info message) = [(msgId, message)] := by
  obtain ⟨inside, same, deeper⟩ := @exists_turns_eq around depth msgId s info message
  have none : inside.filter (fun turn => turn.depth = depth) = [] := by
    refine List.filter_eq_nil_iff.mpr fun turn member => ?_
    simpa using (deeper turn member).ne'
  rw [same, delivered, List.filter_cons_of_pos (by simp), none]
  rfl

theorem endsUnknown_iff (s : SessionPrivate) {info : OuterInfo} (good : info.badTime = false) (message : Message) :
    endsUnknown around s info message = true ↔ (s.handleOneReceived around info message).1 = .ignored :=
  lastUnknown_turns 0 0 s good message

theorem delivered_containerTurns_iff (depth : Nat) {s : SessionPrivate} {info : OuterInfo}
    (good : info.badTime = false) {inners : List Inner} (proper : Proper around info s inners) :
    delivered depth (containerTurns around depth s info (containerOf inners)) =
      inners.map (fun inner => (inner.msgId, inner.message)) ↔ OnlyLastUnknown around info s inners := by
  induction inners generalizing s with
  | nil => exact iff_of_true rfl trivial
  | cons inner rest ih =>
      obtain ⟨registers, handles, properRest⟩ := proper
      have unknown := @endsUnknown_iff around (inner.registered s).2 info good inner.message
      rw [containerOf, List.map_cons, OnlyLastUnknown]
      rcases next_cases depth s info inner.msgId inner.needAck inner.message (containerOf rest) with
        ⟨first, later, registered, handled, -, same⟩ | ⟨first, result, later, registered, handled, stopped, -, same⟩ |
        ⟨later, registered, -⟩ | ⟨later, registered, -⟩
      · have told : inner.handled around s info = (.success, later) := by
          rw [Inner.handled, Inner.registered, registered, handled]
        have stays : { info with badTime := false } = info := by rw [← good]
        rw [same, delivered_append, delivered_turns, List.singleton_append, List.cons_inj_right, stays]
        rw [told] at properRest ⊢
        have known : endsUnknown around (inner.registered s).2 info inner.message = false := by
          rw [Bool.eq_false_iff, ne_eq, unknown, Inner.registered, registered, handled]
          nofun
        rw [ih properRest, iff_and_self]
        exact fun _ _ => known
      · have told : inner.handled around s info = (result, later) := by
          rw [Inner.handled, Inner.registered, registered, handled]
        rw [told] at handles
        have ignored : result = .ignored := handles.resolve_left stopped
        have ends : endsUnknown around (inner.registered s).2 info inner.message = true := by
          rw [unknown, Inner.registered, registered, handled, ignored]
        -- the messages behind this one have no turn, so there must be none
        rw [same, delivered_turns, List.cons_inj_right, ends]
        cases rest with
        | nil => exact iff_of_true rfl ⟨fun some => absurd rfl some, trivial⟩
        | cons next rest => exact iff_of_false nofun fun both => nomatch both.1 (List.cons_ne_nil next rest)
      · rw [Inner.registered, registered] at registers
        cases registers
      · rw [Inner.registered, registered] at registers
        cases registers

end Turns

/-- A container whose time is good and whose messages are new and make no trouble by themselves is delivered, each
message once and in order, exactly when none of them but the last one ends with a `pong` for something that was not
sent. -/
theorem container_delivered_iff (around : Surroundings) (s : SessionPrivate) (info : OuterInfo) (msgId : Nat)
    (inners : List Inner) (good : info.badTime = false) (proper : Proper around info s inners) :
    delivered 1 (turns around 0 msgId s info (.msgContainer (containerOf inners))) =
      inners.map (fun inner => (inner.msgId, inner.message)) ↔ OnlyLastUnknown around info s inners := by
  rw [← delivered_containerTurns_iff 1 good proper, turns, ← List.singleton_append, delivered_append]
  rfl

theorem container_delivered_with_unknown_last :
    let inners : List Inner := [⟨5, true, .updates [7]⟩, ⟨9, false, .pong 3 4⟩]
    Proper {} { outerMsgId := 1 } {} inners ∧
      delivered 1 (turns {} 0 1 {} { outerMsgId := 1 } (.msgContainer (containerOf inners))) =
        inners.map (fun inner => (inner.msgId, inner.message)) := by
  have proper : Proper {} { outerMsgId := 1 } {} [⟨5, true, .updates [7]⟩, ⟨9, false, .pong 3 4⟩] :=
    ⟨by decide, .inl (by decide), by decide, .inr (by decide), trivial⟩
  refine ⟨proper, (container_delivered_iff {} {} { outerMsgId := 1 } 1 _ rfl proper).mpr ⟨?_, ?_, trivial⟩⟩
  · exact fun _ => by decide
  · exact fun some => absurd rfl some

/-- After a new connection, a `pong` for an id that was not sent keeps an update from being delivered. -/
theorem pong_stops_container :
    let s : SessionPrivate := run (· + 1) {} [.connectToServer false]
    let inners : List Inner := [⟨5, false, .pong 3 4⟩, ⟨9, true, .updates [7]⟩]
    Proper {} { outerMsgId := 1 } s inners ∧
      delivered 1 (turns {} 0 1 s { outerMsgId := 1 } (.msgContainer (containerOf inners))) ≠
        inners.map (fun inner => (inner.msgId, inner.message)) := by
  refine ⟨⟨by decide, .inr (by decide), by decide, .inl (by decide), trivial⟩, ?_⟩
  exact fun same => absurd (congrArg List.length same) (by decide)

/-! ## Messages with a bad time -/

section Vouching

variable (around : Surroundings)

/-- The ids of sent messages that a message names. -/
def Message.named : Message → List Nat
  | .msgsAck ids => ids
  | .badMsgNotification badMsgId _ => [badMsgId]
  | .badServerSalt badMsgId => [badMsgId]
  | .msgsStateInfo reqMsgId _ => [reqMsgId]
  | .msgsAllInfo ids _ => ids
  | .msgDetailedInfo msgId _ => [msgId]
  | .rpcResult reqMsgId _ _ => [reqMsgId]
  | .newSessionCreated firstMsgId _ => [firstMsgId]
  | .pong msgId _ => [msgId]
  | _ => []

/-- The message names something that was sent, or a request about states that waits for an answer. -/
def Turn.Vouches (turn : Turn) : Prop :=
  ∃ msgId ∈ turn.message.named, turn.session.wasSent msgId ≠ 0 ∨ turn.session.stateAndResendRequests.contains msgId

/-- An update is acted on when it is passed on, and other messages when they are not ignored. -/
def Turn.ActedOn (turn : Turn) : Prop :=
  match turn.message with
  | .updates _ =>
      (turn.session.handleOneReceived around turn.info turn.message).2.haveReceivedMessages ≠
        turn.session.haveReceivedMessages
  | .msgsAllInfo _ _ | .msgNewDetailedInfo _ | .rpcResult _ _ _ | .msgsAck _ | .newSessionCreated _ _ =>
      turn.session.handleOneReceived around turn.info turn.message ≠ (.ignored, turn.session)
  | _ => False

/-- A container of which each message was received before. -/
def Messages.AllReceived (received : SortedMap Nat Bool) : Messages → Prop
  | .done => True
  | .next msgId _ _ rest => received.contains msgId = true ∧ rest.AllReceived received
  | _ => False

/-- A container in which nothing is left to handle, packed or not. -/
def Message.HandlesNothing (received : SortedMap Nat Bool) : Message → Prop
  | .gzipPacked unpacked => unpacked.HandlesNothing received
  | .msgContainer messages => messages.AllReceived received
  | _ => False

/-- It succeeds, so the time of what follows is taken for good. -/
def Turn.Void (turn : Turn) : Prop :=
  turn.info.badTime = true ∧ turn.message.HandlesNothing turn.session.receivedMessageIds

variable {around}

/-- What is neither ignored nor vouched for needs a good time. -/
theorem leaf_needs_vouching (s : SessionPrivate) {info : OuterInfo} (bad : info.badTime = true) {message : Message}
    (leaf : message.Leaf) (depth msgId : Nat)
    (needed : (s.handleOneReceived around info message).1 = .success ∨
      Turn.ActedOn around ⟨depth, msgId, s, info, message⟩) :
    Turn.Vouches ⟨depth, msgId, s, info, message⟩ := by
  have fixes : ∀ ids, message.named = ids → s.requestsFixTimeSalt ids = true →
      Turn.Vouches ⟨depth, msgId, s, info, message⟩ := by
    intro ids same fix
    obtain ⟨id, member, sent⟩ := List.any_eq_true.mp fix
    exact ⟨id, same ▸ member, .inl (of_decide_eq_true sent)⟩
  have sent : ∀ id, message.named = [id] → s.wasSent id ≠ 0 → Turn.Vouches ⟨depth, msgId, s, info, message⟩ :=
    fun id same sent => ⟨id, by simp [same], .inl sent⟩
  cases message with
  | gzipPacked unpacked => exact leaf.elim
  | msgContainer messages => exact leaf.elim
  | msgsAck ids =>
      by_cases fix : s.requestsFixTimeSalt ids = true
      · exact fixes ids rfl fix
      · simp [handleOneReceived, Turn.ActedOn, bad, fix, ignoredIf] at needed
  | badMsgNotification badMsgId errorCode =>
      by_cases known : s.wasSent badMsgId = 0
      · simp [handleOneReceived, handleBadMsgNotification, Turn.ActedOn, bad, known, ignoredIf] at needed
      · exact sent badMsgId rfl known
  | badServerSalt badMsgId =>
      by_cases known : s.wasSent badMsgId = 0
      · simp [handleOneReceived, Turn.ActedOn, bad, known, ignoredIf] at needed
      · exact sent badMsgId rfl known
  | msgsStateInfo reqMsgId states =>
      cases asked : s.stateAndResendRequests.find? reqMsgId with
      | none => simp [handleOneReceived, Turn.ActedOn, bad, asked, ignoredIf] at needed
      | some ids =>
          refine ⟨reqMsgId, List.mem_singleton_self reqMsgId, .inr ?_⟩
          exact SortedMap.contains_iff.mpr ⟨ids, SortedMap.find?_eq_some.mp asked⟩
  | msgDetailedInfo id answerMsgId =>
      by_cases fix : s.requestsFixTimeSalt [id] = true
      · exact fixes [id] rfl fix
      · simp [handleOneReceived, Turn.ActedOn, bad, fix] at needed
  | rpcResult reqMsgId typeId rest =>
      by_cases fix : s.requestsFixTimeSalt [reqMsgId] = true
      · exact fixes [reqMsgId] rfl fix
      · simp [handleOneReceived, Turn.ActedOn, bad, fix] at needed
  | newSessionCreated firstMsgId update =>
      by_cases fix : s.requestsFixTimeSalt [firstMsgId] = true
      · exact fixes [firstMsgId] rfl fix
      · simp [handleOneReceived, Turn.ActedOn, bad, fix] at needed
  | pong id pingId =>
      by_cases known : s.wasSent id = 0
      · simp [handleOneReceived, Turn.ActedOn, known] at needed
      · exact sent id rfl known
  | unreadable | gzipBroken | msgsAllInfo | msgNewDetailedInfo | updates =>
      simp [handleOneReceived, Turn.ActedOn, bad] at needed

theorem receivedMessageIds_ackReceived (s : SessionPrivate) (msgId : Nat) (needAck : Bool) :
    (s.ackReceived msgId needAck).receivedMessageIds = s.receivedMessageIds := by
  rw [ackReceived]
  split <;> rfl

/-- A duplicate was received before, and leaves what was received as it is. -/
theorem duplicate_received {s later : SessionPrivate} {msgId : Nat} {needAck : Bool}
    (registered : (s.ackReceived msgId needAck).registerMsgId msgId needAck = (.duplicate, later)) :
    s.receivedMessageIds.contains msgId = true ∧ later.receivedMessageIds = s.receivedMessageIds := by
  rw [registerMsgId, receivedMessageIds_ackReceived] at registered
  split_ifs at registered with contained
  · cases registered
    exact ⟨contained, receivedMessageIds_ackReceived s msgId needAck⟩
  · cases registered
  · cases registered

mutual

/-- A message that succeeds although its time is bad is vouched for, unless nothing was handled in some container. -/
theorem vouches_of_success (depth msgId : Nat) (s : SessionPrivate) {info : OuterInfo} (bad : info.badTime = true)
    (message : Message) (succeeds : (s.handleOneReceived around info message).1 = .success)
    (full : ∀ turn ∈ turns around depth msgId s info message, ¬ turn.Void) :
    ∃ turn ∈ turns around depth msgId s info message, turn.Vouches := by
  rcases message.cases_leaf with leaf | ⟨unpacked, rfl⟩ | ⟨messages, rfl⟩
  · rw [turns_leaf depth msgId s info leaf]
    exact ⟨_, List.mem_singleton_self _, leaf_needs_vouching s bad leaf depth msgId (.inl succeeds)⟩
  · rw [turns] at full ⊢
    rw [handleOneReceived] at succeeds
    obtain ⟨turn, member, vouches⟩ := vouches_of_success (depth + 1) msgId s bad unpacked succeeds
      (List.forall_mem_cons.mp full).2
    exact ⟨turn, List.mem_cons_of_mem _ member, vouches⟩
  · rw [turns] at full ⊢
    rw [handleOneReceived] at succeeds
    obtain ⟨notVoid, full⟩ := List.forall_mem_cons.mp full
    rcases vouches_of_container_success (depth + 1) s bad messages succeeds full with all | ⟨turn, member, vouches⟩
    · exact absurd ⟨bad, all⟩ notVoid
    · exact ⟨turn, List.mem_cons_of_mem _ member, vouches⟩
termination_by sizeOf message

theorem vouches_of_container_success (depth : Nat) (s : SessionPrivate) {info : OuterInfo} (bad : info.badTime = true)
    (messages : Messages) (succeeds : (s.handleContainer around info messages).1 = .success)
    (full : ∀ turn ∈ containerTurns around depth s info messages, ¬ turn.Void) :
    messages.AllReceived s.receivedMessageIds ∨
      ∃ turn ∈ containerTurns around depth s info messages, turn.Vouches := by
  cases messages with
  | done => exact .inl trivial
  | broken result failed =>
      rw [handleContainer] at succeeds
      dsimp only at succeeds
      subst succeeds
      exact absurd failed (by decide)
  | tooLong msgId needAck => cases succeeds
  | next msgId needAck message rest =>
      rcases next_cases depth s info msgId needAck message rest with
        ⟨first, later, -, handled, -, same⟩ | ⟨first, result, later, -, -, stopped, told, -⟩ |
        ⟨later, registered, told, same⟩ | ⟨later, -, told, -⟩
      · rw [same] at full ⊢
        obtain ⟨turn, member, vouches⟩ := vouches_of_success depth msgId first bad message (by rw [handled])
          (List.forall_mem_append.mp full).1
        exact .inr ⟨turn, List.mem_append_left _ member, vouches⟩
      · rw [told] at succeeds
        exact absurd succeeds stopped
      · obtain ⟨contained, unchanged⟩ := duplicate_received registered
        rw [same] at full ⊢
        rw [told] at succeeds
        rcases vouches_of_container_success depth later bad rest succeeds full with all | vouched
        · exact .inl ⟨contained, unchanged ▸ all⟩
        · exact .inr vouched
      · rw [told] at succeeds
        cases succeeds
termination_by sizeOf messages

end

variable (around) in
/-- Nothing is acted on until something vouches for the time, or a container was empty. -/
def Guarded : List Turn → Prop
  | [] => True
  | turn :: rest => turn.Vouches ∨ ¬ turn.ActedOn around ∧ (turn.Void ∨ Guarded rest)

theorem Guarded.append {first second : List Turn} (guarded : Guarded around first)
    (goesOn : (∀ turn ∈ first, ¬ turn.Void) → (∃ turn ∈ first, turn.Vouches) ∨ Guarded around second) :
    Guarded around (first ++ second) := by
  induction first with
  | nil =>
      rcases goesOn nofun with ⟨turn, ⟨⟩, -⟩ | rest
      exact rest
  | cons turn first ih =>
      rcases guarded with vouches | ⟨idle, void | guarded⟩
      · exact .inl vouches
      · exact .inr ⟨idle, .inl void⟩
      · by_cases void : turn.Void
        · exact .inr ⟨idle, .inl void⟩
        by_cases vouches : turn.Vouches
        · exact .inl vouches
        refine .inr ⟨idle, .inr (ih guarded fun full => ?_)⟩
        rcases goesOn (List.forall_mem_cons.mpr ⟨void, full⟩) with ⟨other, member, told⟩ | rest
        · rcases List.mem_cons.mp member with rfl | member
          · exact absurd told vouches
          · exact .inl ⟨other, member, told⟩
        · exact .inr rest

theorem Guarded.vouched {handled before after : List Turn} {turn : Turn} (guarded : Guarded around handled)
    (split : handled = before ++ turn :: after) (acted : turn.ActedOn around)
    (full : ∀ earlier ∈ before, ¬ earlier.Void) : ∃ voucher ∈ before ++ [turn], voucher.Vouches := by
  subst split
  induction before with
  | nil =>
      rcases guarded with vouches | ⟨idle, -⟩
      · exact ⟨turn, List.mem_singleton_self turn, vouches⟩
      · exact absurd acted idle
  | cons earlier before ih =>
      obtain ⟨notVoid, full⟩ := List.forall_mem_cons.mp full
      rcases guarded with vouches | ⟨-, void | guarded⟩
      · exact ⟨earlier, List.mem_cons_self, vouches⟩
      · exact absurd void notVoid
      · obtain ⟨voucher, member, vouches⟩ := ih full guarded
        exact ⟨voucher, List.mem_cons_of_mem earlier member, vouches⟩

mutual

theorem guarded_turns (depth msgId : Nat) (s : SessionPrivate) {info : OuterInfo} (bad : info.badTime = true)
    (message : Message) : Guarded around (turns around depth msgId s info message) := by
  rcases message.cases_leaf with leaf | ⟨unpacked, rfl⟩ | ⟨messages, rfl⟩
  · rw [turns_leaf depth msgId s info leaf]
    by_cases acted : Turn.ActedOn around ⟨depth, msgId, s, info, message⟩
    · exact .inl (leaf_needs_vouching s bad leaf depth msgId (.inr acted))
    · exact .inr ⟨acted, .inr trivial⟩
  · rw [turns]
    exact .inr ⟨nofun, .inr (guarded_turns (depth + 1) msgId s bad unpacked)⟩
  · rw [turns]
    exact .inr ⟨nofun, .inr (guarded_containerTurns (depth + 1) s bad messages)⟩
termination_by sizeOf message

theorem guarded_containerTurns (depth : Nat) (s : SessionPrivate) {info : OuterInfo} (bad : info.badTime = true)
    (messages : Messages) : Guarded around (containerTurns around depth s info messages) := by
  cases messages with
  | next msgId needAck message rest =>
      rcases next_cases depth s info msgId needAck message rest with
        ⟨first, later, -, handled, -, same⟩ | ⟨first, -, -, -, -, -, -, same⟩ | ⟨later, -, -, same⟩ | ⟨-, -, -, same⟩
      · rw [same]
        refine (guarded_turns depth msgId first bad message).append fun full => .inl ?_
        exact vouches_of_success depth msgId first bad message (by rw [handled]) full
      · rw [same]
        exact guarded_turns depth msgId first bad message
      · rw [same]
        exact guarded_containerTurns depth later bad rest
      · rw [same]
        trivial
  | _ => trivial
termination_by sizeOf messages

end

mutual

/-- Nothing is vouched for where nothing is handled, and still it succeeds. -/
theorem succeeds_of_handlesNothing (depth msgId : Nat) (s : SessionPrivate) (info : OuterInfo) (message : Message)
    (nothing : message.HandlesNothing s.receivedMessageIds) :
    (s.handleOneReceived around info message).1 = .success ∧
      ∀ turn ∈ turns around depth msgId s info message, ¬ turn.Vouches := by
  rcases message.cases_leaf with leaf | ⟨unpacked, rfl⟩ | ⟨messages, rfl⟩
  · cases message with
    | gzipPacked unpacked => exact leaf.elim
    | msgContainer messages => exact leaf.elim
    | _ => exact nothing.elim
  · rw [handleOneReceived, turns]
    obtain ⟨succeeds, silent⟩ := succeeds_of_handlesNothing (depth + 1) msgId s info unpacked nothing
    exact ⟨succeeds, List.forall_mem_cons.mpr ⟨by rintro ⟨_, ⟨⟩, -⟩, silent⟩⟩
  · rw [handleOneReceived, turns]
    obtain ⟨succeeds, none⟩ := succeeds_of_allReceived (depth + 1) s info messages nothing
    rw [none]
    exact ⟨succeeds, List.forall_mem_cons.mpr ⟨by rintro ⟨_, ⟨⟩, -⟩, nofun⟩⟩
termination_by sizeOf message

theorem succeeds_of_allReceived (depth : Nat) (s : SessionPrivate) (info : OuterInfo) (messages : Messages)
    (all : messages.AllReceived s.receivedMessageIds) :
    (s.handleContainer around info messages).1 = .success ∧ containerTurns around depth s info messages = [] := by
  cases messages with
  | done => exact ⟨rfl, rfl⟩
  | broken result failed => exact all.elim
  | tooLong msgId needAck => exact all.elim
  | next msgId needAck message rest =>
      obtain ⟨contained, all⟩ := all
      have duplicate : (s.ackReceived msgId needAck).registerMsgId msgId needAck =
          (.duplicate, s.ackReceived msgId needAck) := by
        rw [registerMsgId, receivedMessageIds_ackReceived]
        exact if_pos contained
      rw [← receivedMessageIds_ackReceived s msgId needAck] at all
      rw [handleContainer, containerTurns, duplicate]
      exact succeeds_of_allReceived depth _ info rest all
termination_by sizeOf messages

end

/-- Whatever the session is, an update behind such a container is passed on, and nothing vouches for it. -/
theorem acts_behind_void (depth : Nat) {s last : SessionPrivate} {info : OuterInfo} {void : Inner} {msgId : Nat}
    {needAck : Bool} {update : List Nat} {rest : Messages} (regular : around.regularDc = true)
    (registers : (void.registered s).1 = .success)
    (nothing : void.message.HandlesNothing (void.registered s).2.receivedMessageIds)
    (registered : ((void.handled around s info).2.ackReceived msgId needAck).registerMsgId msgId needAck =
      (.success, last)) :
    ∃ before turn after, turn.ActedOn around ∧ (∀ voucher ∈ before ++ [turn], ¬ voucher.Vouches) ∧
      containerTurns around depth s info
        (.next void.msgId void.needAck void.message (.next msgId needAck (.updates update) rest)) =
          before ++ turn :: after := by
  obtain ⟨succeeds, silent⟩ := @succeeds_of_handlesNothing around depth void.msgId _ info _ nothing
  have first : (s.ackReceived void.msgId void.needAck).registerMsgId void.msgId void.needAck =
      (.success, (void.registered s).2) := Prod.ext registers rfl
  have handled : (void.registered s).2.handleOneReceived around info void.message =
      (.success, (void.handled around s info).2) := Prod.ext succeeds rfl
  obtain ⟨after, second⟩ : ∃ after, containerTurns around depth (void.handled around s info).2
      { info with badTime := false } (.next msgId needAck (.updates update) rest) =
        ⟨depth, msgId, last, { info with badTime := false }, .updates update⟩ :: after := by
    rw [containerTurns, registered]
    exact ⟨_, rfl⟩
  refine ⟨turns around depth void.msgId (void.registered s).2 info void.message,
    ⟨depth, msgId, last, { info with badTime := false }, .updates update⟩, after, ?_, ?_, ?_⟩
  · simp [Turn.ActedOn, handleOneReceived, regular, received]
  · exact List.forall_mem_append.mpr ⟨silent, List.forall_mem_singleton.mpr (by rintro ⟨_, ⟨⟩, -⟩)⟩
  · rw [containerTurns, first]
    simp only [handled, second]

end Vouching

/-- In a packet with a bad time, whatever is acted on is vouched for by its own message or one handled before it, as
long as no container was handled before it, with the time still bad, in which nothing was left to handle. -/
theorem packet_acts_when_vouched (around : Surroundings) (s : SessionPrivate) (msgId : Nat) (needAck newSalt : Bool)
    (message : Message) (before after : List Turn) (turn : Turn)
    (handled : packetTurns around s msgId needAck true newSalt message = before ++ turn :: after)
    (acted : turn.ActedOn around) (full : ∀ earlier ∈ before, ¬ earlier.Void) :
    ∃ voucher ∈ before ++ [turn], voucher.Vouches := by
  rw [packetTurns] at handled
  split at handled
  · exact (guarded_turns 0 msgId _ rfl message).vouched handled acted full
  · exact absurd handled (by simp)

/-- An acknowledgement of something that was sent, and an update behind it. -/
theorem packet_acts_behind_ack :
    let s : SessionPrivate := { haveSent := SortedMap.empty.emplace 4 2 }
    let message : Message := .msgContainer (containerOf [⟨5, false, .msgsAck [4]⟩, ⟨9, true, .updates [7]⟩])
    ∃ before turn, packetTurns {} s 13 false true false message = before ++ [turn] ∧ turn.ActedOn {} ∧
      (∀ earlier ∈ before, ¬ earlier.Void) ∧ ∃ voucher ∈ before ++ [turn], voucher.Vouches := by
  intro s message
  obtain ⟨before, turn, handled, acted, full⟩ : ∃ before turn,
      packetTurns {} s 13 false true false message = before ++ [turn] ∧ turn.ActedOn {} ∧
        ∀ earlier ∈ before, ¬ earlier.Void := by
    refine ⟨[_, _], _, rfl, ?_, ?_⟩
    · dsimp only [Turn.ActedOn]
      decide
    · rintro _ (_ | ⟨_, _ | ⟨_, ⟨⟩⟩⟩) ⟨-, nothing⟩
      · exact absurd nothing.1 (by decide)
      · exact nothing
  exact ⟨before, turn, handled, acted, full,
    packet_acts_when_vouched {} s 13 false false message before [] turn handled acted full⟩

/-- After a new connection, the update behind an empty container is passed on although the time is bad and no message
names anything. -/
theorem packet_acts_behind_empty_container :
    let s : SessionPrivate := run (· + 1) {} [.connectToServer false]
    let message : Message := .msgContainer (containerOf [⟨5, false, .msgContainer .done⟩, ⟨9, true, .updates [7]⟩])
    ∃ before turn, packetTurns {} s 13 false true false message = before ++ [turn] ∧
      turn.ActedOn {} ∧ ∀ voucher ∈ before ++ [turn], ¬ voucher.Vouches := by
  refine ⟨[_, _], _, rfl, ?_, ?_⟩
  · dsimp only [Turn.ActedOn]
    decide
  · rintro _ (_ | ⟨_, _ | ⟨_, _ | ⟨_, ⟨⟩⟩⟩⟩) ⟨_, ⟨⟩, -⟩

end IMeDesktop.Mtproto.Requests
