import IMeDesktop.Mtproto.SessionReceive

/-! # One request for each message id

A message id stands for one request, or for a service message, from the moment it is
generated. Every map of the session that has the id agrees on this, whatever was sent,
sent again, renumbered or acknowledged in between.

The argument does not say which requests are where, only what the ids stand for. It
rests on `mtproto_msg_id` never giving an id twice.
-/

namespace IMeDesktop.Mtproto.Requests.SessionPrivate

open Lib

variable {mtprotoMsgId : Nat → Nat} {s s' : SessionPrivate} {m r : Nat}

/-- What a message id stands for somewhere in the session; service messages stand for 0. -/
inductive Bound (s : SessionPrivate) : Nat → Nat → Prop where
  | sent {m r : Nat} (member : (m, r) ∈ s.haveSent.entries) : Bound s m r
  | resending {m r : Nat} (member : (m, r) ∈ s.resendingIds.entries) : Bound s m r
  | acked {m r : Nat} (member : (m, r) ∈ s.ackedIds.entries) : Bound s m r
  | request {r : Nat} (numbered : (s.requests r).msgId ≠ 0) : Bound s (s.requests r).msgId r
  | container {m : Nat} {ids : List Nat} (member : (m, ids) ∈ s.sentContainers.entries) : Bound s m 0
  | state {m : Nat} {ids : List Nat} (member : (m, ids) ∈ s.stateAndResendRequests.entries) : Bound s m 0
  | ping (numbered : s.pingMsgId ≠ 0) : Bound s s.pingMsgId 0

/-- Ids were generated, stand for one thing each, and an id on its way is not being sent again. -/
structure Sound (mtprotoMsgId : Nat → Nat) (s : SessionPrivate) : Prop where
  unique : ∀ m r r', Bound s m r → Bound s m r' → r = r'
  issued : ∀ m r, Bound s m r → ∃ i < s.generated, mtprotoMsgId i = m
  valid : ∀ m r, Bound s m r → r < 2 ^ 31
  queued : ∀ e ∈ s.toSend.entries, e.1 < 2 ^ 31
  apart : ∀ m r r', (m, r) ∈ s.haveSent.entries → (m, r') ∉ s.resendingIds.entries

/-- A generated id that stands for nothing yet. -/
structure Reserved (mtprotoMsgId : Nat → Nat) (s : SessionPrivate) (id : Nat) : Prop where
  issued : ∃ i < s.generated, mtprotoMsgId i = id
  free : ∀ r, ¬ Bound s id r

/-- A step that binds no new id. -/
structure Keeps (s s' : SessionPrivate) : Prop where
  bound : ∀ m r, Bound s' m r → Bound s m r
  generated : s.generated ≤ s'.generated
  queued : ∀ e ∈ s'.toSend.entries, e ∈ s.toSend.entries ∨ ∃ m, Bound s m e.1
  apart : (∀ m r r', (m, r) ∈ s.haveSent.entries → (m, r') ∉ s.resendingIds.entries) →
    ∀ m r r', (m, r) ∈ s'.haveSent.entries → (m, r') ∉ s'.resendingIds.entries

namespace Keeps

theorem refl (s : SessionPrivate) : Keeps s s :=
  ⟨fun _ _ h => h, Nat.le_refl _, fun _ h => .inl h, fun h => h⟩

theorem trans {s₁ s₂ s₃ : SessionPrivate} (first : Keeps s₁ s₂) (second : Keeps s₂ s₃) : Keeps s₁ s₃ := by
  refine ⟨fun m r h => first.bound m r (second.bound m r h), first.generated.trans second.generated, ?_,
    fun h => second.apart (first.apart h)⟩
  intro e member
  cases second.queued e member with
  | inl earlier => exact first.queued e earlier
  | inr known =>
      obtain ⟨m, bound⟩ := known
      exact .inr ⟨m, first.bound m e.1 bound⟩

theorem foldl {α : Type} {f : SessionPrivate → α → SessionPrivate} (each : ∀ s a, Keeps s (f s a))
    (l : List α) (s : SessionPrivate) : Keeps s (l.foldl f s) := by
  induction l generalizing s with
  | nil => exact refl s
  | cons a l ih => exact (each s a).trans (ih _)

theorem ite {c : Prop} [Decidable c] (step : Keeps s s') : Keeps s (if c then s' else s) := by
  split_ifs
  · exact step
  · exact refl s

end Keeps

theorem Sound.keeps (h : Sound mtprotoMsgId s) (step : Keeps s s') : Sound mtprotoMsgId s' := by
  refine ⟨?_, ?_, ?_, ?_, step.apart h.apart⟩
  · intro m r r' first second
    exact h.unique m r r' (step.bound m r first) (step.bound m r' second)
  · intro m r bound
    obtain ⟨i, less, same⟩ := h.issued m r (step.bound m r bound)
    exact ⟨i, Nat.lt_of_lt_of_le less step.generated, same⟩
  · intro m r bound
    exact h.valid m r (step.bound m r bound)
  · intro e member
    cases step.queued e member with
    | inl earlier => exact h.queued e earlier
    | inr known =>
        obtain ⟨m, bound⟩ := known
        exact h.valid m e.1 bound

theorem Reserved.keeps {id : Nat} (h : Reserved mtprotoMsgId s id) (step : Keeps s s') :
    Reserved mtprotoMsgId s' id := by
  obtain ⟨i, less, same⟩ := h.issued
  exact ⟨⟨i, Nat.lt_of_lt_of_le less step.generated, same⟩, fun r bound => h.free r (step.bound id r bound)⟩

/-! ## Receiving binds no ids -/

section Receiving

variable {around : Surroundings}

/-- Ids are only forgotten, or moved to the acknowledged ones. -/
structure Moves (s s' : SessionPrivate) : Prop where
  sent : ∀ e ∈ s'.haveSent.entries, e ∈ s.haveSent.entries := by exact fun _ h => h
  resending : ∀ e ∈ s'.resendingIds.entries, e ∈ s.resendingIds.entries := by exact fun _ h => h
  acked : ∀ e ∈ s'.ackedIds.entries, Bound s e.1 e.2 := by exact fun _ h => .acked h
  requests : ∀ r, (s'.requests r).msgId = (s.requests r).msgId ∨ (s'.requests r).msgId = 0 := by
    exact fun _ => .inl rfl
  containers : ∀ e ∈ s'.sentContainers.entries, e ∈ s.sentContainers.entries := by exact fun _ h => h
  states : ∀ e ∈ s'.stateAndResendRequests.entries, e ∈ s.stateAndResendRequests.entries := by
    exact fun _ h => h
  ping : s'.pingMsgId = s.pingMsgId ∨ s'.pingMsgId = 0 := by exact .inl rfl
  generated : s'.generated = s.generated := by rfl
  queued : ∀ e ∈ s'.toSend.entries, e ∈ s.toSend.entries ∨ ∃ m, Bound s m e.1 := by exact fun _ h => .inl h

theorem Moves.keeps (moves : Moves s s') : Keeps s s' := by
  refine ⟨?_, Nat.le_of_eq moves.generated.symm, moves.queued, ?_⟩
  · intro m r bound
    cases bound with
    | sent member => exact .sent (moves.sent _ member)
    | resending member => exact .resending (moves.resending _ member)
    | acked member => exact moves.acked _ member
    | request numbered =>
        cases moves.requests r with
        | inl same =>
            rw [same] at numbered ⊢
            exact .request numbered
        | inr none => exact absurd none numbered
    | container member => exact .container (moves.containers _ member)
    | state member => exact .state (moves.states _ member)
    | ping numbered =>
        cases moves.ping with
        | inl same =>
            rw [same] at numbered ⊢
            exact .ping numbered
        | inr none => exact absurd none numbered
  · intro apart m r r' first second
    exact apart m r r' (moves.sent _ first) (moves.resending _ second)

/-- Everything that ids are found in. -/
def numbering (s : SessionPrivate) :=
  (s.haveSent, s.resendingIds, s.ackedIds, s.requests, s.sentContainers, s.stateAndResendRequests, s.pingMsgId,
    s.generated, s.toSend)

theorem keeps_of_same (same : s'.numbering = s.numbering) : Keeps s s' := by
  simp only [numbering, Prod.mk.injEq] at same
  obtain ⟨sent, resending, acked, requests, containers, states, ping, generated, queued⟩ := same
  refine Moves.keeps ⟨?_, ?_, ?_, ?_, ?_, ?_, .inl ping, generated, ?_⟩
  · rw [sent]
    exact fun _ member => member
  · rw [resending]
    exact fun _ member => member
  · rw [acked]
    exact fun _ member => .acked member
  · rw [requests]
    exact fun _ => .inl rfl
  · rw [containers]
    exact fun _ member => member
  · rw [states]
    exact fun _ member => member
  · rw [queued]
    exact fun _ member => .inl member

theorem mem_of_erase {κ ν : Type} [LinearOrder κ] {map : SortedMap κ ν} {k : κ} :
    ∀ e ∈ (map.erase k).entries, e ∈ map.entries := fun _ member => (SortedMap.mem_erase.mp member).1

theorem acked_emplace {map : SortedMap Nat Nat} (same : map = s.ackedIds) (bound : Bound s m r) :
    ∀ e ∈ (map.emplace m r).entries, Bound s e.1 e.2 := by
  intro e member
  subst same
  cases SortedMap.mem_emplace.mp member with
  | inl before => exact .acked before
  | inr new =>
      obtain ⟨rfl, -⟩ := new
      exact bound

theorem keeps_requestAcked (byResponse : Bool) (s : SessionPrivate) (msgId : Nat) :
    Keeps s (requestAcked around byResponse s msgId).2 := by
  unfold requestAcked
  split
  · exact Moves.keeps { containers := mem_of_erase }
  · split_ifs
    · exact Moves.keeps { states := mem_of_erase }
    · split
      · rename_i requestId found
        split_ifs
        · exact .refl s
        · have bound := Bound.sent (SortedMap.find?_eq_some.mp found)
          exact Moves.keeps { sent := mem_of_erase, acked := acked_emplace rfl bound }
      · split
        · exact .refl s
        · rename_i requestId found
          split_ifs
          · exact .refl s
          · have bound := Bound.resending (SortedMap.find?_eq_some.mp found)
            simp only
            split_ifs
            · exact Moves.keeps {
                resending := mem_of_erase
                acked := acked_emplace rfl bound
                queued := fun e member => .inl (mem_of_erase e member) }
            · exact Moves.keeps { resending := mem_of_erase }

theorem keeps_requestsAckedLoop (byResponse : Bool) (s : SessionPrivate) (ids : List Nat) :
    Keeps s (requestsAckedLoop around byResponse s ids).2 := by
  induction ids generalizing s with
  | nil => exact .refl s
  | cons msgId ids ih =>
      rw [requestsAckedLoop]
      exact (keeps_requestAcked byResponse s msgId).trans (ih _)

theorem keeps_trimAcked (s : SessionPrivate) : Keeps s s.trimAcked := by
  have kept : ∀ e ∈ (s.ackedIds.eraseFirst (s.ackedIds.size - kIdsBufferSize)).entries, Bound s e.1 e.2 :=
    fun e member => .acked ((SortedMap.mem_eraseFirst_excess _).mp member).1
  unfold trimAcked
  generalize s.ackedIds.eraseFirst (s.ackedIds.size - kIdsBufferSize) = rest at kept
  exact Moves.keeps { acked := kept }

theorem keeps_requestsAcked (s : SessionPrivate) (ids : List Nat) (byResponse : Bool) :
    Keeps s (requestsAcked around s ids byResponse) := by
  unfold requestsAcked
  generalize s.sentContainers.size + 1 = fuel
  induction fuel generalizing s ids byResponse with
  | zero => exact .refl s
  | succ fuel ih =>
      rw [requestsAckedCalls]
      have loop := (@keeps_requestsAckedLoop around byResponse s ids).trans (keeps_trimAcked _)
      simp only
      split_ifs
      · exact loop
      · exact loop.trans (ih _ _ _)

theorem keeps_clearSpecialMsgId (s : SessionPrivate) (msgId : Nat) : Keeps s (s.clearSpecialMsgId msgId) := by
  unfold clearSpecialMsgId
  split_ifs
  · exact Moves.keeps { ping := .inr rfl }
  · exact keeps_of_same rfl
  · exact .refl s

theorem bound_resendRequest {m' r' : Nat} (bound : Bound (s.resendRequest m r) m' r') :
    Bound s m' r' ∨ (m' = m ∧ r' = r) := by
  have requests : ∀ r', ((s.resendRequest m r).requests r').msgId = (s.requests r').msgId := by
    intro r'
    simp only [resendRequest, Function.update_apply]
    split_ifs with same
    · rw [same]
    · rfl
  cases bound with
  | sent member => exact .inl (.sent (mem_of_erase _ member))
  | resending member =>
      cases SortedMap.mem_emplace.mp member with
      | inl before => exact .inl (.resending before)
      | inr new => exact .inr (Prod.mk.inj new.1)
  | acked member => exact .inl (.acked member)
  | request numbered =>
      rw [requests] at numbered ⊢
      exact .inl (.request numbered)
  | container member => exact .inl (.container member)
  | state member => exact .inl (.state member)
  | ping numbered => exact .inl (.ping numbered)

/-- A request that is sent again leaves the sent ones. -/
theorem Keeps.resendRequest {s₀ : SessionPrivate} (before : Keeps s₀ s) (known : Bound s₀ m r) :
    Keeps s₀ (s.resendRequest m r) := by
  refine ⟨?_, before.generated, ?_, ?_⟩
  · intro m' r' bound
    cases bound_resendRequest bound with
    | inl bound => exact before.bound m' r' bound
    | inr new =>
        obtain ⟨rfl, rfl⟩ := new
        exact known
  · intro e queued
    cases SortedMap.mem_emplace.mp queued with
    | inl earlier => exact before.queued e earlier
    | inr new =>
        obtain ⟨rfl, -⟩ := new
        exact .inr ⟨m, known⟩
  · intro apart m' r' r'' first second
    obtain ⟨first, different⟩ := SortedMap.mem_erase.mp first
    cases SortedMap.mem_emplace.mp second with
    | inl second => exact before.apart apart m' r' r'' first second
    | inr new => exact different (Prod.mk.inj new.1).1

theorem keeps_resend (s : SessionPrivate) (msgId : Nat) : Keeps s (s.resend msgId) := by
  unfold resend
  generalize s.sentContainers.size + 1 = fuel
  induction fuel generalizing s msgId with
  | zero => exact .refl s
  | succ fuel ih =>
      rw [resendCalls]
      refine Keeps.trans ?_ (keeps_clearSpecialMsgId _ _)
      split
      · exact Keeps.trans (Moves.keeps { containers := mem_of_erase }) (.foldl ih _ _)
      · split
        · rename_i found
          exact (Keeps.refl s).resendRequest (.sent (SortedMap.find?_eq_some.mp found))
        · exact .refl s

theorem keeps_resendAll (s : SessionPrivate) : Keeps s s.resendAll := by
  have some : ∀ (l : List (Nat × Nat)) (now : SessionPrivate), Keeps s now →
      (∀ e ∈ l, e ∈ s.haveSent.entries) →
      Keeps s (l.foldl (fun s e => s.resendRequest e.1 e.2) now) := by
    intro l
    induction l with
    | nil => exact fun now before _ => before
    | cons e l ih =>
        intro now before inside
        exact ih _ (before.resendRequest (.sent (inside e List.mem_cons_self)))
          fun e' member => inside e' (List.mem_cons_of_mem _ member)
  exact some _ s (.refl s) fun _ member => member

theorem keeps_becomeConnected (s : SessionPrivate) : Keeps s s.becomeConnected := by
  unfold becomeConnected
  split_ifs
  · exact Keeps.trans (keeps_of_same (by rfl)) (keeps_resendAll _)
  · exact .refl s

theorem keeps_handleMsgsStatesLoop (s : SessionPrivate) (states : List (Nat × Nat)) :
    Keeps s (handleMsgsStatesLoop s states).2 := by
  induction states generalizing s with
  | nil => exact .refl s
  | cons entry states ih =>
      rw [handleMsgsStatesLoop]
      split_ifs
      · exact ih s
      · exact (keeps_resend s _).trans (ih _)
      · exact ih s

theorem keeps_handleMsgsStates (s : SessionPrivate) (ids states : List Nat) :
    Keeps s (handleMsgsStates around s ids states) := by
  unfold handleMsgsStates
  split_ifs
  · exact .refl s
  · exact (keeps_handleMsgsStatesLoop s _).trans (keeps_requestsAcked _ _ _)

theorem keeps_handleBindResponse (s : SessionPrivate) (msgId : Nat) :
    Keeps s (handleBindResponse around s msgId).2 := by
  unfold handleBindResponse
  split
  · exact .refl s
  · cases around.bindState with
    | success => exact keeps_of_same rfl
    | failed => exact keeps_of_same rfl
    | definitelyDestroyed => exact keeps_of_same rfl

theorem keeps_received (s : SessionPrivate) (message : ReceivedMessage) : Keeps s (s.received message) :=
  keeps_of_same rfl

theorem keeps_handleRpcResult (s : SessionPrivate) (info : OuterInfo) (msgId typeId : Nat) (rest : List Nat) :
    Keeps s (handleRpcResult around s info msgId typeId rest).2 := by
  unfold handleRpcResult
  simp only
  split
  · exact .refl s
  · split
    · exact .refl s
    · have acked := @keeps_requestsAcked around s [msgId] true
      have bound := acked.trans (@keeps_handleBindResponse around _ msgId)
      split
      · rename_i ignored
        rw [ignored] at bound
        split_ifs
        · exact bound.trans (keeps_received _ _)
        · exact bound
      · rename_i answered
        rw [answered] at bound
        exact bound

theorem keeps_handleBadMsgNotification (s : SessionPrivate) (info : OuterInfo) (msgId errorCode : Nat) :
    Keeps s (handleBadMsgNotification s info msgId errorCode).2 := by
  unfold handleBadMsgNotification
  split_ifs
  · exact .refl s
  · exact keeps_resend s msgId
  · exact .refl s
  · simp only
    split_ifs
    · exact keeps_received s _
    · exact .refl s

theorem keeps_ackOrRequest (s : SessionPrivate) (msgId : Nat) : Keeps s (s.ackOrRequest msgId) := by
  unfold ackOrRequest
  split_ifs
  · exact keeps_of_same rfl
  · exact keeps_of_same rfl

theorem keeps_registerMsgId (s : SessionPrivate) (msgId : Nat) (needAck : Bool) :
    Keeps s (s.registerMsgId msgId needAck).2 := by
  unfold registerMsgId
  simp only
  split_ifs
  · exact .refl s
  · exact keeps_of_same rfl
  · exact .refl s

theorem keeps_pongReceived (s : SessionPrivate) (pingId : Nat) : Keeps s (s.pongReceived pingId) := by
  unfold pongReceived
  split_ifs
  · exact keeps_of_same rfl
  · exact .refl s

theorem keeps_ackReceived (s : SessionPrivate) (msgId : Nat) (needAck : Bool) :
    Keeps s (s.ackReceived msgId needAck) := by
  unfold ackReceived
  split_ifs
  · exact keeps_of_same rfl
  · exact .refl s

theorem keeps_shrinkReceived (s : SessionPrivate) : Keeps s s.shrinkReceived := by
  refine keeps_of_same ?_
  simp only [shrinkReceived, numbering]

mutual

theorem keeps_handleOneReceived (s : SessionPrivate) (info : OuterInfo) (message : Message) :
    Keeps s (handleOneReceived around s info message).2 := by
  cases message with
  | unreadable => exact .refl s
  | gzipBroken => exact .refl s
  | gzipPacked unpacked => exact keeps_handleOneReceived s info unpacked
  | msgContainer messages => exact keeps_handleContainer s info messages
  | msgsAck ids =>
      rw [handleOneReceived]
      split_ifs
      · exact .refl s
      · exact .refl s
      · exact keeps_requestsAcked s ids false
  | badMsgNotification badMsgId errorCode =>
      rw [handleOneReceived]
      exact keeps_handleBadMsgNotification s info badMsgId errorCode
  | badServerSalt badMsgId =>
      rw [handleOneReceived]
      split_ifs
      · exact .refl s
      · exact (keeps_becomeConnected s).trans (keeps_resend _ _)
  | msgsStateInfo reqMsgId states =>
      rw [handleOneReceived]
      split
      · exact .refl s
      · exact (keeps_requestsAcked s _ _).trans (keeps_handleMsgsStates _ _ _)
  | msgsAllInfo ids states =>
      rw [handleOneReceived]
      split_ifs
      · exact .refl s
      · exact keeps_handleMsgsStates s ids states
  | msgDetailedInfo msgId answerMsgId =>
      rw [handleOneReceived]
      split_ifs
      · exact .refl s
      · exact (keeps_requestsAcked s _ _).trans (keeps_ackOrRequest _ _)
  | msgNewDetailedInfo answerMsgId =>
      rw [handleOneReceived]
      split_ifs
      · exact .refl s
      · exact keeps_ackOrRequest s answerMsgId
  | rpcResult reqMsgId typeId rest =>
      rw [handleOneReceived]
      split_ifs
      · exact .refl s
      · exact keeps_handleRpcResult s info reqMsgId typeId rest
  | newSessionCreated firstMsgId update =>
      rw [handleOneReceived]
      split_ifs
      · exact .refl s
      · exact (Keeps.foldl keeps_resend _ s).trans (keeps_received _ _)
  | pong msgId pingId =>
      rw [handleOneReceived]
      split
      · exact .refl s
      · simp only
        split
        · exact keeps_pongReceived s pingId
        · exact (keeps_pongReceived s pingId).trans (keeps_requestsAcked _ [msgId] true)
  | updates update =>
      rw [handleOneReceived]
      split_ifs
      · exact .refl s
      · exact keeps_received s _
      · exact .refl s

theorem keeps_handleContainer (s : SessionPrivate) (info : OuterInfo) (messages : Messages) :
    Keeps s (handleContainer around s info messages).2 := by
  cases messages with
  | done => exact .refl s
  | broken result failed => exact .refl s
  | tooLong msgId needAck => exact keeps_ackReceived s msgId needAck
  | next msgId needAck message rest =>
      have registered := (keeps_ackReceived s msgId needAck).trans (keeps_registerMsgId _ msgId needAck)
      rw [handleContainer]
      split
      · rename_i s' success
        rw [success] at registered
        have handled := registered.trans (keeps_handleOneReceived s' info message)
        split
        · rename_i s'' good
          rw [good] at handled
          exact handled.trans (keeps_handleContainer s'' _ rest)
        · rename_i result s'' other
          rw [other] at handled
          exact handled
      · rename_i s' duplicate
        rw [duplicate] at registered
        exact registered.trans (keeps_handleContainer s' info rest)
      · rename_i s' tooOld
        rw [tooOld] at registered
        exact registered

end

theorem keeps_handleReceived (s : SessionPrivate) (msgId : Nat) (needAck badTime newSalt : Bool)
    (message : Message) : Keeps s (s.handleReceived around msgId needAck badTime newSalt message) := by
  unfold handleReceived
  have salted : Keeps s (if newSalt && !badTime then s.becomeConnected else s) := by
    split_ifs
    · exact keeps_becomeConnected s
    · exact .refl s
  have registered :=
    (salted.trans (keeps_ackReceived _ msgId needAck)).trans (keeps_registerMsgId _ msgId needAck)
  simp only
  split
  · rename_i s' success
    rw [success] at registered
    exact (registered.trans (keeps_handleOneReceived s' _ message)).trans (keeps_shrinkReceived _)
  · rename_i outcome s' different other
    rw [other] at registered
    exact registered.trans (keeps_shrinkReceived s')

theorem keeps_clearOldContainers (s : SessionPrivate) (old : Nat → Bool) :
    Keeps s (s.clearOldContainers old) := by
  refine Keeps.foldl (fun s e => ?_) _ s
  exact Keeps.trans (Moves.keeps { containers := mem_of_erase }) (.foldl keeps_resend _ _)

theorem keeps_authKeyChecked (s : SessionPrivate) (hasSalt : Bool) (pingId : Nat) :
    Keeps s (s.authKeyChecked hasSalt pingId) := by
  have salted : Keeps s
      (if hasSalt = true ∧ s.state ≠ .connected then resendAll { s with state := .connected } else s) := by
    split_ifs
    · exact Keeps.trans (keeps_of_same (by rfl)) (keeps_resendAll _)
    · exact .refl s
  exact salted.trans (keeps_of_same rfl)

theorem keeps_cancel (s : SessionPrivate) (requestId msgId : Nat) : Keeps s (s.cancel requestId msgId) := by
  refine Moves.keeps { sent := ?_, queued := ?_ }
  · intro e member
    simp only [cancel] at member
    split_ifs at member
    · exact mem_of_erase e member
    · exact member
  · intro e member
    simp only [cancel] at member
    split_ifs at member
    · exact .inl (mem_of_erase e member)
    · exact .inl member

end Receiving

/-! ## Sending -/

/-- A step that lets one id stand for a request. -/
structure Binds (s s' : SessionPrivate) (id r : Nat) : Prop where
  bound : ∀ m r', Bound s' m r' → Bound s m r' ∨ (m = id ∧ r' = r)
  generated : s.generated ≤ s'.generated
  queued : ∀ e ∈ s'.toSend.entries, e ∈ s.toSend.entries
  apart : (∀ m r r', (m, r) ∈ s.haveSent.entries → (m, r') ∉ s.resendingIds.entries) →
    ∀ m r r', (m, r) ∈ s'.haveSent.entries → (m, r') ∉ s'.resendingIds.entries

/-- An id that can stand for a request: it was generated and stands for nothing else. -/
structure Usable (mtprotoMsgId : Nat → Nat) (s : SessionPrivate) (id r : Nat) : Prop where
  issued : ∃ i < s.generated, mtprotoMsgId i = id
  alone : ∀ r', Bound s id r' → r' = r

theorem Sound.binds {id : Nat} (h : Sound mtprotoMsgId s) (usable : Usable mtprotoMsgId s id r)
    (small : r < 2 ^ 31) (step : Binds s s' id r) : Sound mtprotoMsgId s' := by
  have stands : ∀ r', Bound s' id r' → r' = r := by
    intro r' bound
    cases step.bound id r' bound with
    | inl before => exact usable.alone r' before
    | inr new => exact new.2
  have later : ∀ {m}, (∃ i < s.generated, mtprotoMsgId i = m) → ∃ i < s'.generated, mtprotoMsgId i = m := by
    rintro m ⟨i, less, same⟩
    exact ⟨i, Nat.lt_of_lt_of_le less step.generated, same⟩
  refine ⟨?_, ?_, ?_, fun e member => h.queued e (step.queued e member), step.apart h.apart⟩
  · intro m r₁ r₂ first second
    by_cases same : m = id
    · subst same
      rw [stands r₁ first, stands r₂ second]
    · have first := (step.bound m r₁ first).resolve_right fun new => same new.1
      have second := (step.bound m r₂ second).resolve_right fun new => same new.1
      exact h.unique m r₁ r₂ first second
  · intro m r' bound
    cases step.bound m r' bound with
    | inl before => exact later (h.issued m r' before)
    | inr new =>
        obtain ⟨rfl, -⟩ := new
        exact later usable.issued
  · intro m r' bound
    cases step.bound m r' bound with
    | inl before => exact h.valid m r' before
    | inr new =>
        obtain ⟨-, rfl⟩ := new
        exact small

theorem Reserved.binds {id other : Nat} (h : Reserved mtprotoMsgId s other) (different : other ≠ id)
    (step : Binds s s' id r) : Reserved mtprotoMsgId s' other := by
  obtain ⟨i, less, same⟩ := h.issued
  refine ⟨⟨i, Nat.lt_of_lt_of_le less step.generated, same⟩, fun r' bound => ?_⟩
  cases step.bound other r' bound with
  | inl before => exact h.free r' before
  | inr new => exact different new.1

theorem Reserved.usable {id : Nat} (h : Reserved mtprotoMsgId s id) (r : Nat) :
    Usable mtprotoMsgId s id r := ⟨h.issued, fun r' bound => absurd bound (h.free r')⟩

theorem keeps_nextMsgId (s : SessionPrivate) : Keeps s (s.nextMsgId mtprotoMsgId).2 := by
  refine ⟨?_, Nat.le_succ _, fun _ member => .inl member, fun apart => apart⟩
  intro m r bound
  cases bound with
  | sent member => exact .sent member
  | resending member => exact .resending member
  | acked member => exact .acked member
  | request numbered => exact .request numbered
  | container member => exact .container member
  | state member => exact .state member
  | ping numbered => exact .ping numbered

theorem reserved_nextMsgId (distinct : Function.Injective mtprotoMsgId) (h : Sound mtprotoMsgId s) :
    Reserved mtprotoMsgId (s.nextMsgId mtprotoMsgId).2 (s.nextMsgId mtprotoMsgId).1 := by
  refine ⟨⟨s.generated, Nat.lt_succ_self _, rfl⟩, fun r bound => ?_⟩
  obtain ⟨i, less, same⟩ := h.issued _ r ((keeps_nextMsgId s).bound _ r bound)
  exact absurd (distinct same) (Nat.ne_of_lt less)

/-- Sending goes on with an id for the next message, or for the container. -/
structure Ready (mtprotoMsgId : Nat → Nat) (s : SessionPrivate) (bigMsgId : Nat) : Prop where
  sound : Sound mtprotoMsgId s
  reserved : Reserved mtprotoMsgId s bigMsgId

theorem ready_nextMsgId (distinct : Function.Injective mtprotoMsgId) (h : Sound mtprotoMsgId s) :
    Ready mtprotoMsgId (s.nextMsgId mtprotoMsgId).2 (s.nextMsgId mtprotoMsgId).1 :=
  ⟨h.keeps (keeps_nextMsgId s), reserved_nextMsgId distinct h⟩

theorem ready_raiseBigMsgId {msgId bigMsgId : Nat} (distinct : Function.Injective mtprotoMsgId)
    (h : Sound mtprotoMsgId s) (kept : bigMsgId ≠ msgId → Reserved mtprotoMsgId s bigMsgId) :
    Ready mtprotoMsgId (raiseBigMsgId mtprotoMsgId s msgId bigMsgId).2
      (raiseBigMsgId mtprotoMsgId s msgId bigMsgId).1 := by
  unfold raiseBigMsgId
  split_ifs with reached
  · exact ready_nextMsgId distinct h
  · exact ⟨h, kept (by omega)⟩

theorem isUsed_of_reserved {id : Nat} (h : Reserved mtprotoMsgId s id) : s.isUsed id = false := by
  have missing : ∀ {map : SortedMap Nat Nat}, (∀ e ∈ map.entries, Bound s e.1 e.2) →
      map.contains id = false := by
    intro map bound
    apply Bool.eq_false_iff.mpr
    intro used
    obtain ⟨r, member⟩ := SortedMap.contains_iff.mp used
    exact h.free r (bound _ member)
  unfold isUsed
  rw [missing fun _ => .resending, missing fun _ => .acked, missing fun _ => .sent]
  rfl

theorem skipUsed_of_reserved {fuel id : Nat} (h : Reserved mtprotoMsgId s id) :
    skipUsed mtprotoMsgId fuel s id = (id, s) := by
  cases fuel with
  | zero => rfl
  | succ fuel => rw [skipUsed, isUsed_of_reserved h, if_neg Bool.false_ne_true]

theorem mem_moveKey {map : SortedMap Nat Nat} {oldId newId : Nat} {e : Nat × Nat}
    (member : e ∈ (moveKey map oldId newId).entries) :
    e ∈ map.entries ∨ (e.1 = newId ∧ (oldId, e.2) ∈ map.entries) := by
  unfold moveKey at member
  split at member
  · exact .inl member
  · rename_i requestId found
    cases SortedMap.mem_emplace.mp member with
    | inl before => exact .inl (mem_of_erase e before)
    | inr new =>
        obtain ⟨rfl, -⟩ := new
        exact .inr ⟨rfl, SortedMap.find?_eq_some.mp found⟩

/-- A request's own id goes over to the id that replaces it. -/
theorem bound_replaceMsgId {oldMsgId newId m r : Nat} (reserved : Reserved mtprotoMsgId s newId)
    (bound : Bound (replaceMsgId mtprotoMsgId s oldMsgId newId).2 m r) :
    Bound s m r ∨ (m = newId ∧ Bound s oldMsgId r) := by
  unfold replaceMsgId at bound
  split_ifs at bound
  · exact .inl bound
  · simp only [skipUsed_of_reserved reserved] at bound
    cases bound with
    | sent member =>
        cases mem_moveKey member with
        | inl before => exact .inl (.sent before)
        | inr moved => exact .inr ⟨moved.1, .sent moved.2⟩
    | resending member =>
        cases mem_moveKey member with
        | inl before => exact .inl (.resending before)
        | inr moved => exact .inr ⟨moved.1, .resending moved.2⟩
    | acked member =>
        cases mem_moveKey member with
        | inl before => exact .inl (.acked before)
        | inr moved => exact .inr ⟨moved.1, .acked moved.2⟩
    | request numbered => exact .inl (.request numbered)
    | container member =>
        obtain ⟨e, before, same⟩ := List.mem_map.mp member
        obtain ⟨rfl, -⟩ := Prod.mk.inj same
        exact .inl (.container before)
    | state member => exact .inl (.state member)
    | ping numbered => exact .inl (.ping numbered)

/-- What preparing a message leaves: its id stands for `r` at most, and is not being sent again. -/
structure Prepared (s s' : SessionPrivate) (id r : Nat) : Prop extends Binds s s' id r where
  same : s'.requests = s.requests
  taken : ∀ r', (id, r') ∉ s'.resendingIds.entries

theorem replaceMsgId_eq {oldMsgId newId : Nat} (reserved : Reserved mtprotoMsgId s newId) :
    (replaceMsgId mtprotoMsgId s oldMsgId newId).1 = newId ∧
      (replaceMsgId mtprotoMsgId s oldMsgId newId).2.generated = s.generated ∧
      (replaceMsgId mtprotoMsgId s oldMsgId newId).2.toSend = s.toSend ∧
      (replaceMsgId mtprotoMsgId s oldMsgId newId).2.requests = s.requests ∧
      (replaceMsgId mtprotoMsgId s oldMsgId newId).2.haveSent =
        (if oldMsgId = newId then s.haveSent else moveKey s.haveSent oldMsgId newId) ∧
      (replaceMsgId mtprotoMsgId s oldMsgId newId).2.resendingIds =
        (if oldMsgId = newId then s.resendingIds else moveKey s.resendingIds oldMsgId newId) := by
  unfold replaceMsgId
  split_ifs
  · exact ⟨rfl, rfl, rfl, rfl, rfl, rfl⟩
  · simp only [skipUsed_of_reserved reserved, and_self]

/-- Replacing an id that is not being sent again. -/
theorem prepared_replaceMsgId {oldMsgId newId : Nat} (reserved : Reserved mtprotoMsgId s newId)
    (stands : ∀ r', Bound s oldMsgId r' → r' = r)
    (erased : ∀ r', (oldMsgId, r') ∉ s.resendingIds.entries) :
    Prepared s (replaceMsgId mtprotoMsgId s oldMsgId newId).2 newId r := by
  obtain ⟨-, generated, queued, requests, sent, resending⟩ := @replaceMsgId_eq mtprotoMsgId s oldMsgId newId reserved
  have unmoved : ∀ e ∈ (replaceMsgId mtprotoMsgId s oldMsgId newId).2.resendingIds.entries,
      e ∈ s.resendingIds.entries := by
    intro e member
    rw [resending] at member
    split_ifs at member
    · exact member
    · cases mem_moveKey member with
      | inl before => exact before
      | inr moved => exact absurd moved.2 (erased e.2)
  have missing : ∀ r', (newId, r') ∉ s.resendingIds.entries := fun r' member =>
    reserved.free r' (.resending member)
  refine ⟨⟨?_, Nat.le_of_eq generated.symm, ?_, ?_⟩, requests, fun r' member => missing r' (unmoved _ member)⟩
  · intro m r' bound
    cases bound_replaceMsgId reserved bound with
    | inl before => exact .inl before
    | inr moved => exact .inr ⟨moved.1, stands r' moved.2⟩
  · intro e member
    rw [queued] at member
    exact member
  · intro apart m r₁ r₂ first second
    rw [sent] at first
    split_ifs at first
    · exact apart m r₁ r₂ first (unmoved _ second)
    · cases mem_moveKey first with
      | inl before => exact apart m r₁ r₂ before (unmoved _ second)
      | inr moved =>
          obtain ⟨same, -⟩ := moved
          exact missing r₂ (same ▸ unmoved _ second)

theorem prepared_prepareToSend {msgId currentLastId : Nat} (forceNewMsgId : Bool)
    (h : Ready mtprotoMsgId s currentLastId) (own : msgId = 0 ∨ Usable mtprotoMsgId s msgId r) :
    Prepared s (prepareToSend mtprotoMsgId s msgId currentLastId forceNewMsgId).2
        (prepareToSend mtprotoMsgId s msgId currentLastId forceNewMsgId).1 r ∧
      Usable mtprotoMsgId s (prepareToSend mtprotoMsgId s msgId currentLastId forceNewMsgId).1 r := by
  unfold prepareToSend
  by_cases numbered : msgId ≠ 0
  · have usable := own.resolve_left numbered
    rw [if_pos numbered]
    have erased : ∀ r', (msgId, r') ∉ (s.resendingIds.erase msgId).entries := fun r' member =>
      (SortedMap.mem_erase.mp member).2 rfl
    have step : Keeps s { s with resendingIds := s.resendingIds.erase msgId } :=
      Moves.keeps { resending := mem_of_erase }
    have reserved := h.reserved.keeps step
    have stands : ∀ r', Bound { s with resendingIds := s.resendingIds.erase msgId } msgId r' → r' = r :=
      fun r' other => usable.alone r' (step.bound msgId r' other)
    simp only
    split_ifs
    · have replaced := prepared_replaceMsgId reserved stands erased
      rw [(replaceMsgId_eq reserved).1]
      refine ⟨⟨⟨?_, replaced.generated, replaced.queued, fun apart => replaced.apart (step.apart apart)⟩,
        replaced.same, replaced.taken⟩, h.reserved.usable r⟩
      intro m r' after
      cases replaced.bound m r' after with
      | inl before => exact .inl (step.bound m r' before)
      | inr new => exact .inr new
    · refine ⟨⟨⟨fun m r' after => .inl (step.bound m r' after), Nat.le_refl _, fun _ member => member,
        step.apart⟩, rfl, erased⟩, usable⟩
  · rw [if_neg numbered]
    refine ⟨⟨⟨fun m r' after => .inl after, Nat.le_refl _, fun _ member => member, fun apart => apart⟩, rfl,
      fun r' member => h.reserved.free r' (.resending member)⟩, h.reserved.usable r⟩

theorem bound_rememberSent {id m r' : Nat}
    (bound : Bound ((s.setMsgId r id).rememberSent id r) m r') : Bound s m r' ∨ (m = id ∧ r' = r) := by
  have emplaced : ∀ {map : SortedMap Nat Nat}, (m, r') ∈ (map.emplace id r).entries →
      (m, r') ∈ map.entries ∨ (m = id ∧ r' = r) := by
    intro map member
    cases SortedMap.mem_emplace.mp member with
    | inl before => exact .inl before
    | inr new => exact .inr (Prod.mk.inj new.1)
  have requests : ∀ q, (Function.update s.requests r { s.requests r with msgId := id } q).msgId ≠ 0 →
      Bound s (Function.update s.requests r { s.requests r with msgId := id } q).msgId q ∨
        ((Function.update s.requests r { s.requests r with msgId := id } q).msgId = id ∧ q = r) := by
    intro q numbered
    by_cases same : q = r
    · subst same
      rw [Function.update_self]
      exact .inr ⟨rfl, rfl⟩
    · rw [Function.update_of_ne same] at numbered ⊢
      exact .inl (.request numbered)
  unfold rememberSent setMsgId at bound
  split_ifs at bound
  · cases bound with
    | sent member =>
        cases emplaced member with
        | inl before => exact .inl (.sent before)
        | inr new => exact .inr new
    | resending member => exact .inl (.resending member)
    | acked member => exact .inl (.acked member)
    | request numbered => exact requests _ numbered
    | container member => exact .inl (.container member)
    | state member => exact .inl (.state member)
    | ping numbered => exact .inl (.ping numbered)
  · cases bound with
    | sent member => exact .inl (.sent member)
    | resending member => exact .inl (.resending member)
    | acked member =>
        cases emplaced member with
        | inl before => exact .inl (.acked before)
        | inr new => exact .inr new
    | request numbered => exact requests _ numbered
    | container member => exact .inl (.container member)
    | state member => exact .inl (.state member)
    | ping numbered => exact .inl (.ping numbered)

/-- Sending a request binds its id to it, and only that. -/
theorem binds_sendRequest {currentLastId : Nat} (forceNewMsgId : Bool)
    (h : Ready mtprotoMsgId s currentLastId) (r : Nat) :
    Binds s (sendRequest mtprotoMsgId s r currentLastId forceNewMsgId).2
        (sendRequest mtprotoMsgId s r currentLastId forceNewMsgId).1 r ∧
      Usable mtprotoMsgId s (sendRequest mtprotoMsgId s r currentLastId forceNewMsgId).1 r := by
  have own : (s.requests r).msgId = 0 ∨ Usable mtprotoMsgId s (s.requests r).msgId r := by
    by_cases numbered : (s.requests r).msgId = 0
    · exact .inl numbered
    · have bound := Bound.request numbered
      exact .inr ⟨h.sound.issued _ r bound, fun r' other => h.sound.unique _ r' r other bound⟩
  have prepared := prepared_prepareToSend forceNewMsgId h own
  unfold sendRequest
  generalize prepareToSend mtprotoMsgId s (s.requests r).msgId currentLastId forceNewMsgId = result at prepared ⊢
  obtain ⟨id, s'⟩ := result
  obtain ⟨prepared, usable⟩ := prepared
  simp only at prepared usable ⊢
  refine ⟨⟨?_, ?_, ?_, ?_⟩, usable⟩
  · intro m r' bound
    cases bound_rememberSent bound with
    | inl before => exact prepared.bound m r' before
    | inr new => exact .inr new
  · unfold rememberSent
    split_ifs
    · exact prepared.generated
    · exact prepared.generated
  · unfold rememberSent
    split_ifs
    · exact prepared.queued
    · exact prepared.queued
  · intro apart
    have before := prepared.apart apart
    unfold rememberSent
    split_ifs
    · intro m r₁ r₂ first second
      cases SortedMap.mem_emplace.mp first with
      | inl first => exact before m r₁ r₂ first second
      | inr new =>
          obtain ⟨rfl, -⟩ := Prod.mk.inj new.1
          exact prepared.taken r₂ second
    · exact before

theorem ready_sendRequest {bigMsgId : Nat} (forceNewMsgId : Bool) (distinct : Function.Injective mtprotoMsgId)
    (h : Ready mtprotoMsgId s bigMsgId) (small : r < 2 ^ 31) :
    Sound mtprotoMsgId (sendRequest mtprotoMsgId s r bigMsgId forceNewMsgId).2 ∧
      ∀ s' id, sendRequest mtprotoMsgId s r bigMsgId forceNewMsgId = (id, s') →
        Ready mtprotoMsgId (raiseBigMsgId mtprotoMsgId s' id bigMsgId).2
          (raiseBigMsgId mtprotoMsgId s' id bigMsgId).1 := by
  obtain ⟨binds, usable⟩ := binds_sendRequest forceNewMsgId h r
  have sound := h.sound.binds usable small binds
  refine ⟨sound, fun s' id sent => ?_⟩
  rw [sent] at sound binds
  exact ready_raiseBigMsgId distinct sound fun different => h.reserved.binds different binds

theorem ready_sendQueued {bigMsgId : Nat} (forceNewMsgId : Bool) (distinct : Function.Injective mtprotoMsgId)
    (h : Ready mtprotoMsgId s bigMsgId) {queued : List Nat} (small : ∀ r ∈ queued, r < 2 ^ 31) :
    Ready mtprotoMsgId (sendQueued mtprotoMsgId forceNewMsgId s bigMsgId queued).2.2
      (sendQueued mtprotoMsgId forceNewMsgId s bigMsgId queued).2.1 := by
  induction queued generalizing s bigMsgId with
  | nil => exact h
  | cons r queued ih =>
      have ready := (ready_sendRequest forceNewMsgId distinct h (small r List.mem_cons_self)).2 _ _ rfl
      exact ih ready fun r' member => small r' (List.mem_cons_of_mem _ member)

/-! ## Service messages -/

theorem binds_ping (s : SessionPrivate) (id : Nat) : Binds s { s with pingMsgId := id } id 0 := by
  refine ⟨?_, Nat.le_refl _, fun _ member => member, fun apart => apart⟩
  intro m r bound
  cases bound with
  | sent member => exact .inl (.sent member)
  | resending member => exact .inl (.resending member)
  | acked member => exact .inl (.acked member)
  | request numbered => exact .inl (.request numbered)
  | container member => exact .inl (.container member)
  | state member => exact .inl (.state member)
  | ping numbered => exact .inr ⟨rfl, rfl⟩

theorem binds_state (s : SessionPrivate) (id : Nat) (ids : List Nat) :
    Binds s { s with stateAndResendRequests := s.stateAndResendRequests.emplace id ids } id 0 := by
  refine ⟨?_, Nat.le_refl _, fun _ member => member, fun apart => apart⟩
  intro m r bound
  cases bound with
  | sent member => exact .inl (.sent member)
  | resending member => exact .inl (.resending member)
  | acked member => exact .inl (.acked member)
  | request numbered => exact .inl (.request numbered)
  | container member => exact .inl (.container member)
  | state member =>
      cases SortedMap.mem_emplace.mp member with
      | inl before => exact .inl (.state before)
      | inr new => exact .inr ⟨(Prod.mk.inj new.1).1, rfl⟩
  | ping numbered => exact .inl (.ping numbered)

theorem binds_container (s : SessionPrivate) (id : Nat) (ids : List Nat) :
    Binds s { s with sentContainers := s.sentContainers.emplace id ids } id 0 := by
  refine ⟨?_, Nat.le_refl _, fun _ member => member, fun apart => apart⟩
  intro m r bound
  cases bound with
  | sent member => exact .inl (.sent member)
  | resending member => exact .inl (.resending member)
  | acked member => exact .inl (.acked member)
  | request numbered => exact .inl (.request numbered)
  | container member =>
      cases SortedMap.mem_emplace.mp member with
      | inl before => exact .inl (.container before)
      | inr new => exact .inr ⟨(Prod.mk.inj new.1).1, rfl⟩
  | state member => exact .inl (.state member)
  | ping numbered => exact .inl (.ping numbered)

/-- A placed message has an id for itself, and the container has another one. -/
structure Placed (mtprotoMsgId : Nat → Nat) (s : SessionPrivate) (id bigMsgId : Nat) : Prop
    extends Ready mtprotoMsgId s bigMsgId where
  usable : Usable mtprotoMsgId s id 0
  different : bigMsgId ≠ id

theorem Placed.binds {id bigMsgId : Nat} (h : Placed mtprotoMsgId s id bigMsgId) (step : Binds s s' id 0) :
    Ready mtprotoMsgId s' bigMsgId :=
  ⟨h.sound.binds h.usable (by decide) step, h.reserved.binds h.different step⟩

theorem placed_placeToContainer {bigMsgId reqMsgId : Nat} (forceNewMsgId : Bool)
    (distinct : Function.Injective mtprotoMsgId) (h : Ready mtprotoMsgId s bigMsgId)
    (own : reqMsgId = 0 ∨ Usable mtprotoMsgId s reqMsgId 0) :
    Placed mtprotoMsgId (placeToContainer mtprotoMsgId s bigMsgId reqMsgId forceNewMsgId).2.2
      (placeToContainer mtprotoMsgId s bigMsgId reqMsgId forceNewMsgId).1
      (placeToContainer mtprotoMsgId s bigMsgId reqMsgId forceNewMsgId).2.1 := by
  obtain ⟨prepared, usable⟩ := prepared_prepareToSend forceNewMsgId h own
  unfold placeToContainer
  generalize prepareToSend mtprotoMsgId s reqMsgId bigMsgId forceNewMsgId = result at prepared usable ⊢
  obtain ⟨id, s'⟩ := result
  simp only at prepared usable ⊢
  have sound := h.sound.binds usable (by decide) prepared.toBinds
  have ready := ready_raiseBigMsgId distinct sound fun different => h.reserved.binds different prepared.toBinds
  obtain ⟨i, less, same⟩ := usable.issued
  have earlier : i < s'.generated := Nat.lt_of_lt_of_le less prepared.generated
  have alone : ∀ r', Bound s' id r' → r' = 0 := by
    intro r' bound
    cases prepared.bound id r' bound with
    | inl before => exact usable.alone r' before
    | inr new => exact new.2
  refine ⟨ready, ⟨?_, ?_⟩, ?_⟩
  · refine ⟨i, Nat.lt_of_lt_of_le earlier ?_, same⟩
    unfold raiseBigMsgId
    split_ifs
    · exact Nat.le_succ _
    · exact Nat.le_refl _
  · intro r' bound
    unfold raiseBigMsgId at bound
    split_ifs at bound
    · exact alone r' ((keeps_nextMsgId s').bound id r' bound)
    · exact alone r' bound
  · unfold raiseBigMsgId
    split_ifs with reached
    · intro repeated
      rw [← same] at repeated
      exact absurd (distinct repeated) (Nat.ne_of_gt earlier)
    · simp only
      omega

theorem ready_placeStateRequest {bigMsgId : Nat} (forceNewMsgId : Bool)
    (distinct : Function.Injective mtprotoMsgId) (h : Ready mtprotoMsgId s bigMsgId)
    (request : Option (List Nat)) :
    Ready mtprotoMsgId (placeStateRequest mtprotoMsgId s bigMsgId forceNewMsgId request).2
      (placeStateRequest mtprotoMsgId s bigMsgId forceNewMsgId request).1 := by
  cases request with
  | none => exact h
  | some ids => exact (placed_placeToContainer forceNewMsgId distinct h (.inl rfl)).binds (binds_state _ _ ids)

theorem ready_placeUntracked {bigMsgId : Nat} (forceNewMsgId : Bool)
    (distinct : Function.Injective mtprotoMsgId) (h : Ready mtprotoMsgId s bigMsgId) (present : Bool) :
    Ready mtprotoMsgId (placeUntracked mtprotoMsgId s bigMsgId forceNewMsgId present).2
      (placeUntracked mtprotoMsgId s bigMsgId forceNewMsgId present).1 := by
  unfold placeUntracked
  split_ifs
  · exact (placed_placeToContainer forceNewMsgId distinct h (.inl rfl)).toReady
  · exact h

theorem ready_placeBind {bigMsgId : Nat} (distinct : Function.Injective mtprotoMsgId)
    (h : Ready mtprotoMsgId s bigMsgId) {bind : Option Nat}
    (own : ∀ id ∈ bind, Reserved mtprotoMsgId s id) :
    Ready mtprotoMsgId (placeBind mtprotoMsgId s bigMsgId bind).2
      (placeBind mtprotoMsgId s bigMsgId bind).1 := by
  cases bind with
  | none => exact h
  | some id =>
      have placed := placed_placeToContainer false distinct h (.inr ((own id rfl).usable 0))
      have step : Keeps (placeToContainer mtprotoMsgId s bigMsgId id false).2.2
          (placeBind mtprotoMsgId s bigMsgId (some id)).2 := keeps_of_same rfl
      exact ⟨placed.sound.keeps step, placed.reserved.keeps step⟩

theorem ready_placePing {bigMsgId : Nat} (forceNewMsgId : Bool)
    (distinct : Function.Injective mtprotoMsgId) (h : Ready mtprotoMsgId s bigMsgId) (present : Bool) :
    Ready mtprotoMsgId (placePing mtprotoMsgId s bigMsgId forceNewMsgId present).2
      (placePing mtprotoMsgId s bigMsgId forceNewMsgId present).1 := by
  unfold placePing
  split_ifs
  · exact (placed_placeToContainer forceNewMsgId distinct h (.inl rfl)).binds (binds_ping _ _)
  · exact h

/-- The requests of a container are sent, and then the queue is empty. -/
theorem ready_takeQueue {bigMsgId : Nat} (sendAll forceNewMsgId : Bool)
    (distinct : Function.Injective mtprotoMsgId) (h : Ready mtprotoMsgId s bigMsgId) :
    let sent := sendQueued mtprotoMsgId forceNewMsgId s bigMsgId
      (if sendAll then s.toSend.entries.map Prod.fst else [])
    Ready mtprotoMsgId (if sendAll then { sent.2.2 with toSend := .empty } else sent.2.2) sent.2.1 := by
  have small : ∀ r ∈ (if sendAll = true then s.toSend.entries.map Prod.fst else []), r < 2 ^ 31 := by
    intro r member
    split_ifs at member
    · obtain ⟨e, queued, rfl⟩ := List.mem_map.mp member
      exact h.sound.queued e queued
    · cases member
  have sent := ready_sendQueued forceNewMsgId distinct h small
  intro result
  split_ifs
  · have step : Keeps result.2.2 { result.2.2 with toSend := .empty } := Moves.keeps { queued := nofun }
    exact ⟨sent.sound.keeps step, sent.reserved.keeps step⟩
  · exact sent

theorem sound_sendContainer (distinct : Function.Injective mtprotoMsgId) (h : Sound mtprotoMsgId s)
    {service : ServiceRequests} (own : ∀ id ∈ service.bind, Reserved mtprotoMsgId s id)
    (sendAll forceNewMsgId : Bool) :
    Sound mtprotoMsgId (sendContainer mtprotoMsgId s service sendAll forceNewMsgId) := by
  have ready := ready_nextMsgId distinct h
  have bound := ready_placeBind distinct ready fun id member => (own id member).keeps (keeps_nextMsgId s)
  have pinged := ready_placePing forceNewMsgId distinct bound service.ping
  unfold sendContainer
  simp only
  generalize placePing mtprotoMsgId _ _ forceNewMsgId service.ping = result at pinged ⊢
  obtain ⟨bigMsgId, s₁⟩ := result
  simp only at pinged ⊢
  have cleared := ready_takeQueue sendAll forceNewMsgId distinct pinged
  generalize sendQueued mtprotoMsgId forceNewMsgId s₁ bigMsgId _ = result at cleared ⊢
  obtain ⟨messages, bigMsgId, s₂⟩ := result
  simp only at cleared ⊢
  have stated := ready_placeStateRequest forceNewMsgId distinct cleared service.state
  have resent := ready_placeStateRequest forceNewMsgId distinct stated service.resend
  have acked := ready_placeUntracked forceNewMsgId distinct resent service.ack.isSome
  have last := ready_placeUntracked forceNewMsgId distinct acked service.httpWait
  exact last.sound.binds (last.reserved.usable 0) (by decide) (binds_container _ _ messages)

theorem sound_sendSingle (distinct : Function.Injective mtprotoMsgId) (h : Sound mtprotoMsgId s)
    {service : ServiceRequests} (own : ∀ id ∈ service.bind, Reserved mtprotoMsgId s id)
    (sendAll forceNewMsgId : Bool) :
    Sound mtprotoMsgId (sendSingle mtprotoMsgId s service sendAll forceNewMsgId) := by
  have step : Keeps s (if sendAll then { s with toSend := .empty } else s) := by
    split_ifs
    · exact Moves.keeps { queued := nofun }
    · exact .refl s
  have ready := ready_nextMsgId distinct (h.keeps step)
  have kept := step.trans (@keeps_nextMsgId mtprotoMsgId _)
  unfold sendSingle
  simp only
  generalize nextMsgId mtprotoMsgId _ = result at ready kept ⊢
  obtain ⟨newId, s₁⟩ := result
  simp only at ready kept ⊢
  have usable := ready.reserved.usable 0
  split
  · rename_i id bind
    have reserved := (own id bind).keeps kept
    obtain ⟨prepared, usable⟩ := prepared_prepareToSend false ready (.inr (reserved.usable 0))
    have sound := ready.sound.binds usable (by decide) prepared.toBinds
    exact sound.keeps (keeps_of_same rfl)
  · split
    · exact ready.sound.binds usable (by decide) (binds_ping s₁ newId)
    · split
      · exact ready.sound.binds usable (by decide) (binds_state s₁ newId _)
      · exact ready.sound.binds usable (by decide) (binds_state s₁ newId _)
      · split
        · exact ready.sound
        · split
          · exact ready.sound
          · rename_i requestId _ _ first
            have small := h.queued (requestId, ()) (first ▸ List.mem_cons_self)
            exact (ready_sendRequest forceNewMsgId distinct ready small).1

theorem sound_takeServiceRequests (distinct : Function.Injective mtprotoMsgId) (h : Sound mtprotoMsgId s)
    (sending : Sending) (sendOnlyFirstPing : Bool) :
    Sound mtprotoMsgId (takeServiceRequests mtprotoMsgId s sending sendOnlyFirstPing).2 ∧
      ∀ id ∈ (takeServiceRequests mtprotoMsgId s sending sendOnlyFirstPing).1.bind,
        Reserved mtprotoMsgId (takeServiceRequests mtprotoMsgId s sending sendOnlyFirstPing).2 id := by
  have pinged : Keeps s
      (if s.pingIdToSend ≠ 0 then { s with pingId := s.pingIdToSend, pingIdToSend := 0 } else s) := by
    split_ifs
    · exact keeps_of_same rfl
    · exact .refl s
  unfold takeServiceRequests
  simp only
  generalize (if s.pingIdToSend ≠ 0 then _ else s) = s₁ at pinged ⊢
  have taken : Keeps s₁
      { s₁ with ackRequestData := [], resendRequestData := [], stateRequestData := .empty } := keeps_of_same rfl
  by_cases onlyPing : sendOnlyFirstPing = true
  · simp only [if_pos onlyPing]
    exact ⟨h.keeps pinged, nofun⟩
  · simp only [if_neg onlyPing]
    by_cases binding : s₁.bindMsgId = 0 ∧ s₁.keyCreator = true ∧ sending.readyToBind = true
    · simp only [if_pos binding]
      have ready := ready_nextMsgId distinct (h.keeps (pinged.trans taken))
      refine ⟨ready.sound, fun id same => ?_⟩
      cases same
      exact ready.reserved
    · simp only [if_neg binding]
      exact ⟨h.keeps (pinged.trans taken), nofun⟩

/-- The end of `tryToSend`, after it decided what to send. -/
theorem sound_sendCollected (distinct : Function.Injective mtprotoMsgId) (h : Sound mtprotoMsgId s)
    (sending : Sending) (sendOnlyFirstPing sendAll forceNewMsgId : Bool) :
    Sound mtprotoMsgId
      (let (service, s) := takeServiceRequests mtprotoMsgId s sending sendOnlyFirstPing
      let toSendCount := service.count + if sendAll then s.toSend.size else 0
      if toSendCount = 0 then s
      else if toSendCount = 1 ∧ !s.forcedInContainer service then
        sendSingle mtprotoMsgId s service sendAll forceNewMsgId
      else sendContainer mtprotoMsgId s service sendAll forceNewMsgId) := by
  obtain ⟨sound, own⟩ := sound_takeServiceRequests distinct h sending sendOnlyFirstPing
  simp only
  generalize _ + (if sendAll = true then _ else 0) = toSendCount
  split
  · exact sound
  · split
    · exact sound_sendSingle distinct sound own sendAll forceNewMsgId
    · exact sound_sendContainer distinct sound own sendAll forceNewMsgId

theorem sound_tryToSend (distinct : Function.Injective mtprotoMsgId) (h : Sound mtprotoMsgId s)
    (sending : Sending) : Sound mtprotoMsgId (s.tryToSend mtprotoMsgId sending) := by
  unfold tryToSend
  split
  · exact h
  · simp only
    split
    · exact h
    · refine sound_sendCollected distinct (h.keeps ?_) sending _ _ _
      exact (Keeps.ite (keeps_of_same (by rfl))).trans (Keeps.ite (keeps_of_same (by rfl)))

/-! ## Runs -/

theorem sound_sendPrepared (h : Sound mtprotoMsgId s) (small : r < 2 ^ 31) (needAck : Bool) :
    Sound mtprotoMsgId (s.sendPrepared r needAck) := by
  have step : Keeps s { s.sendPrepared r needAck with toSend := s.toSend } := by
    refine Moves.keeps { requests := fun r' => ?_ }
    by_cases same : r' = r
    · right
      subst same
      simp only [sendPrepared, Function.update_self]
    · left
      simp only [sendPrepared, Function.update_of_ne same]
  have sound := h.keeps step
  have bound : ∀ m r', Bound (s.sendPrepared r needAck) m r' →
      Bound { s.sendPrepared r needAck with toSend := s.toSend } m r' := by
    intro m r' bound
    cases bound with
    | sent member => exact .sent member
    | resending member => exact .resending member
    | acked member => exact .acked member
    | request numbered => exact Bound.request numbered
    | container member => exact .container member
    | state member => exact .state member
    | ping numbered => exact Bound.ping numbered
  refine ⟨?_, ?_, ?_, ?_, sound.apart⟩
  · exact fun m r₁ r₂ first second => sound.unique m r₁ r₂ (bound m r₁ first) (bound m r₂ second)
  · exact fun m r' after => sound.issued m r' (bound m r' after)
  · exact fun m r' after => sound.valid m r' (bound m r' after)
  · intro e member
    cases SortedMap.mem_emplace.mp member with
    | inl before => exact h.queued e before
    | inr new =>
        obtain ⟨rfl, -⟩ := new
        exact small

theorem sound_step (distinct : Function.Injective mtprotoMsgId) (h : Sound mtprotoMsgId s) (event : Event) :
    Sound mtprotoMsgId (s.step mtprotoMsgId event) := by
  cases event with
  | sendPrepared requestId positive int needAck => exact sound_sendPrepared h int needAck
  | cancel requestId msgId => exact h.keeps (keeps_cancel s requestId msgId)
  | tryToSend sending => exact sound_tryToSend distinct h sending
  | handleReceived around msgId needAck badTime newSalt message =>
      exact h.keeps (keeps_handleReceived s msgId needAck badTime newSalt message)
  | checkSentRequests old => exact h.keeps (keeps_of_same rfl)
  | clearOldContainers old => exact h.keeps (keeps_clearOldContainers s old)
  | connectToServer keyCreator => exact h.keeps (Moves.keeps { ping := .inr rfl })
  | authKeyChecked hasSalt pingId => exact h.keeps (keeps_authKeyChecked s hasSalt pingId)
  | changeSessionId => exact h.keeps (keeps_of_same rfl)
  | start =>
      exact h.keeps (Moves.keeps {
        resending := nofun, acked := nofun, containers := nofun, states := nofun, ping := .inr rfl })
  | tryToReceive => exact h.keeps (keeps_of_same rfl)

theorem sound_initial : Sound mtprotoMsgId {} := by
  have nothing : ∀ m r, ¬ Bound {} m r := by
    intro m r bound
    cases bound with
    | sent member => cases member
    | resending member => cases member
    | acked member => cases member
    | request numbered => exact numbered rfl
    | container member => cases member
    | state member => cases member
    | ping numbered => exact numbered rfl
  refine ⟨?_, ?_, ?_, nofun, nofun⟩
  · exact fun m r r' bound => absurd bound (nothing m r)
  · exact fun m r bound => absurd bound (nothing m r)
  · exact fun m r bound => absurd bound (nothing m r)

/-- The states in which a message can be handled: between the events, and inside of a container. -/
inductive Reached (mtprotoMsgId : Nat → Nat) : SessionPrivate → Prop where
  | initial : Reached mtprotoMsgId {}
  | step {s : SessionPrivate} (before : Reached mtprotoMsgId s) (event : Event) :
      Reached mtprotoMsgId (s.step mtprotoMsgId event)
  | connected {s : SessionPrivate} (before : Reached mtprotoMsgId s) : Reached mtprotoMsgId s.becomeConnected
  | registered {s : SessionPrivate} (before : Reached mtprotoMsgId s) (msgId : Nat) (needAck : Bool) :
      Reached mtprotoMsgId ((s.ackReceived msgId needAck).registerMsgId msgId needAck).2
  | handled {s : SessionPrivate} (before : Reached mtprotoMsgId s) (around : Surroundings) (info : OuterInfo)
      (message : Message) : Reached mtprotoMsgId (handleOneReceived around s info message).2

theorem reached_run (events : List Event) (before : Reached mtprotoMsgId s) :
    Reached mtprotoMsgId (run mtprotoMsgId s events) := by
  induction events generalizing s with
  | nil => exact before
  | cons event events ih => exact ih (before.step event)

/-- Whatever happened to a session, an id stands for one request. -/
theorem sound_of_reached (distinct : Function.Injective mtprotoMsgId) (reached : Reached mtprotoMsgId s) :
    Sound mtprotoMsgId s := by
  induction reached with
  | initial => exact sound_initial
  | step before event ih => exact sound_step distinct ih event
  | connected before ih => exact ih.keeps (keeps_becomeConnected _)
  | registered before msgId needAck ih =>
      exact ih.keeps ((keeps_ackReceived _ msgId needAck).trans (keeps_registerMsgId _ msgId needAck))
  | handled before around info message ih => exact ih.keeps (keeps_handleOneReceived _ info message)

end IMeDesktop.Mtproto.Requests.SessionPrivate
