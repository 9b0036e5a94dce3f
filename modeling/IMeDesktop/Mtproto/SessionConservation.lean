import IMeDesktop.Mtproto.SessionBindings

/-! # No request is lost or doubled

A request moves between `toSend`, where its request id is the key, and `haveSent`,
where a message id is. Both are filled with `emplace`, which does nothing for a key
that is there, so a request could vanish on its way or stay behind in both.

Neither happens: the places a request is in and the times `requestsAcked` erased it
add up to the times it was sent. One step changes them together, and a run is a
sequence of steps.
-/

namespace IMeDesktop.Mtproto.Requests.SessionPrivate

open Lib

variable {mtprotoMsgId : Nat → Nat} {s s' s'' : SessionPrivate} {m r : Nat}

/-! ## What `requestsAcked` erases -/

section Erased

variable (around : Surroundings)

/-- The request that an acknowledged id erases, from `haveSent` or from `toSend`. -/
def erasedFor (byResponse : Bool) (s : SessionPrivate) (msgId : Nat) : Option Nat :=
  if s.sentContainers.contains msgId || s.stateAndResendRequests.contains msgId then none
  else
    match s.haveSent.find? msgId with
    | some requestId => if !byResponse && around.hasCallback requestId then none else some requestId
    | none =>
        match s.resendingIds.find? msgId with
        | none => none
        | some requestId =>
            if !byResponse && around.hasCallback requestId then none
            else if s.toSend.contains requestId then some requestId
            else none

def erasedInLoop (byResponse : Bool) : SessionPrivate → List Nat → List Nat
  | _, [] => []
  | s, msgId :: ids =>
      (erasedFor around byResponse s msgId).toList ++
        erasedInLoop byResponse (requestAcked around byResponse s msgId).2 ids

def erasedInCalls : Nat → SessionPrivate → List Nat → Bool → List Nat
  | 0, _, _, _ => []
  | fuel + 1, s, ids, byResponse =>
      let (toAckMore, acked) := requestsAckedLoop around byResponse s ids
      erasedInLoop around byResponse s ids ++
        if toAckMore = [] then [] else erasedInCalls fuel acked.trimAcked toAckMore false

def erasedByAcks (s : SessionPrivate) (ids : List Nat) (byResponse : Bool) : List Nat :=
  erasedInCalls around (s.sentContainers.size + 1) s ids byResponse

def erasedByStates (s : SessionPrivate) (ids states : List Nat) : List Nat :=
  if ids = [] ∨ states.length ≠ ids.length then []
  else
    let (acked, s) := handleMsgsStatesLoop s (ids.zip states)
    erasedByAcks around s acked false

end Erased

/-! ## Runs -/

/-- What moves requests, and what decides how `tryToSend` sends them. Request ids are positive, as
`GetNextRequestId` gives them. -/
inductive Operation where
  | sendPrepared (requestId : Nat) (positive : 0 < requestId) (int : requestId < 2 ^ 31)
  | tryToSend (sending : Sending)
  | resend (msgId : Nat)
  | resendAll
  | clearOldContainers (old : Nat → Bool)
  | requestsAcked (around : Surroundings) (ids : List Nat) (byResponse : Bool)
  | handleMsgsStates (around : Surroundings) (ids states : List Nat)
  | checkSentRequests (old : Nat → Bool)
  | connectToServer (keyCreator : Bool)
  | authKeyChecked (hasSalt : Bool) (pingId : Nat)
  | becomeConnected
  | changeSessionId
  | start

def perform (mtprotoMsgId : Nat → Nat) (s : SessionPrivate) : Operation → SessionPrivate
  | .sendPrepared requestId _ _ => s.sendPrepared requestId true
  | .tryToSend sending => s.tryToSend mtprotoMsgId sending
  | .resend msgId => s.resend msgId
  | .resendAll => s.resendAll
  | .clearOldContainers old => s.clearOldContainers old
  | .requestsAcked around ids byResponse => SessionPrivate.requestsAcked around s ids byResponse
  | .handleMsgsStates around ids states => SessionPrivate.handleMsgsStates around s ids states
  | .checkSentRequests old => s.checkSentRequests old
  | .connectToServer keyCreator => s.connectToServer keyCreator
  | .authKeyChecked hasSalt pingId => s.authKeyChecked hasSalt pingId
  | .becomeConnected => s.becomeConnected
  | .changeSessionId => s.changeSessionId
  | .start => s.start

def performAll (mtprotoMsgId : Nat → Nat) (s : SessionPrivate) (operations : List Operation) :
    SessionPrivate :=
  operations.foldl (perform mtprotoMsgId) s

def Operation.sent : Operation → List Nat
  | .sendPrepared requestId _ _ => [requestId]
  | _ => []

def Operation.erased (s : SessionPrivate) : Operation → List Nat
  | .requestsAcked around ids byResponse => erasedByAcks around s ids byResponse
  | .handleMsgsStates around ids states => erasedByStates around s ids states
  | _ => []

/-- The requests that a run erases. -/
def erasedIn (mtprotoMsgId : Nat → Nat) : SessionPrivate → List Operation → List Nat
  | _, [] => []
  | s, operation :: operations =>
      operation.erased s ++ erasedIn mtprotoMsgId (perform mtprotoMsgId s operation) operations

/-! ## Places -/

def waiting (s : SessionPrivate) (r : Nat) : Nat := s.toSend.entries.countP fun e => e.1 = r

def underWay (s : SessionPrivate) (r : Nat) : Nat := s.haveSent.entries.countP fun e => e.2 = r

/-- How often a request is in `toSend` and `haveSent`. -/
def places (s : SessionPrivate) (r : Nat) : Nat := s.waiting r + s.underWay r

theorem waiting_empty (empty : s.toSend = .empty) (r : Nat) : s.waiting r = 0 := by
  rw [waiting, empty]
  rfl

theorem underWay_pos (member : (m, r) ∈ s.haveSent.entries) : 0 < s.underWay r :=
  List.countP_pos_iff.mpr ⟨_, member, decide_eq_true rfl⟩

theorem not_sent_of_underWay (none : s.underWay r = 0) (m : Nat) : (m, r) ∉ s.haveSent.entries := by
  intro member
  have := underWay_pos member
  omega

/-- What a step erased is gone from its place; no other request came or went. -/
structure Accounts (s s' : SessionPrivate) (gone : List Nat) : Prop where
  places : ∀ r, s'.places r + gone.count r = s.places r
  needAck : ∀ r, (s'.requests r).needAck = (s.requests r).needAck

namespace Accounts

theorem refl (s : SessionPrivate) : Accounts s s [] := ⟨fun _ => rfl, fun _ => rfl⟩

theorem trans {first second : List Nat} (before : Accounts s s' first) (after : Accounts s' s'' second) :
    Accounts s s'' (first ++ second) := by
  refine ⟨fun r => ?_, fun r => (after.needAck r).trans (before.needAck r)⟩
  have := before.places r
  have := after.places r
  rw [List.count_append]
  omega

/-- A step that erases nothing, after one that may. -/
theorem then_quiet {gone : List Nat} (before : Accounts s s' gone) (after : Accounts s' s'' []) :
    Accounts s s'' gone := by
  have both := before.trans after
  rwa [List.append_nil] at both

theorem of_same (queued : s'.toSend = s.toSend) (sent : s'.haveSent = s.haveSent)
    (requests : s'.requests = s.requests) : Accounts s s' [] := by
  refine ⟨fun r => ?_, fun r => by rw [requests]⟩
  simp only [SessionPrivate.places, waiting, underWay, queued, sent, List.count_nil, Nat.add_zero]

theorem ite {c : Prop} [Decidable c] (step : Accounts s s' []) : Accounts s (if c then s' else s) [] := by
  split_ifs
  · exact step
  · exact refl s

end Accounts

/-- No request is in two places. -/
def Exclusive (s : SessionPrivate) : Prop := ∀ r, s.places r ≤ 1

theorem Exclusive.accounts {gone : List Nat} (h : Exclusive s) (step : Accounts s s' gone) : Exclusive s' := by
  intro r
  have := h r
  have := step.places r
  omega

theorem Exclusive.not_waiting (h : Exclusive s) (member : (m, r) ∈ s.haveSent.entries) :
    s.toSend.find? r = none := by
  have alone := h r
  have under := underWay_pos member
  refine SortedMap.find?_eq_none.mpr fun v queued => ?_
  have waits : 0 < s.waiting r := List.countP_pos_iff.mpr ⟨_, queued, decide_eq_true rfl⟩
  simp only [places] at alone
  omega

/-! ## Receiving -/

section Receiving

variable {around : Surroundings}

theorem accounts_requestAcked (byResponse : Bool) (s : SessionPrivate) (msgId : Nat) :
    Accounts s (requestAcked around byResponse s msgId).2 (erasedFor around byResponse s msgId).toList := by
  unfold requestAcked erasedFor
  cases container : s.sentContainers.find? msgId with
  | some messages =>
      have held : s.sentContainers.contains msgId = true := by rw [SortedMap.contains, container, Option.isSome_some]
      simp only [held, Bool.true_or, if_true]
      exact .of_same rfl rfl rfl
  | none =>
      have held : s.sentContainers.contains msgId = false := by rw [SortedMap.contains, container, Option.isSome_none]
      simp only [held, Bool.false_or]
      by_cases stated : s.stateAndResendRequests.contains msgId = true
      · simp only [if_pos stated]
        exact .of_same rfl rfl rfl
      · simp only [if_neg stated]
        cases sent : s.haveSent.find? msgId with
        | some requestId =>
            simp only
            split_ifs
            · exact .refl s
            · refine ⟨fun r => ?_, fun r => rfl⟩
              have counted := SortedMap.countP_erase sent fun e => decide (e.2 = r)
              simp only [places, waiting, underWay, Option.toList_some, List.count_singleton, beq_iff_eq,
                decide_eq_true_eq] at counted ⊢
              omega
        | none =>
            cases resending : s.resendingIds.find? msgId with
            | none => exact .refl s
            | some requestId =>
                by_cases answered : (!byResponse && around.hasCallback requestId) = true
                · simp only [if_pos answered]
                  exact .refl s
                · simp only [if_neg answered]
                  by_cases queued : s.toSend.contains requestId = true
                  · simp only [if_pos queued]
                    obtain ⟨u, found⟩ := Option.isSome_iff_exists.mp queued
                    refine ⟨fun r => ?_, fun r => rfl⟩
                    have counted := SortedMap.countP_erase found fun e => decide (e.1 = r)
                    simp only [places, waiting, underWay, Option.toList_some, List.count_singleton, beq_iff_eq,
                      decide_eq_true_eq] at counted ⊢
                    omega
                  · simp only [if_neg queued]
                    exact .of_same rfl rfl rfl

theorem accounts_requestsAckedLoop (byResponse : Bool) (s : SessionPrivate) (ids : List Nat) :
    Accounts s (requestsAckedLoop around byResponse s ids).2 (erasedInLoop around byResponse s ids) := by
  induction ids generalizing s with
  | nil => exact .refl s
  | cons msgId ids ih =>
      rw [requestsAckedLoop, erasedInLoop]
      exact (accounts_requestAcked byResponse s msgId).trans (ih _)

theorem accounts_trimAcked (s : SessionPrivate) : Accounts s s.trimAcked [] := by
  unfold trimAcked
  generalize s.ackedIds.eraseFirst (s.ackedIds.size - kIdsBufferSize) = rest
  exact .of_same rfl rfl rfl

theorem accounts_requestsAcked (s : SessionPrivate) (ids : List Nat) (byResponse : Bool) :
    Accounts s (requestsAcked around s ids byResponse) (erasedByAcks around s ids byResponse) := by
  unfold requestsAcked erasedByAcks
  generalize s.sentContainers.size + 1 = fuel
  induction fuel generalizing s ids byResponse with
  | zero => exact .refl s
  | succ fuel ih =>
      rw [requestsAckedCalls, erasedInCalls]
      have loop := @accounts_requestsAckedLoop around byResponse s ids
      generalize requestsAckedLoop around byResponse s ids = result at loop ⊢
      obtain ⟨toAckMore, acked⟩ := result
      have trimmed := loop.then_quiet (accounts_trimAcked acked)
      simp only
      split_ifs
      · rw [List.append_nil]
        exact trimmed
      · exact trimmed.trans (ih _ _ _)

theorem accounts_clearSpecialMsgId (s : SessionPrivate) (msgId : Nat) :
    Accounts s (s.clearSpecialMsgId msgId) [] := by
  unfold clearSpecialMsgId
  split_ifs
  · exact .of_same rfl rfl rfl
  · exact .of_same rfl rfl rfl
  · exact .refl s

/-- The request goes from one map to the other. -/
theorem accounts_resendRequest (h : Exclusive s) (member : (m, r) ∈ s.haveSent.entries) :
    Accounts s (s.resendRequest m r) [] := by
  have missing := h.not_waiting member
  have found := SortedMap.find?_eq_some.mpr member
  constructor
  · intro r'
    have left := SortedMap.countP_erase found fun e => decide (e.2 = r')
    have joined := @SortedMap.countP_emplace _ _ _ _ _ () missing fun e => decide (e.1 = r')
    simp only [places, waiting, underWay, resendRequest, List.count_nil, decide_eq_true_eq] at left joined ⊢
    omega
  · intro r'
    simp only [resendRequest, Function.update_apply]
    split_ifs with same
    · rw [same]
    · rfl

/-- A loop of steps that may only be taken while no request is in two places. -/
theorem accounts_foldl {α : Type} {f : SessionPrivate → α → SessionPrivate}
    (each : ∀ s a, Exclusive s → Accounts s (f s a) []) (l : List α) (h : Exclusive s) :
    Accounts s (l.foldl f s) [] := by
  induction l generalizing s with
  | nil => exact .refl s
  | cons a l ih =>
      have first := each s a h
      exact first.trans (ih (h.accounts first))

theorem accounts_resend (s : SessionPrivate) (msgId : Nat) (h : Exclusive s) :
    Accounts s (s.resend msgId) [] := by
  unfold resend
  generalize s.sentContainers.size + 1 = fuel
  induction fuel generalizing s msgId with
  | zero => exact .refl s
  | succ fuel ih =>
      rw [resendCalls]
      refine Accounts.then_quiet ?_ (accounts_clearSpecialMsgId _ _)
      split
      · have opened : Accounts s { s with sentContainers := s.sentContainers.erase msgId } [] :=
          .of_same rfl rfl rfl
        exact opened.trans (accounts_foldl ih _ (h.accounts opened))
      · split
        · rename_i found
          exact accounts_resendRequest h (SortedMap.find?_eq_some.mp found)
        · exact .refl s

/-- Sending some of the sent requests again: each is still sent when its turn comes. -/
theorem accounts_resendSome (l : List (Nat × Nat)) (h : Exclusive s) (distinct : (l.map Prod.fst).Nodup)
    (inside : ∀ e ∈ l, e ∈ s.haveSent.entries) :
    Accounts s (l.foldl (fun s e => s.resendRequest e.1 e.2) s) [] := by
  induction l generalizing s with
  | nil => exact .refl s
  | cons e l ih =>
      obtain ⟨other, distinct⟩ := List.nodup_cons.mp distinct
      have first := accounts_resendRequest h (inside e List.mem_cons_self)
      refine first.trans (ih (h.accounts first) distinct fun e' member => ?_)
      refine SortedMap.mem_erase.mpr ⟨inside e' (List.mem_cons_of_mem _ member), fun same => other ?_⟩
      exact same ▸ List.mem_map_of_mem member

theorem accounts_resendAll (h : Exclusive s) : Accounts s s.resendAll [] := by
  refine accounts_resendSome _ h ?_ fun _ member => member
  exact List.pairwise_map.mpr (s.haveSent.sorted.imp Nat.ne_of_lt)

theorem accounts_becomeConnected (h : Exclusive s) : Accounts s s.becomeConnected [] := by
  unfold becomeConnected
  split_ifs
  · have state : Accounts s { s with state := .connected } [] := .of_same rfl rfl rfl
    exact state.trans (accounts_resendAll (h.accounts state))
  · exact .refl s

theorem accounts_clearOldContainers (h : Exclusive s) (old : Nat → Bool) :
    Accounts s (s.clearOldContainers old) [] := by
  refine accounts_foldl (fun s e h => ?_) _ h
  have opened : Accounts s { s with sentContainers := s.sentContainers.erase e.1 } [] := .of_same rfl rfl rfl
  exact opened.trans (accounts_foldl accounts_resend _ (h.accounts opened))

theorem accounts_handleMsgsStatesLoop (h : Exclusive s) (states : List (Nat × Nat)) :
    Accounts s (handleMsgsStatesLoop s states).2 [] := by
  induction states generalizing s with
  | nil => exact .refl s
  | cons entry states ih =>
      rw [handleMsgsStatesLoop]
      split_ifs
      · exact ih h
      · have resent := accounts_resend s entry.1 h
        exact resent.trans (ih (h.accounts resent))
      · exact ih h

theorem accounts_handleMsgsStates (h : Exclusive s) (ids states : List Nat) :
    Accounts s (handleMsgsStates around s ids states) (erasedByStates around s ids states) := by
  unfold handleMsgsStates erasedByStates
  split_ifs
  · exact .refl s
  · exact (accounts_handleMsgsStatesLoop h _).trans (accounts_requestsAcked _ _ _)

theorem accounts_authKeyChecked (h : Exclusive s) (hasSalt : Bool) (pingId : Nat) :
    Accounts s (s.authKeyChecked hasSalt pingId) [] := by
  have state : Accounts s { s with state := .connected } [] := .of_same rfl rfl rfl
  have salted : Accounts s
      (if hasSalt = true ∧ s.state ≠ .connected then { s with state := .connected }.resendAll else s) [] :=
    .ite (state.trans (accounts_resendAll (h.accounts state)))
  exact salted.then_quiet (.of_same rfl rfl rfl)

end Receiving

/-! ## Sending -/

/-- What is sent joins `haveSent`; `toSend` is left to be cleared. -/
structure Sends (s s' : SessionPrivate) (queued : List Nat) : Prop where
  waiting : s'.toSend = s.toSend
  underWay : ∀ r, s'.underWay r = s.underWay r + queued.count r
  needAck : ∀ r, (s'.requests r).needAck = (s.requests r).needAck

namespace Sends

theorem refl (s : SessionPrivate) : Sends s s [] := ⟨rfl, fun _ => rfl, fun _ => rfl⟩

theorem trans {first second : List Nat} (before : Sends s s' first) (after : Sends s' s'' second) :
    Sends s s'' (first ++ second) := by
  refine ⟨after.waiting.trans before.waiting, fun r => ?_, fun r => (after.needAck r).trans (before.needAck r)⟩
  rw [after.underWay, before.underWay, List.count_append, Nat.add_assoc]

theorem of_same (queued : s'.toSend = s.toSend) (sent : s'.haveSent = s.haveSent)
    (requests : s'.requests = s.requests) : Sends s s' [] := by
  refine ⟨queued, fun r => ?_, fun r => by rw [requests]⟩
  simp only [SessionPrivate.underWay, sent, List.count_nil, Nat.add_zero]

theorem accounts (step : Sends s s' []) : Accounts s s' [] := by
  refine ⟨fun r => ?_, step.needAck⟩
  simp only [places, SessionPrivate.waiting, step.waiting, step.underWay, List.count_nil, Nat.add_zero]

end Sends

theorem sends_raiseBigMsgId (s : SessionPrivate) (msgId bigMsgId : Nat) :
    Sends s (raiseBigMsgId mtprotoMsgId s msgId bigMsgId).2 [] := by
  unfold raiseBigMsgId
  split_ifs
  · exact .of_same rfl rfl rfl
  · exact .refl s

/-- Nothing under way is renumbered by a message that is not under way. -/
theorem same_prepareToSend {msgId currentLastId : Nat} (forceNewMsgId : Bool)
    (reserved : Reserved mtprotoMsgId s currentLastId) (missing : msgId ≠ 0 → s.haveSent.find? msgId = none) :
    (prepareToSend mtprotoMsgId s msgId currentLastId forceNewMsgId).2.toSend = s.toSend ∧
      (prepareToSend mtprotoMsgId s msgId currentLastId forceNewMsgId).2.haveSent = s.haveSent ∧
      (prepareToSend mtprotoMsgId s msgId currentLastId forceNewMsgId).2.requests = s.requests := by
  unfold prepareToSend
  by_cases numbered : msgId ≠ 0
  · have step : Keeps s { s with resendingIds := s.resendingIds.erase msgId } :=
      Moves.keeps { resending := mem_of_erase }
    have replaced := @replaceMsgId_eq mtprotoMsgId _ msgId _ (reserved.keeps step)
    have unmoved : moveKey s.haveSent msgId currentLastId = s.haveSent := by rw [moveKey, missing numbered]
    simp only [if_pos numbered]
    split_ifs
    · obtain ⟨-, -, queued, requests, sent, -⟩ := replaced
      refine ⟨queued, sent.trans ?_, requests⟩
      simp only [unmoved, ite_self]
    · exact ⟨rfl, rfl, rfl⟩
  · rw [if_neg numbered]
    exact ⟨rfl, rfl, rfl⟩

theorem sends_prepareToSend {msgId currentLastId : Nat} (forceNewMsgId : Bool)
    (reserved : Reserved mtprotoMsgId s currentLastId) (missing : msgId ≠ 0 → s.haveSent.find? msgId = none) :
    Sends s (prepareToSend mtprotoMsgId s msgId currentLastId forceNewMsgId).2 [] := by
  obtain ⟨queued, sent, requests⟩ := same_prepareToSend forceNewMsgId reserved missing
  exact .of_same queued sent requests

/-- A request that is not under way finds its message id free. -/
theorem sends_sendRequest {currentLastId : Nat} (forceNewMsgId : Bool) (h : Ready mtprotoMsgId s currentLastId)
    (needAck : (s.requests r).needAck = true) (waits : s.underWay r = 0) :
    Sends s (sendRequest mtprotoMsgId s r currentLastId forceNewMsgId).2 [r] := by
  have free : ∀ {id}, Usable mtprotoMsgId s id r → s.haveSent.find? id = none := by
    intro id usable
    refine SortedMap.find?_eq_none.mpr fun r' member => ?_
    have same := usable.alone r' (.sent member)
    exact not_sent_of_underWay waits id (same ▸ member)
  have own : (s.requests r).msgId ≠ 0 → Usable mtprotoMsgId s (s.requests r).msgId r := by
    intro numbered
    have bound := Bound.request numbered
    exact ⟨h.sound.issued _ r bound, fun r' other => h.sound.unique _ r' r other bound⟩
  obtain ⟨queued, sent, requests⟩ := same_prepareToSend forceNewMsgId h.reserved fun numbered => free (own numbered)
  have usable := (binds_sendRequest forceNewMsgId h r).2
  unfold sendRequest at usable ⊢
  generalize prepareToSend mtprotoMsgId s (s.requests r).msgId currentLastId forceNewMsgId = result
    at queued sent requests usable ⊢
  obtain ⟨id, s'⟩ := result
  simp only at queued sent requests usable ⊢
  have missing := free usable
  rw [← sent] at missing
  have needs : ((s'.setMsgId r id).requests r).needAck = true := by
    simp only [setMsgId, Function.update_self, requests, needAck]
  rw [rememberSent, if_pos needs]
  refine ⟨queued, fun r' => ?_, fun r' => ?_⟩
  · have counted := @SortedMap.countP_emplace _ _ _ _ _ r missing fun e => decide (e.2 = r')
    simp only [underWay, setMsgId, List.count_singleton, beq_iff_eq, decide_eq_true_eq] at counted ⊢
    rw [counted, sent]
  · simp only [setMsgId, Function.update_apply, requests]
    split_ifs with same
    · rw [same]
    · rfl

theorem sends_sendQueued {bigMsgId : Nat} (forceNewMsgId : Bool) (distinct : Function.Injective mtprotoMsgId)
    (h : Ready mtprotoMsgId s bigMsgId) {queued : List Nat} (once : queued.Nodup)
    (small : ∀ r ∈ queued, r < 2 ^ 31) (needAck : ∀ r, (s.requests r).needAck = true)
    (waits : ∀ r ∈ queued, s.underWay r = 0) :
    Sends s (sendQueued mtprotoMsgId forceNewMsgId s bigMsgId queued).2.2 queued := by
  induction queued generalizing s bigMsgId with
  | nil => exact .refl s
  | cons r queued ih =>
      obtain ⟨other, once⟩ := List.nodup_cons.mp once
      have first := sends_sendRequest forceNewMsgId h (needAck r) (waits r List.mem_cons_self)
      have ready := (ready_sendRequest forceNewMsgId distinct h (small r List.mem_cons_self)).2
      rw [sendQueued]
      generalize sendRequest mtprotoMsgId s r bigMsgId forceNewMsgId = result at first ready ⊢
      obtain ⟨msgId, s'⟩ := result
      have ready := ready s' msgId rfl
      simp only at first ⊢
      have raised := first.trans (@sends_raiseBigMsgId mtprotoMsgId s' msgId bigMsgId)
      rw [List.append_nil] at raised
      refine raised.trans (ih ready once (fun r' member => small r' (List.mem_cons_of_mem _ member)) ?_ ?_)
      · exact fun r' => (raised.needAck r').trans (needAck r')
      · intro r' member
        have different : r ≠ r' := fun same => other (same ▸ member)
        rw [raised.underWay, waits r' (List.mem_cons_of_mem _ member),
          List.count_eq_zero_of_not_mem (mt List.mem_singleton.mp different.symm)]

theorem Reserved.not_sent {id : Nat} (h : Reserved mtprotoMsgId s id) : s.haveSent.find? id = none :=
  SortedMap.find?_eq_none.mpr fun r member => h.free r (.sent member)

theorem sends_placeToContainer {bigMsgId reqMsgId : Nat} (forceNewMsgId : Bool) (h : Ready mtprotoMsgId s bigMsgId)
    (missing : reqMsgId ≠ 0 → s.haveSent.find? reqMsgId = none) :
    Sends s (placeToContainer mtprotoMsgId s bigMsgId reqMsgId forceNewMsgId).2.2 [] := by
  have prepared := sends_prepareToSend forceNewMsgId h.reserved missing
  unfold placeToContainer
  exact prepared.trans (sends_raiseBigMsgId _ _ _)

theorem sends_placeBind {bigMsgId : Nat} (h : Ready mtprotoMsgId s bigMsgId) {bind : Option Nat}
    (own : ∀ id ∈ bind, Reserved mtprotoMsgId s id) :
    Sends s (placeBind mtprotoMsgId s bigMsgId bind).2 [] := by
  cases bind with
  | none => exact .refl s
  | some id =>
      have placed := sends_placeToContainer false h fun _ => (own id rfl).not_sent
      exact placed.trans (.of_same rfl rfl rfl)

theorem sends_placePing {bigMsgId : Nat} (forceNewMsgId : Bool) (h : Ready mtprotoMsgId s bigMsgId)
    (present : Bool) : Sends s (placePing mtprotoMsgId s bigMsgId forceNewMsgId present).2 [] := by
  unfold placePing
  split_ifs
  · have placed := sends_placeToContainer forceNewMsgId h fun zero => absurd rfl zero
    exact placed.trans (.of_same rfl rfl rfl)
  · exact .refl s

theorem sends_placeStateRequest {bigMsgId : Nat} (forceNewMsgId : Bool) (h : Ready mtprotoMsgId s bigMsgId)
    (request : Option (List Nat)) :
    Sends s (placeStateRequest mtprotoMsgId s bigMsgId forceNewMsgId request).2 [] := by
  cases request with
  | none => exact .refl s
  | some ids =>
      have placed := sends_placeToContainer forceNewMsgId h fun zero => absurd rfl zero
      exact placed.trans (.of_same rfl rfl rfl)

theorem sends_placeUntracked {bigMsgId : Nat} (forceNewMsgId : Bool) (h : Ready mtprotoMsgId s bigMsgId)
    (present : Bool) : Sends s (placeUntracked mtprotoMsgId s bigMsgId forceNewMsgId present).2 [] := by
  unfold placeUntracked
  split_ifs
  · exact sends_placeToContainer forceNewMsgId h fun zero => absurd rfl zero
  · exact .refl s

/-- The whole queue went out and is cleared. -/
theorem accounts_cleared (step : Sends s s' (s.toSend.entries.map Prod.fst)) :
    Accounts s { s' with toSend := .empty } [] := by
  refine ⟨fun r => ?_, step.needAck⟩
  have sent := step.underWay r
  have queue : (s.toSend.entries.map Prod.fst).count r = s.waiting r := by
    rw [List.count, List.countP_map]
    rfl
  have nothing : waiting { s' with toSend := .empty } r = 0 := waiting_empty rfl r
  have same : underWay { s' with toSend := .empty } r = s'.underWay r := rfl
  simp only [places, nothing, same, List.count_nil]
  omega

theorem Exclusive.queue (h : Exclusive s) : ∀ r ∈ s.toSend.entries.map Prod.fst, s.underWay r = 0 := by
  intro r queued
  obtain ⟨e, member, rfl⟩ := List.mem_map.mp queued
  have waits : 0 < s.waiting e.1 := List.countP_pos_iff.mpr ⟨e, member, decide_eq_true rfl⟩
  have alone := h e.1
  simp only [places] at alone
  omega

theorem nodup_queue (s : SessionPrivate) : (s.toSend.entries.map Prod.fst).Nodup :=
  List.pairwise_map.mpr (s.toSend.sorted.imp Nat.ne_of_lt)

/-- The requests of a container, and the queue after it took them. -/
theorem accounts_takeQueue {bigMsgId : Nat} (sendAll forceNewMsgId : Bool)
    (distinct : Function.Injective mtprotoMsgId) (h : Ready mtprotoMsgId s bigMsgId) (exclusive : Exclusive s)
    (needAck : ∀ r, (s.requests r).needAck = true) :
    let sent := sendQueued mtprotoMsgId forceNewMsgId s bigMsgId
      (if sendAll then s.toSend.entries.map Prod.fst else [])
    Accounts s (if sendAll then { sent.2.2 with toSend := .empty } else sent.2.2) [] := by
  cases sendAll with
  | true =>
      have small : ∀ r ∈ s.toSend.entries.map Prod.fst, r < 2 ^ 31 := by
        intro r member
        obtain ⟨e, queued, rfl⟩ := List.mem_map.mp member
        exact h.sound.queued e queued
      have sent := sends_sendQueued forceNewMsgId distinct h (nodup_queue s) small needAck exclusive.queue
      exact accounts_cleared sent
  | false => exact .refl s

theorem accounts_sendContainer (distinct : Function.Injective mtprotoMsgId) (h : Sound mtprotoMsgId s)
    (exclusive : Exclusive s) (needAck : ∀ r, (s.requests r).needAck = true) {service : ServiceRequests}
    (own : ∀ id ∈ service.bind, Reserved mtprotoMsgId s id) (sendAll forceNewMsgId : Bool) :
    Accounts s (sendContainer mtprotoMsgId s service sendAll forceNewMsgId) [] := by
  have ready := ready_nextMsgId distinct h
  have later : ∀ id ∈ service.bind, Reserved mtprotoMsgId (s.nextMsgId mtprotoMsgId).2 id :=
    fun id member => (own id member).keeps (keeps_nextMsgId s)
  have numbered : Sends s (s.nextMsgId mtprotoMsgId).2 [] := .of_same rfl rfl rfl
  have bound := ready_placeBind distinct ready later
  have binding := numbered.trans (sends_placeBind ready later)
  have pinged := ready_placePing forceNewMsgId distinct bound service.ping
  have pinging := (binding.trans (sends_placePing forceNewMsgId bound service.ping)).accounts
  unfold sendContainer
  simp only
  generalize placePing mtprotoMsgId _ _ forceNewMsgId service.ping = result at pinged pinging ⊢
  obtain ⟨bigMsgId, s₁⟩ := result
  simp only at pinged pinging ⊢
  have acks : ∀ r, (s₁.requests r).needAck = true := fun r => (pinging.needAck r).trans (needAck r)
  have queue := accounts_takeQueue sendAll forceNewMsgId distinct pinged (exclusive.accounts pinging) acks
  have cleared := ready_takeQueue sendAll forceNewMsgId distinct pinged
  generalize sendQueued mtprotoMsgId forceNewMsgId s₁ bigMsgId _ = result at queue cleared ⊢
  obtain ⟨messages, bigMsgId, s₂⟩ := result
  simp only at queue cleared ⊢
  generalize (if sendAll = true then { s₂ with toSend := .empty } else s₂) = s₃ at queue cleared ⊢
  have stated := ready_placeStateRequest forceNewMsgId distinct cleared service.state
  have resent := ready_placeStateRequest forceNewMsgId distinct stated service.resend
  have acked := ready_placeUntracked forceNewMsgId distinct resent service.ack.isSome
  have services := (sends_placeStateRequest forceNewMsgId cleared service.state).trans <|
    (sends_placeStateRequest forceNewMsgId stated service.resend).trans <|
    (sends_placeUntracked forceNewMsgId resent service.ack.isSome).trans <|
    sends_placeUntracked forceNewMsgId acked service.httpWait
  exact (pinging.trans queue).trans (services.accounts.trans (.of_same rfl rfl rfl))

theorem accounts_nextMsgId (s : SessionPrivate) : Accounts s (s.nextMsgId mtprotoMsgId).2 [] :=
  .of_same rfl rfl rfl

theorem count_eq_zero {service : ServiceRequests} :
    service.count = 0 ↔ service = {} := by
  obtain ⟨ping, ack, resend, state, httpWait, bind⟩ := service
  simp only [ServiceRequests.count, Nat.add_eq_zero_iff, Bool.toNat_eq_zero, Option.isSome_eq_false_iff,
    Option.isNone_iff_eq_none, ServiceRequests.mk.injEq, and_assoc]

/-- The queue is empty when a service request goes out alone. -/
theorem accounts_sendService (distinct : Function.Injective mtprotoMsgId) (h : Sound mtprotoMsgId s)
    {service : ServiceRequests} (own : ∀ id ∈ service.bind, Reserved mtprotoMsgId s id)
    (sendAll forceNewMsgId : Bool) (present : service.count ≠ 0) (empty : sendAll = true → s.toSend.size = 0) :
    Accounts s (sendSingle mtprotoMsgId s service sendAll forceNewMsgId) [] := by
  have step : Keeps s (if sendAll then { s with toSend := .empty } else s) :=
    .ite (Moves.keeps { queued := nofun })
  have cleared : Accounts s (if sendAll then { s with toSend := .empty } else s) [] := by
    split_ifs with all
    · refine .of_same (SortedMap.ext ?_) rfl rfl
      exact (List.length_eq_zero_iff.mp (empty all)).symm
    · exact .refl s
  have ready := ready_nextMsgId distinct (h.keeps step)
  have kept := step.trans (@keeps_nextMsgId mtprotoMsgId _)
  have numbered := cleared.trans (@accounts_nextMsgId mtprotoMsgId _)
  unfold sendSingle
  simp only
  generalize nextMsgId mtprotoMsgId _ = result at ready kept numbered ⊢
  obtain ⟨newId, s₁⟩ := result
  simp only at ready kept numbered ⊢
  cases bind : service.bind with
  | some id =>
      have reserved := (own id bind).keeps kept
      have prepared := sends_prepareToSend false ready.reserved fun _ => reserved.not_sent
      exact numbered.trans (prepared.accounts.trans (.of_same rfl rfl rfl))
  | none =>
      simp only
      by_cases ping : service.ping = true
      · rw [if_pos ping]
        exact numbered.trans (.of_same rfl rfl rfl)
      · rw [if_neg ping]
        split
        · exact numbered.trans (.of_same rfl rfl rfl)
        · exact numbered.trans (.of_same rfl rfl rfl)
        · rename_i state resend
          have other : service.ack.isSome = true ∨ service.httpWait = true := by
            apply Classical.byContradiction
            intro other
            simp only [not_or, Bool.not_eq_true, Option.isSome_eq_false_iff, Option.isNone_iff_eq_none] at ping other
            refine present (count_eq_zero.mpr ?_)
            cases service
            simp_all only
          rw [if_pos other]
          exact numbered

/-- The one request that waits goes out without a container. -/
theorem accounts_sendOnly (distinct : Function.Injective mtprotoMsgId) (h : Sound mtprotoMsgId s)
    (exclusive : Exclusive s) (needAck : ∀ r, (s.requests r).needAck = true) (forceNewMsgId : Bool)
    (only : s.toSend.size = 1) : Accounts s (sendSingle mtprotoMsgId s {} true forceNewMsgId) [] := by
  obtain ⟨⟨r, u⟩, queue⟩ := List.length_eq_one_iff.mp only
  have step : Keeps s { s with toSend := .empty } := Moves.keeps { queued := nofun }
  have ready := ready_nextMsgId distinct (h.keeps step)
  have idle : s.underWay r = 0 := exclusive.queue r (by rw [queue]; exact List.mem_cons_self)
  have sent := sends_sendRequest forceNewMsgId ready (needAck r) idle
  simp only [sendSingle, queue, if_true, Bool.false_eq_true, if_false, Option.isSome_none, or_self]
  refine ⟨fun r' => ?_, sent.needAck⟩
  have under : _ = s.underWay r' + [r].count r' := sent.underWay r'
  have queued : s.waiting r' = [r].count r' := by
    simp only [waiting, queue, List.countP_singleton, List.count_singleton, decide_eq_true_eq, beq_iff_eq]
  simp only [places, under, queued, waiting_empty sent.waiting, List.count_nil]
  omega

theorem accounts_takeServiceRequests (s : SessionPrivate) (sending : Sending) (sendOnlyFirstPing : Bool) :
    Accounts s (takeServiceRequests mtprotoMsgId s sending sendOnlyFirstPing).2 [] := by
  have pinged : Accounts s
      (if s.pingIdToSend ≠ 0 then { s with pingId := s.pingIdToSend, pingIdToSend := 0 } else s) [] :=
    .ite (.of_same rfl rfl rfl)
  unfold takeServiceRequests
  simp only
  generalize (if s.pingIdToSend ≠ 0 then _ else s) = s₁ at pinged ⊢
  by_cases onlyPing : sendOnlyFirstPing = true
  · simp only [if_pos onlyPing]
    exact pinged
  · simp only [if_neg onlyPing]
    by_cases binding : s₁.bindMsgId = 0 ∧ s₁.keyCreator = true ∧ sending.readyToBind = true
    · simp only [if_pos binding]
      exact pinged.trans (.of_same rfl rfl rfl)
    · simp only [if_neg binding]
      exact pinged.trans (.of_same rfl rfl rfl)

/-- The end of `tryToSend`, after it decided what to send. -/
theorem accounts_sendCollected (distinct : Function.Injective mtprotoMsgId) (h : Sound mtprotoMsgId s)
    (exclusive : Exclusive s) (needAck : ∀ r, (s.requests r).needAck = true) (kept : Keeps s s')
    (decided : Accounts s s' []) (sending : Sending) (sendOnlyFirstPing sendAll forceNewMsgId : Bool) :
    Accounts s
      (let (service, s) := takeServiceRequests mtprotoMsgId s' sending sendOnlyFirstPing
      let toSendCount := service.count + if sendAll then s.toSend.size else 0
      if toSendCount = 0 then s
      else if toSendCount = 1 ∧ !s.forcedInContainer service then
        sendSingle mtprotoMsgId s service sendAll forceNewMsgId
      else sendContainer mtprotoMsgId s service sendAll forceNewMsgId) [] := by
  obtain ⟨sound, own⟩ := sound_takeServiceRequests distinct (h.keeps kept) sending sendOnlyFirstPing
  have taken := decided.trans (@accounts_takeServiceRequests mtprotoMsgId s' sending sendOnlyFirstPing)
  generalize takeServiceRequests mtprotoMsgId s' sending sendOnlyFirstPing = result at sound own taken ⊢
  obtain ⟨service, s₁⟩ := result
  simp only at sound own taken ⊢
  have exclusive := exclusive.accounts taken
  have acks : ∀ r, (s₁.requests r).needAck = true := fun r => (taken.needAck r).trans (needAck r)
  by_cases nothing : (service.count + if sendAll = true then s₁.toSend.size else 0) = 0
  · rw [if_pos nothing]
    exact taken
  · rw [if_neg nothing]
    refine taken.trans ?_
    by_cases single : (service.count + if sendAll = true then s₁.toSend.size else 0) = 1 ∧
        (!s₁.forcedInContainer service) = true
    · rw [if_pos single]
      by_cases none : service.count = 0
      · obtain rfl := count_eq_zero.mp none
        cases sendAll with
        | false => exact absurd single.1 Nat.zero_ne_one
        | true => exact accounts_sendOnly distinct sound exclusive acks forceNewMsgId (by simpa [none] using single.1)
      · refine accounts_sendService distinct sound own sendAll forceNewMsgId none fun all => ?_
        have total := single.1
        rw [if_pos all] at total
        omega
    · rw [if_neg single]
      exact accounts_sendContainer distinct sound exclusive acks own sendAll forceNewMsgId

theorem accounts_tryToSend (distinct : Function.Injective mtprotoMsgId) (h : Sound mtprotoMsgId s)
    (exclusive : Exclusive s) (needAck : ∀ r, (s.requests r).needAck = true) (sending : Sending) :
    Accounts s (s.tryToSend mtprotoMsgId sending) [] := by
  unfold tryToSend
  split
  · exact .refl s
  · simp only
    split
    · exact .refl s
    · refine accounts_sendCollected distinct h exclusive needAck ?_ ?_ sending _ _ _
      · exact (Keeps.ite (keeps_of_same (by rfl))).trans (Keeps.ite (keeps_of_same (by rfl)))
      · exact (Accounts.ite (.of_same (by rfl) (by rfl) (by rfl))).trans
          (Accounts.ite (.of_same (by rfl) (by rfl) (by rfl)))

/-! ## Conservation -/

/-- The places of the requests and the times they were erased are the times they were sent. -/
structure Conserved (mtprotoMsgId : Nat → Nat) (s : SessionPrivate) (sent erased : List Nat) : Prop where
  sound : Sound mtprotoMsgId s
  needAck : ∀ r, (s.requests r).needAck = true
  places : ∀ r, s.places r + erased.count r = sent.count r

theorem conserved_initial : Conserved mtprotoMsgId {} [] [] := ⟨sound_initial, fun _ => rfl, fun _ => rfl⟩

/-- No request is sent twice. -/
theorem Conserved.exclusive {sent erased : List Nat} (h : Conserved mtprotoMsgId s sent erased)
    (once : sent.Nodup) : Exclusive s := by
  intro r
  have := h.places r
  have := List.nodup_iff_count_le_one.mp once r
  omega

theorem Conserved.accounts {sent erased gone : List Nat} (h : Conserved mtprotoMsgId s sent erased)
    (sound : Sound mtprotoMsgId s') (step : Accounts s s' gone) :
    Conserved mtprotoMsgId s' sent (erased ++ gone) := by
  refine ⟨sound, fun r => (step.needAck r).trans (h.needAck r), fun r => ?_⟩
  have := h.places r
  have := step.places r
  rw [List.count_append]
  omega

theorem Conserved.sendPrepared {sent erased : List Nat} (h : Conserved mtprotoMsgId s sent erased)
    (new : r ∉ sent) (small : r < 2 ^ 31) :
    Conserved mtprotoMsgId (s.sendPrepared r true) (sent ++ [r]) erased := by
  have nowhere := h.places r
  rw [List.count_eq_zero_of_not_mem new] at nowhere
  have missing : s.toSend.find? r = none := by
    refine SortedMap.find?_eq_none.mpr fun v queued => ?_
    have waits : 0 < s.waiting r := List.countP_pos_iff.mpr ⟨_, queued, decide_eq_true rfl⟩
    simp only [SessionPrivate.places] at nowhere
    omega
  refine ⟨sound_sendPrepared h.sound small true, fun r' => ?_, fun r' => ?_⟩
  · simp only [SessionPrivate.sendPrepared, Function.update_apply]
    split_ifs
    · rfl
    · exact h.needAck r'
  · have before := h.places r'
    have joined := @SortedMap.countP_emplace _ _ _ _ _ () missing fun e => decide (e.1 = r')
    simp only [SessionPrivate.places, waiting, underWay, SessionPrivate.sendPrepared, List.count_append,
      List.count_singleton, beq_iff_eq, decide_eq_true_eq] at before joined ⊢
    omega

theorem sound_perform (distinct : Function.Injective mtprotoMsgId) (h : Sound mtprotoMsgId s)
    (operation : Operation) : Sound mtprotoMsgId (s.perform mtprotoMsgId operation) := by
  cases operation with
  | sendPrepared requestId positive int => exact sound_sendPrepared h int true
  | tryToSend sending => exact sound_tryToSend distinct h sending
  | resend msgId => exact h.keeps (keeps_resend s msgId)
  | resendAll => exact h.keeps (keeps_resendAll s)
  | clearOldContainers old => exact h.keeps (keeps_clearOldContainers s old)
  | requestsAcked around ids byResponse => exact h.keeps (keeps_requestsAcked s ids byResponse)
  | handleMsgsStates around ids states => exact h.keeps (keeps_handleMsgsStates s ids states)
  | checkSentRequests old => exact sound_step distinct h (.checkSentRequests old)
  | connectToServer keyCreator => exact sound_step distinct h (.connectToServer keyCreator)
  | authKeyChecked hasSalt pingId => exact sound_step distinct h (.authKeyChecked hasSalt pingId)
  | becomeConnected => exact h.keeps (keeps_becomeConnected s)
  | changeSessionId => exact sound_step distinct h .changeSessionId
  | start => exact sound_step distinct h .start

theorem accounts_perform (distinct : Function.Injective mtprotoMsgId) (h : Sound mtprotoMsgId s)
    (exclusive : Exclusive s) (needAck : ∀ r, (s.requests r).needAck = true) (operation : Operation)
    (quiet : operation.sent = []) :
    Accounts s (s.perform mtprotoMsgId operation) (operation.erased s) := by
  cases operation with
  | sendPrepared requestId positive int => cases quiet
  | tryToSend sending => exact accounts_tryToSend distinct h exclusive needAck sending
  | resend msgId => exact accounts_resend s msgId exclusive
  | resendAll => exact accounts_resendAll exclusive
  | clearOldContainers old => exact accounts_clearOldContainers exclusive old
  | requestsAcked around ids byResponse => exact accounts_requestsAcked s ids byResponse
  | handleMsgsStates around ids states => exact accounts_handleMsgsStates exclusive ids states
  | checkSentRequests old => exact .of_same rfl rfl rfl
  | connectToServer keyCreator => exact .of_same rfl rfl rfl
  | authKeyChecked hasSalt pingId => exact accounts_authKeyChecked exclusive hasSalt pingId
  | becomeConnected => exact accounts_becomeConnected exclusive
  | changeSessionId => exact .of_same rfl rfl rfl
  | start => exact .of_same rfl rfl rfl

theorem Conserved.perform {sent erased : List Nat} (distinct : Function.Injective mtprotoMsgId)
    (h : Conserved mtprotoMsgId s sent erased) (operation : Operation) (once : (sent ++ operation.sent).Nodup) :
    Conserved mtprotoMsgId (s.perform mtprotoMsgId operation) (sent ++ operation.sent)
      (erased ++ operation.erased s) := by
  obtain ⟨before, -, apart⟩ := List.nodup_append.mp once
  by_cases quiet : operation.sent = []
  · rw [quiet, List.append_nil]
    exact h.accounts (sound_perform distinct h.sound operation)
      (accounts_perform distinct h.sound (h.exclusive before) h.needAck operation quiet)
  · cases operation with
    | sendPrepared requestId positive int =>
        have result := h.sendPrepared (fun member => apart requestId member requestId List.mem_cons_self rfl) int
        rwa [← List.append_nil erased] at result
    | _ => exact absurd rfl quiet

theorem conserved_performAll (distinct : Function.Injective mtprotoMsgId) (operations : List Operation)
    {sent erased : List Nat} (h : Conserved mtprotoMsgId s sent erased)
    (once : (sent ++ operations.flatMap Operation.sent).Nodup) :
    Conserved mtprotoMsgId (s.performAll mtprotoMsgId operations) (sent ++ operations.flatMap Operation.sent)
      (erased ++ erasedIn mtprotoMsgId s operations) := by
  induction operations generalizing s sent erased with
  | nil =>
      simp only [List.flatMap_nil, erasedIn, List.append_nil]
      exact h
  | cons operation operations ih =>
      rw [List.flatMap_cons, ← List.append_assoc] at once ⊢
      rw [erasedIn, ← List.append_assoc]
      have first := h.perform distinct operation (List.nodup_append.mp once).1
      exact ih first once

/-- A request is in `toSend`, or in `haveSent` under one message id. -/
def InOnePlace (s : SessionPrivate) (r : Nat) : Prop :=
  (s.toSend.contains r = true ∧ ∀ m, (m, r) ∉ s.haveSent.entries) ∨
    (s.toSend.contains r = false ∧ ∃! m, (m, r) ∈ s.haveSent.entries)

theorem waiting_pos (queued : s.toSend.contains r = true) : 0 < s.waiting r := by
  obtain ⟨u, member⟩ := SortedMap.contains_iff.mp queued
  exact List.countP_pos_iff.mpr ⟨_, member, decide_eq_true rfl⟩

theorem waiting_zero (missing : s.toSend.contains r = false) : s.waiting r = 0 := by
  refine List.countP_eq_zero.mpr fun e member same => ?_
  have queued : s.toSend.contains r = true := SortedMap.contains_iff.mpr ⟨e.2, of_decide_eq_true same ▸ member⟩
  exact absurd (missing.symm.trans queued) Bool.false_ne_true

theorem inOnePlace_of_places (one : s.places r = 1) : InOnePlace s r := by
  rw [places] at one
  cases queued : s.toSend.contains r with
  | true =>
      have := waiting_pos queued
      exact .inl ⟨queued, not_sent_of_underWay (by omega)⟩
  | false =>
      rw [waiting_zero queued, Nat.zero_add, underWay, List.countP_eq_length_filter] at one
      obtain ⟨⟨m, r'⟩, only⟩ := List.length_eq_one_iff.mp one
      have entry : ∀ e, e ∈ s.haveSent.entries ∧ e.2 = r ↔ e = (m, r') := by
        intro e
        rw [← @List.mem_singleton _ e (m, r'), ← only, List.mem_filter, decide_eq_true_eq]
      obtain ⟨member, same⟩ := (entry (m, r')).mpr rfl
      refine .inr ⟨queued, m, same ▸ member, fun m' other => ?_⟩
      exact (Prod.mk.inj ((entry (m', r)).mp ⟨other, rfl⟩)).1

/-- Whatever is sent, sent again and acknowledged, a request stays in one place until it is erased. -/
theorem requests_conserved (distinct : Function.Injective mtprotoMsgId) (operations : List Operation)
    (once : (operations.flatMap Operation.sent).Nodup) (sent : r ∈ operations.flatMap Operation.sent)
    (kept : r ∉ erasedIn mtprotoMsgId {} operations) :
    InOnePlace (performAll mtprotoMsgId {} operations) r := by
  have conserved := conserved_performAll distinct operations conserved_initial once
  have total := conserved.places r
  rw [List.nil_append, List.nil_append, List.count_eq_zero_of_not_mem kept, List.count_eq_one_of_mem once sent] at total
  exact inOnePlace_of_places total

/-- Of two requests in a container that is sent again, one is acknowledged before that. -/
def resentContainer : List Operation :=
  [.sendPrepared 5 (by decide) (by decide), .sendPrepared 9 (by decide) (by decide), .authKeyChecked true 0,
    .tryToSend {}, .resend 12, .requestsAcked {} [4] true, .tryToSend {}]

theorem resentContainer_conserved : InOnePlace (performAll (fun i => 4 * i + 4) {} resentContainer) 9 :=
  requests_conserved (fun i j (same : 4 * i + 4 = 4 * j + 4) => by omega) resentContainer (by decide) (by decide)
    (by decide)

/-- An erased request does not come back. -/
theorem erased_for_good (distinct : Function.Injective mtprotoMsgId) (operations : List Operation)
    (once : (operations.flatMap Operation.sent).Nodup) (gone : r ∈ erasedIn mtprotoMsgId {} operations) :
    (performAll mtprotoMsgId {} operations).toSend.contains r = false ∧
      ∀ m, (m, r) ∉ (performAll mtprotoMsgId {} operations).haveSent.entries := by
  have conserved := conserved_performAll distinct operations conserved_initial once
  have total := conserved.places r
  have erased := List.count_pos_iff.mpr gone
  have single := List.nodup_iff_count_le_one.mp once r
  rw [List.nil_append, List.nil_append, places] at total
  constructor
  · apply Bool.eq_false_iff.mpr
    intro queued
    have := waiting_pos queued
    omega
  · exact not_sent_of_underWay (by omega)

end IMeDesktop.Mtproto.Requests.SessionPrivate
