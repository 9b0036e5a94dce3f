import IMeDesktop.Mtproto.SessionBindings

/-! # Which responses reach the instance

A response is looked up only after its message id was moved to the acknowledged ids,
which keep the largest `kIdsBufferSize` of them. This module says exactly when the id
is still there: the answer to a request that waited while many later ones were
acknowledged is lost.

What the instance does with a received message is not modelled.
-/

namespace IMeDesktop.Mtproto.Requests.SessionPrivate

open Lib

variable {mtprotoMsgId : Nat → Nat} {s : SessionPrivate} {around : Surroundings} {m r : Nat}

/-- How many acknowledged ids come after one. -/
def ackedAbove (s : SessionPrivate) (m : Nat) : Nat := s.ackedIds.entries.countP fun e => decide (m < e.1)

/-- A sent request whose id is known to stand for it and nothing else. -/
structure Awaited (s : SessionPrivate) (m r : Nat) : Prop where
  sent : s.haveSent.find? m = some r
  request : r ≠ 0
  small : r < 2 ^ 31
  ping : m ≠ s.pingMsgId
  container : s.sentContainers.find? m = none
  state : s.stateAndResendRequests.contains m = false
  resending : s.resendingIds.find? m = none
  acked : ∀ v, (m, v) ∈ s.ackedIds.entries → v = r

theorem awaited (nonzero : ∀ i, mtprotoMsgId i ≠ 0) (h : Sound mtprotoMsgId s)
    (sent : s.haveSent.find? m = some r) (request : r ≠ 0) : Awaited s m r := by
  have member := SortedMap.find?_eq_some.mp sent
  have bound := Bound.sent member
  obtain ⟨i, -, same⟩ := h.issued m r bound
  have service : ¬ Bound s m 0 := fun other => request (h.unique m r 0 bound other)
  refine ⟨sent, request, h.valid m r bound, ?_, ?_, ?_, ?_, ?_⟩
  · intro ping
    have numbered : s.pingMsgId ≠ 0 := by rw [← ping, ← same]; exact nonzero i
    exact service (ping ▸ Bound.ping numbered)
  · exact SortedMap.find?_eq_none.mpr fun ids inside => service (.container inside)
  · apply Bool.eq_false_iff.mpr
    intro present
    obtain ⟨ids, inside⟩ := SortedMap.contains_iff.mp present
    exact service (.state inside)
  · exact SortedMap.find?_eq_none.mpr fun r' inside => h.apart m r r' member inside
  · exact fun v inside => h.unique m v r (.acked inside) bound

namespace Awaited

/-- The state in which the response is looked up. -/
def answered (s : SessionPrivate) (m r : Nat) : SessionPrivate :=
  { s with haveSent := s.haveSent.erase m, ackedIds := s.ackedIds.emplace m r }.trimAcked

theorem requestsAcked_eq (h : Awaited s m r) : requestsAcked around s [m] true = answered s m r := by
  simp [requestsAcked, requestsAckedCalls, requestsAckedLoop, requestAcked, h.container, h.state, h.sent,
    answered]

/-- The id survives the trimming while fewer than `kIdsBufferSize` later ones were acknowledged. -/
theorem mem_acked (h : Awaited s m r) (v : Nat) :
    (m, v) ∈ (answered s m r).ackedIds.entries ↔
      v = r ∧ s.ackedAbove m < kIdsBufferSize := by
  have only : (m, v) ∈ (s.ackedIds.emplace m r).entries ↔ v = r := by
    rw [SortedMap.mem_emplace]
    constructor
    · rintro (before | new)
      · exact h.acked v before
      · exact (Prod.mk.inj new.1).2
    · rintro rfl
      cases found : s.ackedIds.find? m with
      | none => exact .inr ⟨rfl, rfl⟩
      | some w =>
          have before := SortedMap.find?_eq_some.mp found
          exact .inl (h.acked w before ▸ before)
  simp only [answered, trimAcked]
  rw [SortedMap.mem_eraseFirst_excess, SortedMap.countP_above_emplace, only, ackedAbove]

theorem wasSent_answered (h : Awaited s m r) (bind : m ≠ s.bindMsgId) :
    (answered s m r).wasSent m =
      if s.ackedAbove m < kIdsBufferSize then r else 0 := by
  have special : ¬ (m = (answered s m r).pingMsgId ∨ m = (answered s m r).bindMsgId) := by
    rintro (same | same)
    · exact h.ping same
    · exact bind same
  have resending : (answered s m r).resendingIds.find? m = none := h.resending
  have container : (answered s m r).sentContainers.contains m = false := by
    rw [SortedMap.contains]
    exact congrArg Option.isSome h.container
  have sent : (answered s m r).haveSent.find? m = none := by
    simp [answered, trimAcked, SortedMap.find?_erase]
  have member := h.mem_acked
  unfold wasSent
  rw [if_neg special, resending]
  by_cases few : s.ackedAbove m < kIdsBufferSize
  · rw [if_pos few, SortedMap.find?_eq_some.mpr ((member r).mpr ⟨rfl, few⟩)]
  · rw [if_neg few, SortedMap.find?_eq_none.mpr fun v inside => few ((member v).mp inside).2]
    simp [container, sent]

theorem wasSent_eq (h : Awaited s m r) (bind : m ≠ s.bindMsgId) : s.wasSent m = r := by
  have special : ¬ (m = s.pingMsgId ∨ m = s.bindMsgId) := by
    rintro (same | same)
    · exact h.ping same
    · exact bind same
  unfold wasSent
  rw [if_neg special, h.resending]
  cases found : s.ackedIds.find? m with
  | some v => exact h.acked v (SortedMap.find?_eq_some.mp found)
  | none => simp [SortedMap.contains, h.container, h.sent, h.request]

/-- What the handling of a response comes to, when it can be read and is no key error. -/
theorem handleOneReceived_eq (h : Awaited s m r) (bind : m ≠ s.bindMsgId) (info : OuterInfo) {typeId : Nat}
    {rest : List Nat} (unpacked : rpcResponse around typeId rest ≠ [])
    (alive : destroysTemporaryKey around (rpcResponse around typeId rest) = false) :
    (handleOneReceived around s info (.rpcResult m typeId rest)).2 =
      if s.ackedAbove m < kIdsBufferSize then
        (answered s m r).received
          { reply := rpcResponse around typeId rest, outerMsgId := info.outerMsgId, requestId := r }
      else answered s m r := by
  have recent : s.requestsFixTimeSalt [m] = true := by
    simp [requestsFixTimeSalt, h.wasSent_eq bind, h.request]
  have ignored : handleBindResponse around (answered s m r) m = (.ignored, answered s m r) := by
    have other : (answered s m r).bindMsgId ≠ m := bind.symm
    simp [handleBindResponse, other]
  have known : r ≠ kNoRequest := by
    have := h.small
    simp only [kNoRequest]
    omega
  rw [handleOneReceived]
  simp only [recent, handleRpcResult, unpacked, alive, h.requestsAcked_eq, ignored, h.wasSent_answered bind]
  split_ifs <;> simp_all [h.request]

end Awaited

/-- A response is delivered exactly when it can be unpacked and fewer than `kIdsBufferSize` later requests
were acknowledged; otherwise the request is forgotten without an answer, or the connection restarts. -/
theorem response_delivered_iff (distinct : Function.Injective mtprotoMsgId)
    (nonzero : ∀ i, mtprotoMsgId i ≠ 0) (reached : Reached mtprotoMsgId s)
    (sent : s.haveSent.find? m = some r) (request : r ≠ 0) (bind : m ≠ s.bindMsgId) (info : OuterInfo)
    {typeId : Nat} {rest : List Nat}
    (alive : destroysTemporaryKey around (rpcResponse around typeId rest) = false) :
    ((handleOneReceived around s info (.rpcResult m typeId rest)).2.haveSent.find? m = none ∧
      ∃ message, message.requestId = r ∧
        (handleOneReceived around s info (.rpcResult m typeId rest)).2.haveReceivedMessages =
          s.haveReceivedMessages ++ [message]) ↔
      (typeId = mtpcGzipPacked → around.ungzip rest ≠ []) ∧ s.ackedAbove m < kIdsBufferSize := by
  have known := awaited nonzero (sound_of_reached distinct reached) sent request
  have readable : rpcResponse around typeId rest ≠ [] ↔ (typeId = mtpcGzipPacked → around.ungzip rest ≠ []) := by
    unfold rpcResponse
    split_ifs with packed
    · simp [packed]
    · simp [packed]
  rw [← readable]
  by_cases unpacked : rpcResponse around typeId rest = []
  · -- the connection restarts and the request stays where it was
    have same : (handleOneReceived around s info (.rpcResult m typeId rest)).2 = s := by
      rw [handleOneReceived]
      split_ifs
      · rfl
      · simp [handleRpcResult, unpacked]
    simp [same, sent, unpacked]
  · rw [known.handleOneReceived_eq bind info unpacked alive]
    have erased : (Awaited.answered s m r).haveSent.find? m = none := by
      simp [Awaited.answered, trimAcked, SortedMap.find?_erase]
    have before : (Awaited.answered s m r).haveReceivedMessages = s.haveReceivedMessages := rfl
    split_ifs with few
    · simp [received, erased, before, unpacked, few]
    · simp [before, few]

/-! ## A request that waits too long -/

section Slow

variable {k : Nat}

def slowIds (i : Nat) : Nat := 4 * (i + 1)

/-- A later request, which is answered at once. -/
def slowRound (k : Nat) : List Event :=
  [.sendPrepared (k % 400 + 2) (Nat.succ_pos _) (by omega) true,
    .tryToSend {},
    .handleReceived {} (4 * k + 1) false false false (.rpcResult (slowIds (k + 1)) 5 [])]

def slowStart : List Event :=
  [.connectToServer false, .authKeyChecked true 0, .sendPrepared 1 (by decide) (by decide) true, .tryToSend {}]

/-- The same request, when nothing else was acknowledged. -/
theorem first_response_delivered :
    (handleOneReceived {} (run slowIds {} slowStart) { outerMsgId := 1 } (.rpcResult 4 5 [])).2.haveSent.find? 4 =
        none ∧
      ∃ message, message.requestId = 1 ∧
        (handleOneReceived {} (run slowIds {} slowStart) { outerMsgId := 1 }
          (.rpcResult 4 5 [])).2.haveReceivedMessages =
            (run slowIds {} slowStart).haveReceivedMessages ++ [message] := by
  have distinct : Function.Injective slowIds := by
    intro i j same
    simp only [slowIds] at same
    omega
  have nonzero : ∀ i, slowIds i ≠ 0 := by simp [slowIds]
  exact (response_delivered_iff distinct nonzero (reached_run slowStart .initial) rfl (by decide) (by decide) _
    (by decide)).mpr ⟨by decide, by decide⟩

/-- The first request waits, and `k` later ones were answered. -/
structure Waiting (k : Nat) (s : SessionPrivate) : Prop where
  state : s.state = .connected
  keyCreator : s.keyCreator = false
  started : s.sessionMarkedAsStarted = true
  pingId : s.pingId = 0
  pingIdToSend : s.pingIdToSend = 0
  pingMsgId : s.pingMsgId = 0
  bind : s.bindMsgId = 0
  acks : s.ackRequestData = []
  resends : s.resendRequestData = []
  stateRequests : s.stateRequestData = .empty
  requests : ∀ r, (s.requests r).forceSendInContainer = false
  toSend : s.toSend = .empty
  sent : s.haveSent.entries = [(slowIds 0, 1)]
  containers : s.sentContainers = .empty
  states : s.stateAndResendRequests = .empty
  resending : s.resendingIds = .empty
  acked : s.ackedIds.size = k
  between : ∀ e ∈ s.ackedIds.entries, slowIds 0 < e.1 ∧ e.1 < slowIds (k + 1)
  received : ∀ e ∈ s.receivedMessageIds.entries, e.1 < 4 * k + 1
  generated : s.generated = k + 1

theorem waiting_initial : Waiting 0 (run slowIds {} slowStart) := by
  refine ⟨rfl, rfl, rfl, rfl, rfl, rfl, rfl, rfl, rfl, rfl, ?_, rfl, rfl, rfl, rfl, rfl, rfl, nofun, nofun, rfl⟩
  intro r
  by_cases first : r = 1
  · rw [first]
    rfl
  · have other : (run slowIds {} slowStart).requests r = {} := by
      simp [run, slowStart, step, tryToSend, connectToServer, authKeyChecked, resendAll, sendPrepared,
        takeServiceRequests, ServiceRequests.count, forcedInContainer, sendSingle, sendRequest, prepareToSend,
        nextMsgId, rememberSent, setMsgId, first, SortedMap.isEmpty, SortedMap.size, SortedMap.emplace,
        SortedMap.insertNew]
    rw [other]

/-- Sending one request, when nothing else is to be sent. -/
theorem Waiting.tryToSend_eq (h : Waiting k s) (r : Nat) :
    ∃ requests, (s.sendPrepared r true).tryToSend slowIds {} =
        { s with requests := requests, haveSent := s.haveSent.emplace (slowIds (k + 1)) r, generated := k + 2 } ∧
      ∀ q, (requests q).forceSendInContainer = false := by
  have queued : ((SortedMap.empty : SortedMap Nat Unit).emplace r ()).entries = [(r, ())] := rfl
  refine ⟨Function.update s.requests r { msgId := slowIds s.generated }, ?_, ?_⟩
  · simp [tryToSend, sendPrepared, h.state, h.keyCreator, h.started, h.pingId, h.pingIdToSend, h.acks, h.resends,
      h.stateRequests, h.bind, h.requests, h.toSend, h.generated, queued, takeServiceRequests,
      ServiceRequests.count, SortedMap.isEmpty, SortedMap.size, forcedInContainer, sendSingle, nextMsgId,
      sendRequest, prepareToSend, rememberSent, setMsgId]
  · intro q
    rw [Function.update_apply]
    split_ifs
    · rfl
    · exact h.requests q

theorem Waiting.later_emplace (h : Waiting k s) (r : Nat) :
    ((s.haveSent.emplace (slowIds (k + 1)) r).erase (slowIds (k + 1))).entries = [(slowIds 0, 1)] ∧
      (s.haveSent.emplace (slowIds (k + 1)) r).find? (slowIds (k + 1)) = some r := by
  have above : slowIds 0 < slowIds (k + 1) := by simp only [slowIds]; omega
  have entries : (s.haveSent.emplace (slowIds (k + 1)) r).entries = [(slowIds 0, 1), (slowIds (k + 1), r)] := by
    simp [SortedMap.emplace, h.sent, SortedMap.insertNew, above, above.not_gt]
  constructor
  · simp [SortedMap.erase, entries, above.ne]
  · simp [SortedMap.find?, entries, above.ne]

theorem Waiting.ackedAbove_eq (h : Waiting k s) : s.ackedAbove (slowIds 0) = k := by
  have all : s.ackedAbove (slowIds 0) = s.ackedIds.entries.length :=
    List.countP_eq_length.mpr fun e member => decide_eq_true (h.between e member).1
  rw [all]
  exact h.acked

/-- One more request is sent and answered. -/
theorem Waiting.round (h : Waiting k s) (few : k < kIdsBufferSize) :
    Waiting (k + 1) (run slowIds s (slowRound k)) := by
  obtain ⟨requests, sent, unforced⟩ := h.tryToSend_eq (k % 400 + 2)
  have unseen : s.receivedMessageIds.contains (4 * k + 1) = false := by
    apply Bool.eq_false_iff.mpr
    intro present
    obtain ⟨v, member⟩ := SortedMap.contains_iff.mp present
    exact absurd (h.received _ member) (Nat.lt_irrefl _)
  have recent : s.receivedMessageIds.entries.head?.elim 0 Prod.fst < 4 * k + 1 := by
    cases entries : s.receivedMessageIds.entries with
    | nil => exact Nat.succ_pos _
    | cons e rest => exact h.received e (entries ▸ List.mem_cons_self)
  obtain ⟨erased, found⟩ := h.later_emplace (k % 400 + 2)
  let s₁ : SessionPrivate :=
    { s with
      requests := requests, haveSent := s.haveSent.emplace (slowIds (k + 1)) (k % 400 + 2), generated := k + 2
      receivedMessageIds := s.receivedMessageIds.emplace (4 * k + 1) false }
  have numbered : slowIds (k + 1) ≠ 0 := by simp [slowIds]
  have known : Awaited s₁ (slowIds (k + 1)) (k % 400 + 2) := by
    refine ⟨found, Nat.succ_ne_zero _, by omega, ?_, ?_, ?_, ?_, ?_⟩
    · rw [h.pingMsgId]
      exact numbered
    · rw [h.containers]
      rfl
    · rw [h.states]
      rfl
    · rw [h.resending]
      rfl
    · exact fun v member => absurd (h.between _ member).2 (Nat.lt_irrefl _)
  have none : s₁.ackedAbove (slowIds (k + 1)) < kIdsBufferSize := by
    have zero : s₁.ackedAbove (slowIds (k + 1)) = 0 := by
      refine List.countP_eq_zero.mpr fun e member above => ?_
      exact absurd (of_decide_eq_true above) (h.between e member).2.not_gt
    rw [zero]
    decide
  have other : slowIds (k + 1) ≠ s₁.bindMsgId := by
    rw [h.bind]
    exact numbered
  have answer : (handleOneReceived {} s₁ { outerMsgId := 4 * k + 1 } (.rpcResult (slowIds (k + 1)) 5 [])).2 = _ :=
    known.handleOneReceived_eq other _ (by decide) (by decide)
  rw [if_pos none] at answer
  have result : run slowIds s (slowRound k) = shrinkReceived
      ((Awaited.answered s₁ (slowIds (k + 1)) (k % 400 + 2)).received
        { reply := rpcResponse {} 5 [], outerMsgId := 4 * k + 1, requestId := k % 400 + 2 }) := by
    simp only [run, slowRound, List.foldl_cons, List.foldl_nil, step, sent, ← answer]
    simp [handleReceived, ackReceived, registerMsgId, unseen, recent, s₁]
  have missing : s.ackedIds.find? (slowIds (k + 1)) = .none :=
    SortedMap.find?_eq_none.mpr fun v member => absurd (h.between _ member).2 (Nat.lt_irrefl _)
  have perm := SortedMap.emplace_perm (k % 400 + 2) missing
  have size : (s.ackedIds.emplace (slowIds (k + 1)) (k % 400 + 2)).size = k + 1 := by
    rw [SortedMap.size, perm.length_eq, List.length_cons]
    exact congrArg Nat.succ h.acked
  have untrimmed : (Awaited.answered s₁ (slowIds (k + 1)) (k % 400 + 2)).ackedIds =
      s.ackedIds.emplace (slowIds (k + 1)) (k % 400 + 2) := by
    have fits : (s.ackedIds.emplace (slowIds (k + 1)) (k % 400 + 2)).size - kIdsBufferSize = 0 := by
      omega
    simp [Awaited.answered, trimAcked, s₁, fits, SortedMap.eraseFirst]
  rw [result]
  refine ⟨h.state, h.keyCreator, h.started, h.pingId, h.pingIdToSend, h.pingMsgId, h.bind, h.acks, h.resends,
    h.stateRequests, unforced, h.toSend, erased, h.containers, h.states, h.resending, ?_, ?_, ?_, rfl⟩
  · simp only [shrinkReceived, SessionPrivate.received, untrimmed, size]
  · intro e member
    have inside : e ∈ (Awaited.answered s₁ (slowIds (k + 1)) (k % 400 + 2)).ackedIds.entries := member
    rw [untrimmed] at inside
    cases SortedMap.mem_emplace.mp inside with
    | inl before =>
        have := h.between e before
        simp only [slowIds] at *
        omega
    | inr new =>
        rw [new.1]
        simp only [slowIds]
        omega
  · intro e member
    have inside := ((SortedMap.mem_eraseFirst_excess _).mp member).1
    cases SortedMap.mem_emplace.mp inside with
    | inl before =>
        have := h.received e before
        omega
    | inr new =>
        rw [new.1]
        omega

theorem waiting_rounds (n : Nat) (few : n ≤ kIdsBufferSize) :
    Waiting n (run slowIds {} (slowStart ++ (List.range n).flatMap slowRound)) := by
  induction n with
  | zero => exact waiting_initial
  | succ n ih =>
      have before := ih (Nat.le_of_succ_le few)
      have next := before.round few
      simpa [run, List.range_succ] using next

/-- The answer to the first request comes too late. -/
theorem Waiting.lost (waiting : Waiting kIdsBufferSize s) (info : OuterInfo) :
    s.haveSent.find? (slowIds 0) = some 1 ∧ slowIds 0 ≠ s.bindMsgId ∧
      destroysTemporaryKey {} (rpcResponse {} 5 []) = false ∧
      (handleOneReceived {} s info (.rpcResult (slowIds 0) 5 [])).2.haveSent.find? (slowIds 0) = none ∧
      (handleOneReceived {} s info (.rpcResult (slowIds 0) 5 [])).2.haveReceivedMessages =
        s.haveReceivedMessages := by
  have sent : s.haveSent.find? (slowIds 0) = some 1 := by simp [SortedMap.find?, waiting.sent]
  have bind : slowIds 0 ≠ s.bindMsgId := by
    rw [waiting.bind]
    decide
  have known : Awaited s (slowIds 0) 1 := by
    refine ⟨sent, by decide, by decide, ?_, ?_, ?_, ?_, ?_⟩
    · rw [waiting.pingMsgId]
      decide
    · rw [waiting.containers]
      rfl
    · rw [waiting.states]
      rfl
    · rw [waiting.resending]
      rfl
    · exact fun v member => absurd (waiting.between _ member).1 (Nat.lt_irrefl _)
  have full : ¬ s.ackedAbove (slowIds 0) < kIdsBufferSize := by
    rw [waiting.ackedAbove_eq]
    exact Nat.lt_irrefl _
  have answer : (handleOneReceived {} s info (.rpcResult (slowIds 0) 5 [])).2 = _ :=
    known.handleOneReceived_eq bind _ (by decide) (by decide)
  rw [if_neg full] at answer
  rw [answer]
  refine ⟨sent, bind, by decide, ?_, rfl⟩
  simp [Awaited.answered, trimAcked, SortedMap.find?_erase]

def slowEvents : List Event := slowStart ++ (List.range kIdsBufferSize).flatMap slowRound

/-- After the answers to 400 later requests, the answer to the first one is not received, and the request is
forgotten. -/
theorem slow_response_lost :
    Reached slowIds (run slowIds {} slowEvents) ∧
      (run slowIds {} slowEvents).haveSent.find? (slowIds 0) = some 1 ∧
      slowIds 0 ≠ (run slowIds {} slowEvents).bindMsgId ∧
      destroysTemporaryKey {} (rpcResponse {} 5 []) = false ∧
      (handleOneReceived {} (run slowIds {} slowEvents) { outerMsgId := 2001 }
        (.rpcResult (slowIds 0) 5 [])).2.haveSent.find? (slowIds 0) = none ∧
      (handleOneReceived {} (run slowIds {} slowEvents) { outerMsgId := 2001 }
        (.rpcResult (slowIds 0) 5 [])).2.haveReceivedMessages = (run slowIds {} slowEvents).haveReceivedMessages := by
  have waiting : Waiting kIdsBufferSize (run slowIds {} slowEvents) :=
    waiting_rounds kIdsBufferSize (Nat.le_refl _)
  exact ⟨reached_run slowEvents .initial, waiting.lost { outerMsgId := 2001 }⟩

end Slow

end IMeDesktop.Mtproto.Requests.SessionPrivate
