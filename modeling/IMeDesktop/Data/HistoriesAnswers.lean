import IMeDesktop.Data.HistoriesSteps

/-! # Answers of `Histories`

An answer is prepared by its handler, then the request is finished: it leaves `sent`, what was
postponed is sent if no deletion is left, and an entry that was overtaken is asked for again. The
answer to a channel that was deleted finishes nothing.
-/

namespace IMeDesktop.Data

open Histories

namespace Histories

open Lib

/-! ## What an answer does before and after it finishes its request -/

/-- The position that was read, in `finished` of `sendReadRequest`. -/
def readAnswered (h : Histories) (tillId : MsgId) : Histories :=
  match h.state with
  | none => h.assert false .stateLost
  | some s =>
      if s.sentReadTill = tillId then
        let h := { h with state := some { s with sentReadDone := true } }
        if h.unreadCountRefreshNeeded tillId then h.requestDialogEntry false
        else { h with state := some { s with sentReadDone := true, sentReadTill := 0 } }
      else h.assert (decide (s.sentReadTill = 0) || decide (s.sentReadTill > tillId)) .sentReadTill

/-- What is done with an answer before its request is finished. -/
def prepare (h : Histories) (generator : Generator) (method : Method) (a : Answer) : Histories :=
  match generator with
  | .fakeChatListMessage => ({ h with fakeChatListRequest := false } : Histories).feed a.before
  | .groupAround _ =>
      let h := { (if a.done then h.feed a.before else h) with chatListGroupRequest := none }
      if a.done then h.feed a.between else h
  | .readInbox tillId => ((if a.done then h.feed a.before else h).readAnswered tillId).sendReadRequests
  | .deleteMessages .. => if a.done then h.feed a.before else h
  | .deleteAllMessages deleteTillId justClear revoke =>
      match method with
      | .deleteChannel => if a.done then h.feed a.before else h
      | .deleteChat =>
          if !a.done && decide (a.errorType = "PEER_ID_INVALID") then h.addChatUser deleteTillId justClear revoke
          else h
      | .messagesDeleteHistory .. => if a.done then (h.feed a.before).deleteMore generator a else h
      | _ => h
  | .deleteMessagesByDates .. => if a.done then (h.feed a.before).deleteMore generator a else h

/-- Every request but that to delete a channel is finished by its answer. -/
def finishes (generator : Generator) (method : Method) : Bool :=
  match generator with
  | .deleteAllMessages .. => method ≠ .deleteChannel
  | _ => true

def afterwards (generator : Generator) (a : Answer) : List Call :=
  match generator with
  | .deleteMessages .. => if a.done then a.after else []
  | _ => []

theorem handle_eq (h : Histories) (id : Nat) (generator : Generator) (method : Method) (a : Answer) :
    h.handle id generator method a =
      if finishes generator method then ((h.prepare generator method a).finish id).feed (afterwards generator a)
      else h.prepare generator method a := by
  obtain ⟨done, errorType, offset, before, between, after⟩ := a
  cases generator with
  | fakeChatListMessage => rfl
  | groupAround => rfl
  | readInbox => rfl
  | deleteMessages => cases done <;> rfl
  | deleteAllMessages =>
      cases method with
      | deleteChat =>
          cases done with
          | true => rfl
          | false => exact (apply_ite (fun h : Histories => h.finish id) ..).symm
      | _ => cases done <;> rfl
  | deleteMessagesByDates => cases done <;> rfl

/-! ## Finishing a request -/

theorem dropSent_cases (h : Histories) (id : Nat) :
    h.entry.sent.find? id = none ∧ h.dropSent id = h ∨
      ∃ request, h.entry.sent.find? id = some request ∧
        h.dropSent id = { h with state := some { h.entry with sent := h.entry.sent.erase id }
                                 flights := h.flights.erase request.id } := by
  unfold dropSent
  cases found : h.entry.sent.find? id with
  | none => exact .inl ⟨rfl, rfl⟩
  | some request => exact .inr ⟨request, rfl, rfl⟩

/-- Postponed requests that are sent now. -/
structure Resent (h : Histories) (list : List (Nat × Generator)) (sent : SortedMap Nat SentRequest)
    (flights : SortedMap Nat Handler) (nextApi : Nat) : Prop where
  counted : h.nextApi ≤ nextApi
  kept : ∀ e ∈ h.entry.sent.entries, e ∈ sent.entries
  made : ∀ e ∈ sent.entries, e ∈ h.entry.sent.entries ∨
    ∃ p ∈ list, e.1 = p.1 ∧ e.2.generator = p.2 ∧ e.2.type = .history ∧ h.nextApi ≤ e.2.id ∧ e.2.id < nextApi ∧
      ∃ method, flights.find? e.2.id = some (.request e.1 e.2.generator method)
  before : ∀ api < h.nextApi, flights.find? api = h.flights.find? api
  later : ∀ api handler, flights.find? api = some handler → h.flights.find? api = some handler ∨
    api < nextApi ∧ ∃ p ∈ list, ∃ method, handler = .request p.1 p.2 method

theorem sendPostponed_fold (list : List (Nat × Generator)) :
    ∀ {h : Histories} {s : State}, h.state = some s → (∀ p ∈ list, p.2.type = .history) →
      (∀ api, h.nextApi ≤ api → h.flights.find? api = none) →
      ∃ sent flights nextApi, Resent h list sent flights nextApi ∧
        list.foldl sendPostponed h =
          { h with state := some { s with sent := sent }, flights := flights, nextApi := nextApi } := by
  induction list with
  | nil =>
      intro h s known _ _
      refine ⟨h.entry.sent, h.flights, h.nextApi, ⟨le_rfl, fun _ => id, fun _ => .inl, fun _ _ => rfl,
        fun _ _ => .inl⟩, ?_⟩
      rw [List.foldl_nil, entry_of_some known, ← known]
  | cons pair rest ih =>
      intro h s known history free
      have type : pair.2.type = .history := history pair List.mem_cons_self
      have one : h.sendPostponed pair =
          { h with state := some { s with sent := s.sent.emplace pair.1 ⟨pair.2, h.nextApi, .history⟩ }
                   flights := h.flights.emplace h.nextApi (.request pair.1 pair.2 (pair.2.method h.peer))
                   nextApi := h.nextApi + 1 } := by
        unfold sendPostponed
        rw [generate_eq, readSentWith_other _ (by rw [type]; nofun), entry_of_some known]
      rw [List.foldl_cons, one]
      obtain ⟨sent, flights, nextApi, resent, result⟩ := ih (h := { h with
          state := some { s with sent := s.sent.emplace pair.1 ⟨pair.2, h.nextApi, .history⟩ }
          flights := h.flights.emplace h.nextApi (.request pair.1 pair.2 (pair.2.method h.peer))
          nextApi := h.nextApi + 1 }) rfl (fun p inside => history p (List.mem_cons_of_mem _ inside)) (by
        intro api above
        dsimp only at above ⊢
        rw [SortedMap.find?_emplace, if_neg (by omega), free api (by omega)])
      refine ⟨sent, flights, nextApi, ⟨?_, ?_, ?_, ?_, ?_⟩, result⟩
      · exact (Nat.le_succ _).trans resent.counted
      · intro e member
        rw [entry_of_some known] at member
        exact resent.kept e (SortedMap.mem_emplace.mpr (.inl member))
      · intro e member
        rcases resent.made e member with old | ⟨p, inside, key, same, history, above, below, flight⟩
        · rcases SortedMap.mem_emplace.mp old with old | ⟨new, -⟩
          · exact .inl (by rwa [entry_of_some known])
          · refine .inr ⟨pair, List.mem_cons_self, by rw [new], by rw [new], by rw [new], by rw [new], ?_, ?_⟩
            · rw [new]
              exact resent.counted
            · refine ⟨pair.2.method h.peer, ?_⟩
              rw [new]
              rw [resent.before h.nextApi (Nat.lt_succ_self _), SortedMap.find?_emplace, if_pos rfl, free _ le_rfl]
              rfl
        · exact .inr ⟨p, List.mem_cons_of_mem _ inside, key, same, history, (Nat.le_succ _).trans above, below, flight⟩
      · intro api below
        rw [resent.before api (Nat.lt_succ_of_lt below), SortedMap.find?_emplace, if_neg (Nat.ne_of_lt below)]
      · intro api handler flight
        rcases resent.later api handler flight with old | ⟨below, p, inside, method, same⟩
        · rw [SortedMap.find?_emplace] at old
          split at old
          · rename_i mine
            rw [free _ le_rfl] at old
            refine .inr ⟨mine ▸ resent.counted, pair, List.mem_cons_self, pair.2.method h.peer, ?_⟩
            exact (Option.some.inj old).symm
          · exact .inl old
        · exact .inr ⟨below, p, List.mem_cons_of_mem _ inside, method, same⟩

/-! ## What leaves requests and read positions as they are -/

structure SameRequests (h h' : Histories) : Prop where
  sent : h'.entry.sent = h.entry.sent
  postponed : h'.entry.postponed = h.entry.postponed
  flights : h'.flights = h.flights
  nextApi : h.nextApi ≤ h'.nextApi
  requestAutoincrement : h.requestAutoincrement ≤ h'.requestAutoincrement
  group : h'.chatListGroupRequest = h.chatListGroupRequest ∨ h'.chatListGroupRequest = none

theorem SameRequests.of_state {h h' : Histories} {s : State} (known : h.state = some s)
    (sent : h'.entry.sent = s.sent) (postponed : h'.entry.postponed = s.postponed) (flights : h'.flights = h.flights)
    (nextApi : h'.nextApi = h.nextApi) (requestAutoincrement : h'.requestAutoincrement = h.requestAutoincrement)
    (group : h'.chatListGroupRequest = h.chatListGroupRequest) : SameRequests h h' := by
  have same := entry_of_some known
  exact ⟨by rw [sent, same], by rw [postponed, same], flights, nextApi.ge, requestAutoincrement.ge, .inl group⟩

theorem SameRequests.trans {h h' h'' : Histories} (first : SameRequests h h') (second : SameRequests h' h'') :
    SameRequests h h'' where
  sent := second.sent.trans first.sent
  postponed := second.postponed.trans first.postponed
  flights := second.flights.trans first.flights
  nextApi := first.nextApi.trans second.nextApi
  requestAutoincrement := first.requestAutoincrement.trans second.requestAutoincrement
  group := by
    rcases second.group with same | none
    · rw [same]
      exact first.group
    · exact .inr none

structure Aside (h h' : Histories) : Prop extends SameRequests h h' where
  willReadTill : h'.entry.willReadTill = h.entry.willReadTill
  sentReadTill : h'.entry.sentReadTill = h.entry.sentReadTill
  readSent : h'.readSent = h.readSent
  inboxReadBefore : h'.inboxReadBefore = h.inboxReadBefore
  broken : ∀ a ∈ h'.broken, a ∈ h.broken ∨ a = .entryLost ∨ a = .entryPending
  erased : ∀ s ∈ h'.erased, s ∈ h.erased ∨ s.isEmpty = true

namespace Aside

theorem refl (h : Histories) : Aside h h :=
  ⟨⟨rfl, rfl, rfl, le_rfl, le_rfl, .inl rfl⟩, rfl, rfl, rfl, rfl, fun _ => .inl, fun _ => .inl⟩

/-- Fields that neither requests nor read positions depend on. -/
theorem fields (h : Histories) {now : Nat} {peer : Peer} {historyByRequest : List Nat}
    {dialogRequests dialogRequestsPending : Option (List Callback)} {posted fakeChatListRequest : Bool}
    {entryRequests : List EntryRequest} {unreadCount : Option Int} {registered : Nat} {ran : List (Callback × Bool)} :
    Aside h { h with now, peer, historyByRequest, dialogRequests, dialogRequestsPending, posted, fakeChatListRequest
                     entryRequests, unreadCount, registered, ran } :=
  ⟨⟨rfl, rfl, rfl, le_rfl, le_rfl, .inl rfl⟩, rfl, rfl, rfl, rfl, fun _ => .inl, fun _ => .inl⟩

theorem state {h : Histories} {s : State} (known : h.state = some s) (time : Nat) (done flag : Bool) :
    Aside h { h with state := some { s with willReadWhen := time, sentReadDone := done
                                            postponedRequestEntry := flag } } := by
  have same := entry_of_some known
  exact ⟨.of_state known rfl rfl rfl rfl rfl rfl, by rw [same]; rfl, by rw [same]; rfl, rfl, rfl, fun _ => .inl,
    fun _ => .inl⟩

theorem postponedRequestEntry (h : Histories) (flag : Bool) :
    Aside h { h with state := some { h.entry with postponedRequestEntry := flag } } :=
  ⟨⟨rfl, rfl, rfl, le_rfl, le_rfl, .inl rfl⟩, rfl, rfl, rfl, rfl, fun _ => .inl, fun _ => .inl⟩

end Aside

theorem requestDialogEntry_aside (h : Histories) (callback : Bool) : Aside h (h.requestDialogEntry callback) := by
  unfold requestDialogEntry postponeRequestDialogEntries
  dsimp only
  split
  · exact .fields h
  · split
    · exact .fields h
    · exact .fields h

theorem checkEmptyState_aside (h : Histories) : Aside h h.checkEmptyState := by
  unfold checkEmptyState
  cases known : h.state with
  | none => exact .refl h
  | some s =>
      dsimp only
      split
      · rename_i empty
        have same := entry_of_some known
        have parts := empty
        simp only [State.isEmpty, Bool.and_eq_true, decide_eq_true_eq, SortedMap.isEmpty_iff] at parts
        obtain ⟨⟨⟨⟨postponed, -⟩, sent⟩, will⟩, read⟩ := parts
        refine ⟨⟨?_, ?_, rfl, le_rfl, le_rfl, .inl rfl⟩, ?_, ?_, rfl, rfl, fun _ => .inl, ?_⟩
        · rw [same]
          exact SortedMap.ext sent.symm
        · rw [same]
          exact SortedMap.ext postponed.symm
        · rw [same, will]
          rfl
        · rw [same, read]
          rfl
        · intro e inside
          rcases List.mem_append.mp inside with inside | inside
          · exact .inl inside
          · exact .inr (List.mem_singleton.mp inside ▸ empty)
      · exact .refl h

theorem mem_assert {h : Histories} {holds : Bool} {a b : Assertion} (broken : b ∈ (h.assert holds a).broken) :
    b ∈ h.broken ∨ b = a := by
  cases holds with
  | true => exact .inl broken
  | false =>
      rcases List.mem_append.mp broken with old | new
      · exact .inl old
      · exact .inr (List.mem_singleton.mp new)

theorem requestEntryAgain_aside (h : Histories) : Aside h h.requestEntryAgain := by
  unfold requestEntryAgain
  dsimp only
  split
  · have fields (a : Histories) (holds : Bool) (assertion : Assertion) : a.assert holds assertion =
        { a with broken := (a.assert holds assertion).broken } := by
      cases holds <;> rfl
    rw [fields h, fields { h with broken := _ }]
    refine ⟨⟨rfl, rfl, rfl, le_rfl, le_rfl, .inl rfl⟩, rfl, rfl, rfl, rfl, ?_, fun _ => .inl⟩
    intro b broken
    rcases mem_assert broken with broken | pending
    · rcases mem_assert broken with old | lost
      · exact .inl old
      · exact .inr (.inl lost)
    · exact .inr (.inr pending)
  · exact .refl h

/-! ## Numbers of requests -/

structure Numbered (h : Histories) : Prop where
  sent : ∀ e ∈ h.entry.sent.entries, e.1 ≤ h.requestAutoincrement ∧ e.2.type = e.2.generator.type
  postponed : ∀ e ∈ h.entry.postponed.entries, e.1 ≤ h.requestAutoincrement ∧ e.2.type = .history
  group : ∀ g, h.chatListGroupRequest = some g → g.requestId ≤ h.requestAutoincrement ∧
    ∀ e ∈ h.entry.sent.entries, e.1 = g.requestId → e.2.type = .history
  flights : ∀ api handler, h.flights.find? api = some handler → api < h.nextApi

namespace Numbered

theorem free {h : Histories} (numbered : Numbered h) {api : Nat} (above : h.nextApi ≤ api) :
    h.flights.find? api = none := by
  cases flight : h.flights.find? api with
  | none => rfl
  | some handler => exact absurd (numbered.flights api handler flight) (not_lt.mpr above)

theorem same {h h' : Histories} (numbered : Numbered h) (same : SameRequests h h') : Numbered h' where
  sent := by
    rw [same.sent]
    exact fun e member => ⟨(numbered.sent e member).1.trans same.requestAutoincrement, (numbered.sent e member).2⟩
  postponed := by
    rw [same.postponed]
    exact fun e member =>
      ⟨(numbered.postponed e member).1.trans same.requestAutoincrement, (numbered.postponed e member).2⟩
  group := by
    intro g asked
    rw [same.sent]
    rcases same.group with kept | none
    · have ⟨below, history⟩ := numbered.group g (kept ▸ asked)
      exact ⟨below.trans same.requestAutoincrement, history⟩
    · rw [none] at asked
      cases asked
  flights := by
    intro api handler flight
    exact (numbered.flights api handler (same.flights ▸ flight)).trans_le same.nextApi

theorem missing {h : Histories} (numbered : Numbered h) : h.entry.sent.find? h.nextId = none := by
  rw [SortedMap.find?_eq_none]
  intro request member
  exact absurd (numbered.sent _ member).1 (not_le.mpr (Nat.lt_succ_self _))

theorem mem_pushed {h : Histories} (numbered : Numbered h) (generator : Generator) {e : Nat × SentRequest} :
    e ∈ (h.pushed generator).entries ↔
      e ∈ h.entry.sent.entries ∨ e = (h.nextId, ⟨generator, h.nextApi, generator.type⟩) := by
  rw [pushed, SortedMap.mem_emplace]
  simp only [numbered.missing, and_true]

theorem sendRequest {h : Histories} (numbered : Numbered h) (generator : Generator) :
    Numbered (h.sendRequest generator) := by
  have pushed (e) (member : e ∈ (h.pushed generator).entries) :
      e.1 ≤ h.nextId ∧ e.2.type = e.2.generator.type ∧ (e.1 = h.nextId ∨ e ∈ h.entry.sent.entries) := by
    rcases (numbered.mem_pushed generator).mp member with old | rfl
    · exact ⟨(numbered.sent e old).1.trans (Nat.le_succ _), (numbered.sent e old).2, .inr old⟩
    · exact ⟨le_rfl, rfl, .inl rfl⟩
  have sending := sendRequest_cases h generator
  generalize h.sendRequest generator = h' at sending ⊢
  cases sending with
  | postponed type deleting =>
      refine ⟨?_, ?_, ?_, numbered.flights⟩
      · exact fun e member => ⟨(numbered.sent e member).1.trans (Nat.le_succ _), (numbered.sent e member).2⟩
      · intro e member
        rcases SortedMap.mem_emplace.mp member with old | ⟨rfl, -⟩
        · exact ⟨(numbered.postponed e old).1.trans (Nat.le_succ _), (numbered.postponed e old).2⟩
        · exact ⟨le_rfl, type⟩
      · exact fun g asked => ⟨(numbered.group g asked).1.trans (Nat.le_succ _), (numbered.group g asked).2⟩
  | sent allowed left same later cancelled =>
      refine ⟨?_, ?_, ?_, ?_⟩
      · intro e member
        obtain ⟨below, type, -⟩ := pushed e ((left e).mp member).1
        exact ⟨below, type⟩
      · intro e member
        rcases later e member with old | ⟨f, inside, history, rfl⟩
        · exact ⟨(numbered.postponed e old).1.trans (Nat.le_succ _), (numbered.postponed e old).2⟩
        · obtain ⟨below, type, -⟩ := pushed f inside
          exact ⟨below, type ▸ history⟩
      · intro g asked
        have ⟨below, history⟩ := numbered.group g asked
        refine ⟨below.trans (Nat.le_succ _), ?_⟩
        intro e member key
        rcases (pushed e ((left e).mp member).1).2.2 with new | old
        · exact absurd below (not_le.mpr (by rw [← key, new]; exact Nat.lt_succ_self _))
        · exact history e old key
      · intro api handler flight
        rcases cancelled api with ⟨gone, -⟩ | ⟨kept, -⟩
        · exact absurd (gone ▸ flight) nofun
        · change _ = some handler at flight
          rw [kept, SortedMap.find?_emplace] at flight
          split at flight
          · rename_i new
            exact new ▸ Nat.lt_succ_self _
          · exact (numbered.flights api handler flight).trans (Nat.lt_succ_self _)

theorem dropSent {h : Histories} (numbered : Numbered h) (id : Nat) : Numbered (h.dropSent id) := by
  rcases dropSent_cases h id with ⟨-, same⟩ | ⟨request, found, result⟩
  · rwa [same]
  · rw [result]
    refine ⟨?_, numbered.postponed, ?_, ?_⟩
    · exact fun e member => numbered.sent e (SortedMap.mem_erase.mp member).1
    · intro g asked
      have ⟨below, history⟩ := numbered.group g asked
      exact ⟨below, fun e member => history e (SortedMap.mem_erase.mp member).1⟩
    · intro api handler flight
      change (h.flights.erase request.id).find? api = some handler at flight
      rw [SortedMap.find?_erase] at flight
      split at flight
      · cases flight
      · exact numbered.flights api handler flight

end Numbered

/-- What `resendPostponed` does when something is sent. -/
theorem resendPostponed_cases {h : Histories} (numbered : Numbered h) :
    h.resendPostponed = h ∧ (h.entry.postponed.entries = [] ∨ h.entry.postponeHistoryRequest = true) ∨
      h.entry.postponeHistoryRequest = false ∧
        ∃ sent flights nextApi, Resent h h.entry.postponed.entries sent flights nextApi ∧
          h.resendPostponed =
            { h with state := some { h.entry with postponed := .empty, sent := sent }
                     flights := flights, nextApi := nextApi } := by
  unfold resendPostponed
  split
  · rename_i some
    simp only [Bool.and_eq_true, Bool.not_eq_true'] at some
    obtain ⟨sent, flights, nextApi, resent, result⟩ :=
      sendPostponed_fold h.entry.postponed.entries (h := { h with state := .some { h.entry with postponed := .empty } })
        rfl (fun p member => (numbered.postponed p member).2) (fun api above => numbered.free above)
    exact .inr ⟨some.2, sent, flights, nextApi, ⟨resent.counted, resent.kept, resent.made, resent.before, resent.later⟩,
      result⟩
  · rename_i none
    refine .inl ⟨rfl, ?_⟩
    simp only [Bool.and_eq_true, Bool.not_eq_true', not_and, Bool.not_eq_false] at none
    cases empty : h.entry.postponed.isEmpty with
    | true => exact .inl ((SortedMap.isEmpty_iff _).mp empty)
    | false => exact .inr (none empty)

namespace Numbered

theorem resendPostponed {h : Histories} (numbered : Numbered h) : Numbered h.resendPostponed := by
  rcases resendPostponed_cases numbered with ⟨same, -⟩ | ⟨-, sent, flights, nextApi, resent, result⟩
  · rwa [same]
  · rw [result]
    refine ⟨?_, nofun, ?_, ?_⟩
    · intro e member
      rcases resent.made e member with old | ⟨p, inside, key, generator, type, -⟩
      · exact numbered.sent e old
      · have ⟨below, history⟩ := numbered.postponed p inside
        exact ⟨key ▸ below, by rw [type, generator, history]⟩
    · intro g asked
      have ⟨below, history⟩ := numbered.group g asked
      refine ⟨below, ?_⟩
      intro e member key
      rcases resent.made e member with old | ⟨p, inside, -, -, type, -⟩
      · exact history e old key
      · exact type
    · intro api handler flight
      rcases resent.later api handler flight with old | ⟨below, -⟩
      · exact (numbered.flights api handler old).trans_le resent.counted
      · exact below

theorem finishSentRequest {h : Histories} (numbered : Numbered h) (id : Nat) : Numbered (h.finishSentRequest id) := by
  unfold Histories.finishSentRequest
  dsimp only
  have removed : Numbered { h with historyByRequest := h.historyByRequest.filter (· ≠ id) } :=
    numbered.same (Aside.fields h).toSameRequests
  have resent := (removed.dropSent id).resendPostponed
  exact (resent.same (requestEntryAgain_aside _).toSameRequests).same (checkEmptyState_aside _).toSameRequests

end Numbered

theorem cancelRequest_cases (h : Histories) (id : Nat) :
    (∃ ids, h.cancelRequest id = { h with historyByRequest := ids }) ∨
      ∃ s ids, h.state = some s ∧ h.cancelRequest id =
        ({ h with historyByRequest := ids, state := some { s with postponed := s.postponed.erase id } } :
          Histories).finishSentRequest id := by
  unfold cancelRequest
  split
  · exact .inl ⟨h.historyByRequest, rfl⟩
  split
  · exact .inl ⟨h.historyByRequest, rfl⟩
  dsimp only
  split
  · exact .inl ⟨_, rfl⟩
  · rename_i s known
    exact .inr ⟨s, _, known, rfl⟩

theorem finish_cases (h : Histories) (id : Nat) : h.finish id = h ∧ h.state = none ∨
    ∃ s, h.state = some s ∧ h.finish id = h.finishSentRequest id := by
  unfold finish
  cases known : h.state with
  | none => exact .inl ⟨rfl, rfl⟩
  | some s => exact .inr ⟨s, rfl, rfl⟩

/-- The state that `sendReadRequest` sends from. -/
def readFrom (h : Histories) (s : State) : Histories :=
  { h.assert (s.willReadTill > s.sentReadTill) .willReadTill with
      state := some { s with sentReadTill := s.willReadTill, willReadTill := 0, willReadWhen := 0
                             sentReadDone := false } }

theorem readFrom_same {h : Histories} {s : State} (known : h.state = some s) : SameRequests h (h.readFrom s) := by
  unfold readFrom assert
  split
  · exact .of_state known rfl rfl rfl rfl rfl rfl
  · exact .of_state known rfl rfl rfl rfl rfl rfl

/-- A change of requests: it starts from a state with the same requests, and sends or cancels. -/
inductive Requesting (h : Histories) : Histories → Prop
  | same {h'} (same : SameRequests h h') : Requesting h h'
  | sent {h₁ : Histories} (generator : Generator) (same : SameRequests h h₁) : Requesting h (h₁.sendRequest generator)
  | startGroup (id : MsgId) :
      Requesting h { h.sendRequest (.groupAround id) with chatListGroupRequest := some ⟨id, h.nextId⟩ }
  | cancelGroup {group : ChatListGroupRequest} (asked : h.chatListGroupRequest = some group) :
      Requesting h (h.cancelRequest group.requestId)

theorem Change.requesting {h h' : Histories} (change : Change h h') : Requesting h h' := by
  have start : SameRequests h h := (Aside.refl h).toSameRequests
  cases change with
  | setInboxReadTill upTo => exact .same ⟨rfl, rfl, rfl, le_rfl, le_rfl, .inl rfl⟩
  | unreadCount count => exact .same (Aside.fields h).toSameRequests
  | fakeChatListRequest asked => exact .same (Aside.fields h).toSameRequests
  | requestDialogEntry callback => exact .same (requestDialogEntry_aside h callback).toSameRequests
  | sendRequest generator => exact .sent generator start
  | startGroup id => exact .startGroup id
  | cancelGroup asked => exact .cancelGroup asked
  | willReadWhen known time => exact .same (.of_state known rfl rfl rfl rfl rfl rfl)
  | willReadTill time => exact .same ⟨rfl, rfl, rfl, le_rfl, le_rfl, .inl rfl⟩
  | sendReadRequest known => exact .sent (.readInbox _) (readFrom_same known)

namespace Numbered

theorem erased {h : Histories} (numbered : Numbered h) {s : State} (known : h.state = some s) (ids : List Nat)
    (id : Nat) : Numbered { h with historyByRequest := ids, state := some { s with postponed := s.postponed.erase id } } := by
  have same := entry_of_some known
  have sent := numbered.sent
  have postponed := numbered.postponed
  have group := numbered.group
  rw [same] at sent postponed group
  exact ⟨sent, fun e member => postponed e (SortedMap.mem_erase.mp member).1, group, numbered.flights⟩

theorem cancelRequest {h : Histories} (numbered : Numbered h) (id : Nat) : Numbered (h.cancelRequest id) := by
  rcases cancelRequest_cases h id with ⟨ids, result⟩ | ⟨s, ids, known, result⟩
  · rw [result]
    exact numbered.same (Aside.fields h).toSameRequests
  · rw [result]
    exact (numbered.erased known ids id).finishSentRequest id

theorem startGroup {h : Histories} (numbered : Numbered h) (id : MsgId) :
    Numbered { h.sendRequest (.groupAround id) with chatListGroupRequest := some ⟨id, h.nextId⟩ } := by
  have sent := numbered.sendRequest (.groupAround id)
  refine ⟨sent.sent, sent.postponed, ?_, sent.flights⟩
  intro g asked
  cases asked
  have sending := sendRequest_cases h (.groupAround id)
  generalize h.sendRequest (.groupAround id) = h' at sending ⊢
  cases sending with
  | postponed type deleting =>
      refine ⟨le_rfl, ?_⟩
      intro e member key
      exact absurd (numbered.sent e member).1 (by rw [key]; exact not_le.mpr (Nat.lt_succ_self _))
  | sent allowed left same later cancelled =>
      refine ⟨le_rfl, ?_⟩
      intro e member key
      rcases (numbered.mem_pushed _).mp ((left e).mp member).1 with old | rfl
      · exact absurd (numbered.sent e old).1 (by rw [key]; exact not_le.mpr (Nat.lt_succ_self _))
      · rfl

theorem addChatUser {h : Histories} (numbered : Numbered h) (till : MsgId) (justClear revoke : Bool) :
    Numbered (h.addChatUser till justClear revoke) := by
  refine ⟨numbered.sent, numbered.postponed, numbered.group, ?_⟩
  intro api handler flight
  change (h.flights.emplace h.nextApi (.addSelf till justClear revoke)).find? api = _ at flight
  rw [SortedMap.find?_emplace] at flight
  split at flight
  · rename_i new
    exact new ▸ Nat.lt_succ_self _
  · exact (numbered.flights api handler flight).trans (Nat.lt_succ_self _)

theorem cancelApi {h : Histories} (numbered : Numbered h) (api : Nat) : Numbered (h.cancelApi api) := by
  refine ⟨numbered.sent, numbered.postponed, numbered.group, ?_⟩
  intro other handler flight
  change (h.flights.erase api).find? other = _ at flight
  rw [SortedMap.find?_erase] at flight
  split at flight
  · cases flight
  · exact numbered.flights other handler flight

theorem requesting {h h' : Histories} (requesting : Requesting h h') (numbered : Numbered h) : Numbered h' := by
  cases requesting with
  | same same => exact numbered.same same
  | sent generator same => exact (numbered.same same).sendRequest generator
  | startGroup id => exact numbered.startGroup id
  | cancelGroup asked => exact numbered.cancelRequest _

end Numbered

/-! ## What stays sent -/

theorem finishSentRequest_keeps {h : Histories} (numbered : Numbered h) {id : Nat} {e : Nat × SentRequest}
    (member : e ∈ h.entry.sent.entries) (other : e.1 ≠ id) : e ∈ (h.finishSentRequest id).entry.sent.entries := by
  unfold finishSentRequest
  dsimp only
  have removed : Numbered { h with historyByRequest := h.historyByRequest.filter (· ≠ id) } :=
    numbered.same (Aside.fields h).toSameRequests
  rw [(checkEmptyState_aside _).sent, (requestEntryAgain_aside _).sent]
  have dropped : e ∈ (dropSent { h with historyByRequest := h.historyByRequest.filter (· ≠ id) } id).entry.sent.entries := by
    rcases dropSent_cases { h with historyByRequest := h.historyByRequest.filter (· ≠ id) } id with
      ⟨-, same⟩ | ⟨request, found, result⟩
    · rw [same]
      exact member
    · rw [result]
      exact SortedMap.mem_erase.mpr ⟨member, other⟩
  rcases resendPostponed_cases (removed.dropSent id) with ⟨same, -⟩ | ⟨-, sent, flights, nextApi, resent, result⟩
  · rwa [same]
  · rw [result]
    exact resent.kept e dropped

/-- Only an answer or its cancellation takes a deletion or a read position from `sent`. -/
theorem Requesting.keeps {h h' : Histories} (requesting : Requesting h h') (numbered : Numbered h)
    {e : Nat × SentRequest} (member : e ∈ h.entry.sent.entries) (blocking : e.2.type ≠ .history) :
    e ∈ h'.entry.sent.entries := by
  cases requesting with
  | same same => rwa [same.sent]
  | sent generator same => exact (sendRequest_frame _ generator).sent e (same.sent ▸ member) blocking
  | startGroup id => exact (sendRequest_frame h (.groupAround id)).sent e member blocking
  | @cancelGroup group asked =>
      have other : e.1 ≠ group.requestId := fun same => blocking ((numbered.group group asked).2 e member same)
      rcases cancelRequest_cases h group.requestId with ⟨ids, result⟩ | ⟨s, ids, known, result⟩
      · rw [result]
        exact member
      · rw [result]
        refine finishSentRequest_keeps (numbered.erased known ids _) ?_ other
        rwa [entry_of_some known] at member

/-! ## Moves

What an event other than an answer does to requests and read positions. -/

inductive Move (h : Histories) : Histories → Prop
  | aside {h'} (aside : Aside h h') : Move h h'
  | change {h'} (change : Change h h') : Move h h'
  | letGo {s : State} (known : h.state = some s) :
      Move h (({ h with state := some { s with sentReadTill := 0 } } : Histories).setInboxReadTill s.sentReadTill)
  | cancelRequest (id : Nat) : Move h (h.cancelRequest id)
  | addChatUser (deleteTillId : MsgId) (justClear revoke : Bool) : Move h (h.addChatUser deleteTillId justClear revoke)

abbrev Moves : Histories → Histories → Prop := Relation.ReflTransGen Move

theorem Moves.preserve {P : Histories → Prop} (move : ∀ {h h'}, Move h h' → P h → P h') {h h' : Histories}
    (moves : Moves h h') (start : P h) : P h' := by
  induction moves with
  | refl => exact start
  | tail _ last ih => exact move last ih

theorem Changes.moves {h h' : Histories} (changes : Changes h h') : Moves h h' := by
  induction changes with
  | refl => exact .refl
  | tail _ last ih => exact ih.tail (.change last)

theorem Moves.of_aside {h h' : Histories} (aside : Aside h h') : Moves h h' := .single (.aside aside)

theorem feed_moves (h : Histories) (calls : List Call) : Moves h (h.feed calls) := (feed_changes h calls).moves

theorem runCallbacks_moves (fresh : Bool) (callbacks : Callback → List Call) (list : List Callback) :
    ∀ h, Moves h (list.foldl (runCallback fresh callbacks) h) := by
  induction list with
  | nil => exact fun h => .refl
  | cons callback rest ih =>
      intro h
      refine Relation.ReflTransGen.trans ?_ (ih _)
      exact (Moves.of_aside (.fields h)).trans (feed_moves _ (callbacks callback))

theorem applySentRead_moves (h : Histories) (known : Bool) : Moves h (h.applySentRead known) := by
  unfold applySentRead
  split
  · rename_i s state
    split
    · exact (Relation.ReflTransGen.single (.letGo state)).tail (.aside (checkEmptyState_aside _))
    · exact .refl
  · exact .refl

/-- Callbacks that wait for a request that is not sent are run. -/
def runPending (h : Histories) (fresh : Bool) (callbacks : Callback → List Call) : Histories :=
  match h.dialogRequestsPending with
  | some pending => pending.foldl (runCallback fresh callbacks) { h with dialogRequestsPending := none }
  | none => h

def runRequests (h : Histories) (fresh : Bool) (callbacks : Callback → List Call) : Histories :=
  match h.dialogRequests with
  | some requests => requests.foldl (runCallback fresh callbacks) { h with dialogRequests := none }
  | none => h

theorem dialogEntryApplied_eq (h : Histories) (fresh : Bool) (calls : List HistoryCall)
    (callbacks : Callback → List Call) : h.dialogEntryApplied fresh calls callbacks =
      if h.entry.postponedRequestEntry then h
      else (((calls.foldl callHistory h).runPending fresh callbacks).runRequests fresh callbacks).applySentRead
        h.state.isSome := rfl

theorem runPending_moves (h : Histories) (fresh : Bool) (callbacks : Callback → List Call) :
    Moves h (h.runPending fresh callbacks) := by
  unfold runPending
  split
  · exact (Moves.of_aside (.fields h)).trans (runCallbacks_moves ..)
  · exact .refl

theorem runRequests_moves (h : Histories) (fresh : Bool) (callbacks : Callback → List Call) :
    Moves h (h.runRequests fresh callbacks) := by
  unfold runRequests
  split
  · exact (Moves.of_aside (.fields h)).trans (runCallbacks_moves ..)
  · exact .refl

theorem dialogEntryApplied_moves (h : Histories) (fresh : Bool) (calls : List HistoryCall)
    (callbacks : Callback → List Call) : Moves h (h.dialogEntryApplied fresh calls callbacks) := by
  rw [dialogEntryApplied_eq]
  split
  · exact .refl
  · have called := (Changes.foldl callHistory_changes calls h).moves
    exact ((called.trans (runPending_moves ..)).trans (runRequests_moves ..)).trans (applySentRead_moves ..)

theorem applyDialogFields_changes (h : Histories) (loaded : Loaded) (d : Dialog) :
    Changes h (h.applyDialogFields loaded d) := by
  have counted (h : Histories) (count : Int) (upTo : MsgId) :
      Changes h ((h.setUnreadCount loaded count).setInboxReadTill upTo) :=
    (setUnreadCount_changes h loaded count).tail (.setInboxReadTill upTo)
  have first : Changes h (if d.clearUnread.isNone ∧ d.readInboxMaxId + 1 ≥ h.inboxReadBefore.getD 1 then
      (h.setUnreadCount loaded d.unreadCount).setInboxReadTill d.readInboxMaxId else h) := by
    split
    · exact counted ..
    · exact .refl
  unfold applyDialogFields
  dsimp only
  refine first.trans ?_
  generalize (if d.clearUnread.isNone ∧ d.readInboxMaxId + 1 ≥ h.inboxReadBefore.getD 1 then
      (h.setUnreadCount loaded d.unreadCount).setInboxReadTill d.readInboxMaxId else h) = h
  split
  · exact counted ..
  · exact setUnreadCount_changes ..
  · exact .refl

theorem applyDialog_moves (h : Histories) (fresh : Bool) (e : Entry) (d : Dialog) :
    Moves h (h.applyDialog fresh e d) :=
  ((applyDialogFields_changes h e.loaded d).moves.trans (feed_moves _ e.between)).trans (dialogEntryApplied_moves ..)

/-- The entry in an answer is applied. -/
def applyEntry (h : Histories) (fresh : Bool) (e : Entry) : Histories :=
  match e.dialog with
  | some d => (h.feed e.before).applyDialog fresh e d
  | none => h

/-- The request was answered. -/
def dropEntryRequest (h : Histories) (id : Nat) : Histories :=
  { h with entryRequests := h.entryRequests.filter (·.id ≠ id) }

theorem answerEntry_eq (h : Histories) (request : EntryRequest) (e : Entry) : h.answerEntry request e =
    let h := (h.dropEntryRequest request.id).applyEntry (!request.overtaken) e
    if h.entry.postponedRequestEntry then h else h.dialogEntryApplied (!request.overtaken) e.again e.callbacks := rfl

theorem answerEntry_moves (h : Histories) (request : EntryRequest) (e : Entry) : Moves h (h.answerEntry request e) := by
  have dropped : Moves h (h.dropEntryRequest request.id) := .of_aside (.fields h)
  have applied (h : Histories) : Moves h (h.applyEntry (!request.overtaken) e) := by
    unfold applyEntry
    split
    · exact (feed_moves h e.before).trans (applyDialog_moves ..)
    · exact .refl
  rw [answerEntry_eq]
  refine (dropped.trans (applied _)).trans ?_
  dsimp only
  split
  · exact .refl
  · exact dialogEntryApplied_moves ..

theorem sendDialogRequests_aside (h : Histories) : Aside h h.sendDialogRequests := by
  unfold sendDialogRequests
  dsimp only
  split
  · exact .fields h
  · split
    · exact ⟨⟨rfl, rfl, rfl, le_rfl, le_rfl, .inl rfl⟩, rfl, rfl, rfl, rfl, fun _ => .inl, fun _ => .inl⟩
    · exact ⟨⟨rfl, rfl, rfl, Nat.le_succ _, le_rfl, .inl rfl⟩, rfl, rfl, rfl, rfl, fun _ => .inl, fun _ => .inl⟩

/-- An event that is not an answer to a request of the chat. -/
theorem step_moves {h : Histories} {e : Event} (other : ∀ api a, e ≠ .answer api a) : Moves h (h.step e) := by
  cases e with
  | call c => exact (call_changes h c).moves
  | cancelRequest id => exact .single (.cancelRequest id)
  | elapse ms => exact .of_aside (.fields h)
  | otherRequest =>
      exact .of_aside ⟨⟨rfl, rfl, rfl, le_rfl, Nat.le_succ _, .inl rfl⟩, rfl, rfl, rfl, rfl, fun _ => .inl, fun _ => .inl⟩
  | peerChanged amCreator canDelete => exact .of_aside (.fields h)
  | sendReadRequests => exact (sendReadRequests_changes h).moves
  | sendDialogRequests => exact .of_aside (sendDialogRequests_aside h)
  | answer api a => exact absurd rfl (other api a)
  | entryAnswer id e =>
      unfold step
      dsimp only
      split
      · exact answerEntry_moves ..
      · exact .refl
  | applyDialog e d => exact applyDialog_moves ..

theorem Numbered.move {h h' : Histories} (numbered : Numbered h) (move : Move h h') : Numbered h' := by
  cases move with
  | aside aside => exact numbered.same aside.toSameRequests
  | change change => exact numbered.requesting change.requesting
  | letGo known => exact numbered.same (.of_state known rfl rfl rfl rfl rfl rfl)
  | cancelRequest id => exact numbered.cancelRequest id
  | addChatUser till justClear revoke => exact numbered.addChatUser till justClear revoke

theorem deleteMore_moves (h : Histories) {generator : Generator} (other : generator.type ≠ .readInbox) (a : Answer) :
    Moves h (h.deleteMore generator a) := by
  unfold deleteMore
  split
  · exact (Relation.ReflTransGen.single (.change (.sendRequest generator other))).trans (feed_moves ..)
  · exact .refl

/-- Before a request other than that of a read position is finished. -/
theorem prepare_moves (h : Histories) {generator : Generator} (other : generator.type ≠ .readInbox) (method : Method)
    (a : Answer) : Moves h (h.prepare generator method a) := by
  obtain ⟨done, errorType, offset, before, between, after⟩ := a
  have fed (h : Histories) (calls : List Call) : Moves h (if done then h.feed calls else h) := by
    cases done with
    | true => exact feed_moves h calls
    | false => exact .refl
  have more (generator : Generator) (other : generator.type ≠ .readInbox) (a : Answer) :
      Moves h (if done then (h.feed before).deleteMore generator a else h) := by
    cases done with
    | true => exact (feed_moves h before).trans (deleteMore_moves _ other a)
    | false => exact .refl
  cases generator with
  | fakeChatListMessage => exact (Moves.of_aside (.fields h)).trans (feed_moves _ before)
  | groupAround =>
      refine ((fed h before).tail (.aside ?_)).trans (fed _ between)
      exact ⟨⟨rfl, rfl, rfl, le_rfl, le_rfl, .inr rfl⟩, rfl, rfl, rfl, rfl, fun _ => .inl, fun _ => .inl⟩
  | readInbox => exact absurd rfl other
  | deleteMessages => exact fed h before
  | deleteAllMessages till justClear revoke =>
      cases method with
      | deleteChannel => exact fed h before
      | deleteChat =>
          unfold prepare
          dsimp only
          split
          · exact .single (.addChatUser till justClear revoke)
          · exact .refl
      | messagesDeleteHistory => exact more (.deleteAllMessages till justClear revoke) nofun _
      | _ => exact .refl
  | deleteMessagesByDates minDate maxDate revoke => exact more (.deleteMessagesByDates minDate maxDate revoke) nofun _

theorem readAnswered_same (h : Histories) (tillId : MsgId) : SameRequests h (h.readAnswered tillId) := by
  have start : SameRequests h h := (Aside.refl h).toSameRequests
  have checked (holds : Bool) (a : Assertion) : SameRequests h (h.assert holds a) := by
    cases holds with
    | true => exact start
    | false => exact ⟨rfl, rfl, rfl, le_rfl, le_rfl, .inl rfl⟩
  unfold readAnswered
  cases known : h.state with
  | none => exact checked false .stateLost
  | some s =>
      dsimp only
      split
      · have done : SameRequests h { h with state := some { s with sentReadDone := true } } :=
          .of_state known rfl rfl rfl rfl rfl rfl
        split
        · exact done.trans (requestDialogEntry_aside _ false).toSameRequests
        · exact .of_state known rfl rfl rfl rfl rfl rfl
      · exact checked _ .sentReadTill

/-! ## Runs -/

/-- Every step of a run is allowed in the state it is made in. -/
def EveryStep (allowed : Histories → Event → Prop) : Histories → List Event → Prop
  | _, [] => True
  | h, e :: rest => allowed h e ∧ EveryStep allowed (h.step e) rest

theorem EveryStep.preserve {allowed : Histories → Event → Prop} {P : Histories → Prop}
    (step : ∀ {h e}, P h → allowed h e → P (h.step e)) {h : Histories} {events : List Event}
    (every : EveryStep allowed h events) (start : P h) : P (h.run events) := by
  induction events generalizing h with
  | nil => exact start
  | cons e rest ih => exact ih every.2 (step start every.1)

end Histories

end IMeDesktop.Data
