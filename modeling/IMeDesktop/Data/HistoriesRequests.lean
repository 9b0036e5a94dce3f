import IMeDesktop.Data.HistoriesAnswers

/-! # Deletions and history requests

While a deletion is sent no history request is, and what is postponed waits for a deletion. Each
request that is sent has its API request in flight, so that with none in flight nothing is sent and
nothing postponed. This fails for one deletion only: nothing finishes that of a whole channel.
-/

namespace IMeDesktop.Data

open Histories

namespace Histories

open Lib

theorem postponeHistoryRequest_iff {s : State} :
    s.postponeHistoryRequest = true ↔ ∃ e ∈ s.sent.entries, e.2.type = .delete := by
  simp [State.postponeHistoryRequest]

/-- Requests that are sent have their flights, but for the one that is being answered. -/
structure Linked (h : Histories) (free : Option Nat) : Prop extends Numbered h where
  flight : ∀ e ∈ h.entry.sent.entries, e.2.id < h.nextApi ∧
    (free = some e.1 ∧ h.flights.find? e.2.id = none ∨
      ∃ method, h.flights.find? e.2.id = some (.request e.1 e.2.generator method))
  exclusive : h.entry.postponeHistoryRequest = true → ∀ e ∈ h.entry.sent.entries, e.2.type ≠ .history

structure Waits (h : Histories) (free : Option Nat) : Prop extends Linked h free where
  waiting : h.entry.postponed.entries ≠ [] → h.entry.postponeHistoryRequest = true

namespace Linked

variable {h : Histories} {free : Option Nat}

theorem same {h' : Histories} (linked : Linked h free) (same : SameRequests h h') : Linked h' free := by
  refine ⟨linked.toNumbered.same same, ?_, ?_⟩
  · rw [same.sent, same.flights]
    exact fun e inside => ⟨(linked.flight e inside).1.trans_le same.nextApi, (linked.flight e inside).2⟩
  · rw [State.postponeHistoryRequest, same.sent]
    exact linked.exclusive

/-- Requests with one flight are one request. -/
theorem one_flight (linked : Linked h free) {e f : Nat × SentRequest} (first : e ∈ h.entry.sent.entries)
    (second : f ∈ h.entry.sent.entries) (same : e.2.id = f.2.id) : e = f := by
  refine SortedMap.entry_unique _ first second ?_
  rcases (linked.flight e first).2 with ⟨mine, none⟩ | ⟨method, flight⟩
  · rcases (linked.flight f second).2 with ⟨mine', -⟩ | ⟨method', flight'⟩
    · exact Option.some.inj (mine.symm.trans mine')
    · rw [same, flight'] at none
      cases none
  · rw [same] at flight
    rcases (linked.flight f second).2 with ⟨-, none⟩ | ⟨method', flight'⟩
    · rw [none] at flight
      cases flight
    · rw [flight'] at flight
      injection Option.some.inj flight with key
      exact key.symm

theorem dropSent (linked : Linked h free) (id : Nat) :
    Linked (h.dropSent id) free ∧ ∀ e ∈ (h.dropSent id).entry.sent.entries, e.1 ≠ id := by
  have numbered := linked.toNumbered.dropSent id
  rcases dropSent_cases h id with ⟨missing, same⟩ | ⟨request, found, result⟩
  · rw [same]
    refine ⟨linked, ?_⟩
    intro e inside mine
    exact SortedMap.find?_eq_none.mp missing e.2 (mine ▸ inside)
  · rw [result] at numbered ⊢
    refine ⟨⟨numbered, ?_, ?_⟩, fun e inside => (SortedMap.mem_erase.mp inside).2⟩
    · intro e inside
      obtain ⟨inside, different⟩ := SortedMap.mem_erase.mp inside
      have other : e.2.id ≠ request.id := by
        intro same
        have mine := linked.one_flight inside (SortedMap.find?_eq_some.mp found) same
        exact different (congrArg Prod.fst mine)
      change e.2.id < h.nextApi ∧ (_ ∧ (h.flights.erase request.id).find? e.2.id = none ∨
        ∃ method, (h.flights.erase request.id).find? e.2.id = some (.request e.1 e.2.generator method))
      rw [SortedMap.find?_erase, if_neg other]
      exact linked.flight e inside
    · intro deleting e inside
      obtain ⟨f, deletion, type⟩ := postponeHistoryRequest_iff.mp deleting
      exact linked.exclusive (postponeHistoryRequest_iff.mpr ⟨f, (SortedMap.mem_erase.mp deletion).1, type⟩) e
        (SortedMap.mem_erase.mp inside).1

/-- Without a deletion what was postponed is sent. -/
theorem resendPostponed (linked : Linked h free) : Waits h.resendPostponed free := by
  have numbered := linked.toNumbered.resendPostponed
  rcases resendPostponed_cases linked.toNumbered with ⟨same, waits⟩ | ⟨none, sent, flights, nextApi, resent, result⟩
  · rw [same]
    refine ⟨linked, ?_⟩
    intro some
    rcases waits with empty | deleting
    · exact absurd empty some
    · exact deleting
  · rw [result] at numbered ⊢
    refine ⟨⟨numbered, ?_, ?_⟩, fun some => absurd rfl some⟩
    · intro e inside
      rcases resent.made e inside with old | ⟨p, -, -, -, -, -, below, flight⟩
      · obtain ⟨below, flight⟩ := linked.flight e old
        refine ⟨below.trans_le resent.counted, ?_⟩
        change _ ∧ flights.find? e.2.id = Option.none ∨
          ∃ method, flights.find? e.2.id = some (.request e.1 e.2.generator method)
        rwa [resent.before _ below]
      · exact ⟨below, .inr flight⟩
    · intro deleting
      obtain ⟨f, deletion, type⟩ := postponeHistoryRequest_iff.mp deleting
      rcases resent.made f deletion with old | ⟨p, -, -, -, history, -⟩
      · have deleting := postponeHistoryRequest_iff.mpr ⟨f, old, type⟩
        rw [none] at deleting
        cases deleting
      · rw [history] at type
        cases type

end Linked

namespace Waits

variable {h : Histories} {free : Option Nat}

theorem same {h' : Histories} (waits : Waits h free) (same : SameRequests h h') : Waits h' free := by
  refine ⟨waits.toLinked.same same, ?_⟩
  rw [State.postponeHistoryRequest, same.sent, same.postponed]
  exact waits.waiting

theorem sendRequest (waits : Waits h free) (generator : Generator) : Waits (h.sendRequest generator) free := by
  have numbered := waits.toNumbered.sendRequest generator
  have sending := sendRequest_cases h generator
  generalize h.sendRequest generator = h' at sending numbered ⊢
  cases sending with
  | postponed type deleting => exact ⟨⟨numbered, waits.flight, waits.exclusive⟩, fun _ => deleting⟩
  | @sent sent postponed flights allowed left same later cancelled =>
      have mem {e} := waits.toNumbered.mem_pushed generator (e := e)
      refine ⟨⟨numbered, ?_, ?_⟩, ?_⟩
      · intro e inside
        obtain ⟨pushed, kept⟩ := (left e).mp inside
        -- a request that is called back is another one, with a flight of its own
        have gone (f) (called : f ∈ (h.pushed generator).entries) (same : f.2.id = e.2.id) : f = e := by
          rcases mem.mp called with old | rfl
          · rcases mem.mp pushed with old' | rfl
            · exact waits.one_flight old old' same
            · exact absurd (waits.flight f old).1 (by rw [same]; exact lt_irrefl _)
          · rcases mem.mp pushed with old' | rfl
            · exact absurd (waits.flight e old').1 (by rw [← same]; exact lt_irrefl _)
            · rfl
        change e.2.id < h.nextApi + 1 ∧ (_ ∧ flights.find? e.2.id = none ∨
          ∃ method, flights.find? e.2.id = some (.request e.1 e.2.generator method))
        rcases cancelled e.2.id with ⟨-, deleting, f, called, history, same⟩ | ⟨flight, -⟩
        · exact absurd (gone f called same ▸ history) (kept deleting)
        · rw [flight, SortedMap.find?_emplace]
          rcases mem.mp pushed with old | rfl
          · obtain ⟨below, linked⟩ := waits.flight e old
            rw [if_neg below.ne]
            exact ⟨below.trans (Nat.lt_succ_self _), linked⟩
          · rw [if_pos rfl, waits.toNumbered.free le_rfl]
            exact ⟨Nat.lt_succ_self _, .inr ⟨_, rfl⟩⟩
      · intro deleting e inside
        obtain ⟨f, deletion, type⟩ := postponeHistoryRequest_iff.mp deleting
        exact ((left e).mp inside).2 (postponeHistoryRequest_iff.mpr ⟨f, ((left f).mp deletion).1, type⟩)
      · intro some
        have deleting : (h.pushedState generator).postponeHistoryRequest = true := by
          cases deleting : (h.pushedState generator).postponeHistoryRequest with
          | true => rfl
          | false =>
              have some : h.entry.postponed.entries ≠ [] := same deleting ▸ some
              obtain ⟨f, deletion, type⟩ := postponeHistoryRequest_iff.mp (waits.waiting some)
              exact deleting.symm.trans (postponeHistoryRequest_iff.mpr ⟨f, mem.mpr (.inl deletion), type⟩)
        obtain ⟨f, deletion, type⟩ := postponeHistoryRequest_iff.mp deleting
        exact postponeHistoryRequest_iff.mpr ⟨f, (left f).mpr ⟨deletion, fun _ => by rw [type]; nofun⟩, type⟩

end Waits

/-- The request that is finished is not sent any more, whether it was being answered or not. -/
theorem Linked.finishSentRequest {h : Histories} {free : Option Nat} (linked : Linked h free) (id : Nat) :
    Waits (h.finishSentRequest id) (if free = some id then none else free) := by
  unfold Histories.finishSentRequest
  dsimp only
  have removed : Linked { h with historyByRequest := h.historyByRequest.filter (· ≠ id) } free :=
    linked.same (Aside.fields h).toSameRequests
  obtain ⟨dropped, others⟩ := removed.dropSent id
  have answered : Linked (Histories.dropSent { h with historyByRequest := h.historyByRequest.filter (· ≠ id) } id)
      (if free = some id then none else free) := by
    split
    · rename_i mine
      refine ⟨dropped.toNumbered, ?_, dropped.exclusive⟩
      intro e inside
      obtain ⟨below, flight⟩ := dropped.flight e inside
      rcases flight with ⟨mine', -⟩ | flight
      · exact absurd (Option.some.inj (mine'.symm.trans mine)) (others e inside)
      · exact ⟨below, .inr flight⟩
    · exact dropped
  exact (answered.resendPostponed.same (requestEntryAgain_aside _).toSameRequests).same
    (checkEmptyState_aside _).toSameRequests

namespace Waits

variable {h : Histories} {free : Option Nat}

theorem weaken (waits : Waits h none) : Waits h free := by
  refine ⟨⟨waits.toNumbered, ?_, waits.exclusive⟩, waits.waiting⟩
  intro e inside
  obtain ⟨below, ⟨answered, -⟩ | flight⟩ := waits.flight e inside
  · cases answered
  · exact ⟨below, .inr flight⟩

theorem finish {id : Nat} (waits : Waits h (some id)) : Waits (h.finish id) none := by
  rcases finish_cases h id with ⟨same, unknown⟩ | ⟨s, -, result⟩
  · rw [same]
    refine ⟨⟨waits.toNumbered, ?_, waits.exclusive⟩, waits.waiting⟩
    rw [entry, unknown]
    intro e member
    cases member
  · rw [result]
    have finished := waits.toLinked.finishSentRequest id
    rwa [if_pos rfl] at finished

theorem cancelRequest (waits : Waits h free) (id : Nat) : Waits (h.cancelRequest id) free := by
  rcases cancelRequest_cases h id with ⟨ids, result⟩ | ⟨s, ids, known, result⟩
  · rw [result]
    exact waits.same (Aside.fields h).toSameRequests
  · have same := entry_of_some known
    have flight := waits.flight
    have exclusive := waits.exclusive
    rw [same] at flight exclusive
    rw [result]
    have erased : Linked { h with historyByRequest := ids, state := some { s with postponed := s.postponed.erase id } }
        free := ⟨waits.toNumbered.erased known ids id, flight, exclusive⟩
    have finished := erased.finishSentRequest id
    split at finished
    · exact finished.weaken
    · exact finished

theorem addChatUser (waits : Waits h free) (till : MsgId) (justClear revoke : Bool) :
    Waits (h.addChatUser till justClear revoke) free := by
  refine ⟨⟨waits.toNumbered.addChatUser till justClear revoke, ?_, waits.exclusive⟩, waits.waiting⟩
  intro e inside
  obtain ⟨below, flight⟩ := waits.flight e inside
  change e.2.id < h.nextApi + 1 ∧
    (_ ∧ (h.flights.emplace h.nextApi (.addSelf till justClear revoke)).find? e.2.id = none ∨
      ∃ method, (h.flights.emplace h.nextApi (.addSelf till justClear revoke)).find? e.2.id =
        some (.request e.1 e.2.generator method))
  rw [SortedMap.find?_emplace, if_neg below.ne]
  exact ⟨below.trans (Nat.lt_succ_self _), flight⟩

theorem move {h' : Histories} (move : Move h h') (waits : Waits h free) : Waits h' free := by
  cases move with
  | aside aside => exact waits.same aside.toSameRequests
  | change change =>
      cases change.requesting with
      | same same => exact waits.same same
      | sent generator same => exact (waits.same same).sendRequest generator
      | startGroup id =>
          have sent := waits.sendRequest (.groupAround id)
          exact ⟨⟨waits.toNumbered.startGroup id, sent.flight, sent.exclusive⟩, sent.waiting⟩
      | cancelGroup asked => exact waits.cancelRequest _
  | letGo known => exact waits.same (.of_state known rfl rfl rfl rfl rfl rfl)
  | cancelRequest id => exact waits.cancelRequest id
  | addChatUser till justClear revoke => exact waits.addChatUser till justClear revoke

theorem moves {h' : Histories} (moves : Moves h h') (waits : Waits h free) : Waits h' free :=
  moves.preserve Waits.move waits

/-- The request whose answer has come is the one that is being answered. -/
theorem answered (waits : Waits h none) {api id : Nat} {generator : Generator} {method : Method}
    (flight : h.flights.find? api = some (.request id generator method)) : Waits (h.cancelApi api) (some id) := by
  refine ⟨⟨waits.toNumbered.cancelApi api, ?_, waits.exclusive⟩, waits.waiting⟩
  intro e inside
  obtain ⟨below, ⟨answered, -⟩ | ⟨method', flight'⟩⟩ := waits.flight e inside
  · cases answered
  refine ⟨below, ?_⟩
  change _ ∧ (h.flights.erase api).find? e.2.id = none ∨
    ∃ method, (h.flights.erase api).find? e.2.id = some (.request e.1 e.2.generator method)
  rw [SortedMap.find?_erase]
  split
  · rename_i mine
    rw [mine, flight] at flight'
    injection Option.some.inj flight' with key
    exact .inl ⟨congrArg some key, rfl⟩
  · exact .inr ⟨method', flight'⟩

theorem prepare (waits : Waits h free) (generator : Generator) (method : Method) (a : Answer) :
    Waits (h.prepare generator method a) free := by
  by_cases read : generator.type = .readInbox
  · cases generator with
    | readInbox tillId =>
        have fed : Waits (if a.done then h.feed a.before else h) free := by
          split
          · exact waits.moves (feed_moves h a.before)
          · exact waits
        exact (fed.same (readAnswered_same _ tillId)).moves (sendReadRequests_changes _).moves
    | _ => cases read
  · exact waits.moves (prepare_moves h read method a)

end Waits

/-! ## Runs -/

/-- The event is not an answer to the deletion of a whole channel. -/
def LeavesChannel (h : Histories) : Event → Prop
  | .answer api _ => ∀ id generator, h.flights.find? api ≠ some (.request id generator .deleteChannel)
  | _ => True

theorem leavesChannel_of {h : Histories} {api : Nat} {a : Answer} (id : Nat) (generator : Generator) (method : Method)
    (flight : h.flights.find? api = some (.request id generator method)) (other : method ≠ .deleteChannel) :
    h.LeavesChannel (.answer api a) := by
  intro id' generator' channel
  rw [flight] at channel
  injection Option.some.inj channel with _ _ same
  exact other same

theorem waits_step {h : Histories} {e : Event} (waits : Waits h none) (leaves : h.LeavesChannel e) :
    Waits (h.step e) none := by
  cases e with
  | answer api a =>
      change Waits (h.answer api a) none
      unfold answer
      cases flight : h.flights.find? api with
      | none => exact waits
      | some handler =>
          cases handler with
          | addSelf till justClear revoke =>
              have start : Waits (h.cancelApi api) none := by
                refine ⟨⟨waits.toNumbered.cancelApi api, ?_, waits.exclusive⟩, waits.waiting⟩
                intro e inside
                obtain ⟨below, ⟨answered, -⟩ | ⟨method, flight'⟩⟩ := waits.flight e inside
                · cases answered
                refine ⟨below, .inr ⟨method, ?_⟩⟩
                change (h.flights.erase api).find? e.2.id = _
                rw [SortedMap.find?_erase, if_neg, flight']
                intro mine
                rw [mine, flight] at flight'
                cases flight'
              dsimp only
              split
              · exact (start.moves (feed_moves _ a.before)).sendRequest _
              · exact start
          | request id generator method =>
              have finished : finishes generator method = true := by
                cases generator with
                | deleteAllMessages till justClear revoke =>
                    apply decide_eq_true
                    intro channel
                    exact leaves id _ (channel ▸ flight)
                | _ => rfl
              dsimp only
              rw [handle_eq, if_pos finished]
              have prepared := (waits.answered flight).prepare generator method a
              exact prepared.finish.moves (feed_moves _ _)
  | _ => exact waits.moves (step_moves nofun)

theorem waits_initial (peer : Peer) : Waits { peer } none :=
  ⟨⟨⟨nofun, nofun, nofun, nofun⟩, nofun, nofun⟩, fun some => absurd rfl some⟩

/-- Deletions exclude history requests, and nothing is left when nothing is in flight, as long as no
    deletion of a whole channel is answered. -/
theorem run_unblocked (peer : Peer) (events : List Event) (every : EveryStep LeavesChannel { peer } events) :
    let h := ({ peer } : Histories).run events
    (∀ e ∈ h.entry.sent.entries, ∀ f ∈ h.entry.sent.entries, ¬(e.2.type = .delete ∧ f.2.type = .history)) ∧
      ((∀ api id generator method, h.flights.find? api ≠ some (.request id generator method)) →
        h.entry.sent.entries = [] ∧ h.entry.postponed.entries = []) := by
  intro h
  have waits : Waits h none := every.preserve (P := (Waits · none)) waits_step (waits_initial peer)
  refine ⟨?_, ?_⟩
  · rintro e deletion f history ⟨delete, type⟩
    exact waits.exclusive (postponeHistoryRequest_iff.mpr ⟨e, deletion, delete⟩) f history type
  · intro answered
    have sent : h.entry.sent.entries = [] := by
      apply List.eq_nil_iff_forall_not_mem.mpr
      intro e inside
      obtain ⟨-, ⟨answered', -⟩ | ⟨method, flight⟩⟩ := waits.flight e inside
      · cases answered'
      · exact answered _ _ _ _ flight
    refine ⟨sent, ?_⟩
    by_contra some
    obtain ⟨e, inside, -⟩ := postponeHistoryRequest_iff.mp (waits.waiting some)
    rw [sent] at inside
    cases inside

theorem run_unblocked_recalled :
    let h := ({ peer := ⟨.chat, true, false⟩ } : Histories).run
      [.call (.history .requestFakeChatListMessage), .call (.deleteMessages [7] true), .answer 2 { done := true },
        .answer 3 { done := true }]
    (∀ e ∈ h.entry.sent.entries, ∀ f ∈ h.entry.sent.entries, ¬(e.2.type = .delete ∧ f.2.type = .history)) ∧
      ((∀ api id generator method, h.flights.find? api ≠ some (.request id generator method)) →
        h.entry.sent.entries = [] ∧ h.entry.postponed.entries = []) :=
  run_unblocked _ _ ⟨trivial, trivial,
    leavesChannel_of 2 (.deleteMessages [7] true) (.messagesDeleteMessages true [7]) rfl nofun,
    leavesChannel_of 1 .fakeChatListMessage (.getHistory 0 0 2) rfl nofun, trivial⟩

/-- A channel is deleted and the answer comes: the deletion stays, and the history request waits for it. -/
theorem deleteChannel_blocks :
    let h := ({ peer := ⟨.channel, true, true⟩ } : Histories).run
      [.call (.deleteAllMessages 9 false true), .call (.history .requestFakeChatListMessage), .answer 1 { done := true }]
    h.flights.entries = [] ∧ h.entry.sent.entries ≠ [] ∧ h.entry.postponed.entries ≠ [] := by
  decide +kernel

end Histories

end IMeDesktop.Data
