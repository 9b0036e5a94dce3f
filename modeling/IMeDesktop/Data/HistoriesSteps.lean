import IMeDesktop.Data.Histories

/-! # What the steps of `Histories` do

A request is postponed or sent, and a deletion that is sent calls the history requests back. Numbers
of requests only grow, so a new one is never the request of the group of the last message.
-/

namespace IMeDesktop.Data

open Histories

namespace Histories

open Lib

@[simp]
theorem entry_some (h : Histories) (s : State) : ({ h with state := some s } : Histories).entry = s := rfl

theorem entry_of_some {h : Histories} {s : State} (known : h.state = some s) : h.entry = s := by
  rw [entry, known, Option.getD_some]

/-- Entries that are resent move from `sent` to `postponed`, and their flights are cancelled. -/
theorem resend_fold (list : List (Nat × SentRequest)) :
    ∀ {h : Histories} {s : State}, h.state = some s →
      ∃ sent postponed flights,
        list.foldl resendHistoryRequest h =
          { h with state := some { s with sent := sent, postponed := postponed }, flights := flights } ∧
        (∀ e, e ∈ sent.entries ↔ e ∈ s.sent.entries ∧ ∀ f ∈ list, f.2.type = .history → f.1 ≠ e.1) ∧
        (∀ e ∈ postponed.entries, e ∈ s.postponed.entries ∨
          ∃ f ∈ list, f.2.type = .history ∧ e = (f.1, f.2.generator)) ∧
        (∀ api, flights.find? api = none ∧ (∃ f ∈ list, f.2.type = .history ∧ f.2.id = api) ∨
          flights.find? api = h.flights.find? api ∧ ∀ f ∈ list, f.2.type = .history → f.2.id ≠ api) := by
  induction list with
  | nil =>
      intro h s known
      refine ⟨s.sent, s.postponed, h.flights, ?_, by simp, by simp, by simp⟩
      rw [List.foldl_nil, ← known]
  | cons pair rest ih =>
      intro h s known
      rw [List.foldl_cons]
      by_cases history : pair.2.type = .history
      · have moved : h.resendHistoryRequest pair =
            { h with state := some { s with postponed := s.postponed.emplace pair.1 pair.2.generator
                                            sent := s.sent.erase pair.1 }
                     flights := h.flights.erase pair.2.id } := by
          simp only [resendHistoryRequest, history, ne_eq, not_true_eq_false, if_false, entry_of_some known, cancelApi]
        rw [moved]
        obtain ⟨sent, postponed, flights, result, left, later, cancelled⟩ := ih (h := { h with
          state := some { s with postponed := s.postponed.emplace pair.1 pair.2.generator, sent := s.sent.erase pair.1 }
          flights := h.flights.erase pair.2.id }) rfl
        refine ⟨sent, postponed, flights, result, ?_, ?_, ?_⟩
        · intro e
          rw [left, SortedMap.mem_erase]
          constructor
          · rintro ⟨⟨member, different⟩, others⟩
            refine ⟨member, ?_⟩
            intro f inside type
            rcases List.mem_cons.mp inside with rfl | inside
            · exact fun same => different same.symm
            · exact others f inside type
          · rintro ⟨member, others⟩
            exact ⟨⟨member, fun same => others pair List.mem_cons_self history same.symm⟩,
              fun f inside => others f (List.mem_cons_of_mem _ inside)⟩
        · intro e member
          rcases later e member with before | ⟨f, inside, type, same⟩
          · rcases SortedMap.mem_emplace.mp before with before | ⟨same, -⟩
            · exact .inl before
            · exact .inr ⟨pair, List.mem_cons_self, history, same⟩
          · exact .inr ⟨f, List.mem_cons_of_mem _ inside, type, same⟩
        · intro api
          rcases cancelled api with ⟨gone, f, inside, type, same⟩ | ⟨kept, others⟩
          · exact .inl ⟨gone, f, List.mem_cons_of_mem _ inside, type, same⟩
          · rw [SortedMap.find?_erase] at kept
            split at kept
            · rename_i mine
              exact .inl ⟨kept, pair, List.mem_cons_self, history, mine.symm⟩
            · rename_i other
              refine .inr ⟨kept, ?_⟩
              intro f inside type
              rcases List.mem_cons.mp inside with rfl | inside
              · exact fun same => other same.symm
              · exact others f inside type
      · have stays : h.resendHistoryRequest pair = h := by
          simp only [resendHistoryRequest, ne_eq, history, not_false_eq_true, if_true]
        rw [stays]
        obtain ⟨sent, postponed, flights, result, left, later, cancelled⟩ := ih known
        refine ⟨sent, postponed, flights, result, ?_, ?_, ?_⟩
        · intro e
          rw [left]
          constructor
          · rintro ⟨member, others⟩
            refine ⟨member, ?_⟩
            intro f inside type
            rcases List.mem_cons.mp inside with rfl | inside
            · exact absurd type history
            · exact others f inside type
          · rintro ⟨member, others⟩
            exact ⟨member, fun f inside => others f (List.mem_cons_of_mem _ inside)⟩
        · intro e member
          rcases later e member with before | ⟨f, inside, type, same⟩
          · exact .inl before
          · exact .inr ⟨f, List.mem_cons_of_mem _ inside, type, same⟩
        · intro api
          rcases cancelled api with ⟨gone, f, inside, type, same⟩ | ⟨kept, others⟩
          · exact .inl ⟨gone, f, List.mem_cons_of_mem _ inside, type, same⟩
          · refine .inr ⟨kept, ?_⟩
            intro f inside type
            rcases List.mem_cons.mp inside with rfl | inside
            · exact absurd type history
            · exact others f inside type

theorem postponeEntry_eq (s : State) (asked : Bool) :
    s.postponeEntry asked =
      { s with postponedRequestEntry := s.postponedRequestEntry || (s.postponeEntryRequest && asked) } := by
  obtain ⟨postponed, sent, willReadTill, sentReadTill, willReadWhen, sentReadDone, flag⟩ := s
  cases flag with
  | true => rfl
  | false =>
      unfold State.postponeEntry
      generalize State.postponeEntryRequest _ = blocked
      cases blocked <;> cases asked <;> rfl

/-- The number of the next request. -/
def nextId (h : Histories) : Nat := h.requestAutoincrement + 1

/-- What `sent` is once a request is put there, before anything is called back. -/
def pushed (h : Histories) (generator : Generator) : SortedMap Nat SentRequest :=
  h.entry.sent.emplace h.nextId ⟨generator, h.nextApi, generator.type⟩

def pushedState (h : Histories) (generator : Generator) : State := { h.entry with sent := h.pushed generator }

/-- Read positions after a request of a generator was sent. -/
def readSentWith (h : Histories) (generator : Generator) : List MsgId :=
  match generator with
  | .readInbox tillId => h.readSent ++ [tillId]
  | _ => h.readSent

theorem readSentWith_other {generator : Generator} (h : Histories) (other : generator.type ≠ .readInbox) :
    h.readSentWith generator = h.readSent := by
  cases generator with
  | readInbox => exact absurd rfl other
  | _ => rfl

theorem generate_eq (h : Histories) (id : Nat) (generator : Generator) :
    h.generate id generator =
      { h with flights := h.flights.emplace h.nextApi (.request id generator (generator.method h.peer))
               nextApi := h.nextApi + 1, readSent := h.readSentWith generator } := by
  cases generator <;> rfl

/-- The state after the request is sent and before anything is called back. -/
def pushedWith (h : Histories) (generator : Generator) : Histories :=
  { h with requestAutoincrement := h.nextId, historyByRequest := h.historyByRequest ++ [h.nextId]
           nextApi := h.nextApi + 1, readSent := h.readSentWith generator
           flights := h.flights.emplace h.nextApi (.request h.nextId generator (generator.method h.peer))
           entryRequests := if generator.type ≠ .history then h.entryRequests.map ({ · with overtaken := true })
            else h.entryRequests
           state := some { h.pushedState generator with
            postponedRequestEntry := h.entry.postponedRequestEntry ||
              ((h.pushedState generator).postponeEntryRequest && h.dialogRequests.isSome) } }

/-- All that `sendRequest` can do. -/
inductive Sending (h : Histories) (generator : Generator) : Histories → Prop
  | postponed (type : generator.type = .history) (deleting : h.entry.postponeHistoryRequest = true) :
      Sending h generator
        { h with requestAutoincrement := h.nextId, historyByRequest := h.historyByRequest ++ [h.nextId]
                 state := some { h.entry with postponed := h.entry.postponed.emplace h.nextId generator } }
  | sent {sent : SortedMap Nat SentRequest} {postponed : SortedMap Nat Generator} {flights : SortedMap Nat Handler}
      (allowed : generator.type = .history → h.entry.postponeHistoryRequest = false)
      (left : ∀ e, e ∈ sent.entries ↔ e ∈ (h.pushed generator).entries ∧
        ((h.pushedState generator).postponeHistoryRequest = true → e.2.type ≠ .history))
      (same : (h.pushedState generator).postponeHistoryRequest = false → postponed = h.entry.postponed)
      (later : ∀ e ∈ postponed.entries, e ∈ h.entry.postponed.entries ∨
        ∃ f ∈ (h.pushed generator).entries, f.2.type = .history ∧ e = (f.1, f.2.generator))
      (cancelled : ∀ api,
        flights.find? api = none ∧ (h.pushedState generator).postponeHistoryRequest = true ∧
          (∃ f ∈ (h.pushed generator).entries, f.2.type = .history ∧ f.2.id = api) ∨
        flights.find? api =
            (h.flights.emplace h.nextApi (.request h.nextId generator (generator.method h.peer))).find? api ∧
          ((h.pushedState generator).postponeHistoryRequest = true →
            ∀ f ∈ (h.pushed generator).entries, f.2.type = .history → f.2.id ≠ api)) :
      Sending h generator
        { h.pushedWith generator with
            flights := flights
            state := some { (h.pushedWith generator).entry with sent := sent, postponed := postponed } }

theorem sendRequest_cases (h : Histories) (generator : Generator) : Sending h generator (h.sendRequest generator) := by
  unfold sendRequest
  dsimp only
  split
  · rename_i blocked
    exact .postponed blocked.1 blocked.2
  · rename_i free
    have allowed : generator.type = .history → h.entry.postponeHistoryRequest = false := by
      intro type
      cases deleting : h.entry.postponeHistoryRequest with
      | false => rfl
      | true => exact absurd ⟨type, deleting⟩ free
    have now : ({ h with requestAutoincrement := h.nextId, historyByRequest := h.historyByRequest ++ [h.nextId] } :
          Histories).sendNow h.nextId generator = h.pushedWith generator := by
      unfold sendNow pushedWith
      dsimp only
      rw [postponeEntry_eq]
      cases generator <;> rfl
    have change : (h.pushedWith generator).entry.postponeHistoryRequest =
        (h.pushedState generator).postponeHistoryRequest := rfl
    unfold resendHistoryRequests
    rw [show ({ h with requestAutoincrement := h.requestAutoincrement + 1
                       historyByRequest := h.historyByRequest ++ [h.requestAutoincrement + 1] } :
          Histories).sendNow (h.requestAutoincrement + 1) generator = h.pushedWith generator from now, change]
    split
    · rename_i deleting
      obtain ⟨sent, postponed, flights, result, left, later, cancelled⟩ :=
        resend_fold (h.pushedWith generator).entry.sent.entries (h := h.pushedWith generator) rfl
      rw [result]
      refine .sent allowed ?_ (fun none => absurd deleting (by simp [none])) later ?_
      · intro e
        rw [left]
        constructor
        · rintro ⟨member, others⟩
          exact ⟨member, fun _ history => others e member history rfl⟩
        · rintro ⟨member, type⟩
          refine ⟨member, ?_⟩
          intro f inside history same
          have same : f = e := SortedMap.entry_unique _ inside member same
          exact type deleting (same ▸ history)
      · intro api
        rcases cancelled api with ⟨gone, mine⟩ | ⟨kept, others⟩
        · exact .inl ⟨gone, deleting, mine⟩
        · exact .inr ⟨kept, fun _ => others⟩
    · rename_i none
      have none := Bool.eq_false_iff.mpr none
      have result := @Sending.sent h generator (h.pushed generator) h.entry.postponed
        (h.flights.emplace h.nextApi (.request h.nextId generator (generator.method h.peer))) allowed
        (fun e => ⟨fun member => ⟨member, fun deleting => absurd deleting (by simp [none])⟩, And.left⟩) (fun _ => rfl)
        (fun e member => .inl member) (fun api => .inr ⟨rfl, fun deleting => absurd deleting (by simp [none])⟩)
      exact result

/-- What sending leaves as it is, whether the request is postponed or not. -/
structure Frame (h : Histories) (generator : Generator) (h' : Histories) : Prop where
  readSent : h'.readSent = h.readSentWith generator
  willReadTill : h'.entry.willReadTill = h.entry.willReadTill
  sentReadTill : h'.entry.sentReadTill = h.entry.sentReadTill
  inboxReadBefore : h'.inboxReadBefore = h.inboxReadBefore
  broken : h'.broken = h.broken
  erased : h'.erased = h.erased
  flights : ∀ api handler, h'.flights.find? api = some handler → h.flights.find? api = some handler ∨
    api = h.nextApi ∧ handler = .request h.nextId generator (generator.method h.peer)
  sent : ∀ e ∈ h.entry.sent.entries, e.2.type ≠ .history → e ∈ h'.entry.sent.entries

theorem sendRequest_frame (h : Histories) (generator : Generator) : Frame h generator (h.sendRequest generator) := by
  have sending := sendRequest_cases h generator
  generalize h.sendRequest generator = h' at sending ⊢
  cases sending with
  | postponed type deleting =>
      exact ⟨(readSentWith_other h (by rw [type]; nofun)).symm, rfl, rfl, rfl, rfl, rfl, fun _ _ => .inl,
        fun _ member _ => member⟩
  | sent allowed left same later cancelled =>
      refine ⟨rfl, rfl, rfl, rfl, rfl, rfl, ?_, ?_⟩
      · intro api handler flight
        rcases cancelled api with ⟨gone, -⟩ | ⟨kept, -⟩
        · exact absurd (gone.symm.trans flight) nofun
        · have flight := kept.symm.trans flight
          rw [SortedMap.find?_emplace] at flight
          split at flight
          · rename_i new
            cases old : h.flights.find? h.nextApi with
            | none =>
                rw [old, Option.getD_none] at flight
                exact .inr ⟨new, (Option.some.inj flight).symm⟩
            | some handler =>
                rw [old, Option.getD_some] at flight
                exact .inl (by rw [new, old, flight])
          · exact .inl flight
      · intro e member blocking
        exact (left e).mpr ⟨SortedMap.mem_emplace.mpr (.inl member), fun _ => blocking⟩

/-! ## Changes

What calls do is a sequence of changes. The only request that a call cancels is that of the group of
the last message. -/

inductive Change (h : Histories) : Histories → Prop
  | setInboxReadTill (upTo : MsgId) : Change h (h.setInboxReadTill upTo)
  | unreadCount (count : Option Int) : Change h { h with unreadCount := count }
  | fakeChatListRequest (asked : Bool) : Change h { h with fakeChatListRequest := asked }
  | requestDialogEntry (callback : Bool) : Change h (h.requestDialogEntry callback)
  | sendRequest (generator : Generator) (other : generator.type ≠ .readInbox) : Change h (h.sendRequest generator)
  | startGroup (id : MsgId) :
      Change h { h.sendRequest (.groupAround id) with chatListGroupRequest := some ⟨id, h.nextId⟩ }
  | cancelGroup {group : ChatListGroupRequest} (asked : h.chatListGroupRequest = some group) :
      Change h (h.cancelRequest group.requestId)
  | willReadWhen {s : State} (known : h.state = some s) (time : Nat) :
      Change h { h with state := some { s with willReadWhen := time } }
  | willReadTill {tillId : MsgId} (time : Nat) (unsent : h.entry.sentReadTill < tillId)
      (further : h.entry.willReadTill < tillId)
      (needed : isServerMsgId tillId ∧ h.inboxReadBefore.getD 1 ≤ tillId ∨ h.entry.willReadTill ≠ 0) :
      Change h { h with state := some { h.entry with willReadTill := tillId, willReadWhen := time } }
  | sendReadRequest {s : State} (known : h.state = some s) (pending : s.willReadTill ≠ 0) :
      Change h (h.sendReadRequest s)

abbrev Changes : Histories → Histories → Prop := Relation.ReflTransGen Change

/-- What one change preserves, all of them preserve. -/
theorem Changes.preserve {P : Histories → Prop} (change : ∀ {h h'}, Change h h' → P h → P h') {h h' : Histories}
    (changes : Changes h h') (start : P h) : P h' := by
  induction changes with
  | refl => exact start
  | tail _ last ih => exact change last ih

theorem Changes.foldl {α : Type} {f : Histories → α → Histories} (one : ∀ h a, Changes h (f h a)) (list : List α) :
    ∀ h, Changes h (list.foldl f h) := by
  induction list with
  | nil => exact fun h => .refl
  | cons a rest ih => exact fun h => (one h a).trans (ih _)

theorem setUnreadCount_changes (h : Histories) (loaded : Loaded) (count : Int) :
    Changes h (h.setUnreadCount loaded count) := by
  have counted : Changes h { h with unreadCount := some count } := .single (.unreadCount (some count))
  unfold setUnreadCount
  dsimp only
  split_ifs
  · exact .refl
  · exact counted.tail (.setInboxReadTill _)
  · exact counted
  · exact counted.tail (.setInboxReadTill _)
  · exact counted
  · exact counted

theorem readClientSideMessages_changes (loaded : Loaded) (n : Nat) :
    ∀ h, Changes h (h.readClientSideMessages loaded n) := by
  induction n with
  | zero => exact fun h => .refl
  | succ n ih =>
      intro h
      rw [readClientSideMessages]
      split_ifs
      · exact (h.setUnreadCount_changes loaded _).trans (ih _)
      · exact ih h

theorem sendReadRequests_changes (h : Histories) : Changes h h.sendReadRequests := by
  unfold sendReadRequests
  cases known : h.state with
  | none => exact .refl
  | some s =>
      dsimp only
      split_ifs with none due
      · exact .refl
      · exact .single (.sendReadRequest known none)
      · exact .refl

theorem sendPendingReadInbox_changes (h : Histories) : Changes h h.sendPendingReadInbox := by
  unfold sendPendingReadInbox
  cases known : h.state with
  | none => exact .refl
  | some s =>
      dsimp only
      split_ifs
      · exact (Relation.ReflTransGen.single (.willReadWhen known 0)).trans (sendReadRequests_changes _)
      · exact .refl

theorem markRead_changes (h : Histories) (loaded : Loaded) (tillId : MsgId) (still : Option Int) :
    Changes h (h.markRead loaded tillId still) := by
  cases still with
  | none => exact .refl
  | some still => exact (Relation.ReflTransGen.single (.setInboxReadTill tillId)).trans (setUnreadCount_changes ..)

/-- A read position that is further than what was sent and what will be sent. -/
structure Further (h : Histories) (tillId : MsgId) : Prop where
  unsent : h.entry.sentReadTill < tillId
  further : h.entry.willReadTill < tillId
  needed : isServerMsgId tillId ∧ h.inboxReadBefore.getD 1 ≤ tillId ∨ h.entry.willReadTill ≠ 0

theorem continueReading_changes {h : Histories} {tillId : MsgId} (further : h.Further tillId) (loaded : Loaded)
    (force : Bool) : Changes h (readInboxTillUnguarded.continueReading h loaded tillId force) := by
  have moved (time : Nat) :
      Changes h { h with state := some { h.entry with willReadTill := tillId, willReadWhen := time } } :=
    .single (.willReadTill time further.unsent further.further further.needed)
  unfold readInboxTillUnguarded.continueReading
  dsimp only
  split_ifs
  · exact .single (.setInboxReadTill tillId)
  · exact ((moved 0).trans (sendReadRequests_changes _)).trans (markRead_changes ..)
  · exact (moved _).trans (markRead_changes ..)
  · exact (moved h.entry.willReadWhen).trans (markRead_changes ..)

theorem readInboxTillUnguarded_changes (h : Histories) (loaded : Loaded) (position : ReadPosition) :
    Changes h (h.readInboxTillUnguarded loaded position.tillId position.force) := by
  obtain ⟨tillId, force, expected⟩ := position
  unfold readInboxTillUnguarded
  dsimp only
  refine (readClientSideMessages_changes loaded loaded.clientSideUnread h).trans ?_
  generalize h.readClientSideMessages loaded loaded.clientSideUnread = h
  generalize needed : (decide (isServerMsgId tillId) && decide (h.inboxReadBefore.getD 1 ≤ tillId)) = needsRequest
  have position (yes : needsRequest = true) : isServerMsgId tillId ∧ h.inboxReadBefore.getD 1 ≤ tillId := by
    simpa [yes] using needed
  split
  · exact .refl
  split
  · exact .refl
  cases known : h.state with
  | none =>
      cases needsRequest with
      | false => exact .refl
      | true =>
          have fresh : h.entry = {} := by rw [entry, known, Option.getD_none]
          have positive : 0 < tillId := (position rfl).1.1
          apply continueReading_changes
          exact ⟨by rw [fresh]; exact positive, by rw [fresh]; exact positive, .inl (position rfl)⟩
  | some s =>
      have same := entry_of_some known
      dsimp only
      split_ifs with sent will forced unneeded
      · exact .refl
      · exact sendPendingReadInbox_changes h
      · exact .refl
      · exact .refl
      · apply continueReading_changes
        refine ⟨by rw [same]; exact not_le.mp sent, by rw [same]; exact not_le.mp will, ?_⟩
        cases needsRequest with
        | true => exact .inl (position rfl)
        | false =>
            right
            rw [same]
            simpa using unneeded

theorem readInboxTill_changes (h : Histories) (loaded : Loaded) (position : ReadPosition) :
    Changes h (h.readInboxTill loaded position.tillId position.force) := by
  unfold readInboxTill
  dsimp only
  split_ifs
  · exact (readInboxTillUnguarded_changes h loaded position).trans (setUnreadCount_changes ..)
  · exact readInboxTillUnguarded_changes h loaded position

theorem inboxRead_changes (h : Histories) (loaded : Loaded) (upTo : MsgId) (still : Option Int) :
    Changes h (h.inboxRead loaded upTo still) := by
  unfold inboxRead
  dsimp only
  refine Relation.ReflTransGen.tail ?_ (.setInboxReadTill upTo)
  split
  · exact setUnreadCount_changes ..
  · exact setUnreadCount_changes ..
  · exact .single (.requestDialogEntry false)

theorem applyInboxReadUpdate_changes (h : Histories) (loaded : Loaded) (otherFolder samePts : Bool) (upTo : MsgId)
    (still : Int) : Changes h (h.applyInboxReadUpdate loaded otherFolder samePts upTo still) := by
  have asked : Changes h (if otherFolder then h.requestDialogEntry false else h) := by
    cases otherFolder with
    | true => exact .single (.requestDialogEntry false)
    | false => exact .refl
  unfold applyInboxReadUpdate
  dsimp only
  refine asked.trans ?_
  generalize (if otherFolder then h.requestDialogEntry false else h) = h
  split
  · exact inboxRead_changes ..
  · exact .refl

theorem requestGroupAround_changes (h : Histories) (id : MsgId) : Changes h (h.requestGroupAround id) := by
  unfold requestGroupAround
  dsimp only
  cases asked : h.chatListGroupRequest with
  | none => exact .single (.startGroup id)
  | some group =>
      dsimp only
      split_ifs
      · exact .refl
      · exact (Relation.ReflTransGen.single (.cancelGroup asked)).tail (.startGroup id)

theorem callHistory_changes (h : Histories) (c : HistoryCall) : Changes h (h.callHistory c) := by
  cases c with
  | requestDialogEntry callback => exact .single (.requestDialogEntry callback)
  | requestFakeChatListMessage =>
      unfold callHistory requestFakeChatListMessage
      dsimp only
      split_ifs
      · exact .refl
      · exact (Relation.ReflTransGen.single (.fakeChatListRequest true)).tail (.sendRequest _ nofun)
  | requestGroupAround id => exact requestGroupAround_changes h id

theorem call_changes (h : Histories) (c : Call) : Changes h (h.call c) := by
  cases c with
  | history c => exact callHistory_changes h c
  | readInboxTill loaded position => exact readInboxTill_changes h loaded position
  | sendPendingReadInbox => exact sendPendingReadInbox_changes h
  | deleteMessages ids revoke => exact .single (.sendRequest (.deleteMessages ids revoke) nofun)
  | deleteAllMessages till justClear revoke =>
      exact .single (.sendRequest (.deleteAllMessages till justClear revoke) nofun)
  | deleteMessagesByDates minDate maxDate revoke destroyed =>
      exact (Relation.ReflTransGen.single (.sendRequest _ nofun)).trans (Changes.foldl callHistory_changes destroyed _)
  | applyInboxReadUpdate => exact applyInboxReadUpdate_changes ..
  | setUnreadCount loaded count => exact setUnreadCount_changes h loaded count

theorem feed_changes (h : Histories) (calls : List Call) : Changes h (h.feed calls) :=
  Changes.foldl call_changes calls h

end Histories

end IMeDesktop.Data
