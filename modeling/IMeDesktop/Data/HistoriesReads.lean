import IMeDesktop.Data.HistoriesAnswers

/-! # Read positions of a chat

A position waits in `willReadTill`, is sent from there to `sentReadTill`, and is let go when its
answer is known to the chat. The chat remembers in `_inboxReadBefore` what it was read before: a
position that was let go is before it, so that no position that was sent comes again.
-/

namespace IMeDesktop.Data

open Histories

namespace Histories

open Lib

/-- The last position that was sent is remembered in the state or in the chat. -/
structure Reads (h : Histories) : Prop extends Numbered h where
  rising : h.readSent.Pairwise (· < ·)
  positive : ∀ t ∈ h.readSent, 0 < t
  will : h.entry.willReadTill = 0 ∨ 0 < h.entry.willReadTill ∧ h.entry.sentReadTill < h.entry.willReadTill ∧
    ∀ t ∈ h.readSent, t < h.entry.willReadTill
  last : h.entry.sentReadTill = 0 ∨ h.readSent.getLast? = some h.entry.sentReadTill
  before : ∀ t, h.readSent.getLast? = some t → h.entry.sentReadTill = t ∨ t < h.inboxReadBefore.getD 1
  reading : ∀ api id tillId method, h.flights.find? api = some (.request id (.readInbox tillId) method) →
    tillId ∈ h.readSent ∧ ∃ request, (id, request) ∈ h.entry.sent.entries ∧ request.id = api ∧ request.type = .readInbox
  unbroken : ∀ a ∈ h.broken, a = .entryLost ∨ a = .entryPending
  erased : ∀ s ∈ h.erased, s.isEmpty = true

namespace Reads

theorem below_last {h : Histories} (reads : Reads h) {t last : MsgId} (member : t ∈ h.readSent)
    (final : h.readSent.getLast? = some last) : t ≤ last := by
  have nonempty : h.readSent ≠ [] := List.ne_nil_of_mem member
  rw [List.getLast?_eq_some_getLast nonempty] at final
  have split := List.dropLast_append_getLast nonempty
  rw [Option.some.inj final] at split
  have rising := reads.rising
  rw [← split] at rising member
  rcases List.mem_append.mp member with inside | inside
  · exact ((List.pairwise_append.mp rising).2.2 t inside last List.mem_cons_self).le
  · exact (List.mem_singleton.mp inside).le

/-- A position at or above what the chat has read, if no less than the one sent, is new. -/
theorem fresh {h : Histories} (reads : Reads h) {tillId : MsgId} (sent : h.entry.sentReadTill < tillId)
    (known : h.inboxReadBefore.getD 1 ≤ tillId) : ∀ t ∈ h.readSent, t < tillId := by
  intro t member
  obtain ⟨last, final⟩ := Option.ne_none_iff_exists'.mp
    (mt List.getLast?_eq_none_iff.mp (List.ne_nil_of_mem member))
  apply (reads.below_last member final).trans_lt
  rcases reads.before last final with same | below
  · exact same ▸ sent
  · exact below.trans_le known

theorem aside {h h' : Histories} (reads : Reads h) (aside : Aside h h') : Reads h' where
  toNumbered := reads.toNumbered.same aside.toSameRequests
  rising := by rw [aside.readSent]; exact reads.rising
  positive := by rw [aside.readSent]; exact reads.positive
  will := by rw [aside.readSent, aside.willReadTill, aside.sentReadTill]; exact reads.will
  last := by rw [aside.readSent, aside.sentReadTill]; exact reads.last
  before := by rw [aside.readSent, aside.sentReadTill, aside.inboxReadBefore]; exact reads.before
  reading := by rw [aside.readSent, aside.sent, aside.flights]; exact reads.reading
  unbroken := by
    intro a broken
    rcases aside.broken a broken with old | new
    · exact reads.unbroken a old
    · exact new
  erased := by
    intro s erased
    rcases aside.erased s erased with old | empty
    · exact reads.erased s old
    · exact empty

theorem before_setInboxReadTill {h : Histories} (reads : Reads h) (upTo : MsgId) {t : MsgId} (member : t ∈ h.readSent)
    (below : t < h.inboxReadBefore.getD 1) : t < (h.setInboxReadTill upTo).inboxReadBefore.getD 1 := by
  have positive := reads.positive t member
  unfold setInboxReadTill
  dsimp only
  cases known : h.inboxReadBefore with
  | none =>
      rw [known, Option.getD_none] at below
      exact absurd below (not_lt.mpr positive)
  | some before =>
      rw [known, Option.getD_some] at below
      exact below.trans_le (le_max_left _ _)

theorem setInboxReadTill {h : Histories} (reads : Reads h) (upTo : MsgId) : Reads (h.setInboxReadTill upTo) where
  toNumbered := reads.toNumbered.same ⟨rfl, rfl, rfl, le_rfl, le_rfl, .inl rfl⟩
  rising := reads.rising
  positive := reads.positive
  will := reads.will
  last := reads.last
  before := by
    intro t final
    rcases reads.before t final with same | below
    · exact .inl same
    · exact .inr (reads.before_setInboxReadTill upTo (List.mem_of_getLast? final) below)
  reading := reads.reading
  unbroken := reads.unbroken
  erased := reads.erased

/-- A position that was answered is let go, since the chat remembers it. -/
theorem letGo {h : Histories} (reads : Reads h) {s : State} (known : h.state = some s) (done : Bool)
    {before : Option MsgId} (grown : ∀ t ∈ h.readSent, t < h.inboxReadBefore.getD 1 → t < before.getD 1)
    (remembered : h.readSent.getLast? = some s.sentReadTill → s.sentReadTill < before.getD 1) :
    Reads { h with state := some { s with sentReadTill := 0, sentReadDone := done }, inboxReadBefore := before } := by
  have same := entry_of_some known
  have will := reads.will
  have last := reads.last
  have reading := reads.reading
  have bounds := reads.before
  rw [same] at will last reading bounds
  refine ⟨reads.toNumbered.same (.of_state known rfl rfl rfl rfl rfl rfl), reads.rising, reads.positive, ?_, .inl rfl, ?_,
    reading, reads.unbroken, reads.erased⟩
  · rcases will with none | ⟨positive, -, above⟩
    · exact .inl none
    · exact .inr ⟨positive, positive, above⟩
  · intro t final
    right
    rcases bounds t final with mine | below
    · subst mine
      exact remembered final
    · exact grown t (List.mem_of_getLast? final) below

theorem willReadTill {h : Histories} (reads : Reads h) {tillId : MsgId} (time : Nat)
    (unsent : h.entry.sentReadTill < tillId) (further : h.entry.willReadTill < tillId)
    (needed : isServerMsgId tillId ∧ h.inboxReadBefore.getD 1 ≤ tillId ∨ h.entry.willReadTill ≠ 0) :
    Reads { h with state := some { h.entry with willReadTill := tillId, willReadWhen := time } } := by
  refine ⟨reads.toNumbered.same ⟨rfl, rfl, rfl, le_rfl, le_rfl, .inl rfl⟩, reads.rising, reads.positive, .inr ?_,
    reads.last, reads.before, reads.reading, reads.unbroken, reads.erased⟩
  rcases needed with ⟨server, known⟩ | some
  · exact ⟨server.1, unsent, reads.fresh unsent known⟩
  · rcases reads.will with none | ⟨positive, -, above⟩
    · exact absurd none some
    · exact ⟨positive.trans further, unsent, fun t member => (above t member).trans further⟩

/-! ## Sending -/

theorem sendRequest {h : Histories} (reads : Reads h) {generator : Generator} (other : generator.type ≠ .readInbox) :
    Reads (h.sendRequest generator) := by
  have frame := sendRequest_frame h generator
  have readSent := frame.readSent.trans (readSentWith_other h other)
  refine ⟨reads.toNumbered.sendRequest generator, ?_, ?_, ?_, ?_, ?_, ?_, ?_, ?_⟩
  · rw [readSent]
    exact reads.rising
  · rw [readSent]
    exact reads.positive
  · rw [readSent, frame.willReadTill, frame.sentReadTill]
    exact reads.will
  · rw [readSent, frame.sentReadTill]
    exact reads.last
  · rw [readSent, frame.sentReadTill, frame.inboxReadBefore]
    exact reads.before
  · intro api id tillId method flight
    rcases frame.flights api _ flight with old | ⟨-, new⟩
    · obtain ⟨member, request, inside, same, type⟩ := reads.reading api id tillId method old
      exact ⟨readSent ▸ member, request, frame.sent _ inside (by rw [type]; exact fun same => by cases same), same, type⟩
    · cases new
      exact absurd rfl other
  · rw [frame.broken]
    exact reads.unbroken
  · rw [frame.erased]
    exact reads.erased

/-- A position that is sent is above those that were sent before. -/
theorem sendReadRequest {h : Histories} (reads : Reads h) {s : State} (known : h.state = some s)
    (pending : s.willReadTill ≠ 0) : Reads (h.sendReadRequest s) := by
  have same := entry_of_some known
  have will := reads.will
  rw [same] at will
  obtain ⟨positive, unsent, above⟩ := will.resolve_left pending
  have passed : h.assert (s.willReadTill > s.sentReadTill) .willReadTill = h := by
    rw [assert, if_pos (decide_eq_true unsent)]
  have start := reads.toNumbered.same (readFrom_same known)
  have result : h.sendReadRequest s = (h.readFrom s).sendRequest (.readInbox s.willReadTill) := rfl
  rw [result]
  have frame := sendRequest_frame (h.readFrom s) (.readInbox s.willReadTill)
  have numbered := start.sendRequest (.readInbox s.willReadTill)
  have sending := sendRequest_cases (h.readFrom s) (.readInbox s.willReadTill)
  generalize (h.readFrom s).sendRequest (.readInbox s.willReadTill) = h' at sending frame numbered ⊢
  have readSent : h'.readSent = h.readSent ++ [s.willReadTill] := by
    rw [frame.readSent, readSentWith, readFrom, passed]
  have final : h'.readSent.getLast? = some s.willReadTill := by rw [readSent, List.getLast?_concat]
  have sentReadTill : h'.entry.sentReadTill = s.willReadTill := frame.sentReadTill
  refine ⟨numbered, ?_, ?_, .inl frame.willReadTill, ?_, ?_, ?_, ?_, ?_⟩
  · rw [readSent, List.pairwise_append]
    exact ⟨reads.rising, List.pairwise_singleton _ _, fun t member u new => List.mem_singleton.mp new ▸ above t member⟩
  · intro t member
    rw [readSent] at member
    rcases List.mem_append.mp member with old | new
    · exact reads.positive t old
    · exact List.mem_singleton.mp new ▸ positive
  · exact .inr (sentReadTill ▸ final)
  · intro t last
    rw [final] at last
    exact .inl (sentReadTill.trans (Option.some.inj last))
  · intro api id tillId method flight
    rw [readSent]
    rcases frame.flights api _ flight with old | ⟨rfl, new⟩
    · rw [readFrom, passed] at old
      obtain ⟨member, request, inside, same', type⟩ := reads.reading api id tillId method old
      refine ⟨List.mem_append_left _ member, request, frame.sent _ ?_ (by rw [type]; exact fun same => by cases same), same', type⟩
      exact (readFrom_same known).sent ▸ inside
    · cases new
      refine ⟨List.mem_append_right _ (List.mem_singleton.mpr rfl),
        ⟨.readInbox s.willReadTill, (h.readFrom s).nextApi, .readInbox⟩, ?_, rfl, rfl⟩
      cases sending with
      | postponed type deleting => cases type
      | sent allowed left => exact (left _).mpr ⟨(start.mem_pushed _).mpr (.inr rfl), fun _ => nofun⟩
  · rw [frame.broken, readFrom, passed]
    exact reads.unbroken
  · rw [frame.erased, readFrom, passed]
    exact reads.erased

/-! ## Finishing -/

theorem dropSent {h : Histories} (reads : Reads h) (id : Nat) : Reads (h.dropSent id) := by
  have numbered := reads.toNumbered.dropSent id
  rcases dropSent_cases h id with ⟨-, same⟩ | ⟨request, found, result⟩
  · rwa [same]
  · rw [result] at numbered ⊢
    refine ⟨numbered, reads.rising, reads.positive, reads.will, reads.last, reads.before, ?_, reads.unbroken,
      reads.erased⟩
    intro api other tillId method flight
    change (h.flights.erase request.id).find? api = _ at flight
    rw [SortedMap.find?_erase] at flight
    split at flight
    · cases flight
    · rename_i different
      obtain ⟨member, sent, inside, same, type⟩ := reads.reading api other tillId method flight
      refine ⟨member, sent, SortedMap.mem_erase.mpr ⟨inside, ?_⟩, same, type⟩
      intro mine
      dsimp only at mine
      subst mine
      rw [SortedMap.find?_eq_some.mpr inside] at found
      exact different (same.symm.trans (congrArg SentRequest.id (Option.some.inj found)))

theorem resendPostponed {h : Histories} (reads : Reads h) : Reads h.resendPostponed := by
  have numbered := reads.toNumbered.resendPostponed
  rcases resendPostponed_cases reads.toNumbered with ⟨same, -⟩ | ⟨-, sent, flights, nextApi, resent, result⟩
  · rwa [same]
  · rw [result] at numbered ⊢
    refine ⟨numbered, reads.rising, reads.positive, reads.will, reads.last, reads.before, ?_, reads.unbroken,
      reads.erased⟩
    intro api id tillId method flight
    rcases resent.later api _ flight with old | ⟨-, p, inside, other, new⟩
    · obtain ⟨member, request, inside, same, type⟩ := reads.reading api id tillId method old
      exact ⟨member, request, resent.kept _ inside, same, type⟩
    · injection new with _ generator
      have history := (reads.postponed p inside).2
      rw [← generator] at history
      cases history

theorem finishSentRequest {h : Histories} (reads : Reads h) (id : Nat) : Reads (h.finishSentRequest id) := by
  unfold Histories.finishSentRequest
  dsimp only
  have removed : Reads { h with historyByRequest := h.historyByRequest.filter (· ≠ id) } := reads.aside (.fields h)
  have resent := (removed.dropSent id).resendPostponed
  exact (resent.aside (requestEntryAgain_aside _)).aside (checkEmptyState_aside _)

theorem finish {h : Histories} (reads : Reads h) (id : Nat) : Reads (h.finish id) := by
  rcases finish_cases h id with ⟨same, -⟩ | ⟨s, -, result⟩
  · rwa [same]
  · rw [result]
    exact reads.finishSentRequest id

theorem cancelRequest {h : Histories} (reads : Reads h) (id : Nat) : Reads (h.cancelRequest id) := by
  rcases cancelRequest_cases h id with ⟨ids, result⟩ | ⟨s, ids, known, result⟩
  · rw [result]
    exact reads.aside (.fields h)
  · have same := entry_of_some known
    have will := reads.will
    have last := reads.last
    have before := reads.before
    have reading := reads.reading
    rw [same] at will last before reading
    rw [result]
    apply finishSentRequest
    exact ⟨reads.toNumbered.erased known ids id, reads.rising, reads.positive, will, last, before, reading, reads.unbroken,
      reads.erased⟩

theorem addChatUser {h : Histories} (reads : Reads h) (till : MsgId) (justClear revoke : Bool) :
    Reads (h.addChatUser till justClear revoke) := by
  refine ⟨reads.toNumbered.addChatUser till justClear revoke, reads.rising, reads.positive, reads.will, reads.last,
    reads.before, ?_, reads.unbroken, reads.erased⟩
  intro api id tillId method flight
  change (h.flights.emplace h.nextApi (.addSelf till justClear revoke)).find? api = _ at flight
  rw [SortedMap.find?_emplace] at flight
  split at flight
  · rw [reads.toNumbered.free le_rfl] at flight
    cases flight
  · exact reads.reading api id tillId method flight

/-! ## Runs -/

theorem move {h h' : Histories} (move : Move h h') (reads : Reads h) : Reads h' := by
  cases move with
  | aside aside => exact reads.aside aside
  | change change =>
      cases change with
      | setInboxReadTill upTo => exact reads.setInboxReadTill upTo
      | unreadCount count => exact reads.aside (.fields h)
      | fakeChatListRequest asked => exact reads.aside (.fields h)
      | requestDialogEntry callback => exact reads.aside (requestDialogEntry_aside h callback)
      | sendRequest generator other => exact reads.sendRequest other
      | startGroup id =>
          have sent := @Reads.sendRequest _ reads (.groupAround id) nofun
          exact ⟨reads.toNumbered.startGroup id, sent.rising, sent.positive, sent.will, sent.last, sent.before,
            sent.reading, sent.unbroken, sent.erased⟩
      | cancelGroup asked => exact reads.cancelRequest _
      | @willReadWhen s known time => exact reads.aside (.state known time s.sentReadDone s.postponedRequestEntry)
      | willReadTill time unsent further needed => exact reads.willReadTill time unsent further needed
      | sendReadRequest known pending => exact reads.sendReadRequest known pending
  | @letGo s known =>
      refine reads.letGo known s.sentReadDone ?_ ?_
      · exact fun t member below => reads.before_setInboxReadTill s.sentReadTill member below
      · intro final
        dsimp only
        split
        · exact (Int.lt_succ _).trans_le (le_max_right _ _)
        · exact Int.lt_succ _
  | cancelRequest id => exact reads.cancelRequest id
  | addChatUser till justClear revoke => exact reads.addChatUser till justClear revoke

theorem moves {h h' : Histories} (moves : Moves h h') (reads : Reads h) : Reads h' := moves.preserve Reads.move reads

theorem feed {h : Histories} (reads : Reads h) (calls : List Call) : Reads (h.feed calls) := reads.moves (feed_moves h calls)

theorem cancelApi {h : Histories} (reads : Reads h) (api : Nat) : Reads (h.cancelApi api) := by
  refine ⟨reads.toNumbered.cancelApi api, reads.rising, reads.positive, reads.will, reads.last, reads.before, ?_,
    reads.unbroken, reads.erased⟩
  intro other id tillId method flight
  change (h.flights.erase api).find? other = _ at flight
  rw [SortedMap.find?_erase] at flight
  split at flight
  · cases flight
  · exact reads.reading other id tillId method flight

/-- The answer to a position: it is the one in the state, or the state is past it. -/
theorem readAnswered {h : Histories} (reads : Reads h) {s : State} (known : h.state = some s) {tillId : MsgId}
    (member : tillId ∈ h.readSent) : Reads (h.readAnswered tillId) := by
  have same := entry_of_some known
  unfold Histories.readAnswered
  rw [known]
  dsimp only
  split
  · rename_i mine
    subst mine
    split
    · have done : Reads { h with state := some { s with sentReadDone := true } } :=
        reads.aside (.state known s.willReadWhen true s.postponedRequestEntry)
      exact done.aside (requestDialogEntry_aside _ false)
    · rename_i read
      refine reads.letGo known true (fun t _ below => below) (fun _ => ?_)
      have positive := reads.positive _ member
      simp only [unreadCountRefreshNeeded, Bool.or_eq_true, decide_eq_true_eq, not_or, not_lt] at read
      cases before : h.inboxReadBefore with
      | none =>
          rw [before, Option.getD_none] at read
          exact absurd read.2 (not_le.mpr (Int.lt_add_one_of_le positive.le))
      | some before' =>
          rw [before, Option.getD_some] at read
          exact Int.lt_of_add_one_le read.2
  · rename_i other
    have holds : (decide (s.sentReadTill = 0) || decide (s.sentReadTill > tillId)) = true := by
      have last := reads.last
      rw [same] at last
      rcases last with none | final
      · simp [none]
      · have above := lt_of_le_of_ne (reads.below_last member final) (Ne.symm other)
        simp [above]
    rw [holds]
    exact reads

end Reads

/-! ## Answers -/

theorem finishSentRequest_readSent {h : Histories} (numbered : Numbered h) (id : Nat) :
    (h.finishSentRequest id).readSent = h.readSent := by
  have removed : Numbered { h with historyByRequest := h.historyByRequest.filter (· ≠ id) } :=
    numbered.same (Aside.fields h).toSameRequests
  have dropped (h : Histories) : (h.dropSent id).readSent = h.readSent := by
    rcases dropSent_cases h id with ⟨-, same⟩ | ⟨request, -, result⟩
    · rw [same]
    · rw [result]
  unfold finishSentRequest
  dsimp only
  rw [(checkEmptyState_aside _).readSent, (requestEntryAgain_aside _).readSent]
  rcases resendPostponed_cases (removed.dropSent id) with ⟨same, -⟩ | ⟨-, sent, flights, nextApi, -, result⟩
  · rw [same, dropped]
  · rw [result]
    exact dropped _

theorem Change.readSent {h h' : Histories} (change : Change h h') (numbered : Numbered h) {t : MsgId}
    (member : t ∈ h.readSent) : t ∈ h'.readSent := by
  have sent (h : Histories) (generator : Generator) (member : t ∈ h.readSent) :
      t ∈ (h.sendRequest generator).readSent := by
    rw [(sendRequest_frame h generator).readSent]
    cases generator with
    | readInbox => exact List.mem_append_left _ member
    | _ => exact member
  cases change with
  | setInboxReadTill | unreadCount | fakeChatListRequest | willReadWhen | willReadTill => exact member
  | requestDialogEntry callback => exact (requestDialogEntry_aside h callback).readSent ▸ member
  | sendRequest generator => exact sent h generator member
  | startGroup id => exact sent h (.groupAround id) member
  | cancelGroup asked =>
      rcases cancelRequest_cases h _ with ⟨ids, result⟩ | ⟨s, ids, known, result⟩
      · rw [result]
        exact member
      · rw [result, finishSentRequest_readSent (numbered.erased known ids _)]
        exact member
  | @sendReadRequest s known pending =>
      refine sent (h.readFrom s) (.readInbox s.willReadTill) ?_
      unfold readFrom assert
      split
      · exact member
      · exact member

/-- What calls keep of a request that is being answered. -/
theorem feed_keeps {h : Histories} (numbered : Numbered h) (calls : List Call) {e : Nat × SentRequest}
    (inside : e ∈ h.entry.sent.entries) (blocking : e.2.type ≠ .history) :
    e ∈ (h.feed calls).entry.sent.entries ∧ ∀ t ∈ h.readSent, t ∈ (h.feed calls).readSent := by
  have kept := (feed_changes h calls).preserve
    (P := fun h' => Numbered h' ∧ e ∈ h'.entry.sent.entries ∧ ∀ t ∈ h.readSent, t ∈ h'.readSent)
    (fun change ⟨numbered, inside, read⟩ => ⟨numbered.requesting change.requesting,
      change.requesting.keeps numbered inside blocking, fun t member => change.readSent numbered (read t member)⟩)
    ⟨numbered, inside, fun _ => id⟩
  exact kept.2

namespace Reads

theorem answer {h : Histories} (reads : Reads h) (api : Nat) (a : Answer) : Reads (h.answer api a) := by
  unfold Histories.answer
  cases flight : h.flights.find? api with
  | none => exact reads
  | some handler =>
      have start := reads.cancelApi api
      cases handler with
      | addSelf till justClear revoke =>
          dsimp only
          split
          · exact (start.feed a.before).sendRequest fun same => by cases same
          · exact start
      | request id generator method =>
          dsimp only
          rw [handle_eq]
          have prepared : Reads ((h.cancelApi api).prepare generator method a) := by
            cases generator with
            | readInbox tillId =>
                obtain ⟨member, request, inside, -, type⟩ := reads.reading api id tillId method flight
                have fed : Reads (if a.done then (h.cancelApi api).feed a.before else h.cancelApi api) := by
                  split
                  · exact start.feed a.before
                  · exact start
                have kept : (id, request) ∈
                      (if a.done then (h.cancelApi api).feed a.before else h.cancelApi api).entry.sent.entries ∧
                    tillId ∈ (if a.done then (h.cancelApi api).feed a.before else h.cancelApi api).readSent := by
                  split
                  · have ⟨inside, read⟩ := feed_keeps start.toNumbered a.before inside (by rw [type]; exact fun same => by cases same)
                    exact ⟨inside, read tillId member⟩
                  · exact ⟨inside, member⟩
                unfold prepare
                dsimp only
                generalize (if a.done then (h.cancelApi api).feed a.before else h.cancelApi api) = h₁ at fed kept ⊢
                cases known : h₁.state with
                | none =>
                    rw [entry, known] at kept
                    exact absurd kept.1 List.not_mem_nil
                | some s => exact (fed.readAnswered known kept.2).moves (sendReadRequests_changes _).moves
            | _ =>
                refine start.moves (prepare_moves _ ?_ method a)
                intro same
                cases same
          split
          · exact (prepared.finish id).feed _
          · exact prepared

theorem step {h : Histories} (reads : Reads h) (e : Event) : Reads (h.step e) := by
  cases e with
  | answer api a => exact reads.answer api a
  | _ => exact reads.moves (step_moves nofun)

theorem initial (peer : Peer) : Reads { peer } :=
  ⟨⟨nofun, nofun, nofun, nofun⟩, .nil, nofun, .inl rfl, .inl rfl, nofun, nofun, nofun, nofun⟩

theorem run {h : Histories} (reads : Reads h) (events : List Event) : Reads (h.run events) := by
  induction events generalizing h with
  | nil => exact reads
  | cons e rest ih => exact ih (reads.step e)

end Reads

end Histories

end IMeDesktop.Data
