import IMeDesktop.Data.HistoriesEntries

/-! # Fresh entries of the dialogs list

As long as the last deletion or read position is finished with no request for the entry in flight, at
most one request for the entry is in flight, and one that was overtaken still finds the chat blocked,
so that its answer runs no callback.
-/

namespace IMeDesktop.Data

open Histories

namespace Histories

open Lib

/-- At most one request for the entry is in flight; if it was overtaken, the chat is blocked. -/
structure Fresh (h : Histories) : Prop where
  single : h.entryRequests.length ≤ 1
  asked : h.entryRequests ≠ [] → h.dialogRequests.isSome = true
  overtaken : ∀ r ∈ h.entryRequests, r.overtaken = true → h.blocked = true
  ran : ∀ p ∈ h.ran, p.2 = true

theorem Fresh.kept {h h' : Histories} (fresh : Fresh h) (kept : EntriesKept h h') : Fresh h' := by
  refine ⟨kept.length ▸ fresh.single, ?_, ?_, kept.ran ▸ fresh.ran⟩
  · intro some
    rw [kept.asked]
    apply fresh.asked
    intro none
    exact some (List.eq_nil_of_length_eq_zero (by rw [kept.length, none, List.length_nil]))
  · intro r inside overtaken
    rcases kept.overtaken r inside overtaken with blocked | inside
    · exact blocked
    · exact kept.blocked (fresh.overtaken r inside overtaken)

theorem Fresh.of_none {h h' : Histories} (fresh : Fresh h) (none : h'.entryRequests = []) (ran : h'.ran = h.ran) :
    Fresh h' := by
  refine ⟨by rw [none]; exact Nat.zero_le _, fun some => absurd none some, ?_, ran ▸ fresh.ran⟩
  rw [none]
  nofun

theorem Fresh.finished {h h' : Histories} {id : Nat} (fresh : Fresh h) (finished : EntriesFinished h id h')
    (allowed : h.lastBlocking id = true → h.entryRequests = []) : Fresh h' := by
  cases last : h.lastBlocking id with
  | true => exact fresh.of_none (finished.entryRequests.trans (allowed last)) finished.ran
  | false =>
      refine ⟨finished.entryRequests ▸ fresh.single, ?_, ?_, finished.ran ▸ fresh.ran⟩
      · rw [finished.entryRequests, finished.dialogRequests last]
        exact fresh.asked
      · intro r inside overtaken
        have before := fresh.overtaken r (finished.entryRequests ▸ inside) overtaken
        rw [lastBlocking, before, ← finished.blocked] at last
        simpa using last

/-! ## Steps -/

/-- What an event can do here: the last request that blocks the chat is finished with no request for
    the entry in flight, and entries come from answers only. -/
def KeepsFresh (h : Histories) : Event → Prop
  | .answer api a => ∀ id generator method, h.flights.find? api = some (.request id generator method) →
      finishes generator method = true →
      ((h.cancelApi api).prepare generator method a).lastBlocking id = true → h.entryRequests = []
  | .cancelRequest id => h.lastBlocking id = true → h.entryRequests = []
  | .applyDialog .. => False
  | _ => True

theorem Asked.cancelRequest {h : Histories} (asked : Asked h [] False) (id : Nat) :
    Asked (h.cancelRequest id) [] False ∧
      (Fresh h → (h.lastBlocking id = true → h.entryRequests = []) → Fresh (h.cancelRequest id)) := by
  rcases cancelRequest_cases h id with ⟨ids, result⟩ | ⟨s, ids, known, result⟩
  · rw [result]
    obtain ⟨same, kept⟩ := @Asked.aside h { h with historyByRequest := ids } _ _ asked (Aside.fields h).toSameRequests
      ⟨rfl, rfl, rfl, rfl, rfl, rfl, fun _ => .inl, rfl⟩
    exact ⟨same, fun fresh _ => fresh.kept kept⟩
  · have erased := asked.toNumbered.erased known ids id
    have state := entry_of_some known
    rw [result]
    have same : SameEntries h { h with historyByRequest := ids, state := some { s with postponed := s.postponed.erase id } } :=
      ⟨rfl, rfl, rfl, rfl, rfl, rfl, fun _ => .inl, by rw [state]; rfl⟩
    have blocked : blocked { h with historyByRequest := ids, state := some { s with postponed := s.postponed.erase id } } =
        h.blocked := by
      rw [Histories.blocked, Histories.blocked, state]
      rfl
    have last : lastBlocking { h with historyByRequest := ids, state := some { s with postponed := s.postponed.erase id } } id =
        h.lastBlocking id := by
      rw [lastBlocking, lastBlocking, blocked, state]
      rfl
    obtain ⟨finished, entries⟩ := (asked.same erased same blocked).finishSentRequest id
    exact ⟨finished, fun fresh allowed => (fresh.kept (same.kept blocked)).finished entries (by rwa [last])⟩

theorem Asked.finish {h : Histories} {held : List Callback} {late : Prop} (asked : Asked h held late) (id : Nat) :
    Asked (h.finish id) held late ∧
      (Fresh h → (h.lastBlocking id = true → h.entryRequests = []) → Fresh (h.finish id)) := by
  rcases finish_cases h id with ⟨same, -⟩ | ⟨s, -, result⟩
  · rw [same]
    exact ⟨asked, fun fresh _ => fresh⟩
  · rw [result]
    obtain ⟨finished, entries⟩ := asked.finishSentRequest id
    exact ⟨finished, fun fresh allowed => fresh.finished entries allowed⟩

theorem Asked.answer {h : Histories} (asked : Asked h [] False) (api : Nat) (a : Answer) :
    Asked (h.answer api a) [] False ∧ (Fresh h → h.KeepsFresh (.answer api a) → Fresh (h.answer api a)) := by
  unfold Histories.answer
  cases flight : h.flights.find? api with
  | none => exact ⟨asked, fun fresh _ => fresh⟩
  | some handler =>
      have entries : SameEntries h (h.cancelApi api) := ⟨rfl, rfl, rfl, rfl, rfl, rfl, fun _ => .inl, rfl⟩
      have start := asked.same (asked.toNumbered.cancelApi api) entries rfl
      have kept : EntriesKept h (h.cancelApi api) := entries.kept rfl
      cases handler with
      | addSelf till justClear revoke =>
          dsimp only
          split
          · obtain ⟨fed, kept'⟩ := start.feed a.before
            refine ⟨fed.sendRequest _, fun fresh _ => ?_⟩
            exact ((fresh.kept kept).kept kept').kept (sendRequest_kept fed.toNumbered _)
          · exact ⟨start, fun fresh _ => fresh.kept kept⟩
      | request id generator method =>
          dsimp only
          rw [handle_eq]
          obtain ⟨prepared, kept'⟩ := start.prepare generator method a
          have fresh' := fun fresh : Fresh h => (fresh.kept kept).kept kept'
          split
          · rename_i finishes
            obtain ⟨finished, fresh''⟩ := prepared.finish id
            obtain ⟨fed, kept''⟩ := finished.feed (afterwards generator a)
            refine ⟨fed, fun fresh allowed => (fresh'' (fresh' fresh) ?_).kept kept''⟩
            intro last
            have none := allowed id generator method flight finishes last
            exact List.eq_nil_of_length_eq_zero (by rw [(kept.trans kept').length, none, List.length_nil])
          · exact ⟨prepared, fun fresh _ => fresh' fresh⟩

theorem sendDialogRequests_cases (h : Histories) :
    h.dialogRequestsPending = none ∧ h.sendDialogRequests = { h with posted := false } ∨
      ∃ callbacks, h.dialogRequestsPending = some callbacks ∧
        (h.blocked = true ∧ h.sendDialogRequests =
            { h with posted := false, dialogRequests := h.dialogRequests.orElse fun _ => some callbacks
                     dialogRequestsPending := none, state := some { h.entry with postponedRequestEntry := true } } ∨
          h.blocked = false ∧ h.sendDialogRequests =
            { h with posted := false, dialogRequests := h.dialogRequests.orElse fun _ => some callbacks
                     dialogRequestsPending := none, entryRequests := h.entryRequests ++ [⟨h.nextApi, false⟩]
                     nextApi := h.nextApi + 1 }) := by
  unfold sendDialogRequests
  dsimp only
  split
  · rename_i none
    exact .inl ⟨none, rfl⟩
  · rename_i callbacks pending
    refine .inr ⟨callbacks, pending, ?_⟩
    split
    · rename_i blocked
      exact .inl ⟨blocked, rfl⟩
    · rename_i unblocked
      exact .inr ⟨Bool.eq_false_iff.mpr unblocked, rfl⟩

theorem Asked.sendDialogRequests {h : Histories} (asked : Asked h [] False) :
    Asked h.sendDialogRequests [] False ∧ (Fresh h → Fresh h.sendDialogRequests) := by
  have numbered := asked.toNumbered.same (sendDialogRequests_aside h).toSameRequests
  have flag := asked.flag
  have kept := asked.kept
  rcases sendDialogRequests_cases h with ⟨pending, result⟩ | ⟨callbacks, pending, sent⟩
  · rw [result] at numbered ⊢
    refine ⟨⟨numbered, asked.flag, asked.apart, asked.answered, ?_, asked.kept, asked.unbroken⟩, ?_⟩
    · exact fun some => absurd (pending ▸ some) nofun
    · exact fun fresh => ⟨fresh.single, fresh.asked, fresh.overtaken, fresh.ran⟩
  · have requests : h.dialogRequests = none := by
      rcases asked.apart with none | none
      · exact none
      · rw [pending] at none
        cases none
    have none (fresh : Fresh h) : h.entryRequests = [] := by
      by_contra some
      have asked := fresh.asked some
      rw [requests] at asked
      cases asked
    have moved : (h.dialogRequests.orElse fun _ => some callbacks) = some callbacks := by
      rw [requests]
      rfl
    rw [requests] at flag kept
    rw [pending] at kept
    rw [moved] at sent
    rcases sent with ⟨blocked, result⟩ | ⟨unblocked, result⟩
    · rw [result] at numbered ⊢
      refine ⟨⟨numbered, blocked.symm, .inr rfl, fun _ => .inl blocked, nofun, ?_, asked.unbroken⟩, ?_⟩
      · simpa using kept
      · exact fun fresh => fresh.of_none (none fresh) rfl
    · rw [result] at numbered ⊢
      refine ⟨⟨numbered, flag.trans unblocked.symm, .inr rfl, fun _ => .inr (.inl (by simp)), nofun, ?_,
        asked.unbroken⟩, ?_⟩
      · simpa using kept
      · intro fresh
        refine ⟨?_, fun _ => rfl, ?_, fresh.ran⟩
        · dsimp only
          rw [none fresh]
          exact le_rfl
        · intro r inside overtaken
          dsimp only at inside
          rw [none fresh, List.nil_append, List.mem_singleton] at inside
          rw [inside] at overtaken
          cases overtaken

/-- The answer of a request that was overtaken finds the entry postponed and runs nothing. -/
theorem Fresh.answerEntry {h : Histories} (fresh : Fresh h) (asked : Asked h [] False) {request : EntryRequest}
    (inside : request ∈ h.entryRequests) (e : Entry) : Fresh (h.answerEntry request e) := by
  have applied := (asked.answerEntry request e).2
  have dropped : (h.dropEntryRequest request.id).entryRequests = [] := by
    have only : h.entryRequests = [request] := by
      cases all : h.entryRequests with
      | nil =>
          rw [all] at inside
          cases inside
      | cons first rest =>
          have single := fresh.single
          rw [all] at single inside
          have none : rest = [] := List.eq_nil_of_length_eq_zero (Nat.le_zero.mp (Nat.le_of_succ_le_succ single))
          rw [none] at inside ⊢
          rw [List.mem_singleton.mp inside]
    rw [dropEntryRequest, only]
    simp
  have none : (h.answerEntry request e).entryRequests = [] :=
    List.eq_nil_of_length_eq_zero (by rw [applied.length, dropped, List.length_nil])
  refine ⟨by rw [none]; exact Nat.zero_le _, fun some => absurd none some, by rw [none]; nofun, ?_⟩
  intro p ran
  rcases applied.ran p ran with old | ⟨new, down⟩
  · exact fresh.ran p old
  · cases late : request.overtaken with
    | false => rw [new, late]; rfl
    | true =>
        have blocked := fresh.overtaken request inside late
        have up := asked.flag
        rw [fresh.asked (List.ne_nil_of_mem inside), blocked] at up
        exact absurd (up.symm.trans down) nofun

theorem asked_step {h : Histories} (asked : Asked h [] False) (e : Event) :
    Asked (h.step e) [] False ∧ (Fresh h → h.KeepsFresh e → Fresh (h.step e)) := by
  have changes {h' : Histories} (changes : Changes h h') : Asked h' [] False ∧ (Fresh h → h.KeepsFresh e → Fresh h') := by
    obtain ⟨done, kept⟩ := asked.changes changes
    exact ⟨done, fun fresh _ => fresh.kept kept⟩
  have aside {h' : Histories} (requests : SameRequests h h') (same : SameEntries h h') :
      Asked h' [] False ∧ (Fresh h → h.KeepsFresh e → Fresh h') := by
    obtain ⟨done, kept⟩ := asked.aside requests same
    exact ⟨done, fun fresh _ => fresh.kept kept⟩
  cases e with
  | call c => exact changes (call_changes h c)
  | cancelRequest id => exact asked.cancelRequest id
  | elapse ms => exact aside (Aside.fields h).toSameRequests ⟨rfl, rfl, rfl, rfl, rfl, rfl, fun _ => .inl, rfl⟩
  | otherRequest =>
      exact aside ⟨rfl, rfl, rfl, le_rfl, Nat.le_succ _, .inl rfl⟩ ⟨rfl, rfl, rfl, rfl, rfl, rfl, fun _ => .inl, rfl⟩
  | peerChanged amCreator canDelete =>
      exact aside (Aside.fields h).toSameRequests ⟨rfl, rfl, rfl, rfl, rfl, rfl, fun _ => .inl, rfl⟩
  | sendReadRequests => exact changes (sendReadRequests_changes h)
  | sendDialogRequests =>
      have ⟨done, fresh⟩ := asked.sendDialogRequests
      exact ⟨done, fun before _ => fresh before⟩
  | answer api a => exact asked.answer api a
  | entryAnswer id e =>
      unfold step
      dsimp only
      split
      · rename_i request found
        exact ⟨(asked.answerEntry request e).1, fun fresh _ => fresh.answerEntry asked (List.mem_of_find?_eq_some found) e⟩
      · exact ⟨asked, fun fresh _ => fresh⟩
  | applyDialog e d => exact ⟨(asked.applyDialog false e d).1, fun _ => False.elim⟩

theorem asked_initial (peer : Peer) : Asked { peer } [] False :=
  ⟨⟨nofun, nofun, nofun, nofun⟩, rfl, .inl rfl, nofun, nofun, .refl _, nofun⟩

/-! ## Runs -/

/-- Callbacks are run for fresh entries only, none is lost or run twice, and the two maps are disjoint. -/
theorem run_entries_fresh (peer : Peer) (events : List Event) (every : EveryStep KeepsFresh { peer } events) :
    let h := ({ peer } : Histories).run events
    (∀ p ∈ h.ran, p.2 = true) ∧
      (h.ran.map Prod.fst ++ h.dialogRequests.getD [] ++ h.dialogRequestsPending.getD []).Perm (List.range h.registered) ∧
      (h.dialogRequests = none ∨ h.dialogRequestsPending = none) ∧
      (h.dialogRequests.isSome = true → h.entry.postponedRequestEntry = true ∨ h.entryRequests ≠ []) ∧
      (h.dialogRequestsPending.isSome = true → h.posted = true) ∧
      ∀ a ∈ h.broken, a ≠ .entryLost ∧ a ≠ .entryPending := by
  intro h
  have ⟨asked, fresh⟩ : Asked h [] False ∧ Fresh h := by
    refine every.preserve (P := fun h => Asked h [] False ∧ Fresh h) ?_ ?_
    · rintro h e ⟨asked, fresh⟩ allowed
      have ⟨asked', fresh'⟩ := asked_step asked e
      exact ⟨asked', fresh' fresh allowed⟩
    · exact ⟨asked_initial peer, ⟨Nat.zero_le _, fun some => absurd rfl some, nofun, nofun⟩⟩
  refine ⟨fresh.ran, by simpa using asked.kept, asked.apart, ?_, asked.posted, ?_⟩
  · intro some
    rcases asked.answered some with blocked | requests | late
    · exact .inl (by rw [asked.flag, some, blocked]; rfl)
    · exact .inr requests
    · exact late.elim
  · intro a broken
    rcases asked.unbroken a broken with rfl | rfl | rfl
    · exact ⟨nofun, nofun⟩
    · exact ⟨nofun, nofun⟩
    · exact ⟨nofun, nofun⟩

theorem run_entries_fresh_postponed :
    let h := ({ peer := ⟨.user, false, false⟩ } : Histories).run
      [.call (.history (.requestDialogEntry true)), .sendDialogRequests, .call (.deleteMessages [7] true),
        .entryAnswer 1 {}, .answer 2 { done := true }, .sendDialogRequests, .entryAnswer 3 {}]
    (∀ p ∈ h.ran, p.2 = true) ∧
      (h.ran.map Prod.fst ++ h.dialogRequests.getD [] ++ h.dialogRequestsPending.getD []).Perm (List.range h.registered) ∧
      (h.dialogRequests = none ∨ h.dialogRequestsPending = none) ∧
      (h.dialogRequests.isSome = true → h.entry.postponedRequestEntry = true ∨ h.entryRequests ≠ []) ∧
      (h.dialogRequestsPending.isSome = true → h.posted = true) ∧
      ∀ a ∈ h.broken, a ≠ .entryLost ∧ a ≠ .entryPending :=
  run_entries_fresh _ _ ⟨trivial, trivial, trivial, trivial, fun _ _ _ _ _ _ => rfl, trivial, trivial, trivial⟩

/-- A deletion is sent and finished while an entry is on its way: its answer runs the callback. -/
theorem overtaken_entry_applied :
    (({ peer := ⟨.user, false, false⟩ } : Histories).run
      [.call (.history (.requestDialogEntry true)), .sendDialogRequests, .call (.deleteMessages [7] true),
        .answer 2 { done := true }, .entryAnswer 1 {}]).ran = [(0, false)] := by
  decide +kernel

end Histories

end IMeDesktop.Data
