import IMeDesktop.Mtproto.SessionReceive

/-! # Ids of received messages

A session accepts each message once, although it remembers only some of the ids: the
largest `kIdsBufferSize` survive a `shrink`, and with that many ids kept nothing below the
smallest of them is accepted any more.

`clear` is not part of it, since it begins a new session.
-/

namespace IMeDesktop.Mtproto.Requests

open Lib Requests.SessionPrivate

structure ReceivedIdsManager where
  idsNeedAck : SortedMap Nat Bool := .empty

namespace ReceivedIdsManager

variable {manager : ReceivedIdsManager} {accepted : List Nat}

def min (manager : ReceivedIdsManager) : Nat := manager.idsNeedAck.entries.head?.elim 0 Prod.fst

def registerMsgId (manager : ReceivedIdsManager) (msgId : Nat) (needAck : Bool) :
    Registered × ReceivedIdsManager :=
  if manager.idsNeedAck.contains msgId then (.duplicate, manager)
  else if manager.idsNeedAck.size < kIdsBufferSize ∨ manager.min < msgId then
    (.success, { idsNeedAck := manager.idsNeedAck.emplace msgId needAck })
  else (.tooOld, manager)

def shrink (manager : ReceivedIdsManager) : ReceivedIdsManager :=
  { idsNeedAck := manager.idsNeedAck.eraseFirst (manager.idsNeedAck.size - kIdsBufferSize) }

/-- The session's ids are such a manager. -/
theorem registerMsgId_session (s : SessionPrivate) (msgId : Nat) (needAck : Bool) :
    s.registerMsgId msgId needAck =
      ((registerMsgId { idsNeedAck := s.receivedMessageIds } msgId needAck).1,
        { s with
          receivedMessageIds :=
            (registerMsgId { idsNeedAck := s.receivedMessageIds } msgId needAck).2.idsNeedAck }) := by
  unfold SessionPrivate.registerMsgId registerMsgId min
  by_cases present : s.receivedMessageIds.contains msgId = true
  · simp only [present, if_true]
  · by_cases recent : s.receivedMessageIds.size < kIdsBufferSize ∨
        s.receivedMessageIds.entries.head?.elim 0 Prod.fst < msgId
    · simp only [present, recent, if_true, Bool.false_eq_true, if_false]
    · simp only [present, recent, Bool.false_eq_true, if_false]

theorem shrink_session (s : SessionPrivate) :
    s.shrinkReceived =
      { s with receivedMessageIds := (shrink { idsNeedAck := s.receivedMessageIds }).idsNeedAck } := by
  simp only [shrinkReceived, shrink]

/-! ## Calls -/

inductive Call where
  | registerMsgId (msgId : Nat) (needAck : Bool)
  | shrink

/-- A call, with the ids accepted so far. -/
def step : ReceivedIdsManager × List Nat → Call → ReceivedIdsManager × List Nat
  | (manager, accepted), .registerMsgId msgId needAck =>
      match manager.registerMsgId msgId needAck with
      | (.success, manager) => (manager, accepted ++ [msgId])
      | (_, manager) => (manager, accepted)
  | (manager, accepted), .shrink => (manager.shrink, accepted)

def run (calls : List Call) : ReceivedIdsManager × List Nat := calls.foldl step ({}, [])

/-- An accepted id is still there, or too old to be accepted again. -/
def Remembers (manager : ReceivedIdsManager) (accepted : List Nat) : Prop :=
  ∀ id ∈ accepted, manager.idsNeedAck.contains id = true ∨
    kIdsBufferSize ≤ manager.idsNeedAck.size ∧ ∀ e ∈ manager.idsNeedAck.entries, id < e.1

theorem min_mem (full : kIdsBufferSize ≤ manager.idsNeedAck.size) :
    ∃ e ∈ manager.idsNeedAck.entries, e.1 = manager.min := by
  cases entries : manager.idsNeedAck.entries with
  | nil =>
      rw [SortedMap.size, entries] at full
      exact absurd full (by decide)
  | cons e rest => exact ⟨e, List.mem_cons_self, by rw [min, entries]; rfl⟩

theorem Remembers.new (h : Remembers manager accepted) {msgId : Nat}
    (missing : manager.idsNeedAck.contains msgId = false)
    (recent : manager.idsNeedAck.size < kIdsBufferSize ∨ manager.min < msgId) : msgId ∉ accepted := by
  intro before
  cases h msgId before with
  | inl present => simp [present] at missing
  | inr old =>
      obtain ⟨full, below⟩ := old
      obtain ⟨e, member, smallest⟩ := min_mem full
      have := below e member
      omega

theorem Remembers.register (h : Remembers manager accepted) {msgId : Nat} {needAck : Bool}
    (missing : manager.idsNeedAck.contains msgId = false)
    (recent : manager.idsNeedAck.size < kIdsBufferSize ∨ manager.min < msgId) :
    Remembers { idsNeedAck := manager.idsNeedAck.emplace msgId needAck } (accepted ++ [msgId]) := by
  have absent : manager.idsNeedAck.find? msgId = none := by simpa [SortedMap.contains] using missing
  have grown : (manager.idsNeedAck.emplace msgId needAck).size = manager.idsNeedAck.size + 1 :=
    (SortedMap.emplace_perm needAck absent).length_eq
  intro id member
  simp only [List.mem_append, List.mem_singleton] at member
  rcases member with before | rfl
  · cases h id before with
    | inl present => exact .inl (SortedMap.contains_emplace.mpr (.inl present))
    | inr old =>
        obtain ⟨full, below⟩ := old
        refine .inr ⟨by simp only; omega, ?_⟩
        intro e inside
        cases SortedMap.mem_emplace.mp inside with
        | inl earlier => exact below e earlier
        | inr added =>
            -- with a full buffer the new id is above the smallest one
            obtain ⟨rfl, -⟩ := added
            obtain ⟨first, kept, smallest⟩ := min_mem full
            have := below first kept
            simp only
            omega
  · exact .inl (SortedMap.contains_emplace.mpr (.inr rfl))

theorem entries_shrink (manager : ReceivedIdsManager) :
    manager.shrink.idsNeedAck.entries =
      manager.idsNeedAck.entries.drop (manager.idsNeedAck.size - kIdsBufferSize) :=
  SortedMap.entries_eraseFirst _ _

theorem size_shrink (manager : ReceivedIdsManager) :
    manager.shrink.idsNeedAck.size = manager.idsNeedAck.size - (manager.idsNeedAck.size - kIdsBufferSize) := by
  rw [SortedMap.size, entries_shrink, List.length_drop, ← SortedMap.size]

/-- What `shrink` removes is below everything it keeps. -/
theorem below_shrink {e : Nat × Bool} (member : e ∈ manager.idsNeedAck.entries)
    (gone : e ∉ manager.shrink.idsNeedAck.entries) :
    kIdsBufferSize < manager.idsNeedAck.size ∧ ∀ k ∈ manager.shrink.idsNeedAck.entries, e.1 < k.1 := by
  rw [entries_shrink] at gone ⊢
  have cut := List.take_append_drop (manager.idsNeedAck.size - kIdsBufferSize) manager.idsNeedAck.entries
  have sorted := manager.idsNeedAck.sorted
  rw [← cut] at member sorted
  rw [List.mem_append] at member
  rcases member with early | late
  · refine ⟨?_, fun k kept => (List.pairwise_append.mp sorted).2.2 e early k kept⟩
    by_contra few
    rw [Nat.sub_eq_zero_of_le (Nat.le_of_not_lt few), List.take_zero] at early
    cases early
  · exact absurd late gone

theorem Remembers.shrink (h : Remembers manager accepted) : Remembers manager.shrink accepted := by
  intro id before
  have size := size_shrink manager
  cases h id before with
  | inl present =>
      obtain ⟨needAck, member⟩ := SortedMap.contains_iff.mp present
      by_cases kept : (id, needAck) ∈ manager.shrink.idsNeedAck.entries
      · exact .inl (SortedMap.contains_iff.mpr ⟨needAck, kept⟩)
      · obtain ⟨many, below⟩ := below_shrink member kept
        exact .inr ⟨by omega, below⟩
  | inr old =>
      obtain ⟨full, below⟩ := old
      refine .inr ⟨by omega, fun e kept => below e ?_⟩
      rw [entries_shrink] at kept
      exact List.mem_of_mem_drop kept

/-- What a call keeps. -/
theorem remembers_step (h : Remembers manager accepted) (once : accepted.Nodup) (call : Call) :
    Remembers (step (manager, accepted) call).1 (step (manager, accepted) call).2 ∧
      (step (manager, accepted) call).2.Nodup := by
  cases call with
  | shrink => exact ⟨h.shrink, once⟩
  | registerMsgId msgId needAck =>
      simp only [step, registerMsgId]
      by_cases present : manager.idsNeedAck.contains msgId = true
      · rw [if_pos present]
        exact ⟨h, once⟩
      · rw [if_neg present]
        have missing := Bool.eq_false_iff.mpr present
        split_ifs with recent
        · refine ⟨h.register missing recent, ?_⟩
          rw [List.nodup_append]
          refine ⟨once, List.nodup_singleton msgId, ?_⟩
          intro id before other single same
          rw [List.mem_singleton] at single
          exact h.new missing recent (same.trans single ▸ before)
        · exact ⟨h, once⟩

theorem remembers_run (calls : List Call) : Remembers (run calls).1 (run calls).2 ∧ (run calls).2.Nodup := by
  have later : ∀ (calls : List Call) (manager : ReceivedIdsManager) (accepted : List Nat),
      Remembers manager accepted → accepted.Nodup →
      Remembers (calls.foldl step (manager, accepted)).1 (calls.foldl step (manager, accepted)).2 ∧
        (calls.foldl step (manager, accepted)).2.Nodup := by
    intro calls
    induction calls with
    | nil => exact fun manager accepted h once => ⟨h, once⟩
    | cons call calls ih =>
        intro manager accepted h once
        obtain ⟨after, still⟩ := remembers_step h once call
        exact ih _ _ after still
  exact later calls {} [] nofun List.nodup_nil

/-- No id is accepted twice, whatever was forgotten in between, and a `shrink` at any time keeps the largest
ids. -/
theorem registerMsgId_accepts_once (calls : List Call) :
    (run calls).2.Nodup ∧
      (let held := (run calls).1.idsNeedAck
      let kept := (run (calls ++ [.shrink])).1.idsNeedAck
      kept.size ≤ kIdsBufferSize ∧ (kept.size < kIdsBufferSize → kept = held) ∧
        (∀ e ∈ kept.entries, e ∈ held.entries) ∧
        ∀ e ∈ held.entries, e ∉ kept.entries → ∀ k ∈ kept.entries, e.1 < k.1) := by
  refine ⟨(remembers_run calls).2, ?_⟩
  have shrunk : (run (calls ++ [.shrink])).1 = (run calls).1.shrink := by
    simp only [run, List.foldl_append, List.foldl_cons, List.foldl_nil]
    rfl
  have size := size_shrink (run calls).1
  simp only [shrunk]
  refine ⟨by omega, fun few => ?_, ?_, fun e member gone => (below_shrink member gone).2⟩
  · apply SortedMap.ext
    rw [entries_shrink, Nat.sub_eq_zero_of_le (by omega), List.drop_zero]
  intro e kept
  rw [entries_shrink] at kept
  exact List.mem_of_mem_drop kept

end ReceivedIdsManager

end IMeDesktop.Mtproto.Requests
