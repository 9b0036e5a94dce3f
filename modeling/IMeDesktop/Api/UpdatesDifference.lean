import IMeDesktop.Api.Updates

/-! # Requests for differences and their retries

A waiter that says it is requesting takes every update as old and blocks new requests, so
something has to turn the flag back: an answer that is on its way, or a retry. The common state
is turned back before its retry; a channel is not, and a difference that is too long turns
nothing back. `GetState` has no handler for errors, and there is no event for one.
-/

namespace IMeDesktop.Api

open Lib Data

variable {υ : Type}

/-- `updates.state`. -/
structure MTPState where
  pts : Int
  date : Int
  qts : Int
  seq : Int
  deriving DecidableEq, Repr

/-- `updates.Difference`, with what feeding it calls. -/
inductive MTPDifference where
  | differenceEmpty (date seq : Int)
  | differenceSlice (calls : List Call) (intermediate : MTPState)
  | difference (calls : List Call) (state : MTPState)
  | differenceTooLong

/-- The constructors of `updates.ChannelDifference`. -/
inductive MTPChannelContents where
  | channelDifferenceEmpty (pts : Int)
  | channelDifferenceTooLong (dialogPts : Option Int) (calls : List Call)
  | channelDifference (pts : Int) (calls : List Call)

structure MTPChannelDifference where
  isFinal : Bool
  timeout : Int
  contents : MTPChannelContents

/-- The channel a request is for; `none` stands for the common state here and below. -/
def Request.channel? : Request → Option ChannelId
  | .getChannelDifference channel .. => some channel
  | _ => none

/-- What happens to `Updates`. An answer names the request that it answers. -/
inductive Event (υ : Type) where
  | call (c : Call)
  | applyUpdates (session : Session υ) (updates : MTPUpdates υ)
  | mtpNewSessionCreated
  | activeChats (chats : List ChannelId)
  | elapse (ms : Nat)
  | byPtsTimer
  | bySeqTimer
  | byMinChannelTimer
  | failDifferenceTimer
  | stateDone (session : Session υ) (state : MTPState)
  | differenceDone (pts date qts : Int) (session : Session υ) (result : MTPDifference)
  | differenceFail (pts date qts : Int)
  | channelDifferenceDone (channel : ChannelId) (force : Bool) (pts : Int) (difference : MTPChannelDifference)
  | channelDifferenceFail (channel : ChannelId) (force : Bool) (pts : Int)

namespace Updates

def stateDone (u : Updates υ) (session : Session υ) (state : MTPState) : Updates υ :=
  let u := u.applyState session state.pts state.date state.qts state.seq
  { u with ptsWaiter := u.ptsWaiter.setRequesting false }

def differenceDone (u : Updates υ) (session : Session υ) (result : MTPDifference) : Updates υ :=
  let u := { u with failDifferenceTimeout := 1 }
  match result with
  | .differenceEmpty date seq =>
      let u := u.applyState session u.ptsWaiter.current date u.updatesQts seq
      { u with ptsWaiter := u.ptsWaiter.setRequesting false }
  | .differenceSlice calls state =>
      let u := (u.feed calls).applyState session state.pts state.date state.qts state.seq
      ({ u with ptsWaiter := u.ptsWaiter.setRequesting false } : Updates υ).getDifference
  | .difference calls state => (u.feed calls).stateDone session state
  | .differenceTooLong => u -- only logged: not supported by the application

def differenceFail (u : Updates υ) : Updates υ := u.failDifferenceStartTimerFor none

def ptsInit (u : Updates υ) (channel : ChannelId) (pts : Int) : Updates υ := u.modifyChannel channel (·.init pts)

def channelContents (u : Updates υ) (channel : ChannelId) : MTPChannelContents → Updates υ
  | .channelDifferenceEmpty pts => u.ptsInit channel pts
  | .channelDifferenceTooLong none calls => u.feed calls
  | .channelDifferenceTooLong (some pts) calls => (u.ptsInit channel pts).feed calls
  | .channelDifference pts calls => (u.feed calls).ptsInit channel pts

def channelDifferenceDone (u : Updates υ) (channel : ChannelId) (difference : MTPChannelDifference) : Updates υ :=
  let u := { u with channelFailDifferenceTimeout := u.channelFailDifferenceTimeout.erase channel }
  let u := u.channelContents channel difference.contents
  let u := u.modifyChannel channel (·.setRequesting false)
  if !difference.isFinal then u.getChannelDifference channel .unknown
  else if channel ∈ u.activeChats then
    u.ptsWaitingForShortPoll channel
      (if difference.timeout ≠ 0 then int32 (difference.timeout * 1000) else kWaitForChannelGetDifference)
  else u

def channelDifferenceFail (u : Updates υ) (channel : ChannelId) : Updates υ :=
  u.failDifferenceStartTimerFor (some channel)

/-- Whether a timer fires now. -/
def fires (timer : Option Nat) (now : Nat) : Bool := timer.any (· ≤ now)

/-- The answer of a request takes it out of flight; what was not sent is not answered. -/
def answer (u : Updates υ) (request : Request) (handle : Updates υ → Updates υ) : Updates υ :=
  if request ∈ u.requests then handle { u with requests := u.requests.erase request } else u

def step (u : Updates υ) : Event υ → Updates υ
  | .call c => u.call c
  | .applyUpdates session updates => u.applyUpdates session updates
  | .mtpNewSessionCreated => ({ u with updatesSeq := 0 } : Updates υ).getDifference
  | .activeChats chats => { u with activeChats := chats }
  | .elapse ms => { u with now := u.now + ms }
  | .byPtsTimer =>
      if fires u.byPtsTimer u.now then ({ u with byPtsTimer := none } : Updates υ).getDifferenceByPts else u
  | .bySeqTimer => if fires u.bySeqTimer u.now then ({ u with bySeqTimer := none } : Updates υ).getDifference else u
  | .byMinChannelTimer =>
      if fires u.byMinChannelTimer u.now then ({ u with byMinChannelTimer := none } : Updates υ).getDifference else u
  | .failDifferenceTimer =>
      if fires u.failDifferenceTimer u.now then
        ({ u with failDifferenceTimer := none } : Updates υ).getDifferenceAfterFail
      else u
  | .stateDone session state => u.answer .getState (·.stateDone session state)
  | .differenceDone pts date qts session result =>
      u.answer (.getDifference pts date qts) (·.differenceDone session result)
  | .differenceFail pts date qts => u.answer (.getDifference pts date qts) differenceFail
  | .channelDifferenceDone channel force pts difference =>
      u.answer (.getChannelDifference channel force pts) (·.channelDifferenceDone channel difference)
  | .channelDifferenceFail channel force pts =>
      u.answer (.getChannelDifference channel force pts) (·.channelDifferenceFail channel)

def run (u : Updates υ) (events : List (Event υ)) : Updates υ := events.foldl step u

/-! ## What is to hold in every state -/

def requesting (u : Updates υ) : Option ChannelId → Bool
  | none => u.ptsWaiter.requesting
  | some channel => (u.channels channel).requesting

/-- When the retry is due, if one is scheduled. -/
def retryAt (u : Updates υ) : Option ChannelId → Option Nat
  | none => if u.getDifferenceTimeAfterFail ≠ 0 then some u.getDifferenceTimeAfterFail else none
  | some channel => u.whenGetDiffAfterFail.find? channel

def InFlight (u : Updates υ) (target : Option ChannelId) : Prop := ∃ r ∈ u.requests, r.channel? = target

/-- Every waiter that is requesting waits for an answer or for a retry, the timer of the retries
    fires no later than any of them is due, and every retry that came due sent a request. -/
structure Alive (u : Updates υ) : Prop where
  waited : ∀ target, u.requesting target = true → u.InFlight target ∨ (u.retryAt target).isSome
  armed : ∀ target due, u.retryAt target = some due → ∃ time, u.failDifferenceTimer = some time ∧ time ≤ due
  retried : ∀ r ∈ u.retried, r.sent = true

/-- No retry of a channel is due. -/
def NoChannelDue (u : Updates υ) : Prop := ∀ e ∈ u.whenGetDiffAfterFail.entries, u.now < e.2

instance (u : Updates υ) : Decidable u.NoChannelDue :=
  inferInstanceAs (Decidable (∀ e ∈ u.whenGetDiffAfterFail.entries, u.now < e.2))

/-- The event does not run into a difference that is too long, nor into a channel's retry. -/
def Meets (u : Updates υ) : Event υ → Prop
  | .differenceDone pts date qts _ .differenceTooLong => .getDifference pts date qts ∉ u.requests
  | .failDifferenceTimer => fires u.failDifferenceTimer u.now = true → u.NoChannelDue
  | .differenceFail pts date qts => .getDifference pts date qts ∈ u.requests → u.NoChannelDue
  | .channelDifferenceFail channel force pts => .getChannelDifference channel force pts ∈ u.requests → u.NoChannelDue
  | _ => True

def MeetsAll (u : Updates υ) : List (Event υ) → Prop
  | [] => True
  | event :: rest => u.Meets event ∧ (u.step event).MeetsAll rest

/-! ## What the handlers keep

While an answer is handled its own target is let off: nothing is on its way any more. -/

structure Kept (free : Option ChannelId → Prop) (u : Updates υ) : Prop where
  waited : ∀ target, u.requesting target = true → free target ∨ u.InFlight target ∨ (u.retryAt target).isSome
  armed : ∀ target due, u.retryAt target = some due → ∃ time, u.failDifferenceTimer = some time ∧ time ≤ due
  retried : ∀ r ∈ u.retried, r.sent = true
  timeout : 0 < u.failDifferenceTimeout
  timeouts : ∀ e ∈ u.channelFailDifferenceTimeout.entries, 0 < e.2

/-- The fields `Kept` talks about. -/
structure SameRetries (u v : Updates υ) : Prop where
  requesting : ∀ target, v.requesting target = u.requesting target
  requests : v.requests = u.requests
  retryAt : ∀ target, v.retryAt target = u.retryAt target
  timer : v.failDifferenceTimer = u.failDifferenceTimer
  retried : v.retried = u.retried
  timeout : v.failDifferenceTimeout = u.failDifferenceTimeout
  timeouts : v.channelFailDifferenceTimeout = u.channelFailDifferenceTimeout

variable {free : Option ChannelId → Prop}

theorem Kept.same {u v : Updates υ} (h : Kept free u) (same : SameRetries u v) : Kept free v where
  waited target requesting := by
    rw [same.retryAt, InFlight, same.requests]
    exact h.waited target ((same.requesting target).symm.trans requesting)
  armed target due retry := by
    rw [same.timer]
    exact h.armed target due ((same.retryAt target).symm.trans retry)
  retried := by rw [same.retried]; exact h.retried
  timeout := by rw [same.timeout]; exact h.timeout
  timeouts := by rw [same.timeouts]; exact h.timeouts

/-- Changes of the fields that `Kept` does not read. -/
theorem SameRetries.of_eq {u v : Updates υ} (waiter : v.ptsWaiter.requesting = u.ptsWaiter.requesting)
    (channels : ∀ c, (v.channels c).requesting = (u.channels c).requesting) (requests : v.requests = u.requests)
    (time : v.getDifferenceTimeAfterFail = u.getDifferenceTimeAfterFail)
    (times : v.whenGetDiffAfterFail = u.whenGetDiffAfterFail) (timer : v.failDifferenceTimer = u.failDifferenceTimer)
    (retried : v.retried = u.retried) (timeout : v.failDifferenceTimeout = u.failDifferenceTimeout)
    (timeouts : v.channelFailDifferenceTimeout = u.channelFailDifferenceTimeout) : SameRetries u v where
  requesting := by
    intro target
    cases target with
    | none => exact waiter
    | some c => exact channels c
  requests := requests
  retryAt := by
    intro target
    cases target with
    | none => simp only [Updates.retryAt, time]
    | some c => simp only [Updates.retryAt, times]
  timer := timer
  retried := retried
  timeout := timeout
  timeouts := timeouts

theorem kept_getDifference {u : Updates υ} (h : Kept free u) : Kept free u.getDifference := by
  unfold getDifference requestingDifference
  dsimp only
  split
  · exact h.same (.of_eq rfl (fun _ => rfl) rfl rfl rfl rfl rfl rfl rfl)
  · constructor
    · intro target requesting
      cases target with
      | none => exact .inr (.inl ⟨_, List.mem_append_right _ List.mem_cons_self, rfl⟩)
      | some c =>
          rcases h.waited (some c) requesting with off | ⟨r, member, same⟩ | retry
          · exact .inl off
          · exact .inr (.inl ⟨r, List.mem_append_left _ member, same⟩)
          · exact .inr (.inr retry)
    · intro target due retry
      cases target with
      | none => simp [retryAt, send] at retry
      | some c => exact h.armed (some c) due retry
    · exact h.retried
    · exact h.timeout
    · exact h.timeouts

theorem modifyChannel_requesting (u : Updates υ) (channel : ChannelId) (f : Waiter → Waiter)
    (keeps : ∀ w, (f w).requesting = w.requesting) (c : ChannelId) :
    ((u.modifyChannel channel f).channels c).requesting = (u.channels c).requesting := by
  by_cases same : c = channel
  · subst same
    simp [modifyChannel, keeps]
  · simp [modifyChannel, same]

/-- A channel's request is sent: nothing else is turned, and a retry of it may be dropped. -/
theorem kept_sendChannel {u v : Updates υ} (h : Kept free u) {channel : ChannelId} {force : Bool} {pts : Int}
    (requesting : ∀ target, target ≠ some channel → v.requesting target = u.requesting target)
    (requests : v.requests = u.requests ++ [.getChannelDifference channel force pts])
    (retryAt : ∀ target, target ≠ some channel → v.retryAt target = u.retryAt target)
    (dropped : v.retryAt (some channel) = none ∨ v.retryAt (some channel) = u.retryAt (some channel))
    (timer : v.failDifferenceTimer = u.failDifferenceTimer) (retried : v.retried = u.retried)
    (timeout : v.failDifferenceTimeout = u.failDifferenceTimeout)
    (timeouts : v.channelFailDifferenceTimeout = u.channelFailDifferenceTimeout) : Kept free v where
  waited target on := by
    by_cases mine : target = some channel
    · subst mine
      refine .inr (.inl ⟨.getChannelDifference channel force pts, ?_, rfl⟩)
      rw [requests]
      exact List.mem_append_right _ List.mem_cons_self
    · rw [requesting target mine] at on
      rcases h.waited target on with off | ⟨r, member, same⟩ | retry
      · exact .inl off
      · refine .inr (.inl ⟨r, ?_, same⟩)
        rw [requests]
        exact List.mem_append_left _ member
      · exact .inr (.inr (by rwa [retryAt target mine]))
  armed target due retry := by
    rw [timer]
    by_cases mine : target = some channel
    · subst mine
      rcases dropped with gone | same
      · simp [gone] at retry
      · exact h.armed _ due (same.symm.trans retry)
    · exact h.armed target due ((retryAt target mine).symm.trans retry)
  retried := by rw [retried]; exact h.retried
  timeout := by rw [timeout]; exact h.timeout
  timeouts := by rw [timeouts]; exact h.timeouts

theorem kept_getChannelDifference {u : Updates υ} (h : Kept free u) (channel : ChannelId)
    {source : ChannelDifferenceRequest} (other : source ≠ .afterFail) :
    Kept free (u.getChannelDifference channel source) := by
  unfold getChannelDifference
  extract_lets u₁ u₂ u₃ force
  have first : Kept free u₁ := by
    refine h.same ?_
    unfold u₁
    split_ifs <;> exact .of_eq rfl (fun _ => rfl) rfl rfl rfl rfl rfl rfl rfl
  split
  · exact first
  · have dropping : u₂ = { u₁ with whenGetDiffAfterFail := u₁.whenGetDiffAfterFail.erase channel } := by
      unfold u₂
      rw [if_pos other]
    have others : ∀ target, target ≠ some channel → u₃.requesting target = u₁.requesting target := by
      intro target different
      unfold u₃
      rw [dropping]
      cases target with
      | none => rfl
      | some c =>
          have different : c ≠ channel := fun same => different (same ▸ rfl)
          simp [requesting, modifyChannel, different]
    have times : ∀ target, u₃.retryAt target = if target = some channel then none else u₁.retryAt target := by
      intro target
      unfold u₃
      rw [dropping]
      cases target with
      | none =>
          rw [if_neg (by simp)]
          rfl
      | some c => simp [retryAt, modifyChannel, SortedMap.find?_erase]
    refine @kept_sendChannel _ _ _ _ first channel force (u₃.channels channel).current others ?_ ?_ ?_ ?_ ?_ ?_ ?_
    · unfold u₃ send
      rw [dropping]
      rfl
    · intro target different
      exact (times target).trans (if_neg different)
    · exact .inl ((times _).trans (if_pos rfl))
    all_goals
      unfold u₃
      rw [dropping]
      rfl

theorem kept_getDifferenceByPts {u : Updates υ} (h : Kept free u) : Kept free u.getDifferenceByPts := by
  have common : Kept free u.byPtsCommon.1 := by
    unfold byPtsCommon
    split_ifs
    · exact h
    · exact kept_getDifference h
    · exact h
  have each : ∀ (p : Updates υ × Nat) e, Kept free p.1 → Kept free (byPtsChannel p e).1 := by
    rintro ⟨u, wait⟩ entry before
    unfold byPtsChannel
    dsimp only
    split
    · exact before
    · exact (kept_getChannelDifference before _ (by decide)).same
        (.of_eq rfl (fun _ => rfl) rfl rfl rfl rfl rfl rfl rfl)
  have all : ∀ (entries : List (ChannelId × Nat)) (p : Updates υ × Nat), Kept free p.1 →
      Kept free (entries.foldl byPtsChannel p).1 := by
    intro entries
    induction entries with
    | nil => exact fun p before => before
    | cons entry rest ih => exact fun p before => ih _ (each p entry before)
  exact (all _ _ common).same (.of_eq rfl (fun _ => rfl) rfl rfl rfl rfl rfl rfl rfl)

theorem kept_ptsWaiterStartTimerFor {u : Updates υ} (h : Kept free u) (channel : Option ChannelId) (ms : Int) :
    Kept free (u.ptsWaiterStartTimerFor channel ms) := by
  unfold ptsWaiterStartTimerFor
  split
  · exact kept_getDifferenceByPts (h.same (.of_eq rfl (fun _ => rfl) rfl rfl rfl rfl rfl rfl rfl))
  · exact h

theorem kept_modifyChannel {u : Updates υ} (h : Kept free u) (channel : ChannelId) {f : Waiter → Waiter}
    (keeps : ∀ w, (f w).requesting = w.requesting) : Kept free (u.modifyChannel channel f) :=
  h.same (.of_eq rfl (modifyChannel_requesting u channel f keeps) rfl rfl rfl rfl rfl rfl rfl)

theorem kept_ptsWaitingForShortPoll {u : Updates υ} (h : Kept free u) (channel : ChannelId) (ms : Int) :
    Kept free (u.ptsWaitingForShortPoll channel ms) := by
  unfold ptsWaitingForShortPoll
  dsimp only
  split_ifs
  · exact kept_modifyChannel (kept_ptsWaiterStartTimerFor h _ _) channel fun _ => rfl
  · apply kept_ptsWaiterStartTimerFor
    exact kept_modifyChannel h channel fun _ => rfl
  · exact kept_modifyChannel h channel fun _ => rfl

theorem kept_call {u : Updates υ} (h : Kept free u) (c : Call) : Kept free (u.call c) := by
  cases c with
  | waiter channel changed =>
      cases channel with
      | none => exact h.same (.of_eq rfl (fun _ => rfl) rfl rfl rfl rfl rfl rfl rfl)
      | some channel =>
          unfold call waiterChanged
          exact kept_modifyChannel h channel fun _ => rfl
  | ptsWaiterStartTimerFor channel ms => exact kept_ptsWaiterStartTimerFor h channel ms
  | ptsWaitingForShortPoll channel ms => exact kept_ptsWaitingForShortPoll h channel ms
  | byMinChannelTimer =>
      unfold call
      dsimp only
      split
      · exact h
      · exact h.same (.of_eq rfl (fun _ => rfl) rfl rfl rfl rfl rfl rfl rfl)
  | getDifference => exact kept_getDifference h
  | getChannelDifference channel => exact kept_getChannelDifference h channel (by decide)

theorem kept_feed {u : Updates υ} (h : Kept free u) (calls : List Call) : Kept free (u.feed calls) := by
  induction calls generalizing u with
  | nil => exact h
  | cons c rest ih => exact ih (kept_call h c)

/-! ### Containers -/

theorem kept_releaseSaved {u : Updates υ} (h : Kept free u) (seq : Int) (fuel : Nat) :
    Kept free (releaseSaved seq fuel u).1 := by
  induction fuel generalizing u with
  | zero => exact h
  | succ fuel ih =>
      unfold releaseSaved
      split
      · exact h
      · dsimp only
        split_ifs
        · exact h.same (.of_eq rfl (fun _ => rfl) rfl rfl rfl rfl rfl rfl rfl)
        · exact ih (h.same (.of_eq rfl (fun _ => rfl) rfl rfl rfl rfl rfl rfl rfl))
        · exact h
        · exact h.same (.of_eq rfl (fun _ => rfl) rfl rfl rfl rfl rfl rfl rfl)

theorem kept_setState {u : Updates υ} (h : Kept free u) (pts date qts seq : Int) :
    Kept free (u.setState pts date qts seq).1 := by
  unfold setState
  extract_lets u₁ u₂ u₃
  have settled : Kept free u₃ := by
    refine h.same ?_
    unfold u₃ u₂ u₁
    split_ifs <;> exact .of_eq rfl (fun _ => rfl) rfl rfl rfl rfl rfl rfl rfl
  split
  · apply kept_releaseSaved
    exact settled.same (.of_eq rfl (fun _ => rfl) rfl rfl rfl rfl rfl rfl rfl)
  · exact settled

theorem kept_note {u : Updates υ} (h : Kept free u) (c : MTPUpdates υ) : Kept free (u.note c) :=
  h.same (.of_eq rfl (fun _ => rfl) rfl rfl rfl rfl rfl rfl rfl)

theorem kept_applyRange {u : Updates υ} (h : Kept free u) (session : Session υ) (c : MTPUpdates υ) (list : υ)
    (date start seq : Int) : Kept free (u.applyRange session c list date start seq).1 := by
  unfold applyRange
  split_ifs
  · exact h
  · exact h.same (.of_eq rfl (fun _ => rfl) rfl rfl rfl rfl rfl rfl rfl)
  · exact kept_setState (kept_feed (kept_note h c) _) _ _ _ _

theorem kept_applyAccepted {u : Updates υ} (h : Kept free u) (session : Session υ) (c : MTPUpdates υ) (message : υ)
    (date : Int) : Kept free (u.applyAccepted session c message date).1 := by
  have fed := kept_feed h (session.feeding message)
  unfold applyAccepted
  dsimp only
  split
  · exact kept_setState (kept_note fed c) _ _ _ _
  · exact fed

theorem kept_applyOnce {u : Updates υ} (h : Kept free u) (session : Session υ) (c : MTPUpdates υ) :
    Kept free (u.applyOnce session c).1 := by
  unfold applyOnce
  split
  · exact kept_applyRange h _ _ _ _ _ _
  · exact kept_applyRange h _ _ _ _ _ _
  · exact kept_setState (kept_feed (kept_note h _) _) _ _ _ _
  · split
    · exact kept_applyAccepted h _ _ _ _
    · exact kept_getDifference h
  · split
    · exact kept_applyAccepted h _ _ _ _
    · exact kept_getDifference h
  · exact kept_applyAccepted h _ _ _ _
  · exact kept_getDifference h

theorem kept_applyUpdates {u : Updates υ} (h : Kept free u) (session : Session υ) (c : MTPUpdates υ) :
    Kept free (u.applyUpdates session c) := by
  fun_induction applyUpdates u session c with
  | case1 u c after result =>
      have once := kept_applyOnce h session c
      rwa [result] at once
  | case2 u c after next result ih =>
      have once := kept_applyOnce h session c
      rw [result] at once
      exact ih once

theorem kept_applyState {u : Updates υ} (h : Kept free u) (session : Session υ) (pts date qts seq : Int) :
    Kept free (u.applyState session pts date qts seq) := by
  have settled := kept_setState h pts date qts seq
  unfold applyState
  split
  · rename_i result
    rwa [result] at settled
  · rename_i result
    rw [result] at settled
    exact kept_applyUpdates settled session _

/-! ### Retries -/

/-- What the loop over the channels leaves: the time to wait for the earliest of them. -/
theorem afterFail_waits (u : Updates υ) (entries : List (ChannelId × Nat)) (later : ∀ e ∈ entries, u.now < e.2)
    (wait : Nat) : ∃ rest, entries.foldl afterFailChannel (u, wait) = (u, rest) ∧
      (wait ≠ 0 → rest ≠ 0 ∧ rest ≤ wait) ∧ ∀ e ∈ entries, rest ≠ 0 ∧ u.now + rest ≤ e.2 := by
  induction entries generalizing wait with
  | nil => exact ⟨wait, rfl, fun positive => ⟨positive, le_refl _⟩, by simp⟩
  | cons e entries ih =>
      have first : u.now < e.2 := later e List.mem_cons_self
      obtain ⟨rest, loop, kept, all⟩ :=
        ih (fun f member => later f (List.mem_cons_of_mem _ member)) (sooner wait (e.2 - u.now))
      have positive : sooner wait (e.2 - u.now) ≠ 0 := by
        unfold sooner
        split <;> omega
      have le : sooner wait (e.2 - u.now) ≤ e.2 - u.now := by
        unfold sooner
        split <;> omega
      obtain ⟨nonzero, bound⟩ := kept positive
      refine ⟨rest, ?_, ?_, ?_⟩
      · rw [List.foldl_cons, ← loop]
        simp only [afterFailChannel, gt_iff_lt, first, if_true]
      · intro waiting
        refine ⟨nonzero, bound.trans ?_⟩
        unfold sooner
        rw [if_pos waiting]
        exact min_le_left _ _
      · intro f member
        rcases List.mem_cons.mp member with rfl | inside
        · exact ⟨nonzero, by omega⟩
        · exact all f inside

/-- The state in which `getDifferenceAfterFail` runs: its timer may not be set yet. -/
structure Unarmed (free : Option ChannelId → Prop) (u : Updates υ) : Prop where
  waited : ∀ target, u.requesting target = true → free target ∨ u.InFlight target ∨ (u.retryAt target).isSome
  retried : ∀ r ∈ u.retried, r.sent = true
  timeout : 0 < u.failDifferenceTimeout
  timeouts : ∀ e ∈ u.channelFailDifferenceTimeout.entries, 0 < e.2

/-- The retry of the common state is sent when it is due; else there is time to wait for it. -/
theorem unarmed_afterFailCommon {u : Updates υ} (h : Unarmed free u) :
    Unarmed free u.afterFailCommon.1 ∧ u.afterFailCommon.1.whenGetDiffAfterFail = u.whenGetDiffAfterFail ∧
      u.afterFailCommon.1.now = u.now ∧
      ∀ due, u.afterFailCommon.1.retryAt none = some due →
        u.afterFailCommon.2 ≠ 0 ∧ u.now + u.afterFailCommon.2 ≤ due := by
  unfold afterFailCommon
  split_ifs with scheduled later
  · refine ⟨h, rfl, rfl, ?_⟩
    intro due retry
    simp only [retryAt, ne_eq, scheduled, not_false_eq_true, if_true, Option.some.injEq] at retry
    dsimp only
    omega
  · -- the flag was turned back just before, so the request is sent
    unfold getDifference
    dsimp only
    rw [if_neg (by simp [requestingDifference, PtsWaiter.setRequesting])]
    refine ⟨⟨?_, ?_, h.timeout, h.timeouts⟩, rfl, rfl, ?_⟩
    · intro target on
      cases target with
      | none => exact .inr (.inl ⟨_, List.mem_append_right _ List.mem_cons_self, rfl⟩)
      | some c =>
          rcases h.waited (some c) on with off | ⟨r, member, same⟩ | retry
          · exact .inl off
          · exact .inr (.inl ⟨r, List.mem_append_left _ member, same⟩)
          · exact .inr (.inr retry)
    · intro r member
      rcases List.mem_append.mp member with before | now
      · exact h.retried r before
      · obtain rfl := List.mem_singleton.mp now
        simp [send]
    · intro due found
      simp [retryAt, retry, send] at found
  · refine ⟨h, rfl, rfl, ?_⟩
    intro due retry
    rw [retryAt, if_neg scheduled] at retry
    contradiction

theorem kept_getDifferenceAfterFail {u : Updates υ} (h : Unarmed free u) (none : u.NoChannelDue) :
    Kept free u.getDifferenceAfterFail := by
  obtain ⟨common, times, now, due⟩ := unarmed_afterFailCommon h
  obtain ⟨wait, loop, kept, all⟩ := afterFail_waits u.afterFailCommon.1 u.afterFailCommon.1.whenGetDiffAfterFail.entries
    (by rw [times, now]; exact none) u.afterFailCommon.2
  unfold getDifferenceAfterFail
  rw [Prod.mk.eta] at loop
  rw [loop]
  refine ⟨common.waited, ?_, common.retried, common.timeout, common.timeouts⟩
  intro target at_ retry
  have first : wait ≠ 0 ∧ u.now + wait ≤ at_ := by
    cases target with
    | none =>
        obtain ⟨nonzero, le⟩ := due at_ retry
        obtain ⟨positive, bound⟩ := kept nonzero
        exact ⟨positive, by omega⟩
    | some c =>
        obtain ⟨positive, le⟩ := all (c, at_) (SortedMap.find?_eq_some.mp retry)
        exact ⟨positive, by omega⟩
  exact ⟨u.now + wait, by simp [armed, first.1, now], first.2⟩

/-- A retry is scheduled, at its old time or later than now. -/
theorem whenGetDiffChanged_scheduled (u : Updates υ) (target : Option ChannelId) {ms : Int} (positive : 0 < ms)
    {changed : Bool} {times : SortedMap ChannelId Nat} {time : Nat}
    (result : whenGetDiffChanged u.now target ms u.whenGetDiffAfterFail u.getDifferenceTimeAfterFail =
      (changed, times, time)) :
    (({ u with whenGetDiffAfterFail := times, getDifferenceTimeAfterFail := time } : Updates υ).retryAt target).isSome ∧
    (∀ other, other ≠ target →
      ({ u with whenGetDiffAfterFail := times, getDifferenceTimeAfterFail := time } : Updates υ).retryAt other =
        u.retryAt other) ∧
    (u.NoChannelDue → ∀ e ∈ times.entries, u.now < e.2) ∧
    (changed = false → times = u.whenGetDiffAfterFail ∧ time = u.getDifferenceTimeAfterFail) := by
  have future : u.now < u.now + ms.toNat := by omega
  cases target with
  | none =>
      simp only [whenGetDiffChanged, not_le.mpr positive, if_false] at result
      split_ifs at result with earlier
      · obtain ⟨rfl, rfl, rfl⟩ := by simpa only [Prod.mk.injEq] using result
        have nonzero : u.now + ms.toNat ≠ 0 := by omega
        refine ⟨by simp only [retryAt, ne_eq, nonzero, not_false_eq_true, if_true, Option.isSome_some], ?_,
          fun none => none, by simp⟩
        intro other different
        cases other with
        | none => contradiction
        | some c => rfl
      · obtain ⟨rfl, rfl, rfl⟩ := by simpa only [Prod.mk.injEq] using result
        push Not at earlier
        exact ⟨by simp [retryAt, earlier.1], fun other _ => rfl, fun none => none, fun _ => ⟨rfl, rfl⟩⟩
  | some channel =>
      simp only [whenGetDiffChanged, not_le.mpr positive, if_false] at result
      split at result
      · rename_i before found
        split_ifs at result with earlier
        · obtain ⟨rfl, rfl, rfl⟩ := by simpa only [Prod.mk.injEq] using result
          refine ⟨by simp [retryAt, SortedMap.find?_set], ?_, ?_, by simp⟩
          · intro other different
            cases other with
            | none => rfl
            | some c => simp_all [retryAt, SortedMap.find?_set]
          · intro none e member
            rcases SortedMap.mem_set.mp member with rfl | ⟨old, -⟩
            · exact future
            · exact none e old
        · obtain ⟨rfl, rfl, rfl⟩ := by simpa only [Prod.mk.injEq] using result
          exact ⟨by simp [retryAt, found], fun other _ => rfl, fun none => none, fun _ => ⟨rfl, rfl⟩⟩
      · rename_i missing
        obtain ⟨rfl, rfl, rfl⟩ := by simpa only [Prod.mk.injEq] using result
        refine ⟨by simp [retryAt, SortedMap.find?_emplace, missing], ?_, ?_, by simp⟩
        · intro other different
          cases other with
          | none => rfl
          | some c =>
              have different : c ≠ channel := fun same => different (same ▸ rfl)
              simp [retryAt, SortedMap.find?_emplace, different]
        · intro none e member
          rcases SortedMap.mem_emplace.mp member with old | ⟨rfl, -⟩
          · exact none e old
          · exact future

/-- The growing timeout is at least a second. -/
theorem kept_failTimeout {u : Updates υ} (h : Kept free u) (target : Option ChannelId) :
    0 < (u.failTimeout target).1 ∧ Kept free (u.failTimeout target).2 ∧
      (u.failTimeout target).2.whenGetDiffAfterFail = u.whenGetDiffAfterFail ∧ (u.failTimeout target).2.now = u.now := by
  cases target with
  | none => exact ⟨h.timeout, h, rfl, rfl⟩
  | some channel =>
      have entries : ∀ e ∈ (u.channelFailDifferenceTimeout.emplace channel 1).entries, 0 < e.2 := by
        intro e member
        rcases SortedMap.mem_emplace.mp member with old | ⟨rfl, -⟩
        · exact h.timeouts e old
        · exact Nat.one_pos
      refine ⟨?_, ⟨h.waited, h.armed, h.retried, h.timeout, entries⟩, rfl, rfl⟩
      simp only [failTimeout]
      cases found : (u.channelFailDifferenceTimeout.emplace channel 1).find? channel with
      | none => exact Nat.one_pos
      | some timeout => exact entries _ (SortedMap.find?_eq_some.mp found)

theorem kept_setFailTimeout {u : Updates υ} (h : Kept free u) (target : Option ChannelId) {timeout : Nat}
    (positive : 0 < timeout) : Kept free (u.setFailTimeout target timeout) := by
  cases target with
  | none => exact ⟨h.waited, h.armed, h.retried, positive, h.timeouts⟩
  | some channel =>
      refine ⟨h.waited, h.armed, h.retried, h.timeout, ?_⟩
      intro e member
      rcases SortedMap.mem_set.mp member with rfl | ⟨old, -⟩
      · exact positive
      · exact h.timeouts e old

/-- After a failure the target waits for its retry. -/
theorem kept_failDifferenceStartTimerFor {u : Updates υ} {target : Option ChannelId} (h : Kept (· = target) u)
    (none : u.NoChannelDue) : Kept (fun _ => False) (u.failDifferenceStartTimerFor target) := by
  obtain ⟨positive, kept, times, now⟩ := kept_failTimeout h target
  have due : (u.failTimeout target).2.NoChannelDue := by
    unfold NoChannelDue
    rw [times, now]
    exact none
  unfold failDifferenceStartTimerFor
  generalize u.failTimeout target = result at positive kept due
  obtain ⟨timeout, u⟩ := result
  dsimp only at positive kept due ⊢
  have finished {v : Updates υ} (scheduled : Kept (fun _ => False) v) : Kept (fun _ => False)
      (if timeout < 64 then v.setFailTimeout target (timeout * 2) else v) := by
    split
    · exact kept_setFailTimeout scheduled target (by omega)
    · exact scheduled
  generalize result : whenGetDiffChanged u.now target (timeout * 1000) u.whenGetDiffAfterFail
    u.getDifferenceTimeAfterFail = changed
  obtain ⟨changed, times, time⟩ := changed
  cases changed with
  | true =>
      obtain ⟨mine, others, later, -⟩ := whenGetDiffChanged_scheduled u target (by omega) result
      refine finished (kept_getDifferenceAfterFail ⟨?_, kept.retried, kept.timeout, kept.timeouts⟩ (later due))
      intro other on
      by_cases same : other = target
      · subst same
        exact .inr (.inr mine)
      · rw [others other same]
        exact .inr ((kept.waited other on).resolve_left same)
  | false =>
      obtain ⟨mine, -, -, same⟩ := whenGetDiffChanged_scheduled u target (by omega) result
      obtain ⟨rfl, rfl⟩ := same rfl
      refine finished ⟨?_, kept.armed, kept.retried, kept.timeout, kept.timeouts⟩
      intro other on
      by_cases same : other = target
      · subst same
        exact .inr (.inr mine)
      · exact .inr ((kept.waited other on).resolve_left same)

/-! ### Answers -/

/-- The answer is there, so its target is let off until it is handled. -/
theorem kept_erase {u : Updates υ} (h : Kept (fun _ => False) u) (request : Request) :
    Kept (· = request.channel?) { u with requests := u.requests.erase request } where
  waited target on := by
    by_cases mine : target = request.channel?
    · exact .inl mine
    · rcases h.waited target on with off | ⟨r, member, same⟩ | retry
      · exact off.elim
      · have different : r ≠ request := fun equal => mine (same.symm.trans (equal ▸ rfl))
        exact .inr (.inl ⟨r, (List.mem_erase_of_ne different).mpr member, same⟩)
      · exact .inr (.inr retry)
  armed := h.armed
  retried := h.retried
  timeout := h.timeout
  timeouts := h.timeouts

/-- A waiter that is turned back needs nothing to wait for. -/
theorem Kept.turnedBack {u v : Updates υ} {target : Option ChannelId} (h : Kept (· = target) u)
    (mine : v.requesting target = false) (others : ∀ other, other ≠ target → v.requesting other = u.requesting other)
    (requests : v.requests = u.requests) (retryAt : ∀ other, v.retryAt other = u.retryAt other)
    (timer : v.failDifferenceTimer = u.failDifferenceTimer) (retried : v.retried = u.retried)
    (timeout : v.failDifferenceTimeout = u.failDifferenceTimeout)
    (timeouts : v.channelFailDifferenceTimeout = u.channelFailDifferenceTimeout) : Kept (fun _ => False) v where
  waited other on := by
    by_cases same : other = target
    · subst same
      rw [mine] at on
      contradiction
    · rw [others other same] at on
      rw [retryAt, InFlight, requests]
      exact .inr ((h.waited other on).resolve_left same)
  armed other due retry := by
    rw [timer]
    exact h.armed other due ((retryAt other).symm.trans retry)
  retried := by rw [retried]; exact h.retried
  timeout := by rw [timeout]; exact h.timeout
  timeouts := by rw [timeouts]; exact h.timeouts

theorem kept_commonTurnedBack {u : Updates υ} (h : Kept (· = none) u) :
    Kept (fun _ => False) { u with ptsWaiter := u.ptsWaiter.setRequesting false } := by
  refine h.turnedBack rfl ?_ rfl (fun other => by cases other <;> rfl) rfl rfl rfl rfl
  intro other different
  cases other with
  | none => contradiction
  | some c => rfl

theorem kept_channelTurnedBack {u : Updates υ} {channel : ChannelId} (h : Kept (· = some channel) u) :
    Kept (fun _ => False) (u.modifyChannel channel (·.setRequesting false)) := by
  refine h.turnedBack ?_ ?_ rfl (fun other => by cases other <;> rfl) rfl rfl rfl rfl
  · simp [requesting, modifyChannel, PtsWaiter.setRequesting]
  · intro other different
    cases other with
    | none => rfl
    | some c =>
        have different : c ≠ channel := fun same => different (same ▸ rfl)
        simp [requesting, modifyChannel, different]

theorem kept_stateDone {u : Updates υ} (h : Kept (· = none) u) (session : Session υ) (state : MTPState) :
    Kept (fun _ => False) (u.stateDone session state) :=
  kept_commonTurnedBack (kept_applyState h session _ _ _ _)

theorem kept_differenceDone {u : Updates υ} (h : Kept (· = none) u) (session : Session υ) {result : MTPDifference}
    (handled : result ≠ .differenceTooLong) : Kept (fun _ => False) (u.differenceDone session result) := by
  have reset : Kept (· = none) { u with failDifferenceTimeout := 1 } :=
    ⟨h.waited, h.armed, h.retried, Nat.one_pos, h.timeouts⟩
  cases result with
  | differenceEmpty date seq => exact kept_commonTurnedBack (kept_applyState reset session _ _ _ _)
  | differenceSlice calls state =>
      unfold differenceDone
      apply kept_getDifference
      exact kept_commonTurnedBack (kept_applyState (kept_feed reset calls) session _ _ _ _)
  | difference calls state => exact kept_stateDone (kept_feed reset calls) session state
  | differenceTooLong => contradiction

theorem kept_channelContents {u : Updates υ} (h : Kept free u) (channel : ChannelId) (contents : MTPChannelContents) :
    Kept free (u.channelContents channel contents) := by
  have init : ∀ {u : Updates υ}, Kept free u → ∀ pts, Kept free (u.ptsInit channel pts) := by
    intro u h pts
    exact kept_modifyChannel h channel fun _ => rfl
  cases contents with
  | channelDifferenceEmpty pts => exact init h pts
  | channelDifferenceTooLong dialogPts calls =>
      cases dialogPts with
      | none => exact kept_feed h calls
      | some pts => exact kept_feed (init h pts) calls
  | channelDifference pts calls => exact init (kept_feed h calls) pts

theorem kept_channelDifferenceDone {u : Updates υ} {channel : ChannelId} (h : Kept (· = some channel) u)
    (difference : MTPChannelDifference) : Kept (fun _ => False) (u.channelDifferenceDone channel difference) := by
  have reset : Kept (· = some channel)
      { u with channelFailDifferenceTimeout := u.channelFailDifferenceTimeout.erase channel } :=
    ⟨h.waited, h.armed, h.retried, h.timeout, fun e member => h.timeouts e (SortedMap.mem_erase.mp member).1⟩
  have back := kept_channelTurnedBack (kept_channelContents reset channel difference.contents)
  unfold channelDifferenceDone
  dsimp only
  split_ifs
  · exact kept_getChannelDifference back channel (by decide)
  · exact kept_ptsWaitingForShortPoll back channel _
  · exact kept_ptsWaitingForShortPoll back channel _
  · exact back

/-! ## Runs -/

theorem kept_step {u : Updates υ} (h : Kept (fun _ => False) u) (event : Event υ) (meets : u.Meets event) :
    Kept (fun _ => False) (u.step event) := by
  have answered : ∀ (request : Request) (handle : Updates υ → Updates υ),
      (request ∈ u.requests → Kept (fun _ => False) (handle { u with requests := u.requests.erase request })) →
      Kept (fun _ => False) (u.answer request handle) := by
    intro request handle handled
    unfold answer
    split
    · exact handled ‹_›
    · exact h
  cases event with
  | call c => exact kept_call h c
  | applyUpdates session updates => exact kept_applyUpdates h session updates
  | mtpNewSessionCreated =>
      apply kept_getDifference
      exact h.same (.of_eq rfl (fun _ => rfl) rfl rfl rfl rfl rfl rfl rfl)
  | activeChats chats => exact h.same (.of_eq rfl (fun _ => rfl) rfl rfl rfl rfl rfl rfl rfl)
  | elapse ms => exact h.same (.of_eq rfl (fun _ => rfl) rfl rfl rfl rfl rfl rfl rfl)
  | byPtsTimer =>
      unfold step
      dsimp only
      split
      · apply kept_getDifferenceByPts
        exact h.same (.of_eq rfl (fun _ => rfl) rfl rfl rfl rfl rfl rfl rfl)
      · exact h
  | bySeqTimer =>
      unfold step
      dsimp only
      split
      · apply kept_getDifference
        exact h.same (.of_eq rfl (fun _ => rfl) rfl rfl rfl rfl rfl rfl rfl)
      · exact h
  | byMinChannelTimer =>
      unfold step
      dsimp only
      split
      · apply kept_getDifference
        exact h.same (.of_eq rfl (fun _ => rfl) rfl rfl rfl rfl rfl rfl rfl)
      · exact h
  | failDifferenceTimer =>
      unfold step
      dsimp only
      split
      · rename_i fires
        exact kept_getDifferenceAfterFail ⟨h.waited, h.retried, h.timeout, h.timeouts⟩ (meets fires)
      · exact h
  | stateDone session state =>
      apply answered .getState (·.stateDone session state)
      intro sent
      exact kept_stateDone (kept_erase h .getState) session state
  | differenceDone pts date qts session result =>
      apply answered (.getDifference pts date qts) (·.differenceDone session result)
      intro sent
      apply kept_differenceDone (kept_erase h (.getDifference pts date qts)) session
      rintro rfl
      exact meets sent
  | differenceFail pts date qts =>
      apply answered (.getDifference pts date qts) differenceFail
      intro sent
      exact kept_failDifferenceStartTimerFor (kept_erase h (.getDifference pts date qts)) (meets sent)
  | channelDifferenceDone channel force pts difference =>
      apply answered (.getChannelDifference channel force pts) (·.channelDifferenceDone channel difference)
      intro sent
      exact kept_channelDifferenceDone (kept_erase h (.getChannelDifference channel force pts)) difference
  | channelDifferenceFail channel force pts =>
      apply answered (.getChannelDifference channel force pts) (·.channelDifferenceFail channel)
      intro sent
      exact kept_failDifferenceStartTimerFor (kept_erase h (.getChannelDifference channel force pts)) (meets sent)

theorem kept_start (now : Nat) : Kept (fun _ => False) (start now : Updates υ) where
  waited target on := by
    cases target with
    | none => exact .inr (.inl ⟨.getState, List.mem_cons_self, rfl⟩)
    | some c => simp [requesting, start, send] at on
  armed target due retry := by cases target <;> simp [retryAt, start, send] at retry
  retried := by simp [start, send]
  timeout := Nat.one_pos
  timeouts := by simp [start, send]

theorem Kept.alive {u : Updates υ} (h : Kept (fun _ => False) u) : Alive u :=
  ⟨fun target on => (h.waited target on).resolve_left id, h.armed, h.retried⟩

theorem kept_run {u : Updates υ} (h : Kept (fun _ => False) u) (events : List (Event υ)) (meets : u.MeetsAll events) :
    Kept (fun _ => False) (u.run events) := by
  induction events generalizing u with
  | nil => exact h
  | cons event rest ih => exact ih (kept_step h event meets.1) meets.2

theorem MeetsAll.of_append {u : Updates υ} {before behind : List (Event υ)} (h : u.MeetsAll (before ++ behind)) :
    u.MeetsAll before := by
  induction before generalizing u with
  | nil => trivial
  | cons event rest ih => exact ⟨h.1, ih h.2⟩

/-- In a run that meets neither defect nothing is wedged. -/
theorem run_alive (now : Nat) (events : List (Event υ)) (meets : (start now : Updates υ).MeetsAll events) :
    ∀ before, before <+: events → Alive ((start now : Updates υ).run before) := by
  rintro before ⟨behind, rfl⟩
  exact (kept_run (kept_start now) before meets.of_append).alive

/-- The difference of a channel fails once. Its retry comes due after a second and sends nothing, since the
    channel still says that it is requesting. -/
theorem channelRetry_wedged :
    ¬ Alive ((start 0 : Updates Unit).run
      [.stateDone {} ⟨10, 1, 1, 1⟩, .call (.waiter (some 7) { good := 5 }), .call (.getChannelDifference 7),
        .channelDifferenceFail 7 false 5, .elapse 1000, .failDifferenceTimer]) := by
  intro alive
  have nothing : ((start 0 : Updates Unit).run
      [.stateDone {} ⟨10, 1, 1, 1⟩, .call (.waiter (some 7) { good := 5 }), .call (.getChannelDifference 7),
        .channelDifferenceFail 7 false 5, .elapse 1000, .failDifferenceTimer]).requests = [] := by decide +kernel
  rcases alive.waited (some 7) (by decide +kernel) with ⟨r, member, -⟩ | retry
  · rw [nothing] at member
    exact List.not_mem_nil member
  · exact absurd retry (by decide +kernel)

/-- A run with a failed `GetDifference`, its retry, and a channel's difference in two parts. -/
theorem run_alive_retried :
    Alive ((start 0 : Updates Unit).run
      [.stateDone {} ⟨10, 1, 1, 1⟩, .call .getDifference, .differenceFail 10 1 1, .elapse 1000, .failDifferenceTimer,
        .call (.waiter (some 7) { good := 5 }), .call (.getChannelDifference 7),
        .channelDifferenceDone 7 false 5 ⟨false, 0, .channelDifference 8 []⟩,
        .differenceDone 10 1 1 {} (.differenceEmpty 2 1)]) :=
  run_alive 0 _ (by
    refine ⟨trivial, trivial, fun _ => ?_, trivial, fun _ => ?_, trivial, trivial, trivial, trivial, trivial⟩ <;>
      decide +kernel) _ (List.prefix_refl _)

end Updates

end IMeDesktop.Api
