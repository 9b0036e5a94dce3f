import IMeDesktop.Data.PtsWaiter

/-! # The stream of updates

`Api::Updates` applies containers of updates in the order of their `seq` numbers, keeps those
that came too early, and asks the server for the difference when it lost something: for the
common state, or for one channel. While a difference is requested its waiter takes everything
that comes as old.

A session answers what the source asks it while updates are fed: what feeding calls on
`Updates` in turn, whether a short message names only known peers, whether the waiter took it.
The waiters themselves are those of `PtsWaiter`; all their owner sees is kept, with the calls
they make on it.
-/

namespace IMeDesktop.Api

open Lib Data

/-- `not_null<ChannelData*>`. -/
abbrev ChannelId := Nat

inductive ChannelDifferenceRequest where
  | unknown
  | ptsGapOrShortPoll
  | afterFail
  deriving DecidableEq, Repr

/-- Requests in flight. -/
inductive Request where
  | getState
  | getDifference (pts date qts : Int)
  | getChannelDifference (channel : ChannelId) (force : Bool) (pts : Int)
  deriving DecidableEq, Repr

/-- A container as it comes from the server. -/
inductive MTPUpdates (υ : Type) where
  | updates (date seq : Int) (list : υ)
  | updatesCombined (date seqStart seq : Int) (list : υ)
  | updateShort (date : Int) (update : υ)
  | updateShortMessage (date : Int) (message : υ)
  | updateShortChatMessage (date : Int) (message : υ)
  | updateShortSentMessage (date : Int) (message : υ)
  | updatesTooLong
  deriving DecidableEq, Repr

abbrev Waiter := PtsWaiter Unit Unit

/-- What feeding an update may call. -/
inductive Call where
  /-- The waiter of a channel, or the common one, changes its counters and queues. -/
  | waiter (channel : Option ChannelId) (changed : Waiter)
  | ptsWaiterStartTimerFor (channel : Option ChannelId) (ms : Int)
  | ptsWaitingForShortPoll (channel : ChannelId) (ms : Int)
  | byMinChannelTimer
  | getDifference
  | getChannelDifference (channel : ChannelId)

/-- What the session answers while updates are fed. -/
structure Session (υ : Type) where
  feeding : υ → List Call := fun _ => []
  loaded : υ → Bool := fun _ => true
  accepted : υ → Bool := fun _ => true

/-- A retry that came due: for which state, and whether it sent a request. -/
structure Retry where
  channel : Option ChannelId
  sent : Bool
  deriving DecidableEq, Repr

structure Updates (υ : Type) where
  now : Nat := 0
  updatesDate : Int := 0
  updatesQts : Int := -1
  updatesSeq : Int := 0
  ptsWaiter : Waiter := {}
  /-- The waiters of the channels. -/
  channels : ChannelId → Waiter := fun _ => {}
  whenGetDiffByPts : SortedMap ChannelId Nat := .empty
  whenGetDiffAfterFail : SortedMap ChannelId Nat := .empty
  getDifferenceTimeByPts : Nat := 0
  getDifferenceTimeAfterFail : Nat := 0
  /-- Timers by the time at which they fire. -/
  byPtsTimer : Option Nat := none
  bySeqUpdates : SortedMap Int (MTPUpdates υ) := .empty
  bySeqTimer : Option Nat := none
  byMinChannelTimer : Option Nat := none
  failDifferenceTimeout : Nat := 1
  channelFailDifferenceTimeout : SortedMap ChannelId Nat := .empty
  failDifferenceTimer : Option Nat := none
  activeChats : List ChannelId := []
  requests : List Request := []
  /-- Containers that were fed, and retries that came due, in order. -/
  fed : List (MTPUpdates υ) := []
  retried : List Retry := []

/-- 1s wait after show channel history before sending getChannelDifference. -/
def kWaitForChannelGetDifference : Int := 1000

namespace Updates

variable {υ : Type}

def send (u : Updates υ) (request : Request) : Updates υ := { u with requests := u.requests ++ [request] }

/-- The constructor asks for the state at once. -/
def start (now : Nat) : Updates υ :=
  ({ now := now, ptsWaiter := ({} : Waiter).setRequesting true } : Updates υ).send .getState

def requestingDifference (u : Updates υ) : Bool := u.ptsWaiter.requesting

def modifyChannel (u : Updates υ) (channel : ChannelId) (f : Waiter → Waiter) : Updates υ :=
  { u with channels := Function.update u.channels channel (f (u.channels channel)) }

/-! ## Requests for differences -/

def getDifference (u : Updates υ) : Updates υ :=
  let u := { u with getDifferenceTimeByPts := 0 }
  if u.requestingDifference then u
  else
    let u := { u with bySeqUpdates := .empty, bySeqTimer := none, getDifferenceTimeAfterFail := 0
                      ptsWaiter := u.ptsWaiter.setRequesting true }
    u.send (.getDifference u.ptsWaiter.current u.updatesDate u.updatesQts)

def getChannelDifference (u : Updates υ) (channel : ChannelId) (source : ChannelDifferenceRequest) : Updates υ :=
  let u := if source ≠ .ptsGapOrShortPoll then { u with whenGetDiffByPts := u.whenGetDiffByPts.erase channel } else u
  if !(u.channels channel).inited || (u.channels channel).requesting then u
  else
    let u :=
      if source ≠ .afterFail then { u with whenGetDiffAfterFail := u.whenGetDiffAfterFail.erase channel } else u
    let u := u.modifyChannel channel (·.setRequesting true)
    -- No force flag when requesting for short poll.
    let force := !(source ≠ .ptsGapOrShortPoll && !(u.channels channel).waitingForSkipped)
    u.send (.getChannelDifference channel force (u.channels channel).current)

/-- Whether the time of a request changed, with the times after it. -/
def whenGetDiffChanged (now : Nat) (channel : Option ChannelId) (ms : Int)
    (whenMap : SortedMap ChannelId Nat) (curTime : Nat) : Bool × SortedMap ChannelId Nat × Nat :=
  match channel with
  | some channel =>
      if ms ≤ 0 then
        if whenMap.contains channel then (true, whenMap.erase channel, curTime) else (false, whenMap, curTime)
      else
        match whenMap.find? channel with
        | some time =>
            if time > now + ms.toNat then (true, whenMap.set channel (now + ms.toNat), curTime)
            else (false, whenMap, curTime)
        | none => (true, whenMap.emplace channel (now + ms.toNat), curTime)
  | none =>
      if ms ≤ 0 then
        if curTime ≠ 0 then (true, whenMap, 0) else (false, whenMap, curTime)
      else if curTime = 0 ∨ curTime > now + ms.toNat then (true, whenMap, now + ms.toNat)
      else (false, whenMap, curTime)

/-- `wait ? std::min(wait, time) : time`. -/
def sooner (wait time : Nat) : Nat := if wait ≠ 0 then min wait time else time

/-- `callOnce(wait)`, or `cancel()` when there is nothing to wait for. -/
def armed (now wait : Nat) : Option Nat := if wait ≠ 0 then some (now + wait) else none

/-- The common state in `getDifferenceByPts`, with the time to wait for it. -/
def byPtsCommon (u : Updates υ) : Updates υ × Nat :=
  if u.getDifferenceTimeByPts ≠ 0 then
    if u.getDifferenceTimeByPts > u.now then (u, u.getDifferenceTimeByPts - u.now) else (u.getDifference, 0)
  else (u, 0)

/-- One channel in `getDifferenceByPts`, with the time to wait so far. -/
def byPtsChannel (p : Updates υ × Nat) (entry : ChannelId × Nat) : Updates υ × Nat :=
  let (u, wait) := p
  if entry.2 > u.now then (u, sooner wait (entry.2 - u.now))
  else
    let u := u.getChannelDifference entry.1 .ptsGapOrShortPoll
    ({ u with whenGetDiffByPts := u.whenGetDiffByPts.erase entry.1 }, wait)

def getDifferenceByPts (u : Updates υ) : Updates υ :=
  let p := u.byPtsCommon.1.whenGetDiffByPts.entries.foldl byPtsChannel u.byPtsCommon
  { p.1 with byPtsTimer := armed p.1.now p.2 }

/-- Write down that a retry came due. -/
def retry (u : Updates υ) (channel : Option ChannelId) (after : Updates υ) : Updates υ :=
  { after with retried := after.retried ++ [⟨channel, decide (after.requests ≠ u.requests)⟩] }

/-- The common state in `getDifferenceAfterFail`, with the time to wait for it. -/
def afterFailCommon (u : Updates υ) : Updates υ × Nat :=
  if u.getDifferenceTimeAfterFail ≠ 0 then
    if u.getDifferenceTimeAfterFail > u.now then (u, u.getDifferenceTimeAfterFail - u.now)
    else (u.retry none ({ u with ptsWaiter := u.ptsWaiter.setRequesting false } : Updates υ).getDifference, 0)
  else (u, 0)

/-- One channel in `getDifferenceAfterFail`, with the time to wait so far. -/
def afterFailChannel (p : Updates υ × Nat) (entry : ChannelId × Nat) : Updates υ × Nat :=
  let (u, wait) := p
  if entry.2 > u.now then (u, sooner wait (entry.2 - u.now))
  else
    let u := u.retry (some entry.1) (u.getChannelDifference entry.1 .afterFail)
    ({ u with whenGetDiffAfterFail := u.whenGetDiffAfterFail.erase entry.1 }, wait)

def getDifferenceAfterFail (u : Updates υ) : Updates υ :=
  let p := u.afterFailCommon.1.whenGetDiffAfterFail.entries.foldl afterFailChannel u.afterFailCommon
  { p.1 with failDifferenceTimer := armed p.1.now p.2 }

def ptsWaiterStartTimerFor (u : Updates υ) (channel : Option ChannelId) (ms : Int) : Updates υ :=
  match whenGetDiffChanged u.now channel (int32 ms) u.whenGetDiffByPts u.getDifferenceTimeByPts with
  | (true, whenMap, curTime) =>
      ({ u with whenGetDiffByPts := whenMap, getDifferenceTimeByPts := curTime } : Updates υ).getDifferenceByPts
  | (false, _, _) => u

/-- The growing timeout of the common state or of a channel, with the map it is kept in. -/
def failTimeout (u : Updates υ) : Option ChannelId → Nat × Updates υ
  | none => (u.failDifferenceTimeout, u)
  | some channel =>
      let timeouts := u.channelFailDifferenceTimeout.emplace channel 1
      ((timeouts.find? channel).getD 1, { u with channelFailDifferenceTimeout := timeouts })

def setFailTimeout (u : Updates υ) (channel : Option ChannelId) (timeout : Nat) : Updates υ :=
  match channel with
  | none => { u with failDifferenceTimeout := timeout }
  | some channel => { u with channelFailDifferenceTimeout := u.channelFailDifferenceTimeout.set channel timeout }

def failDifferenceStartTimerFor (u : Updates υ) (channel : Option ChannelId) : Updates υ :=
  let (timeout, u) := u.failTimeout channel
  let u :=
    match whenGetDiffChanged u.now channel (timeout * 1000) u.whenGetDiffAfterFail u.getDifferenceTimeAfterFail with
    | (true, whenMap, curTime) =>
        ({ u with whenGetDiffAfterFail := whenMap, getDifferenceTimeAfterFail := curTime } :
          Updates υ).getDifferenceAfterFail
    | (false, _, _) => u
  if timeout < 64 then u.setFailTimeout channel (timeout * 2) else u

/-- `PtsWaiter::setWaitingForShortPoll` with its owner at hand. -/
def ptsWaitingForShortPoll (u : Updates υ) (channel : ChannelId) (ms : Int) : Updates υ :=
  if ms ≥ 0 then
    (u.ptsWaiterStartTimerFor (some channel) ms).modifyChannel channel ({ · with waitingForShortPoll := true })
  else
    let u := u.modifyChannel channel ({ · with waitingForShortPoll := false })
    if !(u.channels channel).waitingForSkipped && !(u.channels channel).waitingForShortPoll then
      u.ptsWaiterStartTimerFor (some channel) (-1)
    else u

/-- Nothing but `setRequesting` turns the flag of a waiter. -/
def waiterChanged (u : Updates υ) (channel : Option ChannelId) (changed : Waiter) : Updates υ :=
  match channel with
  | none => { u with ptsWaiter := { changed with requesting := u.ptsWaiter.requesting } }
  | some channel => u.modifyChannel channel fun w => { changed with requesting := w.requesting }

def call (u : Updates υ) : Call → Updates υ
  | .waiter channel changed => u.waiterChanged channel changed
  | .ptsWaiterStartTimerFor channel ms => u.ptsWaiterStartTimerFor channel ms
  | .ptsWaitingForShortPoll channel ms => u.ptsWaitingForShortPoll channel ms
  | .byMinChannelTimer =>
      if u.byMinChannelTimer.isSome then u
      else { u with byMinChannelTimer := some (u.now + kWaitForSkippedTimeout.toNat) }
  | .getDifference => u.getDifference
  | .getChannelDifference channel => u.getChannelDifference channel .unknown

def feed (u : Updates υ) (calls : List Call) : Updates υ := calls.foldl call u

/-! ## Containers -/

/-- The loop of `setState`: saved containers up to `seq + 1` are dropped, the one that
    comes next is returned to be applied. -/
def releaseSaved (seq : Int) : Nat → Updates υ → Updates υ × Option (MTPUpdates υ)
  | 0, u => (u, none)
  | fuel + 1, u =>
      match u.bySeqUpdates.entries.head? with
      | none => (u, none)
      | some (start, saved) =>
          if start ≤ seq + 1 then
            let u := { u with bySeqUpdates := u.bySeqUpdates.eraseBegin }
            if start = seq + 1 then (u, some saved) else releaseSaved seq fuel u
          else if u.bySeqTimer.isSome then (u, none)
          else ({ u with bySeqTimer := some (u.now + kWaitForSkippedTimeout.toNat) }, none)

/-- `setState`, up to the call of `applyUpdates` that it may end with. -/
def setState (u : Updates υ) (pts date qts seq : Int) : Updates υ × Option (MTPUpdates υ) :=
  let u := if pts ≠ 0 then { u with ptsWaiter := u.ptsWaiter.init pts } else u
  let u := if u.updatesDate < date ∧ u.byMinChannelTimer = none then { u with updatesDate := date } else u
  let u := if qts ≠ 0 ∧ u.updatesQts < qts then { u with updatesQts := qts } else u
  if seq ≠ 0 ∧ seq ≠ u.updatesSeq then
    releaseSaved seq u.bySeqUpdates.size { u with updatesSeq := seq, bySeqTimer := none }
  else (u, none)

/-- Write down that a container is fed. -/
def note (u : Updates υ) (updates : MTPUpdates υ) : Updates υ := { u with fed := u.fed ++ [updates] }

/-- `updates` and `updatesCombined`: the range starts at `start` and ends at `seq`. -/
def applyRange (u : Updates υ) (session : Session υ) (updates : MTPUpdates υ) (list : υ) (date start seq : Int) :
    Updates υ × Option (MTPUpdates υ) :=
  if start ≠ 0 ∧ start ≤ u.updatesSeq then (u, none)
  else if start ≠ 0 ∧ start > u.updatesSeq + 1 then
    ({ u with bySeqUpdates := u.bySeqUpdates.emplace start updates
              bySeqTimer := some (u.now + kWaitForSkippedTimeout.toNat) }, none)
  else
    let u := (u.note updates).feed (session.feeding list)
    u.setState 0 date u.updatesQts seq

/-- A short message, once the waiter was asked about its `pts`. -/
def applyAccepted (u : Updates υ) (session : Session υ) (updates : MTPUpdates υ) (message : υ) (date : Int) :
    Updates υ × Option (MTPUpdates υ) :=
  let u := u.feed (session.feeding message)
  if session.accepted message then
    (u.note updates).setState 0 date u.updatesQts u.updatesSeq
  else (u, none)

/-- `applyUpdates`, with the container that it goes on with. -/
def applyOnce (u : Updates υ) (session : Session υ) (updates : MTPUpdates υ) : Updates υ × Option (MTPUpdates υ) :=
  match updates with
  | .updates date seq list => u.applyRange session updates list date seq seq
  | .updatesCombined date seqStart seq list => u.applyRange session updates list date seqStart seq
  | .updateShort date update =>
      let u := (u.note updates).feed (session.feeding update)
      u.setState 0 date u.updatesQts u.updatesSeq
  | .updateShortMessage date message =>
      if session.loaded message then u.applyAccepted session updates message date else (u.getDifference, none)
  | .updateShortChatMessage date message =>
      if session.loaded message then u.applyAccepted session updates message date else (u.getDifference, none)
  | .updateShortSentMessage date message => u.applyAccepted session updates message date
  | .updatesTooLong => (u.getDifference, none)

/-! ## What feeding leaves alone -/

def differenceCount (u : Updates υ) : Nat := u.requests.countP fun r => r matches .getDifference ..

/-- What orders the containers stays, unless a difference is requested: then nothing is saved. -/
structure Undisturbed (u v : Updates υ) : Prop where
  updatesSeq : v.updatesSeq = u.updatesSeq
  fed : v.fed = u.fed
  count : u.differenceCount ≤ v.differenceCount
  saved : v.bySeqUpdates = u.bySeqUpdates ∨ v.bySeqUpdates = .empty ∧ u.differenceCount < v.differenceCount

namespace Undisturbed

theorem refl (u : Updates υ) : Undisturbed u u := ⟨rfl, rfl, le_refl _, .inl rfl⟩

theorem trans {u v w : Updates υ} (first : Undisturbed u v) (second : Undisturbed v w) : Undisturbed u w where
  updatesSeq := second.updatesSeq.trans first.updatesSeq
  fed := second.fed.trans first.fed
  count := first.count.trans second.count
  saved := by
    rcases second.saved with same | ⟨dropped, more⟩
    · rcases first.saved with before | ⟨dropped, more⟩
      · exact .inl (same.trans before)
      · exact .inr ⟨same.trans dropped, more.trans_le second.count⟩
    · exact .inr ⟨dropped, first.count.trans_lt more⟩

/-- A change of anything else. -/
theorem of_eq {u v : Updates υ} (updatesSeq : v.updatesSeq = u.updatesSeq) (fed : v.fed = u.fed)
    (saved : v.bySeqUpdates = u.bySeqUpdates) (requests : v.requests = u.requests) : Undisturbed u v :=
  ⟨updatesSeq, fed, by rw [differenceCount, differenceCount, requests], .inl saved⟩

theorem foldl {f : Updates υ × Nat → ChannelId × Nat → Updates υ × Nat}
    (keeps : ∀ p e, Undisturbed p.1 (f p e).1) (entries : List (ChannelId × Nat)) (p : Updates υ × Nat) :
    Undisturbed p.1 (entries.foldl f p).1 := by
  induction entries generalizing p with
  | nil => exact refl _
  | cons entry rest ih => exact (keeps p entry).trans (ih _)

theorem size_le {u v : Updates υ} (h : Undisturbed u v) : v.bySeqUpdates.size ≤ u.bySeqUpdates.size := by
  rcases h.saved with same | ⟨dropped, -⟩
  · rw [same]
  · rw [dropped]
    exact Nat.zero_le _

end Undisturbed

theorem undisturbed_getDifference (u : Updates υ) : Undisturbed u u.getDifference := by
  unfold getDifference requestingDifference
  dsimp only
  split
  · exact .of_eq rfl rfl rfl rfl
  · refine ⟨rfl, rfl, ?_, .inr ⟨rfl, ?_⟩⟩ <;> simp [differenceCount, send]

theorem undisturbed_sendChannel (u : Updates υ) (channel : ChannelId) (force : Bool) (pts : Int) :
    Undisturbed u (u.send (.getChannelDifference channel force pts)) :=
  ⟨rfl, rfl, by simp [differenceCount, send], .inl rfl⟩

theorem undisturbed_getChannelDifference (u : Updates υ) (channel : ChannelId) (source : ChannelDifferenceRequest) :
    Undisturbed u (u.getChannelDifference channel source) := by
  unfold getChannelDifference
  extract_lets u₁ u₂ u₃ force
  have first : Undisturbed u u₁ := by
    unfold u₁
    split_ifs <;> exact .of_eq rfl rfl rfl rfl
  have second : Undisturbed u₁ u₂ := by
    unfold u₂
    split_ifs <;> exact .of_eq rfl rfl rfl rfl
  have third : Undisturbed u₂ u₃ := .of_eq rfl rfl rfl rfl
  split
  · exact first
  · exact ((first.trans second).trans third).trans (undisturbed_sendChannel _ _ _ _)

theorem undisturbed_getDifferenceByPts (u : Updates υ) : Undisturbed u u.getDifferenceByPts := by
  have common : Undisturbed u u.byPtsCommon.1 := by
    unfold byPtsCommon
    split_ifs
    · exact .refl u
    · exact undisturbed_getDifference u
    · exact .refl u
  have each : ∀ p e, Undisturbed p.1 (byPtsChannel (υ := υ) p e).1 := by
    rintro ⟨u, wait⟩ entry
    unfold byPtsChannel
    dsimp only
    split
    · exact .refl u
    · exact (undisturbed_getChannelDifference u _ _).trans (.of_eq rfl rfl rfl rfl)
  exact (common.trans (Undisturbed.foldl each _ _)).trans (.of_eq rfl rfl rfl rfl)

theorem undisturbed_ptsWaiterStartTimerFor (u : Updates υ) (channel : Option ChannelId) (ms : Int) :
    Undisturbed u (u.ptsWaiterStartTimerFor channel ms) := by
  unfold ptsWaiterStartTimerFor
  split
  · refine Undisturbed.trans ?_ (undisturbed_getDifferenceByPts _)
    exact .of_eq rfl rfl rfl rfl
  · exact .refl u

theorem undisturbed_ptsWaitingForShortPoll (u : Updates υ) (channel : ChannelId) (ms : Int) :
    Undisturbed u (u.ptsWaitingForShortPoll channel ms) := by
  unfold ptsWaitingForShortPoll
  dsimp only
  split_ifs
  · exact (undisturbed_ptsWaiterStartTimerFor u _ _).trans (.of_eq rfl rfl rfl rfl)
  · refine Undisturbed.trans ?_ (undisturbed_ptsWaiterStartTimerFor _ _ _)
    exact .of_eq rfl rfl rfl rfl
  · exact .of_eq rfl rfl rfl rfl

theorem undisturbed_call (u : Updates υ) (c : Call) : Undisturbed u (u.call c) := by
  cases c with
  | waiter channel changed => cases channel <;> exact .of_eq rfl rfl rfl rfl
  | ptsWaiterStartTimerFor channel ms => exact undisturbed_ptsWaiterStartTimerFor u channel ms
  | ptsWaitingForShortPoll channel ms => exact undisturbed_ptsWaitingForShortPoll u channel ms
  | byMinChannelTimer =>
      unfold call
      dsimp only
      split_ifs <;> exact .of_eq rfl rfl rfl rfl
  | getDifference => exact undisturbed_getDifference u
  | getChannelDifference channel => exact undisturbed_getChannelDifference u channel _

theorem undisturbed_feed (u : Updates υ) (calls : List Call) : Undisturbed u (u.feed calls) := by
  induction calls generalizing u with
  | nil => exact .refl u
  | cons c rest ih => exact (undisturbed_call u c).trans (ih _)

/-! ## The recursion through saved containers -/

theorem size_releaseSaved (seq : Int) (fuel : Nat) (u : Updates υ) :
    (releaseSaved seq fuel u).1.bySeqUpdates.size ≤ u.bySeqUpdates.size ∧
      ((releaseSaved seq fuel u).2.isSome → (releaseSaved seq fuel u).1.bySeqUpdates.size < u.bySeqUpdates.size) := by
  induction fuel generalizing u with
  | zero => simp [releaseSaved]
  | succ fuel ih =>
      unfold releaseSaved
      cases front : u.bySeqUpdates.entries.head? with
      | none => simp
      | some entry =>
          have shorter : u.bySeqUpdates.eraseBegin.size < u.bySeqUpdates.size := by
            obtain ⟨rest, entries⟩ := List.head?_eq_some_iff.mp front
            simp [SortedMap.size, SortedMap.eraseBegin, entries]
          dsimp only
          split_ifs
          · exact ⟨shorter.le, fun _ => shorter⟩
          · obtain ⟨le, lt⟩ := ih { u with bySeqUpdates := u.bySeqUpdates.eraseBegin }
            exact ⟨le.trans shorter.le, fun next => (lt next).trans shorter⟩
          · simp
          · simp

theorem size_setState (u : Updates υ) (pts date qts seq : Int) (next : (u.setState pts date qts seq).2.isSome) :
    (u.setState pts date qts seq).1.bySeqUpdates.size < u.bySeqUpdates.size := by
  revert next
  unfold setState
  extract_lets u₁ u₂ u₃
  intro next
  have same : u₃.bySeqUpdates = u.bySeqUpdates := by
    unfold u₃ u₂ u₁
    split_ifs <;> rfl
  split_ifs at next ⊢
  · rw [← same]
    exact (size_releaseSaved _ _ _).2 next
  · simp at next

theorem size_applyRange (u : Updates υ) (session : Session υ) (updates : MTPUpdates υ) (list : υ)
    (date start seq : Int) (next : (u.applyRange session updates list date start seq).2.isSome) :
    (u.applyRange session updates list date start seq).1.bySeqUpdates.size < u.bySeqUpdates.size := by
  unfold applyRange at next ⊢
  split_ifs at next ⊢
  · simp at next
  · simp at next
  · exact (size_setState _ _ _ _ _ next).trans_le (undisturbed_feed _ _).size_le

theorem size_applyAccepted (u : Updates υ) (session : Session υ) (updates : MTPUpdates υ) (message : υ)
    (date : Int) (next : (u.applyAccepted session updates message date).2.isSome) :
    (u.applyAccepted session updates message date).1.bySeqUpdates.size < u.bySeqUpdates.size := by
  unfold applyAccepted at next ⊢
  dsimp only at next ⊢
  split_ifs at next ⊢
  · exact (size_setState _ _ _ _ _ next).trans_le (undisturbed_feed _ _).size_le
  · simp at next

/-- Whatever is applied next was saved before. -/
theorem size_applyOnce (u : Updates υ) (session : Session υ) (updates : MTPUpdates υ)
    (next : (u.applyOnce session updates).2.isSome) :
    (u.applyOnce session updates).1.bySeqUpdates.size < u.bySeqUpdates.size := by
  cases updates with
  | updates date seq list => exact size_applyRange _ _ _ _ _ _ _ next
  | updatesCombined date seqStart seq list => exact size_applyRange _ _ _ _ _ _ _ next
  | updateShort date update =>
      exact (size_setState _ _ _ _ _ next).trans_le (undisturbed_feed _ _).size_le
  | updateShortMessage date message =>
      unfold applyOnce at next ⊢
      dsimp only at next ⊢
      split_ifs at next ⊢
      · exact size_applyAccepted _ _ _ _ _ next
      · simp at next
  | updateShortChatMessage date message =>
      unfold applyOnce at next ⊢
      dsimp only at next ⊢
      split_ifs at next ⊢
      · exact size_applyAccepted _ _ _ _ _ next
      · simp at next
  | updateShortSentMessage date message => exact size_applyAccepted _ _ _ _ _ next
  | updatesTooLong => simp [applyOnce] at next

/-- `setState` and `applyUpdates` call each other as long as there is a saved container to go on with. -/
def applyUpdates (u : Updates υ) (session : Session υ) (updates : MTPUpdates υ) : Updates υ :=
  match _result : u.applyOnce session updates with
  | (after, none) => after
  | (after, some next) => after.applyUpdates session next
termination_by u.bySeqUpdates.size
decreasing_by
  have smaller := size_applyOnce u session updates (by rw [_result]; rfl)
  rw [_result] at smaller
  exact smaller

/-- `setState` with what it applies. -/
def applyState (u : Updates υ) (session : Session υ) (pts date qts seq : Int) : Updates υ :=
  match u.setState pts date qts seq with
  | (u, none) => u
  | (u, some next) => u.applyUpdates session next

end Updates

end IMeDesktop.Api
