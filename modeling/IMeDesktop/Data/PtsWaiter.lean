import IMeDesktop.Lib.SortedMap

/-! # The waiter for updates that arrive out of order

`PtsWaiter` numbers updates by a running counter `pts`. It remembers the counter
it has reached (`good`), the largest one it was told about (`last`) and the sum of
the counts it was told about (`count`); nothing else says which updates are
missing. Updates that came too early wait in a queue keyed by `pts` and arrival.

The owner (`Api::Updates`) appears as the list of calls made on it. It is not
reentrant here: no call on the owner calls the waiter back.
-/

namespace IMeDesktop.Data

open Lib

inductive PtsSkippedQueue where
  | skippedUpdate
  | skippedUpdates
  deriving DecidableEq, Repr

/-- An update as one of the two payload types of the overloads. -/
inductive PtsItem (υ μ : Type) where
  | update (u : υ)
  | updates (us : μ)
  deriving DecidableEq, Repr

namespace PtsItem

def kind : PtsItem υ μ → PtsSkippedQueue
  | .update _ => .skippedUpdate
  | .updates _ => .skippedUpdates

end PtsItem

/-- Calls made on the owner, in order. -/
inductive OwnerCall (υ μ : Type) where
  | applyUpdateNoPtsCheck (u : υ)
  | applyUpdatesNoPtsCheck (us : μ)
  | ptsWaiterStartTimerFor (ms : Int)
  deriving DecidableEq, Repr

namespace OwnerCall

/-- The update a call hands over; timers hand over nothing. -/
def item : OwnerCall υ μ → Option (PtsItem υ μ)
  | .applyUpdateNoPtsCheck u => some (.update u)
  | .applyUpdatesNoPtsCheck us => some (.updates us)
  | .ptsWaiterStartTimerFor _ => none

def ofItem : PtsItem υ μ → OwnerCall υ μ
  | .update u => .applyUpdateNoPtsCheck u
  | .updates us => .applyUpdatesNoPtsCheck us

@[simp]
theorem item_ofItem (i : PtsItem υ μ) : (ofItem i).item = some i := by
  cases i <;> rfl

end OwnerCall

/-- Updates handed to the owner, in order. -/
def handed (calls : List (OwnerCall υ μ)) : List (PtsItem υ μ) :=
  calls.filterMap OwnerCall.item

/-- Signed 32-bit wrap-around. -/
def int32 (x : Int) : Int := x.bmod (2 ^ 32)

theorem int32_of_fits {x : Int} (low : 0 ≤ x) (high : x < 2 ^ 31) : int32 x = x := by
  unfold int32
  exact Int.bmod_eq_of_le (by omega) (by omega)

/-- 1s wait for skipped seq or pts in updates. -/
def kWaitForSkippedTimeout : Int := 1000

structure PtsWaiter (υ μ : Type) where
  queue : SortedMap Nat PtsSkippedQueue := .empty
  updateQueue : SortedMap Nat υ := .empty
  updatesQueue : SortedMap Nat μ := .empty
  good : Int := 0
  last : Int := 0
  count : Int := 0
  applySkippedLevel : Int := 0
  requesting : Bool := false
  waitingForSkipped : Bool := false
  waitingForShortPoll : Bool := false
  skippedKey : Nat := 0
  owner : List (OwnerCall υ μ) := []

namespace PtsWaiter

variable {υ μ : Type}

def clearSkippedUpdates (w : PtsWaiter υ μ) : PtsWaiter υ μ :=
  { w with queue := .empty, updateQueue := .empty, updatesQueue := .empty, applySkippedLevel := 0 }

def init (w : PtsWaiter υ μ) (pts : Int) : PtsWaiter υ μ :=
  { w with good := pts, last := pts, count := pts }.clearSkippedUpdates

def inited (w : PtsWaiter υ μ) : Bool := decide (w.good > 0)

def setRequesting (w : PtsWaiter υ μ) (isRequesting : Bool) : PtsWaiter υ μ :=
  let w := { w with requesting := isRequesting }
  if isRequesting then w.clearSkippedUpdates else w

def current (w : PtsWaiter υ μ) : Int := w.good

def startTimer (w : PtsWaiter υ μ) (ms : Int) : PtsWaiter υ μ :=
  { w with owner := w.owner ++ [.ptsWaiterStartTimerFor ms] }

def checkForWaiting (w : PtsWaiter υ μ) : PtsWaiter υ μ :=
  if !w.waitingForSkipped && !w.waitingForShortPoll then w.startTimer (-1) else w

def setWaitingForSkipped (w : PtsWaiter υ μ) (ms : Int) : PtsWaiter υ μ :=
  if ms ≥ 0 then { w.startTimer ms with waitingForSkipped := true }
  else { w with waitingForSkipped := false }.checkForWaiting

def setWaitingForShortPoll (w : PtsWaiter υ μ) (ms : Int) : PtsWaiter υ μ :=
  if ms ≥ 0 then { w.startTimer ms with waitingForShortPoll := true }
  else { w with waitingForShortPoll := false }.checkForWaiting

/-- `uint64(uint32(pts)) << 32 | (++_skippedKey)`. -/
def makeKey (pts : Int) (skippedKey : Nat) : Nat :=
  ((pts % 2 ^ 32).toNat <<< 32) ||| skippedKey

def ptsKey (w : PtsWaiter υ μ) (kind : PtsSkippedQueue) (pts : Int) : Nat × PtsWaiter υ μ :=
  let skippedKey := (w.skippedKey + 1) % 2 ^ 32
  let key := makeKey pts skippedKey
  (key, { w with skippedKey := skippedKey, queue := w.queue.emplace key kind })

/-- `_updateQueue.emplace(ptsKey(SkippedUpdate, pts), update)` and its twin. -/
def save (w : PtsWaiter υ μ) (pts : Int) (item : PtsItem υ μ) : PtsWaiter υ μ :=
  let (key, w) := w.ptsKey item.kind pts
  match item with
  | .update u => { w with updateQueue := w.updateQueue.emplace key u }
  | .updates us => { w with updatesQueue := w.updatesQueue.emplace key us }

section Apply

variable [Inhabited υ] [Inhabited μ]

/-- `operator[]` on a side queue: a missing key reads as a default value. -/
def skippedItem (w : PtsWaiter υ μ) (entry : Nat × PtsSkippedQueue) : PtsItem υ μ :=
  match entry.2 with
  | .skippedUpdate => .update ((w.updateQueue.find? entry.1).getD default)
  | .skippedUpdates => .updates ((w.updatesQueue.find? entry.1).getD default)

def apply (w : PtsWaiter υ μ) (item : PtsItem υ μ) : PtsWaiter υ μ :=
  { w with owner := w.owner ++ [.ofItem item] }

def applySkippedUpdates (w : PtsWaiter υ μ) : PtsWaiter υ μ :=
  if !w.waitingForSkipped then w
  else
    let w := w.setWaitingForSkipped (-1)
    if w.queue.isEmpty then w
    else
      let calls := w.queue.entries.map fun entry => OwnerCall.ofItem (w.skippedItem entry)
      { w with owner := w.owner ++ calls }.clearSkippedUpdates

/-- Return false if need to save that update and apply later. -/
def check (w : PtsWaiter υ μ) (pts count : Int) : Bool × PtsWaiter υ μ :=
  if !w.inited then (true, w.init pts)
  else
    let w := { w with last := max w.last pts, count := int32 (w.count + count) }
    if w.last = w.count then (true, { w with good := w.last })
    else if w.last < w.count then (decide (count = 0), w.setWaitingForSkipped 1)
    else (decide (count = 0), w.setWaitingForSkipped kWaitForSkippedTimeout)

/-- Body shared by the `updated` overloads: `keep` is what an overload does with
    an update that has to wait. -/
def updatedWith (keep : PtsWaiter υ μ → PtsWaiter υ μ) (w : PtsWaiter υ μ) (pts count : Int) :
    Bool × PtsWaiter υ μ :=
  if w.requesting || decide (w.applySkippedLevel ≠ 0) then (true, w)
  else if pts ≤ w.good ∧ count > 0 then (false, w)
  else
    match w.check pts count with
    | (true, w) => (true, w)
    | (false, w) => (false, keep w)

/-- The overloads with a payload. -/
def updatedItem (w : PtsWaiter υ μ) (pts count : Int) (item : PtsItem υ μ) : Bool × PtsWaiter υ μ :=
  w.updatedWith (fun w => w.save pts item) pts count

/-- The overload without a payload keeps nothing. -/
def updatedPts (w : PtsWaiter υ μ) (pts count : Int) : Bool × PtsWaiter υ μ :=
  w.updatedWith id pts count

def updateAndApplyItem (w : PtsWaiter υ μ) (pts count : Int) (item : PtsItem υ μ) :
    Bool × PtsWaiter υ μ :=
  match w.updatedItem pts count item with
  | (false, w) => (false, w)
  | (true, w) =>
      -- Optimization - no need to put in queue and back.
      if !w.waitingForSkipped || w.queue.isEmpty then (true, w.apply item)
      else (true, (w.save pts item).applySkippedUpdates)

def updateAndApplyUpdate (w : PtsWaiter υ μ) (pts count : Int) (update : υ) :
    Bool × PtsWaiter υ μ :=
  w.updateAndApplyItem pts count (.update update)

def updateAndApplyUpdates (w : PtsWaiter υ μ) (pts count : Int) (updates : μ) :
    Bool × PtsWaiter υ μ :=
  w.updateAndApplyItem pts count (.updates updates)

def updateAndApplyPts (w : PtsWaiter υ μ) (pts count : Int) : Bool × PtsWaiter υ μ :=
  match w.updatedPts pts count with
  | (false, w) => (false, w)
  | (true, w) => (true, w.applySkippedUpdates)

end Apply

/-! ## Invariants of every reachable waiter -/

/-- Side queues hold no stale keys, and nothing waits during a difference request. -/
structure Coherent (w : PtsWaiter υ μ) : Prop where
  level : w.applySkippedLevel = 0
  updateKeys : ∀ k u, (k, u) ∈ w.updateQueue.entries → w.queue.contains k = true
  updatesKeys : ∀ k us, (k, us) ∈ w.updatesQueue.entries → w.queue.contains k = true
  requestingEmpty : w.requesting = true → w.queue.entries = []

/-- The fields `Coherent` talks about. -/
structure SameQueues (w w' : PtsWaiter υ μ) : Prop where
  level : w'.applySkippedLevel = w.applySkippedLevel
  queue : w'.queue = w.queue
  updateQueue : w'.updateQueue = w.updateQueue
  updatesQueue : w'.updatesQueue = w.updatesQueue
  requesting : w'.requesting = w.requesting

theorem Coherent.transfer {w w' : PtsWaiter υ μ} (h : Coherent w) (same : SameQueues w w') :
    Coherent w' := by
  obtain ⟨level, queue, updateQueue, updatesQueue, requesting⟩ := same
  constructor
  · rw [level]; exact h.level
  · rw [queue, updateQueue]; exact h.updateKeys
  · rw [queue, updatesQueue]; exact h.updatesKeys
  · rw [queue, requesting]; exact h.requestingEmpty

theorem coherent_clear (w : PtsWaiter υ μ) : Coherent w.clearSkippedUpdates := by
  constructor <;> simp [clearSkippedUpdates]

theorem sameQueues_setWaitingForSkipped (w : PtsWaiter υ μ) (ms : Int) :
    SameQueues w (w.setWaitingForSkipped ms) := by
  unfold setWaitingForSkipped checkForWaiting startTimer
  split_ifs <;> constructor <;> rfl

theorem sameQueues_setWaitingForShortPoll (w : PtsWaiter υ μ) (ms : Int) :
    SameQueues w (w.setWaitingForShortPoll ms) := by
  unfold setWaitingForShortPoll checkForWaiting startTimer
  split_ifs <;> constructor <;> rfl

/-- The key `save` gives to an update. -/
def nextKey (w : PtsWaiter υ μ) (pts : Int) : Nat := makeKey pts ((w.skippedKey + 1) % 2 ^ 32)

@[simp]
theorem save_queue (w : PtsWaiter υ μ) (pts : Int) (item : PtsItem υ μ) :
    (w.save pts item).queue = w.queue.emplace (w.nextKey pts) item.kind := by
  cases item <;> rfl

theorem coherent_save {w : PtsWaiter υ μ} (h : Coherent w) (idle : w.requesting = false)
    (pts : Int) (item : PtsItem υ μ) : Coherent (w.save pts item) := by
  have old : ∀ k, w.queue.contains k = true → (w.save pts item).queue.contains k = true :=
    fun k member => by rw [save_queue]; exact SortedMap.contains_emplace.mpr (.inl member)
  have new : (w.save pts item).queue.contains (w.nextKey pts) = true := by
    rw [save_queue]
    exact SortedMap.contains_emplace.mpr (.inr rfl)
  cases item with
  | update u =>
      refine ⟨h.level, ?_, fun k us member => old k (h.updatesKeys k us member), ?_⟩
      · intro k v member
        rcases SortedMap.mem_emplace.mp member with member | ⟨same, -⟩
        · exact old k (h.updateKeys k v member)
        · obtain ⟨rfl, rfl⟩ := Prod.mk.inj same
          exact new
      · intro requesting
        exact absurd (idle.symm.trans requesting) (by decide)
  | updates us =>
      refine ⟨h.level, fun k u member => old k (h.updateKeys k u member), ?_, ?_⟩
      · intro k v member
        rcases SortedMap.mem_emplace.mp member with member | ⟨same, -⟩
        · exact old k (h.updatesKeys k v member)
        · obtain ⟨rfl, rfl⟩ := Prod.mk.inj same
          exact new
      · intro requesting
        exact absurd (idle.symm.trans requesting) (by decide)

/-- The counters after an update was counted in. -/
def counted (w : PtsWaiter υ μ) (pts count : Int) : PtsWaiter υ μ :=
  { w with last := max w.last pts, count := int32 (w.count + count) }

/-- All that `check` can do: start over, close the gap, or start waiting. -/
theorem check_cases (w : PtsWaiter υ μ) (pts count : Int) :
    (w.inited = false ∧ w.check pts count = (true, w.init pts)) ∨
    (w.inited = true ∧ (w.counted pts count).last = (w.counted pts count).count ∧
      w.check pts count = (true, { w.counted pts count with good := (w.counted pts count).last })) ∨
    (w.inited = true ∧ (w.counted pts count).last ≠ (w.counted pts count).count ∧
      ∃ ms, 0 ≤ ms ∧
        w.check pts count = (decide (count = 0), (w.counted pts count).setWaitingForSkipped ms)) := by
  cases inited : w.inited with
  | false => exact .inl ⟨rfl, by simp [check, inited]⟩
  | true =>
      right
      by_cases closed : (w.counted pts count).last = (w.counted pts count).count
      · have closed' : max w.last pts = int32 (w.count + count) := closed
        exact .inl ⟨rfl, closed, by simp [check, inited, counted, closed']⟩
      · have open' : max w.last pts ≠ int32 (w.count + count) := closed
        refine .inr ⟨rfl, closed, ?_⟩
        by_cases ahead : (w.counted pts count).last < (w.counted pts count).count
        · refine ⟨1, by omega, ?_⟩
          have ahead' : max w.last pts < int32 (w.count + count) := ahead
          simp only [check, inited, Bool.not_true, Bool.false_eq_true, if_false, open', ahead',
            if_true, counted]
        · refine ⟨kWaitForSkippedTimeout, by unfold kWaitForSkippedTimeout; omega, ?_⟩
          have ahead' : ¬ max w.last pts < int32 (w.count + count) := ahead
          simp only [check, inited, Bool.not_true, Bool.false_eq_true, if_false, open', ahead', counted]

theorem coherent_check {w : PtsWaiter υ μ} (h : Coherent w) (pts count : Int) :
    Coherent (w.check pts count).2 := by
  rcases check_cases w pts count with ⟨-, result⟩ | ⟨-, -, result⟩ | ⟨-, -, ms, -, result⟩
  · rw [result]
    exact coherent_clear _
  · rw [result]
    exact h.transfer ⟨rfl, rfl, rfl, rfl, rfl⟩
  · rw [result]
    exact Coherent.transfer (w := w.counted pts count) (h.transfer ⟨rfl, rfl, rfl, rfl, rfl⟩)
      (sameQueues_setWaitingForSkipped _ ms)

theorem check_requesting (w : PtsWaiter υ μ) (pts count : Int) :
    (w.check pts count).2.requesting = w.requesting := by
  rcases check_cases w pts count with ⟨-, result⟩ | ⟨-, -, result⟩ | ⟨-, -, ms, -, result⟩
  · rw [result]; rfl
  · rw [result]; rfl
  · rw [result]
    exact (sameQueues_setWaitingForSkipped _ ms).requesting

/-! ## What the primitives leave alone -/

@[simp]
theorem handed_append (a b : List (OwnerCall υ μ)) : handed (a ++ b) = handed a ++ handed b :=
  List.filterMap_append

/-- The fields that no queue operation touches. -/
structure SameCounters (w w' : PtsWaiter υ μ) : Prop where
  good : w'.good = w.good
  last : w'.last = w.last
  count : w'.count = w.count
  requesting : w'.requesting = w.requesting

theorem sameCounters_setWaitingForSkipped (w : PtsWaiter υ μ) (ms : Int) :
    SameCounters w (w.setWaitingForSkipped ms) := by
  unfold setWaitingForSkipped checkForWaiting startTimer
  split_ifs <;> constructor <;> rfl

theorem sameCounters_save (w : PtsWaiter υ μ) (pts : Int) (item : PtsItem υ μ) :
    SameCounters w (w.save pts item) := by
  cases item <;> exact ⟨rfl, rfl, rfl, rfl⟩

theorem handed_setWaitingForSkipped (w : PtsWaiter υ μ) (ms : Int) :
    handed (w.setWaitingForSkipped ms).owner = handed w.owner := by
  unfold setWaitingForSkipped checkForWaiting startTimer
  split_ifs <;> simp [handed, OwnerCall.item]

theorem handed_map_ofItem (f : α → PtsItem υ μ) (l : List α) :
    handed (l.map fun a => .ofItem (f a)) = l.map f := by
  simp [handed, List.filterMap_map]

theorem makeKey_pts {pts : Int} {skippedKey : Nat} (low : 0 ≤ pts) (high : pts < 2 ^ 31)
    (small : skippedKey < 2 ^ 32) : makeKey pts skippedKey / 2 ^ 32 = pts.toNat := by
  have wrapped : (pts % 2 ^ 32).toNat = pts.toNat := by omega
  rw [makeKey, wrapped, ← Nat.shiftLeft_add_eq_or_of_lt small, Nat.shiftLeft_eq]
  omega

theorem nextKey_pts (w : PtsWaiter υ μ) {pts : Int} (low : 0 ≤ pts) (high : pts < 2 ^ 31) :
    w.nextKey pts / 2 ^ 32 = pts.toNat :=
  makeKey_pts low high (Nat.mod_lt _ (by decide))

end PtsWaiter

/-- One call of `updateAndApply`, by any of its overloads. -/
structure PtsCall (υ μ : Type) where
  pts : Int
  count : Int
  item : Option (PtsItem υ μ)
  deriving DecidableEq, Repr

/-- Everything the owner and the timers do to a waiter. -/
inductive PtsStep (υ μ : Type) where
  | updateAndApply (call : PtsCall υ μ)
  | init (pts : Int)
  | setRequesting (isRequesting : Bool)
  | setWaitingForSkipped (ms : Int)
  | setWaitingForShortPoll (ms : Int)
  | applySkippedUpdates
  | clearSkippedUpdates

namespace PtsWaiter

variable {υ μ : Type} [Inhabited υ] [Inhabited μ]

def updateAndApply (w : PtsWaiter υ μ) (call : PtsCall υ μ) : PtsWaiter υ μ :=
  match call.item with
  | some (.update u) => (w.updateAndApplyUpdate call.pts call.count u).2
  | some (.updates us) => (w.updateAndApplyUpdates call.pts call.count us).2
  | none => (w.updateAndApplyPts call.pts call.count).2

def step (w : PtsWaiter υ μ) : PtsStep υ μ → PtsWaiter υ μ
  | .updateAndApply call => w.updateAndApply call
  | .init pts => w.init pts
  | .setRequesting isRequesting => w.setRequesting isRequesting
  | .setWaitingForSkipped ms => w.setWaitingForSkipped ms
  | .setWaitingForShortPoll ms => w.setWaitingForShortPoll ms
  | .applySkippedUpdates => w.applySkippedUpdates
  | .clearSkippedUpdates => w.clearSkippedUpdates

/-- States a waiter can be in between two calls. -/
def Reachable (w : PtsWaiter υ μ) : Prop :=
  ∃ steps : List (PtsStep υ μ), w = steps.foldl step {}

/-! ## One equation for the three overloads -/

/-- What an overload does once the update is known to be in order. -/
def deliver (w : PtsWaiter υ μ) (pts : Int) : Option (PtsItem υ μ) → PtsWaiter υ μ
  | some item =>
      if !w.waitingForSkipped || w.queue.isEmpty then w.apply item
      else (w.save pts item).applySkippedUpdates
  | none => w.applySkippedUpdates

/-- What an overload does with an update that has to wait. -/
def keep (w : PtsWaiter υ μ) (pts : Int) : Option (PtsItem υ μ) → PtsWaiter υ μ
  | some item => w.save pts item
  | none => w

theorem updateAndApply_eq (w : PtsWaiter υ μ) (call : PtsCall υ μ) :
    w.updateAndApply call =
      if w.requesting || decide (w.applySkippedLevel ≠ 0) then w.deliver call.pts call.item
      else if call.pts ≤ w.good ∧ call.count > 0 then w
      else
        match w.check call.pts call.count with
        | (true, w) => w.deliver call.pts call.item
        | (false, w) => w.keep call.pts call.item := by
  obtain ⟨pts, count, item⟩ := call
  have overload : ∀ keeping : PtsWaiter υ μ → PtsWaiter υ μ,
      w.updatedWith keeping pts count =
        if w.requesting || decide (w.applySkippedLevel ≠ 0) then (true, w)
        else if pts ≤ w.good ∧ count > 0 then (false, w)
        else ((w.check pts count).1,
          if (w.check pts count).1 then (w.check pts count).2 else keeping (w.check pts count).2) := by
    intro keeping
    unfold updatedWith
    rcases w.check pts count with ⟨_ | _, checked⟩ <;> rfl
  -- the overloads differ only in `deliver` and `keep`
  rcases item with _ | _ | _ <;>
    simp only [updateAndApply, updateAndApplyUpdate, updateAndApplyUpdates, updateAndApplyPts,
      updateAndApplyItem, updatedItem, updatedPts, overload, deliver, keep] <;>
    rcases w.check pts count with ⟨_ | _, checked⟩ <;>
    split_ifs <;> simp_all [apply_ite Prod.snd]

/-! ## Every reachable waiter is coherent -/

theorem coherent_applySkippedUpdates {w : PtsWaiter υ μ} (h : Coherent w) :
    Coherent w.applySkippedUpdates := by
  simp only [applySkippedUpdates]
  split_ifs
  · exact h
  · exact h.transfer (sameQueues_setWaitingForSkipped w _)
  · exact coherent_clear _

theorem coherent_deliver {w : PtsWaiter υ μ} (h : Coherent w) (pts : Int)
    (item : Option (PtsItem υ μ)) : Coherent (w.deliver pts item) := by
  cases item with
  | none => exact coherent_applySkippedUpdates h
  | some item =>
      rw [deliver]
      split_ifs with direct
      · exact h.transfer ⟨rfl, rfl, rfl, rfl, rfl⟩
      · -- something is queued, so no difference is being requested
        have idle : w.requesting = false := by
          cases requesting : w.requesting with
          | false => rfl
          | true => exact absurd (by simp [h.requestingEmpty requesting]) direct
        exact coherent_applySkippedUpdates (coherent_save h idle pts item)

theorem coherent_updateAndApply {w : PtsWaiter υ μ} (h : Coherent w) (call : PtsCall υ μ) :
    Coherent (w.updateAndApply call) := by
  rw [updateAndApply_eq]
  split_ifs with blocked
  · exact coherent_deliver h _ _
  · exact h
  · have checked := coherent_check h call.pts call.count
    have idle := check_requesting w call.pts call.count
    generalize w.check call.pts call.count = result at checked idle
    obtain ⟨ok, w'⟩ := result
    cases ok with
    | true => exact coherent_deliver checked _ _
    | false =>
        cases call.item with
        | none => exact checked
        | some item => exact coherent_save checked (idle.trans (by simp_all)) _ _

theorem Reachable.coherent {w : PtsWaiter υ μ} (reach : Reachable w) : Coherent w := by
  obtain ⟨steps, rfl⟩ := reach
  induction steps using List.reverseRecOn with
  | nil => constructor <;> simp
  | append_singleton steps step ih =>
      rw [List.foldl_append, List.foldl_cons, List.foldl_nil]
      cases step with
      | updateAndApply call => exact coherent_updateAndApply ih call
      | init pts => exact coherent_clear _
      | setRequesting isRequesting =>
          cases isRequesting with
          | true => exact coherent_clear _
          | false => exact ⟨ih.level, ih.updateKeys, ih.updatesKeys, fun h => Bool.noConfusion h⟩
      | setWaitingForSkipped ms => exact ih.transfer (sameQueues_setWaitingForSkipped _ ms)
      | setWaitingForShortPoll ms => exact ih.transfer (sameQueues_setWaitingForShortPoll _ ms)
      | applySkippedUpdates => exact coherent_applySkippedUpdates ih
      | clearSkippedUpdates => exact coherent_clear _

end PtsWaiter

end IMeDesktop.Data
