import IMeDesktop.Data.PtsWaiter

/-! # Updates of one run of the counter are delivered in order

The server numbers updates consecutively: each starts where the one before it
ended. Whatever order they arrive in, the waiter hands each of them to the owner
once and in that order. It never stores the counts of single updates, so the
argument is about sums: the counts that arrived add up to the largest counter
seen exactly when the arrived updates form an initial run.

The waiter has to start settled, with `last` and `count` equal to `good`. A call
without payload can leave it unsettled with an empty queue.
-/

namespace IMeDesktop.Data

open Lib

/-- An update with a payload. -/
structure PtsUpdate (υ μ : Type) where
  pts : Int
  count : Int
  item : PtsItem υ μ
  deriving DecidableEq

def PtsUpdate.call (u : PtsUpdate υ μ) : PtsCall υ μ := ⟨u.pts, u.count, some u.item⟩

/-- Each update continues the counter where the one before it left it. -/
def Consecutive : Int → List (PtsUpdate υ μ) → Prop
  | _, [] => True
  | start, u :: rest => 0 < u.count ∧ u.pts = start + u.count ∧ Consecutive u.pts rest

/-- The counter after a list of updates. -/
def endPts : Int → List (PtsUpdate υ μ) → Int
  | start, [] => start
  | _, u :: rest => endPts u.pts rest

theorem endPts_append (start : Int) (us vs : List (PtsUpdate υ μ)) :
    endPts start (us ++ vs) = endPts (endPts start us) vs := by
  induction us generalizing start with
  | nil => rfl
  | cons u rest ih => exact ih u.pts

/-- Sum of the counts. -/
def counts (us : List (PtsUpdate υ μ)) : Int := (us.map PtsUpdate.count).sum

namespace Consecutive

variable {υ μ : Type} {start last : Int} {us : List (PtsUpdate υ μ)}

theorem above (h : Consecutive start us) : ∀ u ∈ us, start < u.pts := by
  induction us generalizing start with
  | nil => simp
  | cons v rest ih =>
      obtain ⟨positive, next, tail⟩ := h
      intro u member
      rcases List.mem_cons.mp member with rfl | member
      · omega
      · have := ih tail u member
        omega

theorem increasing (h : Consecutive start us) : us.Pairwise (fun u v => u.pts < v.pts) := by
  induction us generalizing start with
  | nil => exact List.Pairwise.nil
  | cons v rest ih => exact List.pairwise_cons.mpr ⟨h.2.2.above, ih h.2.2⟩

theorem append {vs : List (PtsUpdate υ μ)} (h : Consecutive start (us ++ vs)) :
    Consecutive (endPts start us) vs := by
  induction us generalizing start with
  | nil => exact h
  | cons v rest ih => exact ih h.2.2

theorem initial {vs : List (PtsUpdate υ μ)} (h : Consecutive start (us ++ vs)) :
    Consecutive start us := by
  induction us generalizing start with
  | nil => trivial
  | cons v rest ih => exact ⟨h.1, h.2.1, ih h.2.2⟩

theorem counts_filter_nonneg (h : Consecutive start us) (p : PtsUpdate υ μ → Bool) :
    0 ≤ counts (us.filter p) := by
  induction us generalizing start with
  | nil => exact le_refl _
  | cons v rest ih =>
      have tail := ih h.2.2
      have positive := h.1
      simp only [counts, List.filter_cons] at tail ⊢
      split
      · simp only [List.map_cons, List.sum_cons]
        omega
      · exact tail

theorem counts_eq (h : Consecutive start us) : start + counts us = endPts start us := by
  induction us generalizing start with
  | nil => simp [counts, endPts]
  | cons v rest ih =>
      have tail := ih h.2.2
      have next := h.2.1
      simp only [counts, List.map_cons, List.sum_cons, endPts] at tail ⊢
      omega

theorem le_endPts (h : Consecutive start us) : ∀ u ∈ us, u.pts ≤ endPts start us := by
  induction us generalizing start with
  | nil => simp
  | cons v rest ih =>
      intro u member
      rcases List.mem_cons.mp member with rfl | member
      · cases rest with
        | nil => exact le_refl _
        | cons w rest' => exact (h.2.2.above w List.mem_cons_self).le.trans (ih h.2.2 w List.mem_cons_self)
      · exact ih h.2.2 u member

/-- Arrived updates of one run never count for more than the room below the
    largest of them. -/
theorem counts_filter_le (h : Consecutive start us) (p : PtsUpdate υ μ → Bool)
    (some : us.filter p ≠ []) (upper : ∀ u ∈ us.filter p, u.pts ≤ last) :
    start + counts (us.filter p) ≤ last := by
  induction us generalizing start with
  | nil => simp at some
  | cons v rest ih =>
      obtain ⟨positive, next, tail⟩ := h
      cases arrived : p v with
      | false =>
          simp only [List.filter_cons, arrived, Bool.false_eq_true, if_false] at some upper ⊢
          have := ih tail some upper
          omega
      | true =>
          simp only [List.filter_cons, arrived, if_true] at upper ⊢
          have first := upper v List.mem_cons_self
          have later := fun u member => upper u (List.mem_cons_of_mem _ member)
          simp only [counts, List.map_cons, List.sum_cons]
          by_cases empty : rest.filter p = []
          · simp only [empty, List.map_nil, List.sum_nil]
            omega
          · have := ih tail empty later
            simp only [counts] at this
            omega

/-- When the counts of the arrived updates reach the largest counter, the arrived
    updates are an initial run. -/
theorem filter_complete (h : Consecutive start us) (p : PtsUpdate υ μ → Bool)
    (upper : ∀ u ∈ us.filter p, u.pts ≤ last) (sum : start + counts (us.filter p) = last) :
    ∃ later, us = us.filter p ++ later ∧ later.filter p = [] := by
  induction us generalizing start with
  | nil => exact ⟨[], rfl, rfl⟩
  | cons v rest ih =>
      obtain ⟨positive, next, tail⟩ := h
      cases arrived : p v with
      | false =>
          simp only [List.filter_cons, arrived, Bool.false_eq_true, if_false] at upper sum ⊢
          -- the first update is missing, so nothing after it can have arrived
          have none : rest.filter p = [] := by
            by_contra some
            have := tail.counts_filter_le p some upper
            omega
          exact ⟨v :: rest, by simp [none], by simp [arrived, none]⟩
      | true =>
          simp only [List.filter_cons, arrived, if_true] at upper sum ⊢
          simp only [counts, List.map_cons, List.sum_cons] at sum
          obtain ⟨later, split, rest'⟩ := ih tail
            (fun u member => upper u (List.mem_cons_of_mem _ member))
            (by simp only [counts]; omega)
          exact ⟨later, by rw [List.cons_append, ← split], rest'⟩

end Consecutive

/-! ## What has arrived of a run -/

/-- The updates of `rest` that arrived already. -/
def pending (rest : List (PtsUpdate υ μ)) (seen : List Int) : List (PtsUpdate υ μ) :=
  rest.filter fun u => decide (u.pts ∈ seen)

theorem pending_cons {υ μ : Type} {start : Int} {rest : List (PtsUpdate υ μ)} {seen : List Int}
    {u : PtsUpdate υ μ} (consecutive : Consecutive start rest) (member : u ∈ rest)
    (fresh : u.pts ∉ seen) : (pending rest (u.pts :: seen)).Perm (u :: pending rest seen) := by
  have nodup : rest.Nodup := consecutive.increasing.imp fun h same => absurd (congrArg _ same) h.ne
  have apart : u ∉ pending rest seen := fun inside => fresh (by simpa using (List.mem_filter.mp inside).2)
  refine (List.perm_ext_iff_of_nodup (nodup.filter _)
    (List.nodup_cons.mpr ⟨apart, nodup.filter _⟩)).mpr fun v => ?_
  have unique : v ∈ rest → v.pts = u.pts → v = u := fun inside same =>
    List.inj_on_of_nodup_map
      (List.pairwise_map.mpr (consecutive.increasing.imp fun h => h.ne)) inside member same
  simp only [pending, List.mem_filter, List.mem_cons, decide_eq_true_eq]
  constructor
  · rintro ⟨inside, same | old⟩
    · exact .inl (unique inside same)
    · exact .inr ⟨inside, old⟩
  · rintro (rfl | ⟨inside, old⟩)
    · exact ⟨member, .inl rfl⟩
    · exact ⟨inside, .inr old⟩

namespace PtsWaiter

variable {υ μ : Type} [Inhabited υ] [Inhabited μ]

/-! ## The queue as a list of updates -/

/-- The queue in iteration order: counter and payload of each entry. -/
def skipped (w : PtsWaiter υ μ) : List (Nat × PtsItem υ μ) :=
  w.queue.entries.map fun entry => (entry.1 / 2 ^ 32, w.skippedItem entry)

theorem skipped_sorted (w : PtsWaiter υ μ) : w.skipped.Pairwise (fun a b => a.1 ≤ b.1) :=
  List.pairwise_map.mpr (w.queue.sorted.imp fun h => Nat.div_le_div_right h.le)

theorem skippedItem_save_old {w : PtsWaiter υ μ} {entry : Nat × PtsSkippedQueue} {pts : Int}
    (item : PtsItem υ μ) (other : entry.1 ≠ w.nextKey pts) :
    (w.save pts item).skippedItem entry = w.skippedItem entry := by
  have key : entry.1 ≠ makeKey pts ((w.skippedKey + 1) % 2 ^ 32) := other
  cases item <;> simp only [skippedItem, save, ptsKey, SortedMap.find?_emplace, key, if_false]

theorem skippedItem_save_new {w : PtsWaiter υ μ} (h : Coherent w) {pts : Int}
    (item : PtsItem υ μ) (fresh : w.queue.find? (w.nextKey pts) = none) :
    (w.save pts item).skippedItem (w.nextKey pts, item.kind) = item := by
  have unused : ¬ w.queue.contains (w.nextKey pts) = true := by
    rw [SortedMap.contains, fresh]
    exact Bool.false_ne_true
  cases item with
  | update u =>
      have missing : w.updateQueue.find? (w.nextKey pts) = none :=
        SortedMap.find?_eq_none.mpr fun v member => unused (h.updateKeys _ v member)
      have found : (w.save pts (.update u)).updateQueue.find? (w.nextKey pts) = some u := by
        change (w.updateQueue.emplace (w.nextKey pts) u).find? _ = _
        rw [SortedMap.find?_emplace, if_pos rfl, missing, Option.getD_none]
      simp only [skippedItem, PtsItem.kind, found, Option.getD_some]
  | updates us =>
      have missing : w.updatesQueue.find? (w.nextKey pts) = none :=
        SortedMap.find?_eq_none.mpr fun v member => unused (h.updatesKeys _ v member)
      have found : (w.save pts (.updates us)).updatesQueue.find? (w.nextKey pts) = some us := by
        change (w.updatesQueue.emplace (w.nextKey pts) us).find? _ = _
        rw [SortedMap.find?_emplace, if_pos rfl, missing, Option.getD_none]
      simp only [skippedItem, PtsItem.kind, found, Option.getD_some]

theorem skipped_save {w : PtsWaiter υ μ} (h : Coherent w) {pts : Int} (item : PtsItem υ μ)
    (low : 0 ≤ pts) (high : pts < 2 ^ 31) (fresh : w.queue.find? (w.nextKey pts) = none) :
    (w.save pts item).skipped.Perm ((pts.toNat, item) :: w.skipped) := by
  have entries := SortedMap.emplace_perm item.kind fresh
  unfold skipped
  rw [save_queue]
  refine (entries.map _).trans ?_
  rw [List.map_cons, skippedItem_save_new h item fresh, nextKey_pts w low high]
  refine List.Perm.cons _ (List.Perm.of_eq (List.map_congr_left ?_))
  intro entry member
  rw [skippedItem_save_old]
  rintro same
  exact SortedMap.find?_eq_none.mp fresh entry.2 (same ▸ member)

/-! ## Handing over -/

theorem skipped_setWaitingForSkipped (w : PtsWaiter υ μ) (ms : Int) :
    (w.setWaitingForSkipped ms).skipped = w.skipped := by
  obtain ⟨-, queue, updateQueue, updatesQueue, -⟩ := sameQueues_setWaitingForSkipped w ms
  simp only [skipped, skippedItem, queue, updateQueue, updatesQueue]

/-- A waiting queue is handed over as a whole, in the order of its keys. -/
theorem applySkippedUpdates_flush {w : PtsWaiter υ μ} (waiting : w.waitingForSkipped = true) :
    handed w.applySkippedUpdates.owner = handed w.owner ++ w.skipped.map Prod.snd ∧
      w.applySkippedUpdates.queue.entries = [] ∧ SameCounters w w.applySkippedUpdates := by
  have owner := handed_setWaitingForSkipped w (-1)
  have items := skipped_setWaitingForSkipped w (-1)
  have counters := sameCounters_setWaitingForSkipped w (-1)
  simp only [applySkippedUpdates, waiting, Bool.not_true, Bool.false_eq_true, if_false]
  split_ifs with empty
  · have none : w.skipped = [] := by
      rw [← items, skipped, (SortedMap.isEmpty_iff _).mp empty, List.map_nil]
    exact ⟨by simp [owner, none], (SortedMap.isEmpty_iff _).mp empty, counters⟩
  · refine ⟨?_, rfl, ⟨counters.good, counters.last, counters.count, counters.requesting⟩⟩
    change handed ((w.setWaitingForSkipped (-1)).owner ++ _) = _
    rw [handed_append, owner, ← items, skipped, List.map_map, handed_map_ofItem]
    rfl

/-! ## Progress of a run -/

/-- `done` was handed over; of `rest`, the updates in `seen` wait in the queue. -/
structure Progress (w₀ w : PtsWaiter υ μ) (done rest : List (PtsUpdate υ μ)) (seen : List Int) :
    Prop where
  coherent : Coherent w
  idle : w.requesting = false
  positive : 0 < w.good
  delivered : handed w.owner = handed w₀.owner ++ done.map PtsUpdate.item
  doneSeen : ∀ u ∈ done, u.pts ∈ seen
  reached : w.good = endPts w₀.good done
  consecutive : Consecutive w.good rest
  queued : w.skipped.Perm ((pending rest seen).map fun u => (u.pts.toNat, u.item))
  sum : w.count = w.good + counts (pending rest seen)
  upper : ∀ u ∈ pending rest seen, u.pts ≤ w.last
  attained : w.last = w.good ∨ ∃ u ∈ pending rest seen, w.last = u.pts
  waiting : pending rest seen ≠ [] → w.waitingForSkipped = true ∧ w.last ≠ w.count

/-- No queued key carries a counter that has not arrived. -/
theorem key_fresh {w : PtsWaiter υ μ} {rest : List (PtsUpdate υ μ)} {seen : List Int}
    {u : PtsUpdate υ μ} (queued : w.skipped.Perm ((pending rest seen).map fun v => (v.pts.toNat, v.item)))
    (positive : ∀ v ∈ rest, 0 < v.pts) (member : u ∈ rest) (fits : u.pts < 2 ^ 31)
    (fresh : u.pts ∉ seen) : w.queue.find? (w.nextKey u.pts) = none := by
  refine SortedMap.find?_eq_none.mpr fun kind inside => ?_
  have listed : (w.nextKey u.pts / 2 ^ 32, w.skippedItem (w.nextKey u.pts, kind)) ∈ w.skipped :=
    List.mem_map.mpr ⟨_, inside, rfl⟩
  obtain ⟨v, arrived, same⟩ := List.mem_map.mp (queued.mem_iff.mp listed)
  obtain ⟨vRest, vSeen⟩ := List.mem_filter.mp arrived
  have low := positive u member
  have counter : v.pts.toNat = u.pts.toNat :=
    (congrArg Prod.fst same).trans (nextKey_pts w low.le fits)
  have equal : v.pts = u.pts := by
    have := positive v vRest
    omega
  exact fresh (equal ▸ of_decide_eq_true vSeen)

/-- Once the gap is closed everything queued goes out with the new update, sorted. -/
theorem deliver_run {w : PtsWaiter υ μ} {u : PtsUpdate υ μ} {queuedRun run : List (PtsUpdate υ μ)}
    (coherent : Coherent w) (low : 0 ≤ u.pts) (fits : u.pts < 2 ^ 31)
    (fresh : w.queue.find? (w.nextKey u.pts) = none)
    (queued : w.skipped.Perm (queuedRun.map fun v => (v.pts.toNat, v.item)))
    (waiting : queuedRun ≠ [] → w.waitingForSkipped = true)
    (perm : run.Perm (u :: queuedRun)) (sorted : run.Pairwise fun a b => a.pts < b.pts)
    (positive : ∀ v ∈ run, 0 < v.pts) :
    handed (w.deliver u.pts (some u.item)).owner = handed w.owner ++ run.map PtsUpdate.item ∧
      (w.deliver u.pts (some u.item)).queue.entries = [] ∧
      SameCounters w (w.deliver u.pts (some u.item)) := by
  cases queuedRun with
  | nil =>
      have none : w.queue.entries = [] := List.map_eq_nil_iff.mp queued.eq_nil
      have alone : run = [u] := perm.eq_singleton
      rw [deliver, if_pos (by simp [none])]
      exact ⟨by simp [apply, handed, alone], none, ⟨rfl, rfl, rfl, rfl⟩⟩
  | cons v rest =>
      have isWaiting := waiting (by simp)
      have some : w.queue.entries ≠ [] := by
        intro none
        rw [skipped, none, List.map_nil] at queued
        exact absurd queued.symm.eq_nil (by simp)
      rw [deliver, if_neg (by simp [isWaiting, some])]
      have saved := skipped_save coherent u.item low fits fresh
      have flush := applySkippedUpdates_flush (w := w.save u.pts u.item)
        (by cases u.item <;> exact isWaiting)
      obtain ⟨owner, empty, counters⟩ := flush
      -- both lists hold the same updates and both are sorted by the counter
      have same : (w.save u.pts u.item).skipped = run.map fun v => (v.pts.toNat, v.item) := by
        have reorder := perm.symm.map fun v : PtsUpdate υ μ => (v.pts.toNat, v.item)
        have all : (w.save u.pts u.item).skipped.Perm (run.map fun v => (v.pts.toNat, v.item)) :=
          (saved.trans (queued.cons _)).trans reorder
        refine all.eq_of_pairwise ?_ (skipped_sorted _) (List.pairwise_map.mpr (sorted.imp fun h => by omega))
        intro a b ha hb hab hba
        obtain ⟨x, hx, rfl⟩ := List.mem_map.mp (all.mem_iff.mp ha)
        obtain ⟨y, hy, rfl⟩ := List.mem_map.mp hb
        have hx' := positive x hx
        have hy' := positive y hy
        have equal : x = y := List.inj_on_of_nodup_map
          (List.pairwise_map.mpr (sorted.imp fun h => h.ne)) hx hy (by simp only at hab hba; omega)
        rw [equal]
      have before := sameCounters_save w u.pts u.item
      refine ⟨?_, empty, ⟨counters.good.trans before.good, counters.last.trans before.last,
        counters.count.trans before.count, counters.requesting.trans before.requesting⟩⟩
      rw [owner, same, List.map_map]
      cases u.item <;> rfl

/-- The counters after `u` arrived, computed without wrap-around. -/
theorem counted_arrival {w₀ w : PtsWaiter υ μ} {done rest : List (PtsUpdate υ μ)} {seen : List Int}
    (h : Progress w₀ w done rest seen) {u : PtsUpdate υ μ} (member : u ∈ rest)
    (fresh : u.pts ∉ seen) (fits : ∀ v ∈ rest, v.pts < 2 ^ 31) :
    (w.counted u.pts u.count).count = w.good + counts (pending rest (u.pts :: seen)) ∧
      (∀ v ∈ pending rest (u.pts :: seen), v.pts ≤ (w.counted u.pts u.count).last) := by
  have above := h.consecutive.above u member
  have perm := pending_cons h.consecutive member fresh
  have sum : counts (pending rest (u.pts :: seen)) = u.count + counts (pending rest seen) := by
    simpa only [counts, List.map_cons, List.sum_cons] using (perm.map PtsUpdate.count).sum_eq
  have upper : ∀ v ∈ pending rest (u.pts :: seen), v.pts ≤ max w.last u.pts := by
    intro v arrived
    rcases List.mem_cons.mp (perm.mem_iff.mp arrived) with rfl | old
    · exact le_max_right _ _
    · exact (h.upper v old).trans (le_max_left _ _)
  refine ⟨?_, upper⟩
  have room : w.good + counts (pending rest (u.pts :: seen)) ≤ max w.last u.pts :=
    h.consecutive.counts_filter_le _ (List.ne_nil_of_mem (perm.mem_iff.mpr List.mem_cons_self)) upper
  have small : max w.last u.pts < 2 ^ 31 := by
    have bound := fits u member
    rcases h.attained with last | ⟨v, arrived, last⟩
    · omega
    · have := fits v (List.mem_of_mem_filter arrived)
      omega
  have nonneg := h.consecutive.counts_filter_nonneg (fun v => decide (v.pts ∈ u.pts :: seen))
  have positive := h.positive
  have previous := h.sum
  change int32 (w.count + u.count) = _
  rw [show w.count + u.count = w.good + counts (pending rest (u.pts :: seen)) by omega]
  exact int32_of_fits (by simp only [pending] at *; omega) (by omega)

theorem progress_closed {w₀ w : PtsWaiter υ μ} {done rest : List (PtsUpdate υ μ)} {seen : List Int}
    (h : Progress w₀ w done rest seen) {u : PtsUpdate υ μ} (member : u ∈ rest)
    (fresh : u.pts ∉ seen) (fits : ∀ v ∈ rest, v.pts < 2 ^ 31)
    (closed : (w.counted u.pts u.count).last = (w.counted u.pts u.count).count) :
    ∃ done' rest', done' ++ rest' = done ++ rest ∧ Progress w₀
      (PtsWaiter.deliver { w.counted u.pts u.count with good := (w.counted u.pts u.count).last }
        u.pts (some u.item)) done' rest' (u.pts :: seen) := by
  obtain ⟨sum, upper⟩ := counted_arrival h member fresh fits
  have allPositive : ∀ v ∈ rest, 0 < v.pts := fun v inside =>
    h.positive.trans (h.consecutive.above v inside)
  obtain ⟨later, split, none⟩ := h.consecutive.filter_complete
    (fun v => decide (v.pts ∈ u.pts :: seen)) upper (sum.symm.trans closed.symm)
  change rest = pending rest (u.pts :: seen) ++ later at split
  have consecutive : Consecutive w.good (pending rest (u.pts :: seen) ++ later) :=
    split ▸ h.consecutive
  -- the counter reached is the end of the delivered run
  have reached : (w.counted u.pts u.count).last = endPts w.good (pending rest (u.pts :: seen)) :=
    closed.trans (sum.trans consecutive.initial.counts_eq)
  set closing : PtsWaiter υ μ :=
    { w.counted u.pts u.count with good := (w.counted u.pts u.count).last } with hclosing
  have coherent : Coherent closing := h.coherent.transfer ⟨rfl, rfl, rfl, rfl, rfl⟩
  have keyFresh : closing.queue.find? (closing.nextKey u.pts) = .none :=
    key_fresh (w := closing) h.queued allPositive member (fits u member) fresh
  obtain ⟨owner, empty, counters⟩ := deliver_run coherent (allPositive u member).le (fits u member)
    keyFresh h.queued (fun some => (h.waiting some).1)
    (pending_cons h.consecutive member fresh) (h.consecutive.increasing.filter _)
    (fun v inside => allPositive v (List.mem_of_mem_filter inside))
  have nothing : (closing.deliver u.pts (some u.item)).skipped = [] := by rw [skipped, empty]; rfl
  have good : (closing.deliver u.pts (some u.item)).good = endPts w.good (pending rest (u.pts :: seen)) :=
    counters.good.trans reached
  refine ⟨done ++ pending rest (u.pts :: seen), later, by rw [List.append_assoc, ← split], ?_⟩
  refine ⟨coherent_deliver coherent _ _, counters.requesting.trans h.idle, ?_, ?_, ?_, ?_, ?_, ?_, ?_,
    ?_, ?_, ?_⟩
  · have last : w.good < (w.counted u.pts u.count).last :=
      (h.consecutive.above u member).trans_le (upper u
        ((pending_cons h.consecutive member fresh).mem_iff.mpr List.mem_cons_self))
    rw [counters.good]
    exact h.positive.trans last
  · rw [owner, List.map_append, ← List.append_assoc, ← h.delivered]
    rfl
  · intro v inside
    rcases List.mem_append.mp inside with old | new
    · exact List.mem_cons_of_mem _ (h.doneSeen v old)
    · exact of_decide_eq_true (List.mem_filter.mp new).2
  · rw [good, endPts_append, ← h.reached]
  · rw [good]
    exact consecutive.append
  · rw [nothing, pending, none]
    exact List.Perm.nil
  · rw [counters.count, counters.good, pending, none]
    simp only [counts, List.map_nil, List.sum_nil, Int.add_zero]
    exact closed.symm
  · rw [pending, none]
    simp
  · exact .inl (counters.last.trans counters.good.symm)
  · rw [pending, none]
    exact fun some => absurd rfl some

theorem progress_open {w₀ w : PtsWaiter υ μ} {done rest : List (PtsUpdate υ μ)} {seen : List Int}
    (h : Progress w₀ w done rest seen) {u : PtsUpdate υ μ} (member : u ∈ rest)
    (fresh : u.pts ∉ seen) (fits : ∀ v ∈ rest, v.pts < 2 ^ 31) {ms : Int} (wait : 0 ≤ ms)
    (gap : (w.counted u.pts u.count).last ≠ (w.counted u.pts u.count).count) :
    Progress w₀ (((w.counted u.pts u.count).setWaitingForSkipped ms).save u.pts u.item) done rest
      (u.pts :: seen) := by
  obtain ⟨sum, upper⟩ := counted_arrival h member fresh fits
  have allPositive : ∀ v ∈ rest, 0 < v.pts := fun v inside =>
    h.positive.trans (h.consecutive.above v inside)
  have perm := pending_cons h.consecutive member fresh
  set waiter := (w.counted u.pts u.count).setWaitingForSkipped ms with hwaiter
  have queues := sameQueues_setWaitingForSkipped (w.counted u.pts u.count) ms
  have coherent : Coherent waiter :=
    Coherent.transfer (w := w.counted u.pts u.count) (h.coherent.transfer ⟨rfl, rfl, rfl, rfl, rfl⟩) queues
  have items : waiter.skipped = w.skipped := skipped_setWaitingForSkipped (w.counted u.pts u.count) ms
  have keyFresh : waiter.queue.find? (waiter.nextKey u.pts) = none :=
    key_fresh (by rw [items]; exact h.queued) allPositive member (fits u member) fresh
  have counters := sameCounters_setWaitingForSkipped (w.counted u.pts u.count) ms
  have saved := sameCounters_save waiter u.pts u.item
  have good : (waiter.save u.pts u.item).good = w.good := saved.good.trans counters.good
  have last : (waiter.save u.pts u.item).last = (w.counted u.pts u.count).last :=
    saved.last.trans counters.last
  have count : (waiter.save u.pts u.item).count = (w.counted u.pts u.count).count :=
    saved.count.trans counters.count
  refine ⟨coherent_save coherent (queues.requesting.trans h.idle) _ _,
    saved.requesting.trans (queues.requesting.trans h.idle), ?_, ?_, ?_, ?_, ?_, ?_, ?_, ?_, ?_, ?_⟩
  · rw [good]
    exact h.positive
  · have owner : (waiter.save u.pts u.item).owner = waiter.owner := by cases u.item <;> rfl
    rw [owner, hwaiter, handed_setWaitingForSkipped]
    exact h.delivered
  · exact fun v inside => List.mem_cons_of_mem _ (h.doneSeen v inside)
  · rw [good]
    exact h.reached
  · rw [good]
    exact h.consecutive
  · have reorder := perm.symm.map fun v : PtsUpdate υ μ => (v.pts.toNat, v.item)
    refine (skipped_save coherent u.item (allPositive u member).le (fits u member) keyFresh).trans ?_
    rw [items]
    exact (h.queued.cons _).trans reorder
  · rw [good, count]
    exact sum
  · rw [last]
    exact upper
  · right
    rw [last]
    rcases le_total u.pts w.last with below | beyond
    · rcases h.attained with reachedLast | ⟨v, arrived, same⟩
      · have := h.consecutive.above u member
        omega
      · exact ⟨v, perm.mem_iff.mpr (List.mem_cons_of_mem _ arrived), (max_eq_left below).trans same⟩
    · exact ⟨u, perm.mem_iff.mpr List.mem_cons_self, max_eq_right beyond⟩
  · intro some
    refine ⟨?_, by rw [last, count]; exact gap⟩
    have flag : waiter.waitingForSkipped = true := by
      rw [hwaiter, setWaitingForSkipped, if_pos wait]
    cases u.item <;> exact flag

/-- One arrival keeps the invariant, handing over a run if it closes the gap. -/
theorem progress_step {w₀ w : PtsWaiter υ μ} {done rest : List (PtsUpdate υ μ)} {seen : List Int}
    (h : Progress w₀ w done rest seen) {u : PtsUpdate υ μ} (member : u ∈ rest)
    (fresh : u.pts ∉ seen) (fits : ∀ v ∈ rest, v.pts < 2 ^ 31) (positive : 0 < u.count) :
    ∃ done' rest', done' ++ rest' = done ++ rest ∧
      Progress w₀ (w.updateAndApply u.call) done' rest' (u.pts :: seen) := by
  have ahead := h.consecutive.above u member
  rw [updateAndApply_eq, if_neg (by simp [h.idle, h.coherent.level]),
    if_neg (by simp only [PtsUpdate.call]; omega)]
  rcases check_cases w u.pts u.count with ⟨uninited, -⟩ | ⟨-, closed, result⟩ | ⟨-, gap, ms, wait, result⟩
  · have := h.positive
    simp only [inited, decide_eq_false_iff_not] at uninited
    omega
  · simp only [PtsUpdate.call, result]
    exact progress_closed h member fresh fits closed
  · simp only [PtsUpdate.call, result, decide_eq_false (show ¬ u.count = 0 by omega)]
    exact ⟨done, rest, rfl, progress_open h member fresh fits wait gap⟩

/-! ## Whole runs -/

/-- Updates passed one after the other, with no timer, difference or reset in between. -/
def receive (w : PtsWaiter υ μ) (us : List (PtsUpdate υ μ)) : PtsWaiter υ μ :=
  us.foldl (fun w u => w.updateAndApply u.call) w

theorem progress_run {w₀ w : PtsWaiter υ μ} {done rest order : List (PtsUpdate υ μ)} {seen : List Int}
    (h : Progress w₀ w done rest seen) (inside : ∀ u ∈ order, u ∈ done ++ rest)
    (fresh : ∀ u ∈ order, u.pts ∉ seen) (distinct : (order.map PtsUpdate.pts).Nodup)
    (fits : ∀ u ∈ done ++ rest, u.pts < 2 ^ 31) (positive : ∀ u ∈ done ++ rest, 0 < u.count) :
    ∃ done' rest' seen', done' ++ rest' = done ++ rest ∧
      (∀ u ∈ order, u.pts ∈ seen') ∧ Progress w₀ (w.receive order) done' rest' (seen' ++ seen) := by
  induction order generalizing w done rest seen with
  | nil => exact ⟨done, rest, [], rfl, by simp, h⟩
  | cons u order ih =>
      obtain ⟨notLater, distinct'⟩ := List.nodup_cons.mp distinct
      have unseen := fresh u List.mem_cons_self
      have member : u ∈ rest := by
        rcases List.mem_append.mp (inside u List.mem_cons_self) with old | here
        · exact absurd (h.doneSeen u old) unseen
        · exact here
      obtain ⟨done₁, rest₁, same₁, h₁⟩ := progress_step h member unseen
        (fun v hv => fits v (List.mem_append_right _ hv))
        (positive u (inside u List.mem_cons_self))
      have fresh₁ : ∀ v ∈ order, v.pts ∉ u.pts :: seen := by
        intro v hv
        simp only [List.mem_cons, not_or]
        exact ⟨fun same => notLater (same ▸ List.mem_map_of_mem hv), fresh v (List.mem_cons_of_mem _ hv)⟩
      obtain ⟨done₂, rest₂, seen₂, same₂, arrived, h₂⟩ := ih h₁
        (fun v hv => same₁ ▸ inside v (List.mem_cons_of_mem _ hv)) fresh₁ distinct'
        (same₁ ▸ fits) (same₁ ▸ positive)
      refine ⟨done₂, rest₂, seen₂ ++ [u.pts], same₂.trans same₁, ?_, ?_⟩
      · intro v hv
        rcases List.mem_cons.mp hv with rfl | hv
        · exact List.mem_append_right _ List.mem_cons_self
        · exact List.mem_append_left _ (arrived v hv)
      · rw [List.append_assoc]
        exact h₂

/-- With everything arrived, nothing is left waiting. -/
theorem progress_end {w₀ w : PtsWaiter υ μ} {done rest : List (PtsUpdate υ μ)} {seen : List Int}
    (h : Progress w₀ w done rest seen) (arrived : ∀ u ∈ rest, u.pts ∈ seen) : rest = [] := by
  have all : pending rest seen = rest :=
    List.filter_eq_self.mpr fun u hu => decide_eq_true (arrived u hu)
  cases rest with
  | nil => rfl
  | cons u later =>
      obtain ⟨-, gap⟩ := h.waiting (by simp [all])
      have sum := h.sum
      have upper := h.upper
      have attained := h.attained
      rw [all] at sum upper attained
      have total := h.consecutive.counts_eq
      -- the last update of the run is the largest counter that arrived
      have isEnd : w.last = endPts w.good (u :: later) := by
        refine le_antisymm ?_ ?_
        · rcases attained with same | ⟨v, hv, same⟩
          · have first := h.consecutive.above u List.mem_cons_self
            have := h.consecutive.le_endPts u List.mem_cons_self
            omega
          · exact same.le.trans (h.consecutive.le_endPts v hv)
        · obtain ⟨v, hv, same⟩ : ∃ v ∈ u :: later, endPts w.good (u :: later) = v.pts := by
            clear * -
            induction later generalizing u w with
            | nil => exact ⟨u, List.mem_cons_self, rfl⟩
            | cons v rest ih =>
                obtain ⟨x, hx, same⟩ := ih (w := w) v
                exact ⟨x, List.mem_cons_of_mem _ hx, same⟩
          exact same.le.trans (upper v hv)
      omega

/-- A settled waiter hands over the updates of one run of the counter once each
    and in counter order, whatever order they arrive in. -/
theorem receive_delivers_in_order {w : PtsWaiter υ μ} (reach : Reachable w)
    (inited : w.inited = true) (idle : w.requesting = false) (empty : w.queue.isEmpty = true)
    (settled : w.last = w.current ∧ w.count = w.current) {us order : List (PtsUpdate υ μ)}
    (consecutive : Consecutive w.current us) (fits : ∀ u ∈ us, u.pts < 2 ^ 31)
    (perm : order.Perm us) :
    handed (w.receive order).owner = handed w.owner ++ us.map PtsUpdate.item ∧
      us.Pairwise (fun u v => u.pts < v.pts) ∧
      (w.receive order).current = endPts w.current us ∧
      (w.receive order).queue.isEmpty = true := by
  have noQueue := (SortedMap.isEmpty_iff _).mp empty
  have nothing : pending us [] = [] := by simp [pending]
  have start : Progress w w [] us [] := by
    refine ⟨reach.coherent, idle, by simpa [PtsWaiter.inited] using inited, by simp, by simp, rfl,
      consecutive, ?_, ?_, ?_, .inl settled.1, ?_⟩
    · rw [nothing, skipped, noQueue]
      exact List.Perm.nil
    · rw [nothing]
      simpa [counts, current] using settled.2
    · rw [nothing]
      simp
    · rw [nothing]
      exact fun some => absurd rfl some
  have positive : ∀ u ∈ us, 0 < u.count := by
    clear * - consecutive
    generalize w.current = start at consecutive
    induction us generalizing start with
    | nil => simp
    | cons v rest ih =>
        intro u hu
        rcases List.mem_cons.mp hu with rfl | hu
        · exact consecutive.1
        · exact ih _ consecutive.2.2 u hu
  have distinct : (order.map PtsUpdate.pts).Nodup :=
    (perm.map _).nodup_iff.mpr (List.pairwise_map.mpr (consecutive.increasing.imp fun h => h.ne))
  obtain ⟨done, rest, seen, same, arrived, final⟩ := progress_run start
    (fun u hu => perm.mem_iff.mp hu) (by simp) distinct fits positive
  rw [List.append_nil] at final
  rw [List.nil_append] at same
  have finished : rest = [] := progress_end final fun u hu =>
    arrived u (perm.mem_iff.mpr (same ▸ List.mem_append_right _ hu))
  subst finished
  rw [List.append_nil] at same
  subst same
  refine ⟨final.delivered, consecutive.increasing, final.reached, ?_⟩
  have queue := final.queued
  rw [pending, List.filter_nil, List.map_nil] at queue
  exact (SortedMap.isEmpty_iff _).mpr (List.map_eq_nil_iff.mp queue.eq_nil)

/-- Three updates after counter 10 that arrive last one first. -/
theorem receive_delivers_reversed :
    handed ((({} : PtsWaiter Nat Nat).init 10).receive
      [⟨14, 1, .update 3⟩, ⟨13, 2, .updates 2⟩, ⟨11, 1, .update 1⟩]).owner =
      [.update 1, .updates 2, .update 3] := by
  have run : Consecutive 10 [⟨11, 1, .update 1⟩, ⟨13, 2, .updates 2⟩, ⟨14, 1, .update 3⟩] :=
    ⟨by decide, rfl, by decide, rfl, by decide, rfl, trivial⟩
  exact (receive_delivers_in_order (w := ({} : PtsWaiter Nat Nat).init 10) ⟨[.init 10], rfl⟩
    (by decide) rfl rfl ⟨rfl, rfl⟩ run (by decide) (by decide)).1

/-- A waiter at counter 10 that was told of counter 12 by a call without payload:
    nothing is queued, but the gap is still open. -/
def unsettled : PtsWaiter Nat Nat := (({} : PtsWaiter Nat Nat).init 10).updateAndApply ⟨12, 1, none⟩

/-- From the unsettled waiter the second of two consecutive updates is never handed over. -/
theorem unsettled_loses_update :
    ¬ ∀ (w : PtsWaiter Nat Nat) (us order : List (PtsUpdate Nat Nat)), Reachable w →
      w.inited = true → w.requesting = false → w.queue.isEmpty = true →
      Consecutive w.current us → (∀ u ∈ us, u.pts < 2 ^ 31) → order.Perm us →
      handed (w.receive order).owner = handed w.owner ++ us.map PtsUpdate.item := by
  intro claim
  have lost := claim unsettled [⟨11, 1, .update 1⟩, ⟨12, 1, .update 2⟩]
    [⟨11, 1, .update 1⟩, ⟨12, 1, .update 2⟩] ⟨[.init 10, .updateAndApply ⟨12, 1, none⟩], rfl⟩
    (by decide) (by decide) (by decide) ⟨by decide, by decide, by decide, by decide, trivial⟩
    (by decide) (List.Perm.refl _)
  exact absurd lost (by decide)

end PtsWaiter

end IMeDesktop.Data
