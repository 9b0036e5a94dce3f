import Mathlib.Order.Interval.Finset.Basic
import Mathlib.Data.Int.Interval
import IMeDesktop.Lib.Packing
import IMeDesktop.Data.PtsOrder

/-! # When the waiter knows that no update is missing

An update with counter `pts` and count `count` accounts for the counters in
`(pts - count, pts]`. The waiter moves `good` forward when the counts it added up
reach the largest counter. That is sound as long as no counter is accounted for
twice: the received spans are then disjoint parts of `(good, last]`, and parts
whose sizes add up to the whole leave nothing out.

The waiter keeps no list of what it counted. An update received a second time
before its gap is closed is counted again, and an update with count zero hands
over everything that waits; neither is a gap the waiter can see.
-/

namespace IMeDesktop.Data

open Lib

namespace PtsCall

/-- A counter is accounted for by a received update. -/
def Covers (call : PtsCall υ μ) (x : Int) : Prop := call.pts - call.count < x ∧ x ≤ call.pts

/-- Values that the callers pass. -/
def Valid (call : PtsCall υ μ) : Prop := 0 < call.pts ∧ call.pts < 2 ^ 31 ∧ 0 ≤ call.count

noncomputable def span (call : PtsCall υ μ) : Finset Int := Finset.Ioc (call.pts - call.count) call.pts

theorem card_span (call : PtsCall υ μ) : call.span.card = call.count.toNat := by
  rw [span, Int.card_Ioc]
  congr 1
  omega

end PtsCall

/-- The received updates that the waiter at `good` counted. -/
def taken (good : Int) (since : List (PtsCall υ μ)) : List (PtsCall υ μ) :=
  since.filter fun call => decide (good < call.pts ∧ 0 < call.count)

theorem mem_taken {good : Int} {since : List (PtsCall υ μ)} {call : PtsCall υ μ} :
    call ∈ taken good since ↔ call ∈ since ∧ good < call.pts ∧ 0 < call.count := by
  simp [taken]

/-- An update that is counted repeats no counter, passed or received since. -/
def Fresh (good : Int) (since : List (PtsCall υ μ)) (call : PtsCall υ μ) : Prop :=
  good < call.pts → 0 < call.count →
    good ≤ call.pts - call.count ∧
    ∀ old ∈ since, 0 < old.count → old.pts ≤ call.pts - call.count ∨ call.pts ≤ old.pts - old.count

/-! ## The sum of the counts -/

/-- The two counters of the waiter, read as a statement about what it received. -/
structure Tally (good last count : Int) (since : List (PtsCall υ μ)) : Prop where
  above : good ≤ last
  fits : last < 2 ^ 31
  disjoint : ((taken good since).map PtsCall.span).Pairwise Disjoint
  inside : ∀ call ∈ taken good since, good ≤ call.pts - call.count ∧ call.pts ≤ last
  sum : count = good + ((taken good since).map PtsCall.count).sum

namespace Tally

variable {υ μ : Type} {good last count : Int} {since : List (PtsCall υ μ)}

theorem start (fits : good < 2 ^ 31) : Tally good good good ([] : List (PtsCall υ μ)) :=
  ⟨le_refl _, fits, List.Pairwise.nil, by simp [taken], by simp [taken]⟩

theorem spans_inside (h : Tally good last count since) :
    ∀ part ∈ (taken good since).map PtsCall.span, part ⊆ Finset.Ioc good last := by
  intro part member
  obtain ⟨call, counted, rfl⟩ := List.mem_map.mp member
  have bounds := h.inside call counted
  intro x inside
  simp only [PtsCall.span, Finset.mem_Ioc] at inside ⊢
  omega

/-- Counts are the sizes of the spans. -/
theorem sum_card {calls : List (PtsCall υ μ)} (positive : ∀ call ∈ calls, 0 < call.count) :
    (((calls.map PtsCall.span).map Finset.card).sum : Int) = (calls.map PtsCall.count).sum := by
  induction calls with
  | nil => rfl
  | cons call rest ih =>
      have here := positive call List.mem_cons_self
      have later := ih fun c member => positive c (List.mem_cons_of_mem _ member)
      simp only [List.map_cons, List.sum_cons, PtsCall.card_span] at later ⊢
      omega

theorem taken_positive (good : Int) (since : List (PtsCall υ μ)) :
    ∀ call ∈ taken good since, 0 < call.count :=
  fun _ member => (mem_taken.mp member).2.2

theorem count_le (h : Tally good last count since) : count ≤ last := by
  have room := Packing.sum_card_le h.disjoint h.spans_inside
  have sizes := sum_card (taken_positive good since)
  have sum := h.sum
  have above := h.above
  rw [Int.card_Ioc] at room
  omega

/-- A sum that reaches the largest counter leaves no counter out. -/
theorem covers (h : Tally good last count since) (closed : last = count) {x : Int}
    (low : good < x) (high : x ≤ last) : ∃ call ∈ since, call.Covers x := by
  have sizes := sum_card (taken_positive good since)
  have sum := h.sum
  have full : (Finset.Ioc good last).card ≤
      (((taken good since).map PtsCall.span).map Finset.card).sum := by
    rw [Int.card_Ioc]
    omega
  obtain ⟨part, member, found⟩ := Packing.covers_of_sum_card h.disjoint h.spans_inside full x
    (Finset.mem_Ioc.mpr ⟨low, high⟩)
  obtain ⟨call, counted, rfl⟩ := List.mem_map.mp member
  exact ⟨call, (mem_taken.mp counted).1, Finset.mem_Ioc.mp found⟩

theorem taken_skip (since : List (PtsCall υ μ)) {call : PtsCall υ μ} (skip : ¬ (good < call.pts ∧ 0 < call.count)) :
    taken good (call :: since) = taken good since := by
  rw [taken, List.filter_cons, if_neg (by simpa using skip)]
  rfl

theorem taken_take (since : List (PtsCall υ μ)) {call : PtsCall υ μ} (take : good < call.pts ∧ 0 < call.count) :
    taken good (call :: since) = call :: taken good since := by
  rw [taken, List.filter_cons, if_pos (by simpa using take)]
  rfl

/-- A passed update that comes again changes nothing. -/
theorem ignore (h : Tally good last count since) {call : PtsCall υ μ} (passed : call.pts ≤ good) :
    Tally good last count (call :: since) := by
  have skip : ¬ (good < call.pts ∧ 0 < call.count) := by omega
  have same := taken_skip since skip
  exact ⟨h.above, h.fits, same ▸ h.disjoint, same ▸ h.inside, same ▸ h.sum⟩

/-- What `check` does to the counters keeps their meaning. -/
theorem count_in (h : Tally good last count since) {call : PtsCall υ μ} (low : 0 < good)
    (valid : call.Valid) (fresh : Fresh good since call) (counted : ¬ (call.pts ≤ good ∧ call.count > 0)) :
    Tally good (max last call.pts) (int32 (count + call.count)) (call :: since) := by
  obtain ⟨-, small, nonneg⟩ := valid
  have above := h.above
  have fits := h.fits
  by_cases take : good < call.pts ∧ 0 < call.count
  · have list := taken_take since take
    obtain ⟨begins, apart⟩ := fresh take.1 take.2
    have disjoint : ((taken good (call :: since)).map PtsCall.span).Pairwise Disjoint := by
      rw [list, List.map_cons, List.pairwise_cons]
      refine ⟨fun part member => ?_, h.disjoint⟩
      obtain ⟨old, listed, rfl⟩ := List.mem_map.mp member
      have away := apart old (mem_taken.mp listed).1 (mem_taken.mp listed).2.2
      refine Finset.disjoint_left.mpr fun x here there => ?_
      simp only [PtsCall.span, Finset.mem_Ioc] at here there
      omega
    have inside : ∀ c ∈ taken good (call :: since),
        good ≤ c.pts - c.count ∧ c.pts ≤ max last call.pts := by
      rw [list]
      intro c member
      rcases List.mem_cons.mp member with rfl | member
      · exact ⟨begins, le_max_right _ _⟩
      · have := h.inside c member
        omega
    have sum : count + call.count = good + ((taken good (call :: since)).map PtsCall.count).sum := by
      rw [list, List.map_cons, List.sum_cons, h.sum]
      omega
    have whole : Tally good (max last call.pts) (count + call.count) (call :: since) :=
      ⟨by omega, by omega, disjoint, inside, sum⟩
    have bound := whole.count_le
    have counts : 0 ≤ ((taken good since).map PtsCall.count).sum := by
      rw [← sum_card (taken_positive good since)]
      exact Int.natCast_nonneg _
    have lower := h.sum
    rw [int32_of_fits (by omega) (by omega)]
    exact whole
  · -- count zero: only the largest counter can change
    have zero : call.count = 0 := by omega
    have same := taken_skip since take
    have bound := h.count_le
    have counts : 0 ≤ ((taken good since).map PtsCall.count).sum := by
      rw [← sum_card (taken_positive good since)]
      exact Int.natCast_nonneg _
    have lower := h.sum
    rw [zero, int32_of_fits (by omega) (by omega), Int.add_zero]
    refine ⟨by omega, by omega, same ▸ h.disjoint, ?_, same ▸ h.sum⟩
    intro c member
    have := h.inside c (same ▸ member)
    omega

end Tally

namespace PtsWaiter

variable {υ μ : Type} [Inhabited υ] [Inhabited μ]

/-! ## What one call does -/

theorem sameCounters_applySkippedUpdates (w : PtsWaiter υ μ) : SameCounters w w.applySkippedUpdates := by
  have stopped := sameCounters_setWaitingForSkipped w (-1)
  simp only [applySkippedUpdates]
  split_ifs
  · exact ⟨rfl, rfl, rfl, rfl⟩
  · exact stopped
  · exact ⟨stopped.good, stopped.last, stopped.count, stopped.requesting⟩

theorem sameCounters_deliver (w : PtsWaiter υ μ) (pts : Int) (item : Option (PtsItem υ μ)) :
    SameCounters w (w.deliver pts item) := by
  cases item with
  | none => exact sameCounters_applySkippedUpdates w
  | some item =>
      rw [deliver]
      split_ifs
      · exact ⟨rfl, rfl, rfl, rfl⟩
      · have saved := sameCounters_save w pts item
        have applied := sameCounters_applySkippedUpdates (w.save pts item)
        exact ⟨applied.good.trans saved.good, applied.last.trans saved.last,
          applied.count.trans saved.count, applied.requesting.trans saved.requesting⟩

omit [Inhabited υ] [Inhabited μ] in
theorem sameCounters_keep (w : PtsWaiter υ μ) (pts : Int) (item : Option (PtsItem υ μ)) :
    SameCounters w (w.keep pts item) := by
  cases item with
  | none => exact ⟨rfl, rfl, rfl, rfl⟩
  | some item => exact sameCounters_save w pts item

theorem queue_applySkippedUpdates (w : PtsWaiter υ μ) :
    w.applySkippedUpdates.queue = w.queue ∨ w.applySkippedUpdates.queue.entries = [] := by
  simp only [applySkippedUpdates]
  split_ifs
  · exact .inl rfl
  · exact .inl (sameQueues_setWaitingForSkipped w (-1)).queue
  · exact .inr rfl

/-- Handing over empties the queue or leaves it alone. -/
theorem queue_deliver (w : PtsWaiter υ μ) (pts : Int) (item : Option (PtsItem υ μ)) :
    (w.deliver pts item).queue = w.queue ∨ (w.deliver pts item).queue.entries = [] := by
  cases item with
  | none => exact queue_applySkippedUpdates w
  | some item =>
      rw [deliver]
      split_ifs with direct
      · exact .inl rfl
      · right
        have waiting : w.waitingForSkipped = true := by
          cases waiting : w.waitingForSkipped with
          | true => rfl
          | false => exact absurd (by simp [waiting]) direct
        have waiting' : (w.save pts item).waitingForSkipped = true := by
          cases item <;> exact waiting
        have stopped := (sameQueues_setWaitingForSkipped (w.save pts item) (-1)).queue
        simp only [applySkippedUpdates, waiting', Bool.not_true, Bool.false_eq_true, if_false]
        split_ifs with empty
        · exact (SortedMap.isEmpty_iff _).mp empty
        · rfl

/-- What leaves the queue goes to the owner, unless its key is being used again. -/
theorem leaves_queue_handed {w : PtsWaiter υ μ} {pts : Int} {item : Option (PtsItem υ μ)}
    {entry : Nat × PtsSkippedQueue} (member : entry ∈ w.queue.entries)
    (gone : entry ∉ (w.deliver pts item).queue.entries) (other : entry.1 ≠ w.nextKey pts) :
    ∃ new, handed (w.deliver pts item).owner = handed w.owner ++ new ∧ w.skippedItem entry ∈ new := by
  cases waiting : w.waitingForSkipped with
  | false =>
      -- a waiter that does not wait hands over nothing but the update itself
      cases item with
      | none => exact absurd (by simpa [deliver, applySkippedUpdates, waiting] using member) gone
      | some item => exact absurd (by simpa [deliver, waiting, apply] using member) gone
  | true =>
      cases item with
      | none =>
          obtain ⟨new, -, -⟩ := applySkippedUpdates_flush waiting
          exact ⟨_, new, List.mem_map.mpr ⟨_, List.mem_map.mpr ⟨entry, member, rfl⟩, rfl⟩⟩
      | some item =>
          have some : ¬ (!w.waitingForSkipped || w.queue.isEmpty) = true := by
            rw [waiting, Bool.not_true, Bool.false_or, SortedMap.isEmpty_iff]
            exact List.ne_nil_of_mem member
          have waiting' : (w.save pts item).waitingForSkipped = true := by
            cases item <;> exact waiting
          have owner : (w.save pts item).owner = w.owner := by cases item <;> rfl
          obtain ⟨new, -, -⟩ := applySkippedUpdates_flush waiting'
          rw [deliver, if_neg some]
          refine ⟨_, owner ▸ new, List.mem_map.mpr ⟨_, List.mem_map.mpr ⟨entry, ?_, rfl⟩, ?_⟩⟩
          · rw [save_queue]
            exact SortedMap.mem_emplace.mpr (.inl member)
          · exact skippedItem_save_old item other

/-- All that a call can do to an inited waiter with no difference under way:
    ignore it, close the gap, or find it open. -/
theorem updateAndApply_cases {w : PtsWaiter υ μ} (level : w.applySkippedLevel = 0)
    (idle : w.requesting = false) (inited : w.inited = true) (call : PtsCall υ μ) :
    (call.pts ≤ w.good ∧ call.count > 0 ∧ w.updateAndApply call = w) ∨
    (¬ (call.pts ≤ w.good ∧ call.count > 0) ∧
      (w.counted call.pts call.count).last = (w.counted call.pts call.count).count ∧
      w.updateAndApply call =
        deliver { w.counted call.pts call.count with good := (w.counted call.pts call.count).last }
          call.pts call.item) ∨
    (¬ (call.pts ≤ w.good ∧ call.count > 0) ∧
      (w.counted call.pts call.count).last ≠ (w.counted call.pts call.count).count ∧
      ∃ ms, w.updateAndApply call =
        if call.count = 0 then
          ((w.counted call.pts call.count).setWaitingForSkipped ms).deliver call.pts call.item
        else ((w.counted call.pts call.count).setWaitingForSkipped ms).keep call.pts call.item) := by
  rw [updateAndApply_eq, if_neg (by simp [level, idle])]
  by_cases passed : call.pts ≤ w.good ∧ call.count > 0
  · rw [if_pos passed]
    exact .inl ⟨passed.1, passed.2, rfl⟩
  · rw [if_neg passed]
    right
    rcases check_cases w call.pts call.count with ⟨fresh, -⟩ | ⟨-, closed, result⟩ |
      ⟨-, gap, ms, -, result⟩
    · exact absurd (fresh.symm.trans inited) Bool.false_ne_true
    · rw [result]
      exact .inl ⟨passed, closed, rfl⟩
    · refine .inr ⟨passed, gap, ms, ?_⟩
      rw [result]
      by_cases zero : call.count = 0
      · rw [decide_eq_true zero, if_pos zero]
      · rw [decide_eq_false zero, if_neg zero]

/-! ## Histories -/

/-- The updates received since `current` became what it is, latest first. -/
def sinceAfter (w : PtsWaiter υ μ) (since : List (PtsCall υ μ)) (call : PtsCall υ μ) :
    List (PtsCall υ μ) :=
  if (w.updateAndApply call).current = w.current then call :: since else []

/-- A property of every call of a history, with what was received before it. -/
def Along (property : PtsWaiter υ μ → List (PtsCall υ μ) → PtsCall υ μ → Prop) :
    PtsWaiter υ μ → List (PtsCall υ μ) → List (PtsCall υ μ) → Prop
  | _, _, [] => True
  | w, since, call :: calls =>
      property w since call ∧ Along property (w.updateAndApply call) (w.sinceAfter since call) calls

/-- An advance of `current` passes no counter that was not received. -/
def AdvanceCovered (w : PtsWaiter υ μ) (since : List (PtsCall υ μ)) (call : PtsCall υ μ) : Prop :=
  ∀ x, w.current < x → x ≤ (w.updateAndApply call).current → ∃ c ∈ call :: since, c.Covers x

/-- A queued update leaves the queue only when everything below it was received. -/
def HandOverCovered (w : PtsWaiter υ μ) (since : List (PtsCall υ μ)) (call : PtsCall υ μ) : Prop :=
  ∀ entry ∈ w.queue.entries, entry ∉ (w.updateAndApply call).queue.entries →
    ∀ x, w.current < x → x < (entry.1 / 2 ^ 32 : Nat) → ∃ c ∈ call :: since, c.Covers x

/-- What holds between two calls of a history without repeated counters. -/
structure Account (w : PtsWaiter υ μ) (since : List (PtsCall υ μ)) : Prop where
  coherent : Coherent w
  idle : w.requesting = false
  positive : 0 < w.good
  tally : Tally w.good w.last w.count since
  queued : ∀ entry ∈ w.queue.entries, ((entry.1 / 2 ^ 32 : Nat) : Int) ≤ w.last

omit [Inhabited υ] [Inhabited μ] in
theorem account_ignored {w : PtsWaiter υ μ} {since : List (PtsCall υ μ)} (h : Account w since)
    {call : PtsCall υ μ} (passed : call.pts ≤ w.good) : Account w (call :: since) :=
  ⟨h.coherent, h.idle, h.positive, h.tally.ignore passed, h.queued⟩

/-- The queue after a hand-over holds nothing above `last`. -/
theorem queued_deliver {w : PtsWaiter υ μ} {pts last : Int} {item : Option (PtsItem υ μ)}
    (queued : ∀ entry ∈ w.queue.entries, ((entry.1 / 2 ^ 32 : Nat) : Int) ≤ last) :
    ∀ entry ∈ (w.deliver pts item).queue.entries, ((entry.1 / 2 ^ 32 : Nat) : Int) ≤ last := by
  rcases queue_deliver w pts item with same | none
  · rw [same]
    exact queued
  · rw [none]
    simp

omit [Inhabited υ] [Inhabited μ] in
theorem queued_keep {w : PtsWaiter υ μ} {pts last : Int} {item : Option (PtsItem υ μ)}
    (low : 0 < pts) (high : pts < 2 ^ 31) (bound : pts ≤ last)
    (queued : ∀ entry ∈ w.queue.entries, ((entry.1 / 2 ^ 32 : Nat) : Int) ≤ last) :
    ∀ entry ∈ (w.keep pts item).queue.entries, ((entry.1 / 2 ^ 32 : Nat) : Int) ≤ last := by
  cases item with
  | none => exact queued
  | some item =>
      intro entry member
      rw [keep, save_queue] at member
      rcases SortedMap.mem_emplace.mp member with old | ⟨rfl, -⟩
      · exact queued entry old
      · rw [nextKey_pts w low.le high]
        omega

omit [Inhabited υ] [Inhabited μ] in
/-- Counting in a call leaves queues and `good` alone. -/
theorem account_counted {w : PtsWaiter υ μ} {since : List (PtsCall υ μ)} (h : Account w since)
    {call : PtsCall υ μ} (valid : call.Valid) (fresh : Fresh w.good since call)
    (taken : ¬ (call.pts ≤ w.good ∧ call.count > 0)) (ms : Int) :
    Account ((w.counted call.pts call.count).setWaitingForSkipped ms) (call :: since) := by
  have queues := sameQueues_setWaitingForSkipped (w.counted call.pts call.count) ms
  have counters := sameCounters_setWaitingForSkipped (w.counted call.pts call.count) ms
  have coherent : Coherent (w.counted call.pts call.count) :=
    h.coherent.transfer ⟨rfl, rfl, rfl, rfl, rfl⟩
  refine ⟨coherent.transfer queues, queues.requesting.trans h.idle, ?_, ?_, ?_⟩
  · rw [counters.good]
    exact h.positive
  · rw [counters.good, counters.last, counters.count]
    exact h.tally.count_in h.positive valid fresh taken
  · rw [queues.queue, counters.last]
    intro entry member
    exact (h.queued entry member).trans (le_max_left _ _)

theorem account_deliver {w : PtsWaiter υ μ} {since : List (PtsCall υ μ)} (h : Account w since)
    (pts : Int) (item : Option (PtsItem υ μ)) : Account (w.deliver pts item) since := by
  have counters := sameCounters_deliver w pts item
  refine ⟨coherent_deliver h.coherent pts item, counters.requesting.trans h.idle, ?_, ?_, ?_⟩
  · rw [counters.good]
    exact h.positive
  · rw [counters.good, counters.last, counters.count]
    exact h.tally
  · rw [counters.last]
    exact queued_deliver h.queued

omit [Inhabited υ] [Inhabited μ] in
theorem account_keep {w : PtsWaiter υ μ} {since : List (PtsCall υ μ)} (h : Account w since)
    {pts : Int} (low : 0 < pts) (high : pts < 2 ^ 31) (bound : pts ≤ w.last)
    (item : Option (PtsItem υ μ)) : Account (w.keep pts item) since := by
  have counters := sameCounters_keep w pts item
  refine ⟨?_, counters.requesting.trans h.idle, ?_, ?_, ?_⟩
  · cases item with
    | none => exact h.coherent
    | some item => exact coherent_save h.coherent h.idle pts item
  · rw [counters.good]
    exact h.positive
  · rw [counters.good, counters.last, counters.count]
    exact h.tally
  · rw [counters.last]
    exact queued_keep low high bound h.queued

omit [Inhabited υ] [Inhabited μ] in
/-- Nothing leaves the queue of a waiter that keeps an update. -/
theorem mem_keep {w : PtsWaiter υ μ} {pts : Int} {item : Option (PtsItem υ μ)}
    {entry : Nat × PtsSkippedQueue} (member : entry ∈ w.queue.entries) :
    entry ∈ (w.keep pts item).queue.entries := by
  cases item with
  | none => exact member
  | some item =>
      rw [keep, save_queue]
      exact SortedMap.mem_emplace.mpr (.inl member)

/-- One call keeps the account and passes no missing counter. -/
theorem account_step {w : PtsWaiter υ μ} {since : List (PtsCall υ μ)} (h : Account w since)
    {call : PtsCall υ μ} (valid : call.Valid) (fresh : Fresh w.good since call) :
    (AdvanceCovered w since call ∧ (0 < call.count → HandOverCovered w since call)) ∧
      Account (w.updateAndApply call) (w.sinceAfter since call) := by
  have inited : w.inited = true := decide_eq_true h.positive
  rcases updateAndApply_cases h.coherent.level h.idle inited call with
    ⟨passed, -, result⟩ | ⟨counts, closed, result⟩ | ⟨counts, -, ms, result⟩
  · -- already passed
    refine ⟨⟨?_, ?_⟩, ?_⟩
    · intro x low high
      rw [result] at high
      omega
    · intro _ entry member gone
      rw [result] at gone
      exact absurd member gone
    · rw [sinceAfter, result, if_pos rfl]
      exact account_ignored h passed
  · -- the gap closes: every counter up to `last` was received
    have tally := h.tally.count_in h.positive valid fresh counts
    have counters := sameCounters_deliver
      { w.counted call.pts call.count with good := (w.counted call.pts call.count).last }
      call.pts call.item
    rw [← result] at counters
    have top : w.last ≤ max w.last call.pts := le_max_left _ _
    refine ⟨⟨?_, ?_⟩, ?_⟩
    · intro x low high
      rw [current, counters.good] at high
      exact tally.covers closed low high
    · intro _ entry member gone x low high
      have bound := h.queued entry member
      exact tally.covers closed low (by omega)
    · have settled : Tally (max w.last call.pts) (max w.last call.pts)
          (int32 (w.count + call.count)) (w.sinceAfter since call) := by
        rw [sinceAfter]
        split_ifs with same
        · have stays : max w.last call.pts = w.good := counters.good.symm.trans same
          rw [stays] at tally ⊢
          exact tally
        · have full : max w.last call.pts = int32 (w.count + call.count) := closed
          rw [← full]
          exact Tally.start tally.fits
      rw [result]
      apply account_deliver
      refine ⟨h.coherent.transfer ⟨rfl, rfl, rfl, rfl, rfl⟩, h.idle, ?_, settled, ?_⟩
      · exact h.positive.trans_le tally.above
      · intro entry member
        exact (h.queued entry member).trans top
  · have counted := account_counted h valid fresh counts ms
    have good : ((w.counted call.pts call.count).setWaitingForSkipped ms).good = w.good :=
      (sameCounters_setWaitingForSkipped _ ms).good
    split_ifs at result with zero
    · have counters := sameCounters_deliver
        ((w.counted call.pts call.count).setWaitingForSkipped ms) call.pts call.item
      rw [← result] at counters
      have unchanged : (w.updateAndApply call).current = w.current := counters.good.trans good
      refine ⟨⟨?_, ?_⟩, ?_⟩
      · intro x low high
        rw [unchanged] at high
        exact absurd low (not_lt.mpr high)
      · intro positive
        omega
      · rw [sinceAfter, if_pos unchanged, result]
        exact account_deliver counted _ _
    · have counters := sameCounters_keep
        ((w.counted call.pts call.count).setWaitingForSkipped ms) call.pts call.item
      rw [← result] at counters
      have unchanged : (w.updateAndApply call).current = w.current := counters.good.trans good
      refine ⟨⟨?_, ?_⟩, ?_⟩
      · intro x low high
        rw [unchanged] at high
        exact absurd low (not_lt.mpr high)
      · intro _ entry member gone
        rw [result] at gone
        refine absurd (mem_keep ?_) gone
        rw [(sameQueues_setWaitingForSkipped _ ms).queue]
        exact member
      · rw [sinceAfter, if_pos unchanged, result]
        refine account_keep counted valid.1 valid.2.1 ?_ _
        rw [(sameCounters_setWaitingForSkipped _ ms).last]
        exact le_max_right _ _

/-- From a settled waiter, as long as no counter is accounted for twice between two
    advances, the waiter never advances past a missing counter, and no call with a
    positive count lets a queued update overtake one. -/
theorem updateAndApply_passes_no_gap {w : PtsWaiter υ μ} (reach : Reachable w)
    (inited : w.inited = true) (idle : w.requesting = false) (empty : w.queue.isEmpty = true)
    (settled : w.last = w.current ∧ w.count = w.current) (fits : w.current < 2 ^ 31)
    {calls : List (PtsCall υ μ)} (valid : ∀ call ∈ calls, call.Valid)
    (fresh : Along (fun w since call => Fresh w.current since call) w [] calls) :
    Along (fun w since call =>
      AdvanceCovered w since call ∧ (0 < call.count → HandOverCovered w since call)) w [] calls := by
  have start : Account w [] := by
    refine ⟨reach.coherent, idle, by simpa [PtsWaiter.inited] using inited, ?_, ?_⟩
    · rw [settled.1, settled.2]
      exact Tally.start fits
    · simp [(SortedMap.isEmpty_iff _).mp empty]
  clear reach inited idle empty settled fits
  generalize ([] : List (PtsCall υ μ)) = since at start fresh ⊢
  induction calls generalizing w since with
  | nil => trivial
  | cons call calls ih =>
      obtain ⟨covered, next⟩ := account_step start (valid call List.mem_cons_self) fresh.1
      exact ⟨covered, ih (fun c member => valid c (List.mem_cons_of_mem _ member)) _ next fresh.2⟩

/-- Counter 13 arrives early and again after it was passed; in between the gap closes. -/
theorem updateAndApply_passes_no_gap_redelivered :
    Along (fun w since call =>
      AdvanceCovered w since call ∧ (0 < call.count → HandOverCovered w since call))
      (({} : PtsWaiter Nat Nat).init 10) []
      [⟨13, 1, some (.update 2)⟩, ⟨12, 2, some (.update 1)⟩, ⟨13, 1, some (.update 2)⟩] :=
  updateAndApply_passes_no_gap ⟨[.init 10], rfl⟩ (by decide) rfl rfl ⟨rfl, rfl⟩ (by decide)
    (by simp [PtsCall.Valid])
    ⟨fun _ _ => ⟨by decide, by decide⟩, fun _ _ => ⟨by decide, by decide⟩,
      fun above _ => absurd above (by decide), trivial⟩

/-- Counter 13 delivered three times over moves the waiter from 10 to 13 with 11 and 12
    missing, and a zero-count update hands over 13 with both missing. -/
theorem updateAndApply_passes_gap :
    (¬ ∀ calls : List (PtsCall Nat Nat), (∀ call ∈ calls, call.Valid) →
      Along AdvanceCovered (({} : PtsWaiter Nat Nat).init 10) [] calls) ∧
    (¬ ∀ calls : List (PtsCall Nat Nat), (∀ call ∈ calls, call.Valid) →
      Along HandOverCovered (({} : PtsWaiter Nat Nat).init 10) [] calls) := by
  constructor
  · intro claim
    have third := (claim [⟨13, 1, some (.update 1)⟩, ⟨13, 1, some (.update 1)⟩,
      ⟨13, 1, some (.update 1)⟩] (by simp [PtsCall.Valid])).2.2.1
    obtain ⟨c, member, low, -⟩ := third 11 (by decide) (by decide)
    simp only [sinceAfter, List.mem_cons, List.mem_ite_nil_right] at member
    rcases member with rfl | ⟨-, rfl | ⟨-, rfl | none⟩⟩
    · exact absurd low (by decide)
    · exact absurd low (by decide)
    · exact absurd low (by decide)
    · exact absurd none List.not_mem_nil
  · intro claim
    have second := (claim [⟨13, 1, some (.update 1)⟩, ⟨13, 0, some (.update 2)⟩]
      (by simp [PtsCall.Valid])).2.1
    obtain ⟨c, member, low, -⟩ := second (makeKey 13 1, .skippedUpdate) (by decide) (by decide) 11
      (by decide) (by decide)
    simp only [sinceAfter, List.mem_cons, List.mem_ite_nil_right] at member
    rcases member with rfl | ⟨-, rfl | none⟩
    · exact absurd low (by decide)
    · exact absurd low (by decide)
    · exact absurd none List.not_mem_nil

end PtsWaiter

end IMeDesktop.Data
