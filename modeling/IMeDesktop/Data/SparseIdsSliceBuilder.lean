import IMeDesktop.Storage.SparseIdsList

/-! # The window on a list with gaps

`SparseIdsSliceBuilder` shows some ids of a `SparseIdsList` around a key, with the number
of all ids and of those before and behind the ones shown, as far as they are known. It is
given the results of queries, the updates of the list and what is removed from it.

The three numbers should add up. They do as long as every step meets a condition that is
exact here: news that change the number of all ids have to agree with what is known of the
other two, and a removed id has to be one that was counted on a side.
-/

namespace IMeDesktop.Data

open Lib Storage

inductive LoadDirection where
  | around
  | before
  | after
  deriving DecidableEq, Repr

structure AroundData where
  aroundId : Int
  direction : LoadDirection
  deriving DecidableEq, Repr

/-- `insufficientAround` are the requests that were fired. -/
structure SparseIdsSliceBuilder where
  key : Int
  limitBefore : Nat
  limitAfter : Nat
  ids : FlatSet Int := .empty
  fullCount : Option Int := none
  skippedBefore : Option Int := none
  skippedAfter : Option Int := none
  insufficientAround : List AroundData := []

namespace SparseIdsSliceBuilder

def requestMessages (b : SparseIdsSliceBuilder) (direction : LoadDirection) : SparseIdsSliceBuilder :=
  let data : AroundData :=
    match b.ids.items.head?, b.ids.items.getLast? with
    | some front, some back =>
        if direction = .before then { aroundId := front, direction := .before }
        else { aroundId := back, direction := .after }
    | _, _ => { aroundId := b.key, direction := .around }
  { b with insufficientAround := b.insufficientAround ++ [data] }

def requestMessagesCount (b : SparseIdsSliceBuilder) : SparseIdsSliceBuilder :=
  { b with insufficientAround := b.insufficientAround ++ [{ aroundId := 0, direction := .around }] }

/-- How many ids before the key are more than the limit, or less. -/
def removeFromBegin (b : SparseIdsSliceBuilder) : Int := b.ids.lowerBound b.key - b.limitBefore

def removeFromEnd (b : SparseIdsSliceBuilder) : Int := b.ids.size - b.ids.lowerBound b.key - b.limitAfter - 1

def sliceBegin (b : SparseIdsSliceBuilder) (remove : Int) : Bool × SparseIdsSliceBuilder :=
  if remove > 0 then
    (false, { b with ids := b.ids.eraseFirst remove.toNat, skippedBefore := b.skippedBefore.map (· + remove) })
  else if remove < 0 ∧ b.skippedBefore.all (· > 0) then (true, b.requestMessages .before)
  else (false, b)

def sliceEnd (b : SparseIdsSliceBuilder) (remove : Int) : Bool × SparseIdsSliceBuilder :=
  if remove > 0 then
    (false, { b with ids := b.ids.eraseLast remove.toNat, skippedAfter := b.skippedAfter.map (· + remove) })
  else if remove < 0 ∧ b.skippedAfter.all (· > 0) then (true, b.requestMessages .after)
  else (false, b)

def sliceToLimits (b : SparseIdsSliceBuilder) : SparseIdsSliceBuilder :=
  if b.key = 0 then if b.fullCount = none then b.requestMessagesCount else b
  else
    let fromEnd := b.removeFromEnd
    let (before, b) := b.sliceBegin b.removeFromBegin
    let (after, b) := b.sliceEnd fromEnd
    if b.fullCount = none ∧ ¬ (before ∨ after) then b.requestMessagesCount else b

def fillSkippedAndSliceToLimits (b : SparseIdsSliceBuilder) : SparseIdsSliceBuilder :=
  sliceToLimits
    (match b.fullCount, b.skippedBefore, b.skippedAfter with
    | some fullCount, some before, none => { b with skippedAfter := some (fullCount - before - b.ids.size) }
    | some fullCount, none, some after => { b with skippedBefore := some (fullCount - after - b.ids.size) }
    | _, _, _ => b)

/-- What is left before the merged ids: by what is told, or by what was known before. -/
def adjustedSkippedBefore (b : SparseIdsSliceBuilder) (messageIds : FlatSet Int) (skippedBefore : Option Int) :
    Option Int :=
  let ids := b.ids.merge messageIds.items
  let adjust (oldId oldSkippedBefore : Int) : Int := max (oldSkippedBefore - ids.items.idxOf oldId) 0
  match messageIds.items.head?, skippedBefore with
  | some first, some skippedBefore => some (adjust first skippedBefore)
  | _, _ =>
      let wasMinId := b.ids.items.head?.getD (-1)
      if wasMinId ≥ 0 then b.skippedBefore.map (adjust wasMinId) else none

def adjustedSkippedAfter (b : SparseIdsSliceBuilder) (messageIds : FlatSet Int) (skippedAfter : Option Int) :
    Option Int :=
  let ids := b.ids.merge messageIds.items
  let adjust (oldId oldSkippedAfter : Int) : Int := max (oldSkippedAfter - (ids.size - ids.items.idxOf oldId - 1)) 0
  match messageIds.items.getLast?, skippedAfter with
  | some last, some skippedAfter => some (adjust last skippedAfter)
  | _, _ =>
      let wasMaxId := b.ids.items.getLast?.getD (-1)
      if wasMaxId ≥ 0 then b.skippedAfter.map (adjust wasMaxId) else none

/-- The count alone is news. -/
def mergeCount (b : SparseIdsSliceBuilder) (count : Option Int) : SparseIdsSliceBuilder :=
  match count with
  | none => b
  | some count =>
      if b.fullCount = some count then b
      else if toSize count ≤ b.ids.size then
        { b with fullCount := some b.ids.size, skippedBefore := some 0, skippedAfter := some 0 }
      else { b with fullCount := some count }

def mergeSliceData (b : SparseIdsSliceBuilder) (count : Option Int) (messageIds : FlatSet Int)
    (skippedBefore skippedAfter : Option Int) : SparseIdsSliceBuilder :=
  if messageIds.items = [] then (b.mergeCount count).fillSkippedAndSliceToLimits
  else
    fillSkippedAndSliceToLimits
      { b with
        fullCount := count.or b.fullCount
        ids := b.ids.merge messageIds.items
        skippedBefore := b.adjustedSkippedBefore messageIds skippedBefore
        skippedAfter := b.adjustedSkippedAfter messageIds skippedAfter }

def applyInitial (b : SparseIdsSliceBuilder) (result : SparseIdsListResult) : Bool × SparseIdsSliceBuilder :=
  (true, b.mergeSliceData result.count result.messageIds result.skippedBefore result.skippedAfter)

/-- The messages of an update that touches the window. -/
def updateMessages (b : SparseIdsSliceBuilder) (update : SparseIdsSliceUpdate) : Option (FlatSet Int) :=
  let front := b.ids.items.head?.getD b.key
  let back := b.ids.items.getLast?.getD b.key
  if update.range.start ≤ back ∧ front ≤ update.range.till then update.messages else none

def applyUpdate (b : SparseIdsSliceBuilder) (update : SparseIdsSliceUpdate) : Bool × SparseIdsSliceBuilder :=
  let messages := b.updateMessages update
  if messages = none ∧ update.count = none then (false, b)
  else
    (true, b.mergeSliceData update.count (messages.getD .empty) (if update.range.start = 0 then some 0 else none)
      (if update.range.till = ServerMaxMsgId then some 0 else none))

/-- One id less of those that are counted on the side of the removed one. -/
def removeSkipped (b : SparseIdsSliceBuilder) (messageId : Int) : Bool × SparseIdsSliceBuilder :=
  match b.ids.items.head?, b.ids.items.getLast? with
  | some front, some back =>
      if front > messageId ∧ b.skippedBefore.any (· > 0) then
        (true, { b with skippedBefore := b.skippedBefore.map (· - 1) })
      else if back < messageId ∧ b.skippedAfter.any (· > 0) then
        (true, { b with skippedAfter := b.skippedAfter.map (· - 1) })
      else (false, b)
  | _, _ => (false, b)

def removeOne (b : SparseIdsSliceBuilder) (messageId : Int) : Bool × SparseIdsSliceBuilder :=
  let counted := b.fullCount.any (· > 0)
  let b := if counted then { b with fullCount := b.fullCount.map (· - 1) } else b
  let (changed, b) :=
    if messageId ∈ b.ids then (true, { b with ids := b.ids.remove messageId }) else b.removeSkipped messageId
  if counted ∨ changed then (true, b.sliceToLimits) else (false, b)

def removeAll (b : SparseIdsSliceBuilder) : Bool × SparseIdsSliceBuilder :=
  (true, { b with ids := .empty, fullCount := some 0, skippedBefore := some 0, skippedAfter := some 0 })

def checkInsufficient (b : SparseIdsSliceBuilder) : SparseIdsSliceBuilder := b.sliceToLimits

def invalidateBottom (b : SparseIdsSliceBuilder) : Bool × SparseIdsSliceBuilder :=
  (true, { b with fullCount := none, skippedAfter := none }.checkInsufficient)

inductive Operation where
  | applyInitial (result : SparseIdsListResult)
  | applyUpdate (update : SparseIdsSliceUpdate)
  | removeOne (messageId : Int)
  | removeAll
  | invalidateBottom
  | checkInsufficient

def step (b : SparseIdsSliceBuilder) : Operation → SparseIdsSliceBuilder
  | .applyInitial result => (b.applyInitial result).2
  | .applyUpdate update => (b.applyUpdate update).2
  | .removeOne messageId => (b.removeOne messageId).2
  | .removeAll => b.removeAll.2
  | .invalidateBottom => b.invalidateBottom.2
  | .checkInsufficient => b.checkInsufficient

/-! ## Numbers that add up -/

/-- The numbers add up and none is negative, where all three are known. -/
def Balanced (b : SparseIdsSliceBuilder) : Prop :=
  ∀ total before after, b.fullCount = some total → b.skippedBefore = some before → b.skippedAfter = some after →
    total = before + b.ids.size + after ∧ 0 ≤ total ∧ 0 ≤ before ∧ 0 ≤ after

/-- The ids before the key that are over the limit. -/
def excessBefore (key : Int) (limitBefore : Nat) (ids : FlatSet Int) : Int :=
  if key = 0 then 0 else max (ids.lowerBound key - limitBefore) 0

def excessAfter (key : Int) (limitAfter : Nat) (ids : FlatSet Int) : Int :=
  if key = 0 then 0 else max (ids.size - ids.lowerBound key - limitAfter - 1) 0

/-- The number of all ids, if it is known, agrees with what is known of the others. Ids over the limit count to their
side. -/
def Fits (b : SparseIdsSliceBuilder) (ids : FlatSet Int) (total before after : Option Int) : Prop :=
  ∀ n, total = some n →
    match before, after with
    | some x, some y => n = x + ids.size + y
    | some x, none => x + ids.size ≤ n + excessAfter b.key b.limitAfter ids
    | none, some y => y + ids.size ≤ n + excessBefore b.key b.limitBefore ids
    | none, none => True

/-- What is left before the ids shown and the news together: of what is told about the news, all but the ids shown
before them, and else, of what is known about the ids shown, all but the news before them. -/
def leftBefore (b : SparseIdsSliceBuilder) (news : FlatSet Int) (told : Option Int) : Option Int :=
  match news.items.head?, told, b.ids.items.head? with
  | some first, some told, _ => some (max (told - b.ids.countBelow first) 0)
  | _, _, some first =>
      if 0 ≤ first then b.skippedBefore.map fun known => max (known - news.countBelow first) 0 else none
  | _, _, none => none

def leftAfter (b : SparseIdsSliceBuilder) (news : FlatSet Int) (told : Option Int) : Option Int :=
  match news.items.getLast?, told, b.ids.items.getLast? with
  | some last, some told, _ => some (max (told - b.ids.countAbove last) 0)
  | _, _, some last =>
      if 0 ≤ last then b.skippedAfter.map fun known => max (known - news.countAbove last) 0 else none
  | _, _, none => none

/-- News that may be merged: where there are no ids, a new number of all ids has to fit what is known; where there are,
what is then known has to fit. -/
def FitsNews (b : SparseIdsSliceBuilder) (count : Option Int) (messageIds : FlatSet Int)
    (skippedBefore skippedAfter : Option Int) : Prop :=
  if messageIds.items = [] then
    ∀ n, count = some n → b.fullCount ≠ some n → ¬ toSize n ≤ b.ids.size →
      b.Fits b.ids (some n) b.skippedBefore b.skippedAfter
  else
    b.Fits (b.ids.merge messageIds.items) (count.or b.fullCount) (b.leftBefore messageIds skippedBefore)
      (b.leftAfter messageIds skippedAfter)

/-- Where everything is known, a removed id is one of those shown, or counted on the side it is on. -/
def FitsRemoved (b : SparseIdsSliceBuilder) (messageId : Int) : Prop :=
  ∀ total before after, b.fullCount = some total → 0 < total → b.skippedBefore = some before →
    b.skippedAfter = some after →
      messageId ∈ b.ids ∨ (0 < before ∧ ∃ front, b.ids.items.head? = some front ∧ messageId < front) ∨
        (0 < after ∧ ∃ back, b.ids.items.getLast? = some back ∧ back < messageId)

/-- The steps that keep the numbers. -/
def FitsStep (b : SparseIdsSliceBuilder) : Operation → Prop
  | .applyInitial result =>
      b.FitsNews result.count result.messageIds result.skippedBefore result.skippedAfter
  | .applyUpdate update =>
      (b.updateMessages update = none ∧ update.count = none) ∨
        b.FitsNews update.count ((b.updateMessages update).getD .empty)
          (if update.range.start = 0 then some 0 else none)
          (if update.range.till = ServerMaxMsgId then some 0 else none)
  | .removeOne messageId => b.FitsRemoved messageId
  | .removeAll => True
  | .invalidateBottom => True
  | .checkInsufficient => True

/-- What holds in every state between steps that fit. -/
structure Kept (b : SparseIdsSliceBuilder) : Prop where
  balanced : b.Balanced
  paired : b.fullCount.isSome = true → b.skippedBefore.isSome = b.skippedAfter.isSome
  before : ∀ n, b.skippedBefore = some n → 0 ≤ n
  after : ∀ n, b.skippedAfter = some n → 0 ≤ n

variable {b : SparseIdsSliceBuilder}

/-! ## Slicing -/

theorem lowerBound_le (ids : FlatSet Int) (key : Int) : ids.lowerBound key ≤ ids.size := by
  obtain ⟨front, back, items, -, -, position⟩ := ids.split_lowerBound key
  rw [position, FlatSet.size, items, List.length_append]
  omega

theorem sliceBegin_numbers {remove : Int} (few : remove ≤ b.ids.size) :
    (b.sliceBegin remove).2.fullCount = b.fullCount ∧
      (b.sliceBegin remove).2.skippedBefore = b.skippedBefore.map (· + max remove 0) ∧
      (b.sliceBegin remove).2.skippedAfter = b.skippedAfter ∧
      ((b.sliceBegin remove).2.ids.size : Int) = b.ids.size - max remove 0 := by
  unfold sliceBegin
  split_ifs with more less
  · have positive : max remove 0 = remove := by omega
    refine ⟨rfl, by rw [positive], rfl, ?_⟩
    simp only [FlatSet.eraseFirst, FlatSet.size, List.length_drop] at few ⊢
    omega
  · have none : max remove 0 = 0 := by omega
    simp [none, requestMessages]
  · have none : max remove 0 = 0 := by omega
    simp [none]

theorem sliceEnd_numbers {remove : Int} (few : remove ≤ b.ids.size) :
    (b.sliceEnd remove).2.fullCount = b.fullCount ∧
      (b.sliceEnd remove).2.skippedBefore = b.skippedBefore ∧
      (b.sliceEnd remove).2.skippedAfter = b.skippedAfter.map (· + max remove 0) ∧
      ((b.sliceEnd remove).2.ids.size : Int) = b.ids.size - max remove 0 := by
  unfold sliceEnd
  split_ifs with more less
  · have positive : max remove 0 = remove := by omega
    refine ⟨rfl, rfl, by rw [positive], ?_⟩
    simp only [FlatSet.eraseLast, FlatSet.size, List.length_take] at few ⊢
    omega
  · have none : max remove 0 = 0 := by omega
    simp [none, requestMessages]
  · have none : max remove 0 = 0 := by omega
    simp [none]

/-- Ids that are cut off are counted on their side. -/
theorem sliceToLimits_numbers (b : SparseIdsSliceBuilder) :
    b.sliceToLimits.fullCount = b.fullCount ∧
      b.sliceToLimits.skippedBefore = b.skippedBefore.map (· + excessBefore b.key b.limitBefore b.ids) ∧
      b.sliceToLimits.skippedAfter = b.skippedAfter.map (· + excessAfter b.key b.limitAfter b.ids) ∧
      (b.sliceToLimits.ids.size : Int) = b.ids.size - excessBefore b.key b.limitBefore b.ids - excessAfter b.key b.limitAfter b.ids := by
  have inside := lowerBound_le b.ids b.key
  unfold sliceToLimits excessBefore excessAfter
  by_cases zero : b.key = 0
  · simp only [zero, if_true]
    split_ifs
    · simp [requestMessagesCount]
    · simp
  · simp only [zero, if_false]
    obtain ⟨count, before, after, size⟩ := @sliceBegin_numbers b b.removeFromBegin (by
      rw [removeFromBegin]
      omega)
    generalize b.sliceBegin b.removeFromBegin = first at count before after size
    obtain ⟨asked, x⟩ := first
    simp only at count before after size
    obtain ⟨count', before', after', size'⟩ := @sliceEnd_numbers x b.removeFromEnd (by
      rw [size, removeFromEnd, removeFromBegin]
      omega)
    generalize x.sliceEnd b.removeFromEnd = second at count' before' after' size'
    obtain ⟨asked', y⟩ := second
    simp only at count' before' after' size'
    have numbers : y.fullCount = b.fullCount ∧ y.skippedBefore = b.skippedBefore.map (· + max b.removeFromBegin 0) ∧
        y.skippedAfter = b.skippedAfter.map (· + max b.removeFromEnd 0) ∧
        (y.ids.size : Int) = b.ids.size - max b.removeFromBegin 0 - max b.removeFromEnd 0 :=
      ⟨count'.trans count, before'.trans before, by rw [after', after], by rw [size', size]⟩
    simp only
    split_ifs
    · exact numbers
    · exact numbers

theorem excessBefore_nonneg (key : Int) (limitBefore : Nat) (ids : FlatSet Int) :
    0 ≤ excessBefore key limitBefore ids := by
  unfold excessBefore
  split_ifs
  · exact Int.le_refl 0
  · exact le_max_right _ _

theorem excessAfter_nonneg (key : Int) (limitAfter : Nat) (ids : FlatSet Int) :
    0 ≤ excessAfter key limitAfter ids := by
  unfold excessAfter
  split_ifs
  · exact Int.le_refl 0
  · exact le_max_right _ _

theorem excess_le (key : Int) (limitBefore limitAfter : Nat) (ids : FlatSet Int) :
    excessBefore key limitBefore ids + excessAfter key limitAfter ids ≤ ids.size := by
  have inside := lowerBound_le ids key
  unfold excessBefore excessAfter
  split_ifs
  · omega
  · omega

theorem balanced_sliceToLimits : b.sliceToLimits.Balanced ↔
    ∀ total before after, b.fullCount = some total → b.skippedBefore = some before → b.skippedAfter = some after →
      total = before + b.ids.size + after ∧ 0 ≤ total ∧ 0 ≤ before + excessBefore b.key b.limitBefore b.ids ∧
        0 ≤ after + excessAfter b.key b.limitAfter b.ids := by
  obtain ⟨count, skippedBefore, skippedAfter, size⟩ := sliceToLimits_numbers b
  unfold Balanced
  rw [count, skippedBefore, skippedAfter, size]
  constructor
  · intro balanced total before after counted known known'
    obtain ⟨sum, first, second, third⟩ := balanced total (before + excessBefore b.key b.limitBefore b.ids) (after + excessAfter b.key b.limitAfter b.ids)
      counted (by rw [known]; rfl) (by rw [known']; rfl)
    exact ⟨by omega, first, second, third⟩
  · intro fits total before after counted known known'
    obtain ⟨x, found, rfl⟩ := Option.map_eq_some_iff.mp known
    obtain ⟨y, found', rfl⟩ := Option.map_eq_some_iff.mp known'
    obtain ⟨sum, first, second, third⟩ := fits total x y counted found found'
    exact ⟨by omega, first, second, third⟩

/-- Slicing changes nothing in what is known. -/
theorem kept_sliceToLimits (balanced : b.sliceToLimits.Balanced)
    (paired : b.fullCount.isSome = true → b.skippedBefore.isSome = b.skippedAfter.isSome)
    (nonneg : b.fullCount = none → (∀ n, b.skippedBefore = some n → 0 ≤ n) ∧ ∀ n, b.skippedAfter = some n → 0 ≤ n) :
    b.sliceToLimits.Kept := by
  obtain ⟨count, skippedBefore, skippedAfter, -⟩ := sliceToLimits_numbers b
  have numbers := balanced_sliceToLimits.mp balanced
  have moreBefore := excessBefore_nonneg b.key b.limitBefore b.ids
  have moreAfter := excessAfter_nonneg b.key b.limitAfter b.ids
  refine ⟨balanced, ?_, ?_, ?_⟩
  · rw [count, skippedBefore, skippedAfter]
    simpa using paired
  · intro n known
    rw [skippedBefore] at known
    obtain ⟨before, found, rfl⟩ := Option.map_eq_some_iff.mp known
    cases total : b.fullCount with
    | none => exact Int.add_nonneg ((nonneg total).1 before found) moreBefore
    | some _ =>
        have both := paired (by rw [total]; rfl)
        rw [found] at both
        obtain ⟨after, found'⟩ := Option.isSome_iff_exists.mp both.symm
        exact (numbers _ before after total found found').2.2.1
  · intro n known
    rw [skippedAfter] at known
    obtain ⟨after, found, rfl⟩ := Option.map_eq_some_iff.mp known
    cases total : b.fullCount with
    | none => exact Int.add_nonneg ((nonneg total).2 after found) moreAfter
    | some _ =>
        have both := paired (by rw [total]; rfl)
        rw [found] at both
        obtain ⟨before, found'⟩ := Option.isSome_iff_exists.mp both
        exact (numbers _ before after total found' found).2.2.2

/-! ## News -/

/-- The number that is missing is filled in if it can be. -/
theorem fill_balanced_iff (before : ∀ n, b.skippedBefore = some n → 0 ≤ n)
    (after : ∀ n, b.skippedAfter = some n → 0 ≤ n) :
    b.fillSkippedAndSliceToLimits.Balanced ↔ b.Fits b.ids b.fullCount b.skippedBefore b.skippedAfter := by
  have moreBefore := excessBefore_nonneg b.key b.limitBefore b.ids
  have moreAfter := excessAfter_nonneg b.key b.limitAfter b.ids
  have few := excess_le b.key b.limitBefore b.limitAfter b.ids
  unfold fillSkippedAndSliceToLimits Fits
  rw [balanced_sliceToLimits]
  rcases b with ⟨key, limitBefore, limitAfter, ids, total, skippedBefore, skippedAfter, fired⟩
  simp only at before after ⊢
  simp only at moreBefore moreAfter few
  cases total with
  | none => simp
  | some total =>
      cases skippedBefore with
      | none =>
          cases skippedAfter with
          | none => simp
          | some y =>
              have := after y rfl
              simp only [Option.some.injEq, forall_eq']
              constructor
              · intro numbers
                obtain ⟨-, -, first, -⟩ := numbers _ _ _ rfl rfl rfl
                omega
              · rintro fits _ _ _ rfl rfl rfl
                omega
      | some x =>
          have := before x rfl
          cases skippedAfter with
          | none =>
              simp only [Option.some.injEq, forall_eq']
              constructor
              · intro numbers
                obtain ⟨-, -, -, second⟩ := numbers _ _ _ rfl rfl rfl
                omega
              · rintro fits _ _ _ rfl rfl rfl
                omega
          | some y =>
              have := after y rfl
              simp only [Option.some.injEq, forall_eq']
              constructor
              · intro numbers
                exact (numbers _ _ _ rfl rfl rfl).1
              · rintro fits _ _ _ rfl rfl rfl
                omega

theorem fill_kept (before : ∀ n, b.skippedBefore = some n → 0 ≤ n) (after : ∀ n, b.skippedAfter = some n → 0 ≤ n)
    (balanced : b.fillSkippedAndSliceToLimits.Balanced) : b.fillSkippedAndSliceToLimits.Kept := by
  unfold fillSkippedAndSliceToLimits at balanced ⊢
  apply kept_sliceToLimits balanced
  · obtain ⟨key, limitBefore, limitAfter, ids, total, skippedBefore, skippedAfter, fired⟩ := b
    cases total with
    | none => simp
    | some total =>
        cases skippedBefore with
        | none =>
            cases skippedAfter with
            | none => simp
            | some _ => simp
        | some _ =>
            cases skippedAfter with
            | none => simp
            | some _ => simp
  · obtain ⟨key, limitBefore, limitAfter, ids, total, skippedBefore, skippedAfter, fired⟩ := b
    cases total with
    | none =>
        intro _
        exact ⟨before, after⟩
    | some total =>
        intro none
        cases skippedBefore with
        | none =>
            cases skippedAfter with
            | none => cases none
            | some _ => cases none
        | some _ =>
            cases skippedAfter with
            | none => cases none
            | some _ => cases none

theorem Kept.fits (kept : b.Kept) : b.Fits b.ids b.fullCount b.skippedBefore b.skippedAfter := by
  intro n total
  have paired := kept.paired (by rw [total]; rfl)
  cases before : b.skippedBefore with
  | none =>
      cases after : b.skippedAfter with
      | none => trivial
      | some y => simp [before, after] at paired
  | some x =>
      cases after : b.skippedAfter with
      | none => simp [before, after] at paired
      | some y => exact (kept.balanced n x y total before after).1

/-- The first id of the news has the ids shown before it, and no others. -/
theorem idxOf_first {news : FlatSet Int} {first : Int} (head : news.items.head? = some first) (ids : FlatSet Int) :
    (ids.merge news.items).items.idxOf first = ids.countBelow first := by
  obtain ⟨member, least⟩ := FlatSet.head_le head
  rw [(FlatSet.idxOf_eq (FlatSet.mem_merge.mpr (.inr member))).1]
  refine FlatSet.countP_congr fun a less => ?_
  rw [FlatSet.mem_merge]
  exact or_iff_left fun other => absurd (least a other) (by simpa using less)

theorem idxOf_wasFirst {ids : FlatSet Int} {first : Int} (head : ids.items.head? = some first) (news : FlatSet Int) :
    (ids.merge news.items).items.idxOf first = news.countBelow first := by
  obtain ⟨member, least⟩ := FlatSet.head_le head
  rw [(FlatSet.idxOf_eq (FlatSet.mem_merge.mpr (.inl member))).1]
  refine FlatSet.countP_congr fun a less => ?_
  rw [FlatSet.mem_merge]
  exact or_iff_right fun other => absurd (least a other) (by simpa using less)

theorem idxOf_last {news : FlatSet Int} {last : Int} (tail : news.items.getLast? = some last) (ids : FlatSet Int) :
    ((ids.merge news.items).size : Int) - (ids.merge news.items).items.idxOf last - 1 = ids.countAbove last := by
  obtain ⟨member, greatest⟩ := FlatSet.le_getLast tail
  obtain ⟨position, size⟩ := FlatSet.idxOf_eq (@FlatSet.mem_merge _ _ ids news.items last |>.mpr (.inr member))
  have same : (ids.merge news.items).countAbove last = ids.countAbove last := by
    refine FlatSet.countP_congr fun a more => ?_
    rw [FlatSet.mem_merge]
    exact or_iff_left fun other => absurd (greatest a other) (by simpa using more)
  omega

theorem idxOf_wasLast {ids : FlatSet Int} {last : Int} (tail : ids.items.getLast? = some last) (news : FlatSet Int) :
    ((ids.merge news.items).size : Int) - (ids.merge news.items).items.idxOf last - 1 = news.countAbove last := by
  obtain ⟨member, greatest⟩ := FlatSet.le_getLast tail
  obtain ⟨position, size⟩ := FlatSet.idxOf_eq (@FlatSet.mem_merge _ _ ids news.items last |>.mpr (.inl member))
  have same : (ids.merge news.items).countAbove last = news.countAbove last := by
    refine FlatSet.countP_congr fun a more => ?_
    rw [FlatSet.mem_merge]
    exact or_iff_right fun other => absurd (greatest a other) (by simpa using more)
  omega

/-- What the code looks up in the merged ids is a number of ids on one side. -/
theorem adjustedSkippedBefore_eq (messageIds : FlatSet Int) (skippedBefore : Option Int) :
    b.adjustedSkippedBefore messageIds skippedBefore = b.leftBefore messageIds skippedBefore := by
  have known : (if b.ids.items.head?.getD (-1) ≥ 0 then
      b.skippedBefore.map fun old : Int =>
        max (old - (b.ids.merge messageIds.items).items.idxOf (b.ids.items.head?.getD (-1))) 0
      else none) = b.leftBefore messageIds none := by
    unfold leftBefore
    cases shown : b.ids.items.head? with
    | none => simp
    | some first =>
        simp [idxOf_wasFirst shown]
  unfold adjustedSkippedBefore
  cases head : messageIds.items.head? with
  | none =>
      refine known.trans ?_
      unfold leftBefore
      rw [head]
      cases b.ids.items.head? with
      | none => cases skippedBefore <;> rfl
      | some first => cases skippedBefore <;> rfl
  | some first =>
      cases skippedBefore with
      | none => exact known
      | some told => simp [leftBefore, head, idxOf_first head]

theorem adjustedSkippedAfter_eq (messageIds : FlatSet Int) (skippedAfter : Option Int) :
    b.adjustedSkippedAfter messageIds skippedAfter = b.leftAfter messageIds skippedAfter := by
  have known : (if b.ids.items.getLast?.getD (-1) ≥ 0 then
      b.skippedAfter.map fun old : Int =>
        max (old - ((b.ids.merge messageIds.items).size -
          (b.ids.merge messageIds.items).items.idxOf (b.ids.items.getLast?.getD (-1)) - 1)) 0
      else none) = b.leftAfter messageIds none := by
    unfold leftAfter
    cases shown : b.ids.items.getLast? with
    | none => simp
    | some last =>
        simp [idxOf_wasLast shown]
  unfold adjustedSkippedAfter
  cases tail : messageIds.items.getLast? with
  | none =>
      refine known.trans ?_
      unfold leftAfter
      rw [tail]
      cases b.ids.items.getLast? with
      | none => cases skippedAfter <;> rfl
      | some last => cases skippedAfter <;> rfl
  | some last =>
      cases skippedAfter with
      | none => exact known
      | some told => simp [leftAfter, tail, idxOf_last tail]

theorem adjustedSkippedBefore_nonneg {messageIds : FlatSet Int} {skippedBefore : Option Int} {n : Int}
    (known : b.adjustedSkippedBefore messageIds skippedBefore = some n) : 0 ≤ n := by
  unfold adjustedSkippedBefore at known
  simp only at known
  split at known
  · cases known
    exact le_max_right _ _
  · split_ifs at known
    obtain ⟨_, _, rfl⟩ := Option.map_eq_some_iff.mp known
    exact le_max_right _ _

theorem adjustedSkippedAfter_nonneg {messageIds : FlatSet Int} {skippedAfter : Option Int} {n : Int}
    (known : b.adjustedSkippedAfter messageIds skippedAfter = some n) : 0 ≤ n := by
  unfold adjustedSkippedAfter at known
  simp only at known
  split at known
  · cases known
    exact le_max_right _ _
  · split_ifs at known
    obtain ⟨_, _, rfl⟩ := Option.map_eq_some_iff.mp known
    exact le_max_right _ _

/-- A count alone leaves what is known before and behind not negative. -/
theorem mergeCount_nonneg (kept : b.Kept) (count : Option Int) :
    (∀ n, (b.mergeCount count).skippedBefore = some n → 0 ≤ n) ∧
      ∀ n, (b.mergeCount count).skippedAfter = some n → 0 ≤ n := by
  unfold mergeCount
  cases count with
  | none => exact ⟨kept.before, kept.after⟩
  | some count =>
      simp only
      split_ifs
      · exact ⟨kept.before, kept.after⟩
      · simp
      · exact ⟨kept.before, kept.after⟩

theorem mergeCount_fits_iff (kept : b.Kept) (count : Option Int) :
    (b.mergeCount count).Fits (b.mergeCount count).ids (b.mergeCount count).fullCount
        (b.mergeCount count).skippedBefore (b.mergeCount count).skippedAfter ↔
      ∀ n, count = some n → b.fullCount ≠ some n → ¬ toSize n ≤ b.ids.size →
        b.Fits b.ids (some n) b.skippedBefore b.skippedAfter := by
  unfold mergeCount
  cases count with
  | none => simpa using kept.fits
  | some count =>
      simp only [Option.some.injEq, forall_eq']
      split_ifs with same less
      · simpa [same] using kept.fits
      · simp [less, Fits]
      · simp [same, less, Fits]

/-- News keep the numbers exactly when they fit. -/
theorem mergeSliceData_balanced_iff (kept : b.Kept) {count : Option Int} {messageIds : FlatSet Int}
    {skippedBefore skippedAfter : Option Int} :
    (b.mergeSliceData count messageIds skippedBefore skippedAfter).Balanced ↔
      b.FitsNews count messageIds skippedBefore skippedAfter := by
  unfold mergeSliceData FitsNews
  split_ifs with none
  · obtain ⟨before, after⟩ := mergeCount_nonneg kept count
    rw [fill_balanced_iff before after]
    exact mergeCount_fits_iff kept count
  · rw [fill_balanced_iff]
    · rw [← adjustedSkippedBefore_eq, ← adjustedSkippedAfter_eq]
      rfl
    · exact fun n known => adjustedSkippedBefore_nonneg known
    · exact fun n known => adjustedSkippedAfter_nonneg known

theorem mergeSliceData_kept (kept : b.Kept) {count : Option Int} {messageIds : FlatSet Int}
    {skippedBefore skippedAfter : Option Int}
    (balanced : (b.mergeSliceData count messageIds skippedBefore skippedAfter).Balanced) :
    (b.mergeSliceData count messageIds skippedBefore skippedAfter).Kept := by
  unfold mergeSliceData at balanced ⊢
  split_ifs at balanced ⊢ with none
  · obtain ⟨before, after⟩ := mergeCount_nonneg kept count
    exact fill_kept before after balanced
  · exact fill_kept (fun n known => adjustedSkippedBefore_nonneg known)
      (fun n known => adjustedSkippedAfter_nonneg known) balanced

/-! ## Removing -/

/-- The number of all ids after one was removed. -/
def countLess (total : Option Int) : Option Int := if total.any (· > 0) then total.map (· - 1) else total

/-- An id that is removed is shown, counted before, counted behind, or unknown. -/
inductive Removal (b : SparseIdsSliceBuilder) (messageId : Int) : SparseIdsSliceBuilder → Prop
  | shown (member : messageId ∈ b.ids) :
      Removal b messageId
        (sliceToLimits { b with fullCount := countLess b.fullCount, ids := b.ids.remove messageId })
  | before (missing : messageId ∉ b.ids) {front x : Int} (first : b.ids.items.head? = some front)
      (less : messageId < front) (known : b.skippedBefore = some x) (counted : 0 < x) :
      Removal b messageId
        (sliceToLimits { b with fullCount := countLess b.fullCount, skippedBefore := some (x - 1) })
  | after (missing : messageId ∉ b.ids) {back y : Int} (last : b.ids.items.getLast? = some back)
      (more : back < messageId) (known : b.skippedAfter = some y) (counted : 0 < y) :
      Removal b messageId
        (sliceToLimits { b with fullCount := countLess b.fullCount, skippedAfter := some (y - 1) })
  | unknown (missing : messageId ∉ b.ids)
      (notBefore : ∀ front x, b.ids.items.head? = some front → messageId < front → b.skippedBefore = some x → x ≤ 0)
      (notAfter : ∀ back y, b.ids.items.getLast? = some back → back < messageId → b.skippedAfter = some y → y ≤ 0)
      {r : SparseIdsSliceBuilder}
      (left : r = if b.fullCount.any (· > 0) then sliceToLimits { b with fullCount := countLess b.fullCount } else b) :
      Removal b messageId r

theorem any_positive {number : Option Int} : number.any (· > 0) = true ↔ ∃ n, number = some n ∧ 0 < n := by
  simp [Option.any_eq_true]

/-- One less of what is counted on the side of the id, if it is counted there. -/
theorem removeSkipped_eq (b : SparseIdsSliceBuilder) (messageId : Int) :
    (∃ front x, b.ids.items.head? = some front ∧ messageId < front ∧ b.skippedBefore = some x ∧ 0 < x ∧
        b.removeSkipped messageId = (true, { b with skippedBefore := some (x - 1) })) ∨
      (∃ back y, b.ids.items.getLast? = some back ∧ back < messageId ∧ b.skippedAfter = some y ∧ 0 < y ∧
        b.removeSkipped messageId = (true, { b with skippedAfter := some (y - 1) })) ∨
      ((∀ front x, b.ids.items.head? = some front → messageId < front → b.skippedBefore = some x → x ≤ 0) ∧
        (∀ back y, b.ids.items.getLast? = some back → back < messageId → b.skippedAfter = some y → y ≤ 0) ∧
        b.removeSkipped messageId = (false, b)) := by
  unfold removeSkipped
  split
  · rename_i front back first last
    split_ifs with before after
    · obtain ⟨x, known, counted⟩ := any_positive.mp before.2
      exact .inl ⟨front, x, first, before.1, known, counted, by rw [known]; rfl⟩
    · obtain ⟨y, known, counted⟩ := any_positive.mp after.2
      exact .inr (.inl ⟨back, y, last, after.1, known, counted, by rw [known]; rfl⟩)
    · refine .inr (.inr ⟨?_, ?_, rfl⟩)
      · intro front' x first' less known
        cases first.symm.trans first'
        by_contra positive
        exact before ⟨less, any_positive.mpr ⟨x, known, by omega⟩⟩
      · intro back' y last' more known
        cases last.symm.trans last'
        by_contra positive
        exact after ⟨more, any_positive.mpr ⟨y, known, by omega⟩⟩
  · rename_i nothing
    have empty : b.ids.items = [] := by
      cases items : b.ids.items with
      | nil => rfl
      | cons a l => exact (nothing a _ (by rw [items]; rfl) (by rw [items, List.getLast?_cons])).elim
    refine .inr (.inr ⟨?_, ?_, rfl⟩)
    · intro front x first
      simp [empty] at first
    · intro back y last
      simp [empty] at last

theorem removeOne_removal (b : SparseIdsSliceBuilder) (messageId : Int) :
    Removal b messageId (b.removeOne messageId).2 := by
  unfold removeOne
  have less : (if b.fullCount.any (· > 0) then { b with fullCount := b.fullCount.map (· - 1) } else b) =
      { b with fullCount := countLess b.fullCount } := by
    unfold countLess
    split_ifs
    · rfl
    · rfl
  simp only [less]
  by_cases member : messageId ∈ b.ids
  · simp only [member, or_true, if_true]
    exact .shown member
  · simp only [member, if_false]
    obtain ⟨front, x, first, before, known, counted, eq⟩ | ⟨back, y, last, after, known, counted, eq⟩ |
      ⟨notBefore, notAfter, eq⟩ := removeSkipped_eq { b with fullCount := countLess b.fullCount } messageId
    · simp only [eq, or_true, if_true]
      exact .before member first before known counted
    · simp only [eq, or_true, if_true]
      exact .after member last after known counted
    · refine @Removal.unknown b messageId member notBefore notAfter _ ?_
      simp only [eq, Bool.false_eq_true, or_false]
      split_ifs with counted
      · rfl
      · have same : countLess b.fullCount = b.fullCount := by
          rw [countLess, if_neg counted]
        simp only [same]

theorem countLess_eq_some {total : Option Int} {n : Int} (left : countLess total = some n) :
    ∃ m, total = some m ∧ n = if 0 < m then m - 1 else m := by
  unfold countLess at left
  cases total with
  | none => cases left
  | some m =>
      refine ⟨m, rfl, ?_⟩
      simp only [Option.any_some, gt_iff_lt, decide_eq_true_eq] at left
      split_ifs at left ⊢
      · exact (Option.some.inj left).symm
      · exact (Option.some.inj left).symm

theorem size_remove {ids : FlatSet Int} {messageId : Int} (member : messageId ∈ ids) :
    (ids.remove messageId).size + 1 = ids.size := by
  rw [← FlatSet.card_toFinset, ← FlatSet.card_toFinset, ← Finset.card_erase_add_one (FlatSet.mem_toFinset.mpr member)]
  congr 2
  ext a
  rw [FlatSet.mem_toFinset, FlatSet.mem_remove, Finset.mem_erase, FlatSet.mem_toFinset, and_comm]

/-- A removed id keeps the numbers exactly when it is shown or was counted. -/
theorem removeOne_balanced_iff (kept : b.Kept) {messageId : Int} :
    (b.removeOne messageId).2.Balanced ↔ b.FitsRemoved messageId := by
  have removal := removeOne_removal b messageId
  generalize (b.removeOne messageId).2 = r at removal
  cases removal with
  | shown member =>
      have size := size_remove member
      refine iff_of_true (balanced_sliceToLimits.mpr ?_) fun _ _ _ _ _ _ _ => .inl member
      intro total before after counted known known'
      obtain ⟨m, found, rfl⟩ := countLess_eq_some counted
      have sum := kept.balanced m before after found known known'
      have more := excessBefore_nonneg b.key b.limitBefore (b.ids.remove messageId)
      have more' := excessAfter_nonneg b.key b.limitAfter (b.ids.remove messageId)
      rw [if_pos (by omega)]
      simp only
      omega
  | @before missing front x first less there positive =>
      refine iff_of_true (balanced_sliceToLimits.mpr ?_) ?_
      · intro total before after counted known known'
        obtain ⟨m, found, rfl⟩ := countLess_eq_some counted
        cases known
        have sum := kept.balanced m x after found there known'
        have more := excessBefore_nonneg b.key b.limitBefore b.ids
        have more' := excessAfter_nonneg b.key b.limitAfter b.ids
        rw [if_pos (by omega)]
        simp only
        omega
      · intro total before after _ _ known _
        cases there.symm.trans known
        exact .inr (.inl ⟨positive, front, first, less⟩)
  | @after missing back y last more there positive =>
      refine iff_of_true (balanced_sliceToLimits.mpr ?_) ?_
      · intro total before after counted known known'
        obtain ⟨m, found, rfl⟩ := countLess_eq_some counted
        cases known'
        have sum := kept.balanced m before y found known there
        have more := excessBefore_nonneg b.key b.limitBefore b.ids
        have more' := excessAfter_nonneg b.key b.limitAfter b.ids
        rw [if_pos (by omega)]
        simp only
        omega
      · intro total before after _ _ _ known
        cases there.symm.trans known
        exact .inr (.inr ⟨positive, back, last, more⟩)
  | unknown missing notBefore notAfter left =>
      subst left
      split_ifs with counted
      · obtain ⟨total, found, positive⟩ := any_positive.mp counted
        have less : countLess b.fullCount = some (total - 1) := by
          rw [countLess, if_pos counted, found]
          rfl
        -- The number of all ids is one less and no other number is.
        constructor
        · intro balanced total' before after found' _ known known'
          have sum := kept.balanced total before after found known known'
          have sum' := (balanced_sliceToLimits.mp balanced (total - 1) before after less known known').1
          simp only at sum'
          omega
        · intro fits
          refine balanced_sliceToLimits.mpr fun _ before after _ known known' => ?_
          rcases fits total before after found positive known known' with member | ⟨positive, front, first, less⟩ |
            ⟨positive, back, last, more⟩
          · exact absurd member missing
          · exact absurd (notBefore front before first less known) (by omega)
          · exact absurd (notAfter back after last more known') (by omega)
      · refine iff_of_true kept.balanced fun total before after found positive _ _ => ?_
        exact absurd (any_positive.mpr ⟨total, found, positive⟩) counted

theorem isSome_countLess (total : Option Int) : (countLess total).isSome = total.isSome := by
  unfold countLess
  split_ifs
  · simp
  · rfl

theorem removeOne_kept (kept : b.Kept) {messageId : Int} (balanced : (b.removeOne messageId).2.Balanced) :
    (b.removeOne messageId).2.Kept := by
  have removal := removeOne_removal b messageId
  generalize (b.removeOne messageId).2 = r at removal balanced
  have paired : (countLess b.fullCount).isSome = true → b.skippedBefore.isSome = b.skippedAfter.isSome := by
    rw [isSome_countLess]
    exact kept.paired
  cases removal with
  | shown _ => exact kept_sliceToLimits balanced paired fun _ => ⟨kept.before, kept.after⟩
  | before missing first less there positive =>
      refine kept_sliceToLimits balanced ?_ fun _ => ⟨?_, kept.after⟩
      · rw [there] at paired
        exact paired
      · rintro n ⟨⟩
        omega
  | after missing last more there positive =>
      refine kept_sliceToLimits balanced ?_ fun _ => ⟨kept.before, ?_⟩
      · rw [there] at paired
        exact paired
      · rintro n ⟨⟩
        omega
  | unknown _ _ _ left =>
      subst left
      split_ifs at balanced ⊢
      · exact kept_sliceToLimits balanced paired fun _ => ⟨kept.before, kept.after⟩
      · exact kept

/-! ## Runs -/

/-- Before anything was told. -/
def new (key : Int) (limitBefore limitAfter : Nat) : SparseIdsSliceBuilder := { key, limitBefore, limitAfter }

theorem new_kept (key : Int) (limitBefore limitAfter : Nat) : (new key limitBefore limitAfter).Kept :=
  ⟨nofun, nofun, nofun, nofun⟩

theorem Kept.sliceToLimits (kept : b.Kept) : b.sliceToLimits.Kept := by
  refine kept_sliceToLimits (balanced_sliceToLimits.mpr fun total before after counted known known' => ?_) kept.paired
    fun _ => ⟨kept.before, kept.after⟩
  have sum := kept.balanced total before after counted known known'
  have more := excessBefore_nonneg b.key b.limitBefore b.ids
  have more' := excessAfter_nonneg b.key b.limitAfter b.ids
  omega

theorem removeAll_kept (b : SparseIdsSliceBuilder) : b.removeAll.2.Kept := by
  refine ⟨?_, fun _ => rfl, ?_, ?_⟩
  · rintro _ _ _ ⟨⟩ ⟨⟩ ⟨⟩
    exact ⟨rfl, Int.le_refl 0, Int.le_refl 0, Int.le_refl 0⟩
  · rintro _ ⟨⟩
    exact Int.le_refl 0
  · rintro _ ⟨⟩
    exact Int.le_refl 0

theorem invalidateBottom_kept (kept : b.Kept) : b.invalidateBottom.2.Kept := by
  apply Kept.sliceToLimits
  exact ⟨nofun, nofun, kept.before, nofun⟩

/-- One step: the numbers add up afterwards exactly when it fits. -/
theorem step_balanced_iff (kept : b.Kept) (operation : Operation) :
    (b.step operation).Balanced ↔ b.FitsStep operation := by
  cases operation with
  | applyInitial result => exact mergeSliceData_balanced_iff kept
  | applyUpdate update =>
      by_cases nothing : b.updateMessages update = none ∧ update.count = none
      · rw [step, applyUpdate, if_pos nothing]
        exact iff_of_true kept.balanced (.inl nothing)
      · rw [step, applyUpdate, if_neg nothing, mergeSliceData_balanced_iff kept, FitsStep, or_iff_right nothing]
  | removeOne messageId => exact removeOne_balanced_iff kept
  | removeAll => exact iff_of_true b.removeAll_kept.balanced trivial
  | invalidateBottom => exact iff_of_true (invalidateBottom_kept kept).balanced trivial
  | checkInsufficient => exact iff_of_true kept.sliceToLimits.balanced trivial

theorem step_kept (kept : b.Kept) {operation : Operation} (balanced : (b.step operation).Balanced) :
    (b.step operation).Kept := by
  cases operation with
  | applyInitial result => exact mergeSliceData_kept kept balanced
  | applyUpdate update =>
      by_cases nothing : b.updateMessages update = none ∧ update.count = none
      · rw [step, applyUpdate, if_pos nothing]
        exact kept
      · rw [step, applyUpdate, if_neg nothing] at balanced ⊢
        exact mergeSliceData_kept kept balanced
  | removeOne messageId => exact removeOne_kept kept balanced
  | removeAll => exact b.removeAll_kept
  | invalidateBottom => exact invalidateBottom_kept kept
  | checkInsufficient => exact kept.sliceToLimits

/-- In the state before any of the operations and after each. -/
def EveryState (P : SparseIdsSliceBuilder → Prop) (b : SparseIdsSliceBuilder) : List Operation → Prop
  | [] => P b
  | operation :: operations => P b ∧ EveryState P (b.step operation) operations

/-- Each operation, in the state it is done in. -/
def EveryStep (P : SparseIdsSliceBuilder → Operation → Prop) (b : SparseIdsSliceBuilder) : List Operation → Prop
  | [] => True
  | operation :: operations => P b operation ∧ EveryStep P (b.step operation) operations

theorem run_balanced_iff (kept : b.Kept) (operations : List Operation) :
    EveryState Balanced b operations ↔ EveryStep FitsStep b operations := by
  induction operations generalizing b with
  | nil => exact iff_of_true kept.balanced trivial
  | cons operation operations ih =>
      rw [EveryState, EveryStep, and_iff_right kept.balanced, ← step_balanced_iff kept operation]
      constructor
      · intro every
        have balanced : (b.step operation).Balanced := by
          cases operations with
          | nil => exact every
          | cons _ _ => exact every.1
        exact ⟨balanced, (ih (step_kept kept balanced)).mp every⟩
      · rintro ⟨balanced, every⟩
        exact (ih (step_kept kept balanced)).mpr every

/-- In a run the three numbers add up in every state exactly when every step fits. -/
theorem new_run_balanced_iff (key : Int) (limitBefore limitAfter : Nat) (operations : List Operation) :
    EveryState Balanced (new key limitBefore limitAfter) operations ↔
      EveryStep FitsStep (new key limitBefore limitAfter) operations :=
  run_balanced_iff (new_kept key limitBefore limitAfter) operations

/-- A new id far behind the ids shown is counted in the number of all, and not in the number behind. -/
theorem distant_id_unbalanced : ∃ list list' update update',
    ({} : SparseIdsList).addSlice [10, 20] ⟨0, 20⟩ (some 3) = some (list, update) ∧
      list.addNew 40 = some (list', update') ∧
      ¬ EveryState Balanced (new 10 5 5)
        [.applyInitial (list.snapshot ⟨10, 5, 5⟩), .applyUpdate update'] := by
  refine ⟨_, _, _, _, rfl, rfl, ?_⟩
  rintro ⟨-, -, balanced⟩
  exact absurd (balanced 4 0 1 (by decide) (by decide) (by decide)).1 (by decide)

end SparseIdsSliceBuilder

end IMeDesktop.Data
