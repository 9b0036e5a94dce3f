import IMeDesktop.Lib.FlatSet

/-! # Lists of message ids with gaps

`SparseIdsList` keeps the ids of messages that are known of some large list: slices of it,
each with the range of ids in which nothing is missing. Slices that touch are united. An
expectation of the code that does not hold gives `none`.

A `MsgId` is compared and never computed with, so it is an integer here. Ranges include
both of their ends.
-/

namespace IMeDesktop.Storage

open Lib

def ServerMaxMsgId : Int := 2 ^ 56

structure MsgRange where
  start : Int := 0
  till : Int := 0
  deriving DecidableEq, Repr

def MsgRange.full : MsgRange := ⟨0, ServerMaxMsgId⟩

structure Slice where
  messages : FlatSet Int
  range : MsgRange
  deriving DecidableEq

structure SparseIdsListQuery where
  aroundId : Int
  limitBefore : Nat
  limitAfter : Nat

structure SparseIdsListResult where
  count : Option Int := none
  skippedBefore : Option Int := none
  skippedAfter : Option Int := none
  messageIds : FlatSet Int := .empty
  deriving DecidableEq

/-- `messages` are those of the slice that was changed, if there is one. -/
structure SparseIdsSliceUpdate where
  messages : Option (FlatSet Int) := none
  range : MsgRange := {}
  count : Option Int := none
  deriving DecidableEq

structure SparseIdsList where
  count : Option Int := none
  slices : List Slice := []
  deriving DecidableEq

namespace Slice

def merge (s : Slice) (moreMessages : List Int) (moreNoSkipRange : MsgRange) : Option Slice :=
  if moreNoSkipRange.start ≤ s.range.till ∧ s.range.start ≤ moreNoSkipRange.till then
    some
      { messages := s.messages.merge moreMessages
        range := ⟨min s.range.start moreNoSkipRange.start, max s.range.till moreNoSkipRange.till⟩ }
  else none

/-- `operator<`. -/
def less (a b : Slice) : Bool := decide (a.range.start < b.range.start)

end Slice

/-- An `int` that is compared with a size. -/
def toSize (n : Int) : Nat := (n % 2 ^ 64).toNat

namespace SparseIdsList

/-! ## Adding -/

/-- What `addRangeItemsAndCountNew` leaves behind: the slices, the update and `AddResult`. -/
structure AddResult where
  slices : List Slice
  messages : Option (FlatSet Int) := none
  range : MsgRange := {}
  added : Int := 0

/-- The slices from `it` on are merged into the one at `uniteFrom`. -/
def uniteRest (uniteFrom : Nat) : Nat → Nat → List Slice → Option (List Slice)
  | 0, _, slices => some slices
  | left + 1, it, slices => do
      let other ← slices[it]?
      let slice ← slices[uniteFrom]?
      let united ← slice.merge other.messages.items other.range
      uniteRest uniteFrom left (it + 1) (modify Slice.less slices uniteFrom united)

def uniteAndAdd (slices : List Slice) (uniteFrom uniteTill : Nat) (messages : List Int) (noSkipRange : MsgRange) :
    Option AddResult := do
  let first ← slices[uniteFrom]?
  let merged ← first.merge messages noSkipRange
  let slices ← uniteRest uniteFrom (uniteTill - (uniteFrom + 1)) (uniteFrom + 1)
    (modify Slice.less slices uniteFrom merged)
  let slices := slices.take (uniteFrom + 1) ++ slices.drop uniteTill
  let united ← slices[uniteFrom]?
  some
    { slices := slices, messages := some united.messages, range := united.range
      added := united.messages.size - first.messages.size }

def addRangeItemsAndCountNew (slices : List Slice) (messages : List Int) (noSkipRange : MsgRange) :
    Option AddResult :=
  if noSkipRange.till < noSkipRange.start then none
  else if noSkipRange.start = noSkipRange.till ∧ messages = [] then some { slices := slices }
  else
    let uniteFrom := partitionPoint (fun slice => decide (slice.range.till < noSkipRange.start)) slices
    let uniteTill := partitionPoint (fun slice => !decide (noSkipRange.till < slice.range.start)) slices
    if uniteFrom < uniteTill then uniteAndAdd slices uniteFrom uniteTill messages noSkipRange
    else do
      let (position, slices) := emplace Slice.less slices { messages := .ofList messages, range := noSkipRange }
      let slice ← slices[position]?
      some { slices := slices, messages := some slice.messages, range := slice.range, added := slice.messages.size }

/-- One slice that has everything is the whole list. -/
def fillSlice (l : SparseIdsList) : SparseIdsList :=
  match l.slices with
  | [slice] =>
      let slice :=
        if l.count.any fun count => decide (toSize count ≤ slice.messages.size) then { slice with range := .full }
        else slice
      { count := if slice.range = .full then some slice.messages.size else l.count, slices := [slice] }
  | _ => l

/-- The count that is given, or the old one. -/
def updatedCount (l : SparseIdsList) (count : Option Int) (incrementCount : Bool) (added : Int) : Option Int :=
  match count with
  | some count => some count
  | none => if incrementCount ∧ added > 0 then l.count.map (· + added) else l.count

def addRange (l : SparseIdsList) (messages : List Int) (noSkipRange : MsgRange) (count : Option Int)
    (incrementCount : Bool) : Option (SparseIdsList × SparseIdsSliceUpdate) := do
  if count.isSome ∧ incrementCount then none
  else
    let result ← addRangeItemsAndCountNew l.slices messages noSkipRange
    let count := l.updatedCount count incrementCount result.added
    let l := fillSlice { count := count, slices := result.slices }
    let count :=
      match result.messages with
      | some messages => l.count.map (max · messages.size)
      | none => l.count
    some ({ l with count := count }, { messages := result.messages, range := result.range, count := count })

def addNew (l : SparseIdsList) (messageId : Int) : Option (SparseIdsList × SparseIdsSliceUpdate) :=
  l.addRange [messageId] ⟨messageId, ServerMaxMsgId⟩ none true

def addExisting (l : SparseIdsList) (messageId : Int) (noSkipRange : MsgRange) :
    Option (SparseIdsList × SparseIdsSliceUpdate) :=
  l.addRange [messageId] noSkipRange none false

def addSlice (l : SparseIdsList) (messageIds : List Int) (noSkipRange : MsgRange) (count : Option Int) :
    Option (SparseIdsList × SparseIdsSliceUpdate) :=
  l.addRange messageIds noSkipRange count false

/-! ## Removing -/

def removeOne (l : SparseIdsList) (messageId : Int) : SparseIdsList :=
  let position := partitionPoint (fun slice => decide (slice.range.till < messageId)) l.slices
  { count := l.count.map (· - 1)
    slices :=
      match l.slices[position]? with
      | none => l.slices
      | some slice =>
          if slice.range.start ≤ messageId then
            modify Slice.less l.slices position { slice with messages := slice.messages.remove messageId }
          else l.slices }

def removeAll : SparseIdsList := { count := some 0, slices := [{ messages := .empty, range := .full }] }

def invalidateBottom (l : SparseIdsList) : SparseIdsList :=
  { count := none
    slices :=
      match l.slices.getLast? with
      | none => []
      | some last =>
          if last.range.till = ServerMaxMsgId then
            let till := last.messages.items.getLast?.getD last.range.start
            modify Slice.less l.slices (l.slices.length - 1) { last with range := ⟨last.range.start, till⟩ }
          else l.slices }

/-! ## Asking -/

def queryFromSlice (l : SparseIdsList) (query : SparseIdsListQuery) (slice : Slice) : SparseIdsListResult :=
  let haveBefore := slice.messages.lowerBound query.aroundId
  let haveEqualOrAfter := slice.messages.size - haveBefore
  let before := min haveBefore query.limitBefore
  let equalOrAfter := min haveEqualOrAfter (query.limitAfter + 1)
  let ids := (slice.messages.items.drop (haveBefore - before)).take (before + equalOrAfter)
  let messageIds := FlatSet.ofList ids
  let skippedBefore : Option Int := if slice.range.start = 0 then some (haveBefore - before) else none
  let skippedAfter : Option Int :=
    if slice.range.till = ServerMaxMsgId then some (haveEqualOrAfter - equalOrAfter) else none
  { count := l.count, messageIds := messageIds
    skippedBefore :=
      match l.count, skippedBefore, skippedAfter with
      | some count, none, some after => some (count - after - messageIds.size)
      | _, skippedBefore, _ => skippedBefore
    skippedAfter :=
      match l.count, skippedAfter, skippedBefore with
      | some count, none, some before => some (count - before - messageIds.size)
      | _, skippedAfter, _ => skippedAfter }

/-- No id is asked for by zero. -/
def snapshot (l : SparseIdsList) (query : SparseIdsListQuery) : SparseIdsListResult :=
  let position := partitionPoint (fun slice => decide (slice.range.till < query.aroundId)) l.slices
  match if query.aroundId = 0 then none else l.slices[position]? with
  | none => { count := l.count }
  | some slice =>
      if slice.range.start ≤ query.aroundId then l.queryFromSlice query slice else { count := l.count }

/-! ## Runs -/

inductive Operation where
  | addNew (messageId : Int)
  | addExisting (messageId : Int) (noSkipRange : MsgRange)
  | addSlice (messageIds : List Int) (noSkipRange : MsgRange) (count : Option Int)
  | removeOne (messageId : Int)
  | removeAll
  | invalidateBottom

def step (l : SparseIdsList) : Operation → Option SparseIdsList
  | .addNew messageId => (l.addNew messageId).map Prod.fst
  | .addExisting messageId noSkipRange => (l.addExisting messageId noSkipRange).map Prod.fst
  | .addSlice messageIds noSkipRange count => (l.addSlice messageIds noSkipRange count).map Prod.fst
  | .removeOne messageId => some (l.removeOne messageId)
  | .removeAll => some removeAll
  | .invalidateBottom => some l.invalidateBottom

def run (l : SparseIdsList) (operations : List Operation) : Option SparseIdsList := operations.foldlM step l

end SparseIdsList

end IMeDesktop.Storage
