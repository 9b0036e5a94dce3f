import IMeDesktop.Lib.FlatSet

/-! # The comments of a post

A `RepliesList` holds ids of one thread, the newest first, with the numbers of those
before and after them as far as they are known. Answers of the server are merged in at its
two ends. An expectation of the source that does not hold gives `none`.
-/

namespace IMeDesktop.Data

open Lib

/-- `MsgId`, as far as the ids of a thread go. -/
abbrev MsgId := Int

/-- A message of an answer: `replyToTop` of the item made from it, if one was made. -/
structure ServerMessage where
  id : MsgId
  replyToTop : Option MsgId
  deriving DecidableEq, Repr

/-- `MTPmessages_Messages`. -/
inductive Messages where
  | messagesNotModified
  | messages (messages : List ServerMessage)
  | messagesSlice (count : Int) (messages : List ServerMessage)
  | channelMessages (count : Int) (messages : List ServerMessage)
  deriving DecidableEq, Repr

namespace Messages

def fullCount : Messages → Int
  | messagesNotModified => 0
  | messages list => list.length
  | messagesSlice count _ => count
  | channelMessages count _ => count

def list : Messages → List ServerMessage
  | messagesNotModified => []
  | messages list => list
  | messagesSlice _ list => list
  | channelMessages _ list => list

end Messages

/-- What `_beforeId` stands for: the place in use is shared. -/
inductive BeforeRequest where
  | around (id : MsgId)
  | before (last : MsgId)
  deriving DecidableEq, Repr

structure RepliesList where
  list : List MsgId := []
  skippedBefore : Option Int := none
  skippedAfter : Option Int := none
  fullCount : Option Int := none
  loadingAround : Option MsgId := none
  beforeId : Option BeforeRequest := none
  afterId : Option MsgId := none
  deriving DecidableEq, Repr

/-- The parts of a `MessageUpdate` that are looked at. -/
structure MessageUpdate where
  sameHistory : Bool
  isRegular : Bool
  replyToTop : MsgId
  id : MsgId
  destroyed : Bool
  deriving DecidableEq, Repr

structure MessagesSlice where
  ids : List MsgId := []
  nearestToAround : MsgId := 0
  fullCount : Option Int := none
  skippedBefore : Option Int := none
  skippedAfter : Option Int := none
  deriving DecidableEq, Repr

/-- The loop over an answer, with what it has put in front of the list so far. -/
structure Merge where
  list : List MsgId
  refreshed : List MsgId := []
  skipped : Int := 0
  deriving DecidableEq, Repr

def Merge.add (rootId : MsgId) (toFront : Bool) (m : Merge) (message : ServerMessage) : Merge :=
  if message.replyToTop = some rootId then
    if toFront ∧ m.list.head?.any (· < message.id) then { m with refreshed := m.refreshed ++ [message.id] }
    else if m.list.getLast?.all (message.id < ·) then { m with list := m.list ++ [message.id] }
    else m
  else { m with skipped := m.skipped + 1 }

namespace RepliesList

/-- `ranges::lower_bound(list, id, std::greater<>())`. -/
def lowerBound (list : List MsgId) (id : MsgId) : Nat := partitionPoint (fun other => decide (id < other)) list

def decrement (skipped : Option Int) (added : Int) : Option Int := skipped.map fun skipped => max (skipped - added) 0

/-- The numbers on both sides made to agree with the number of all. -/
def correctSkipped (toFront : Bool) (checkedCount nowSize : Int) :
    Option Int → Option Int → Option (Option Int × Option Int)
  | some before, some after =>
      let decrementFrom := if toFront then after else before
      let correct := max (checkedCount - decrementFrom - nowSize) 0
      let decrementFrom := checkedCount - correct - nowSize
      if decrementFrom ≥ 0 then
        some (if toFront then (some correct, some decrementFrom) else (some decrementFrom, some correct))
      else none
  | some before, none =>
      let before := min before (checkedCount - nowSize)
      some (some before, some (checkedCount - before - nowSize))
  | none, some after =>
      let after := min after (checkedCount - nowSize)
      some (some (checkedCount - after - nowSize), some after)
  | none, none => some (none, none)

/-- Whether nothing of the answer belongs to the thread. -/
def processMessagesIsEmpty (rootId : MsgId) (r : RepliesList) (result : Messages) : Option (Bool × RepliesList) :=
  match result.list.head? with
  | none => some (true, r)
  | some first =>
      let wasSize : Int := r.list.length
      let toFront : Bool := r.list.head?.any (· < first.id)
      let merge := result.list.foldl (Merge.add rootId toFront) { list := r.list }
      let list := if toFront then merge.refreshed ++ merge.list else merge.list
      let nowSize : Int := list.length
      let before := if toFront then r.skippedBefore else decrement r.skippedBefore (nowSize - wasSize)
      let after := if toFront then decrement r.skippedAfter (nowSize - wasSize) else r.skippedAfter
      let checkedCount := max (result.fullCount - merge.skipped) nowSize
      match correctSkipped toFront checkedCount nowSize before after with
      | none => none
      | some (before, after) =>
          if (result.list.length : Int) ≥ merge.skipped then
            some (decide ((result.list.length : Int) = merge.skipped),
              { r with list, skippedBefore := before, skippedAfter := after, fullCount := some checkedCount })
          else none

def loadAround (r : RepliesList) (id : MsgId) : RepliesList :=
  if r.loadingAround = some id then r
  else { r with afterId := none, loadingAround := some id, beforeId := some (.around id) }

/-- A request around an id is cancelled, but `loadingAround` keeps the id. -/
def loadBefore (r : RepliesList) : Option RepliesList :=
  match r.list.getLast? with
  | none => none
  | some last =>
      if r.loadingAround = none ∧ r.beforeId ≠ none then some r else some { r with beforeId := some (.before last) }

def loadAfter (r : RepliesList) : Option RepliesList :=
  match r.list.head? with
  | none => none
  | some first => if r.afterId ≠ none then some r else some { r with afterId := some first }

/-- What is known is dropped when an answer around an id comes in. -/
def cleared (r : RepliesList) (id : MsgId) : RepliesList :=
  { r with
    beforeId := none
    loadingAround := none
    skippedAfter := if id = 0 then some 0 else none
    skippedBefore := none
    list := [] }

def aroundDone (rootId : MsgId) (r : RepliesList) (id : MsgId) (result : Messages) : Option RepliesList :=
  match processMessagesIsEmpty rootId (r.cleared id) result with
  | none => none
  | some (true, r) => some { r with fullCount := some 0, skippedBefore := some 0, skippedAfter := some 0 }
  | some (false, r) =>
      if id = 0 then some r
      else
        match r.list.head?, r.list.getLast? with
        | some front, some back =>
            if front ≤ id then some { r with skippedAfter := some 0 }
            else if back ≥ id then some { r with skippedBefore := some 0 }
            else some r
        | _, _ => none

def beforeDone (rootId : MsgId) (r : RepliesList) (last : MsgId) (result : Messages) : Option RepliesList :=
  let r := { r with beforeId := none }
  match r.list.getLast? with
  | none => some r
  | some back =>
      if back ≠ last then r.loadBefore
      else
        match processMessagesIsEmpty rootId r result with
        | none => none
        | some (false, r) => some r
        | some (true, r) =>
            some { r with
              skippedBefore := some 0
              fullCount := if r.skippedAfter = some 0 then some r.list.length else r.fullCount }

def afterDone (rootId : MsgId) (r : RepliesList) (first : MsgId) (result : Messages) : Option RepliesList :=
  let r := { r with afterId := none }
  match r.list.head? with
  | none => some r
  | some front =>
      if front ≠ first then r.loadAfter
      else
        match processMessagesIsEmpty rootId r result with
        | none => none
        | some (false, r) => some r
        | some (true, r) =>
            some { r with
              skippedAfter := some 0
              fullCount := if r.skippedBefore = some 0 then some r.list.length else r.fullCount }

/-- The number of all after the list got one longer, or one shorter. -/
def recounted (r : RepliesList) (list : List MsgId) (known : Int → Int) : Option Int :=
  match r.skippedBefore, r.skippedAfter with
  | some before, some after => some (before + list.length + after)
  | _, _ => r.fullCount.map known

/-- `injected` are the messages of the root, which a viewer shows in front of the thread. -/
def applyUpdate (rootId : MsgId) (r : RepliesList) (injected : List MsgId) (update : MessageUpdate) :
    Bool × RepliesList :=
  if ¬ update.sameHistory ∨ ¬ update.isRegular then (false, r)
  else if update.destroyed ∧ update.id ∈ injected then (true, r)
  else if update.replyToTop ≠ rootId then (false, r)
  else
    let i := lowerBound r.list update.id
    if update.destroyed then
      if r.list[i]? ≠ some update.id then (false, r)
      else
        let list := r.list.eraseIdx i
        (true, { r with list, fullCount := r.recounted list fun known => if known > 0 then known - 1 else known })
    else if r.skippedAfter ≠ some 0 then (false, r)
    else if r.list[i]? = some update.id then (false, r)
    else
      let list := r.list.insertIdx i update.id
      (true, { r with list, fullCount := r.recounted list (· + 1) })

def channelDifferenceTooLong (r : RepliesList) : RepliesList := { r with skippedAfter := none }

def nearestToAround (ids : List MsgId) (around : MsgId) : MsgId :=
  match ids.findIdx? (· < around) with
  | some i => (ids[i - 1]?).getD 0
  | none => ids.getLast?.getD 0

/-- The slice a viewer gets, if it need not wait, before the root is put in front of it.
`was` is the slice it had: numbers that are not known keep their old values. -/
def buildFromData (r : RepliesList) (was : MessagesSlice) (around : MsgId) (limitBefore limitAfter : Nat) :
    Option (Option MessagesSlice × RepliesList) :=
  if r.list = [] ∧ r.skippedBefore = some 0 ∧ r.skippedAfter = some 0 then
    some (some { fullCount := some 0, skippedBefore := some 0, skippedAfter := some 0 }, r)
  else if r.list = [] ∨ (around = 0 ∧ r.skippedAfter ≠ some 0) ∨
      (r.list.head?.any (· < around) ∧ r.skippedAfter ≠ some 0) ∨
      (around > 0 ∧ r.list.getLast?.any (around < ·) ∧ r.skippedBefore ≠ some 0) then
    some (none, r.loadAround around)
  else
    let i := if around ≠ 0 then lowerBound r.list around else r.list.length
    let availableBefore := r.list.length - i
    let useBefore := min availableBefore (limitBefore + 1)
    let useAfter := min i limitAfter
    let ids := (r.list.drop (i - useAfter)).take (useAfter + useBefore)
    let slice : MessagesSlice := {
      ids
      nearestToAround := nearestToAround ids around
      fullCount := r.fullCount
      skippedBefore :=
        (r.skippedBefore.map fun skipped => skipped + ((availableBefore - useBefore : Nat) : Int)).or was.skippedBefore
      skippedAfter := (r.skippedAfter.map fun skipped => skipped + ((i - useAfter : Nat) : Int)).or was.skippedAfter }
    let before := if r.skippedBefore ≠ some 0 ∧ useBefore < limitBefore + 1 then r.loadBefore else some r
    match before with
    | none => none
    | some r =>
        let after := if r.skippedAfter ≠ some 0 ∧ useAfter < limitAfter then r.loadAfter else some r
        after.map (some slice, ·)

/-- The number of messages that others wrote. -/
def countIncoming (out : MsgId → Bool) (ids : List MsgId) : Int := ids.countP fun id => !out id

def fullUnreadCountAfter (rootId : MsgId) (out : MsgId → Bool) (r : RepliesList) (readTillId wasReadTillId : MsgId)
    (wasUnreadCountAfter : Option Int) : Option (Option Int) :=
  if readTillId < wasReadTillId then none
  else
    let readTillId := max readTillId rootId
    let wasReadTillId := max wasReadTillId rootId
    let backLoaded : Bool := r.skippedBefore = some 0
    let frontLoaded : Bool := r.skippedAfter = some 0
    let fullLoaded := backLoaded && frontLoaded
    let allUnread : Bool := readTillId = rootId || (fullLoaded && r.list = [])
    if allUnread && fullLoaded then some (some (countIncoming out r.list))
    else if frontLoaded && r.list.head?.any (· ≤ readTillId) then some (some 0)
    else if wasReadTillId = readTillId then some wasUnreadCountAfter
    else if frontLoaded && r.list.getLast?.any (· ≤ readTillId) then
      some (some (countIncoming out (r.list.take (lowerBound r.list readTillId))))
    else
      match r.list.head?, r.list.getLast?, wasUnreadCountAfter with
      | some front, some back, some wasUnread =>
          if (frontLoaded || readTillId ≤ front) && (backLoaded || wasReadTillId ≥ back) then
            let start := lowerBound r.list readTillId
            let rest := r.list.drop start
            some (some (max (wasUnread - countIncoming out (rest.take (lowerBound rest wasReadTillId))) 0))
          else some none
      | _, _, _ => some none

/-- What happens to the list. An answer is to the request that is open. -/
inductive Event where
  | build (was : MessagesSlice) (around : MsgId) (limitBefore limitAfter : Nat)
  | beforeDone (result : Messages)
  | beforeFail
  | afterDone (result : Messages)
  | afterFail
  | update (injected : List MsgId) (update : MessageUpdate)
  | differenceTooLong

def step (rootId : MsgId) (r : RepliesList) : Event → Option RepliesList
  | .build was around limitBefore limitAfter => (r.buildFromData was around limitBefore limitAfter).map Prod.snd
  | .beforeDone result =>
      match r.beforeId with
      | none => some r
      | some (.around id) => aroundDone rootId r id result
      | some (.before last) => beforeDone rootId r last result
  | .beforeFail =>
      match r.beforeId with
      | none => some r
      | some (.around _) => some { r with beforeId := none, loadingAround := none }
      | some (.before _) => some { r with beforeId := none }
  | .afterDone result =>
      match r.afterId with
      | none => some r
      | some first => afterDone rootId r first result
  | .afterFail => some { r with afterId := none }
  | .update injected update => some (applyUpdate rootId r injected update).2
  | .differenceTooLong => some r.channelDifferenceTooLong

def run (rootId : MsgId) (r : RepliesList) : List Event → Option RepliesList
  | [] => some r
  | event :: rest =>
      match step rootId r event with
      | none => none
      | some next => run rootId next rest

end RepliesList

end IMeDesktop.Data
