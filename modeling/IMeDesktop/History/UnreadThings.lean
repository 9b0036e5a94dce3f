import IMeDesktop.Lib.FlatSet

/-! # Unread mentions and reactions

A chat counts its unread mentions, and has the ids of some of them. It does the same with unread reactions, and both
lists are there together: they are made when one of them gets a count or an id, and dropped when both counts are zero.
That the counts are known is kept beside, so that without lists a count is zero or not known.
-/

namespace IMeDesktop.HistoryUnreadThings

open Lib

abbrev MsgId := Int

inductive AddType where
  | new
  | existing
  deriving DecidableEq, Repr

inductive ThingType where
  | mentions
  | reactions
  deriving DecidableEq, Repr

/-- `List`. -/
structure ThingsList where
  count : Option Int := none
  messages : FlatSet MsgId := .empty

def ThingsList.loadedCount (list : ThingsList) : Int := list.messages.size

structure All where
  mentions : ThingsList := {}
  reactions : ThingsList := {}

namespace All

def list (data : All) : ThingType → ThingsList
  | .mentions => data.mentions
  | .reactions => data.reactions

def other (data : All) : ThingType → ThingsList
  | .mentions => data.reactions
  | .reactions => data.mentions

def setList (data : All) (type : ThingType) (list : ThingsList) : All :=
  match type with
  | .mentions => { data with mentions := list }
  | .reactions => { data with reactions := list }

end All

/-- The part of a chat. In a broadcast channel nothing is added. -/
structure Things where
  broadcast : Bool := false
  known : Bool := false
  data : Option All := none

/-- `messages.Messages`, where each message has its id, and whether it is found to be unread. -/
inductive Slice where
  | messagesNotModified
  | messages (vmessages : List (MsgId × Bool))
  | messagesSlice (vcount : Int) (vmessages : List (MsgId × Bool))
  | channelMessages (vcount : Int) (vmessages : List (MsgId × Bool))
  deriving DecidableEq, Repr

namespace Slice

def fullCount : Slice → Int
  | .messagesNotModified => 0
  | .messages vmessages => vmessages.length
  | .messagesSlice vcount _ => vcount
  | .channelMessages vcount _ => vcount

def vmessages : Slice → List (MsgId × Bool)
  | .messagesNotModified => []
  | .messages received => received
  | .messagesSlice _ received => received
  | .channelMessages _ received => received

end Slice

namespace Things

/-! ## What is asked of the lists -/

def count (s : Things) (type : ThingType) : Option Int :=
  match s.data with
  | some data => (data.list type).count
  | none => if s.known then some 0 else none

def loadedCount (s : Things) (type : ThingType) : Int :=
  match s.data with
  | some data => (data.list type).loadedCount
  | none => 0

/-! ## What is done to them -/

def createData (known : Bool) : All :=
  if known then { mentions := { count := some 0 }, reactions := { count := some 0 } } else {}

/-- The end of `setCount`, with lists. -/
def setListCount (s : Things) (data : All) (type : ThingType) (count : Int) : Things :=
  let list := data.list type
  let loaded := list.loadedCount
  -- "real count is greater than received unread count"
  let count := if loaded > count then loaded else count
  if count = 0 ∧ (data.other type).count.getD (-1) = 0 then { s with data := none }
  else { s with data := some (data.setList type { list with count := some count }) }

/-- With what was known when the proxy was made. -/
def setCount (s : Things) (known : Bool) (type : ThingType) (count : Int) : Things :=
  let s := if known then s else { s with known := true }
  match s.data with
  | none => if count = 0 then s else s.setListCount (createData known) type count
  | some data => s.setListCount data type count

def add (s : Things) (type : ThingType) (msgId : MsgId) (addType : AddType) : Things × Bool :=
  if s.broadcast then (s, false)
  else
    let data := s.data.getD (createData s.known)
    let list := data.list type
    let count := list.count.getD (-1)
    let loaded := list.loadedCount
    let inserted := data.setList type { list with messages := list.messages.insert msgId }
    if count ≥ 0 ∧ loaded ≥ count then
      if addType = .new ∨ msgId ∉ list.messages then
        (setCount { s with data := some inserted } s.known type (count + 1), true)
      else ({ s with data := some data }, false)
    else if loaded > 0 ∧ addType ≠ .new then ({ s with data := some inserted }, true)
    else ({ s with data := some data }, false)

def erase (s : Things) (type : ThingType) (msgId : MsgId) : Things :=
  match s.data with
  | none => s
  | some data =>
      let list := data.list type
      let list := { list with messages := list.messages.remove msgId }
      let s := { s with data := some (data.setList type list) }
      let count := list.count.getD (-1)
      if count > 0 then s.setCount s.known type (count - 1) else s

def clear (s : Things) (type : ThingType) : Things :=
  match s.data with
  | none => s
  | some data =>
      if (s.count type).getD (-1) = 0 then s
      else
        let list := { data.list type with messages := .empty }
        setCount { s with data := some (data.setList type list) } s.known type 0

/-- The lists that were there first are the ones that tell what is loaded. -/
def addSlice (s : Things) (type : ThingType) (slice : Slice) (alreadyLoaded : Int) : Things :=
  let data := s.data.map fun data =>
    if alreadyLoaded = 0 then data.setList type { data.list type with messages := .empty } else data
  let cleared := match data with
    | some data => (data.list type).loadedCount
    | none => 0
  let messages := slice.vmessages
  let data := if messages ≠ [] ∧ data.isNone then some (createData s.known) else data
  let unread := messages.filter (·.2)
  let data := data.map fun data =>
    let list := data.list type
    data.setList type { list with messages := list.messages.merge (unread.map (·.1)) }
  let fullCount := if unread ≠ [] then slice.fullCount else cleared
  setCount { s with data := data } s.known type fullCount

end Things

end IMeDesktop.HistoryUnreadThings
