import IMeDesktop.Dialogs.DialogsList
import IMeDesktop.Lib.SortedMap

/-! # The indexed list of chats

All chats in one list, and for each letter those in another that have a word in their names starting with it. The
lists are sorted by date. A change of a chat is passed on to all the lists that its row is in.
-/

namespace IMeDesktop.Dialogs

open Lib

structure IndexedList where
  list : DialogsList := {}
  index : SortedMap Letter DialogsList := .empty

namespace IndexedList

/-- A chat is added to the list of a letter, which is there then. -/
def addLetter (sortKey : Key → SortKey) (key : Key) (index : SortedMap Letter DialogsList) (ch : Letter) :
    Option (SortedMap Letter DialogsList) := do
  let index := index.emplace ch {}
  let j ← index.find? ch
  let j ← j.addToEnd sortKey key
  some (index.set ch j)

def adjustLetter (sortKey : Key → SortKey) (key : Key) (index : SortedMap Letter DialogsList) (ch : Letter) :
    Option (SortedMap Letter DialogsList) :=
  match index.find? ch with
  | none => some index
  | some it => do
      let it ← it.adjustByDate sortKey key
      some (index.set ch it)

def delLetter (key : Key) (index : SortedMap Letter DialogsList) (ch : Letter) : SortedMap Letter DialogsList :=
  match index.find? ch with
  | none => index
  | some it => index.set ch (it.del key)

/-- The links to the rows that are added are returned beside the list. -/
def addToEnd (s : IndexedList) (entries : Entries) (key : Key) : Option (FlatSet Letter × IndexedList) :=
  if s.list.contains key then some (.empty, s)
  else do
    let list ← s.list.addToEnd entries.sortKey key
    let (letters, index) ← (entries.chatListFirstLetters key).items.foldlM
      (fun (letters, index) ch => do
        let index ← addLetter entries.sortKey key index ch
        some (letters.insert ch, index))
      (FlatSet.empty, s.index)
    some (letters, { list := list, index := index })

def adjustByDate (s : IndexedList) (entries : Entries) (key : Key) (links : FlatSet Letter) : Option IndexedList := do
  let list ← s.list.adjustByDate entries.sortKey key
  let index ← links.items.foldlM (adjustLetter entries.sortKey key) s.index
  some { list := list, index := index }

/-- The letters to remove and to add. -/
def namesChanged (oldLetters firstLetters : FlatSet Letter) : FlatSet Letter × FlatSet Letter :=
  firstLetters.items.foldl
    (fun (toRemove, toAdd) ch => if ch ∈ toRemove then (toRemove.remove ch, toAdd) else (toRemove, toAdd.insert ch))
    (oldLetters, .empty)

def adjustNames (s : IndexedList) (entries : Entries) (peerId : Nat) (oldLetters : FlatSet Letter) :
    Option (Entries × IndexedList) :=
  let key := Key.history peerId
  if s.list.contains key = false then some (entries, s)
  else do
    let (toRemove, toAdd) := namesChanged oldLetters (entries.chatListFirstLetters key)
    let (history, index) := toRemove.items.foldl
      (fun (history, index) ch => (history.removeChatListEntryByLetter key ch, delLetter key index ch))
      (entries, s.index)
    let (history, index) ← toAdd.items.foldlM
      (fun (history, index) ch => do
        let index ← addLetter entries.sortKey key index ch
        some (history.addChatListEntryByLetter key ch, index))
      (history, index)
    some (history, { s with index := index })

def del (s : IndexedList) (entries : Entries) (key : Key) : IndexedList :=
  if s.list.contains key then
    let index := (entries.chatListFirstLetters key).items.foldl (delLetter key) s.index
    { list := s.list.del key, index := index }
  else s

def clear (s : IndexedList) : IndexedList := { s with index := .empty }

end IndexedList

/-! ## Runs -/

/-- A list, and the chats. -/
structure ChatsState where
  entries : Entries
  chats : IndexedList

inductive ChatsStep where
  | addToEnd (key : Key)
  | sortKeyChanged (key : Key) (sortKey : SortKey)
  | firstLettersChanged (peerId : Nat) (letters : FlatSet Letter)
  | del (key : Key)
  | clear
  deriving DecidableEq

namespace ChatsState

/-- A chat is added and removed together with its links, and a change is followed by what adjusts the list to it. -/
def step (s : ChatsState) : ChatsStep → Option ChatsState
  | .addToEnd key => do
      let (letters, chats) ← s.chats.addToEnd s.entries key
      let links := (s.entries.chatListLinks key).getD letters
      some
        { entries := { s.entries with chatListLinks := Function.update s.entries.chatListLinks key (some links) }
          chats := chats }
  | .sortKeyChanged key sortKey =>
      let entries := { s.entries with sortKey := Function.update s.entries.sortKey key sortKey }
      match entries.chatListLinks key with
      | none => some { s with entries := entries }
      | some links => do
          let chats ← s.chats.adjustByDate entries key links
          some { entries := entries, chats := chats }
  | .firstLettersChanged peerId letters => do
      let key := Key.history peerId
      let oldLetters := s.entries.chatListFirstLetters key
      let entries :=
        { s.entries with chatListFirstLetters := Function.update s.entries.chatListFirstLetters key letters }
      let (entries, chats) ← s.chats.adjustNames entries peerId oldLetters
      some { entries := entries, chats := chats }
  | .del key =>
      some
        { entries := { s.entries with chatListLinks := Function.update s.entries.chatListLinks key none }
          chats := s.chats.del s.entries key }
  | .clear => some { s with chats := s.chats.clear }

def next (s : Option ChatsState) (step : ChatsStep) : Option ChatsState := s.bind fun s => s.step step

end ChatsState

end IMeDesktop.Dialogs
