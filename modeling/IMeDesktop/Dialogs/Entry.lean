import IMeDesktop.Data.ChatFilters
import IMeDesktop.Lib.FlatSet

/-! # Chats in the lists

What a chat keeps for the lists it is in: an index in the pinned chats of each filter, and for one list its sort
key, the first letters of its name and the links to its rows.
-/

namespace IMeDesktop.Dialogs

open Data Lib

inductive Key where
  | history (peerId : Nat)
  | folder (folderId : Nat)
  deriving DecidableEq, Repr

/-- What is cached in the chats. -/
abbrev PinnedIndexes := Key → FilterId → Nat

def cachePinnedIndex (indexes : PinnedIndexes) (filterId : FilterId) (key : Key) (index : Nat) : PinnedIndexes :=
  fun other filter => if other = key ∧ filter = filterId then index else indexes other filter

abbrev SortKey := Fin (2 ^ 64)

/-- `QChar`. -/
abbrev Letter := Fin (2 ^ 16)

/-- The chats for one list. A list has one row for each chat, so that a link is the letter of the list that the row
is in; the link to the row of the main list is there with the others. -/
structure Entries where
  sortKey : Key → SortKey
  chatListFirstLetters : Key → FlatSet Letter
  chatListLinks : Key → Option (FlatSet Letter)

namespace Entries

def removeChatListEntryByLetter (entries : Entries) (key : Key) (letter : Letter) : Entries :=
  { entries with
    chatListLinks :=
      Function.update entries.chatListLinks key ((entries.chatListLinks key).map fun links => links.remove letter) }

def addChatListEntryByLetter (entries : Entries) (key : Key) (letter : Letter) : Entries :=
  { entries with
    chatListLinks :=
      Function.update entries.chatListLinks key ((entries.chatListLinks key).map fun links => links.insert letter) }

end Entries

end IMeDesktop.Dialogs
