import IMeDesktop.Dialogs.Entry
import IMeDesktop.Lib.Positions
import Mathlib.Data.List.Infix
import Mathlib.Data.List.TakeDrop

/-! # Pinned chats

The list of the chats that are pinned in a filter has a limit, and each chat knows its place in it. The chats are
seen only through the index that they have for each filter, and through whether their folder is known.

`none` is an expectation that does not hold.
-/

namespace IMeDesktop.Dialogs

open Data Lib

/-- The chats get one index after another. -/
def cacheFrom (indexes : PinnedIndexes) (filterId : FilterId) : Nat → List Key → PinnedIndexes
  | _, [] => indexes
  | index, key :: rest => cacheFrom (cachePinnedIndex indexes filterId key index) filterId (index + 1) rest

/-- `MTPDialogPeer`. A peer without an id is zero. -/
inductive DialogPeer where
  | peer (peerId : Nat)
  | folder (folderId : Nat)
  deriving DecidableEq, Repr

structure PinnedList where
  filterId : FilterId
  limit : Nat
  limited : 0 < limit
  data : List Key := []
  indexes : PinnedIndexes
  folderKnown : Key → Bool

namespace PinnedList

/-- `setPinned(key, false)`. -/
def unpin (s : PinnedList) (key : Key) : Option PinnedList :=
  if s.folderKnown key = false ∧ s.filterId = 0 then none
  else
    match s.data.idxOf? key with
    | none => some s
    | some index =>
        let data := s.data.eraseIdx index
        let indexes := cachePinnedIndex s.indexes s.filterId key 0
        some { s with data := data, indexes := cacheFrom indexes s.filterId (index + 1) (data.drop index) }

/-- The loop, which is not repeated more often than there are chats. -/
def applyLimitFor : Nat → PinnedList → Nat → Option PinnedList
  | 0, s, _ => some s
  | rounds + 1, s, limit =>
      if s.data.length > limit then
        match s.data.getLast? with
        | none => none
        | some key => do
            let s ← s.unpin key
            applyLimitFor rounds s limit
      else some s

def applyLimit (s : PinnedList) (limit : Nat) : Option PinnedList := applyLimitFor s.data.length s limit

def setLimit (s : PinnedList) (limit : Nat) : Option PinnedList :=
  if limited : 0 < limit then
    if s.limit = limit then some s else applyLimit { s with limit := limit, limited := limited } limit
  else none

def addPinnedGetPosition (s : PinnedList) (key : Key) : Option (Nat × PinnedList) :=
  match s.data.idxOf? key with
  | some position => some (position, s)
  | none => do
      let s ← s.applyLimit (s.limit - 1)
      let position := s.data.length
      some (position,
        { s with data := s.data ++ [key], indexes := cachePinnedIndex s.indexes s.filterId key (position + 1) })

def addPinned (s : PinnedList) (key : Key) : Option PinnedList :=
  if s.folderKnown key = false then none
  else do
    let (_, s) ← s.addPinnedGetPosition key
    some s

def setPinned (s : PinnedList) (key : Key) (pinned : Bool) : Option PinnedList :=
  if s.folderKnown key = false ∧ s.filterId = 0 then none
  else if pinned then do
    let (position, s) ← s.addPinnedGetPosition key
    if position = 0 then some s
    else
      -- `std::rotate` takes the chat at the position to the front
      let data := (s.data.drop position).take 1 ++ s.data.take position ++ s.data.drop (position + 1)
      some { s with data := data, indexes := cacheFrom s.indexes s.filterId 1 (data.take (position + 1)) }
  else s.unpin key

def clear (s : PinnedList) : Option PinnedList := s.applyLimit 0

def applyPeer (s : PinnedList) : DialogPeer → Option PinnedList
  | .peer peerId => if peerId = 0 then some s else s.addPinned (.history peerId)
  | .folder folderId => s.addPinned (.folder folderId)

/-- `applyList` of what the server sends. -/
def applyPeers (s : PinnedList) (list : List DialogPeer) : Option PinnedList := do
  let s ← s.clear
  list.foldlM applyPeer s

/-- The chats that are gone lose their index. -/
def forget (indexes : PinnedIndexes) (filterId : FilterId) (data : List Key) : List Key → PinnedIndexes
  | [] => indexes
  | .folder folderId :: rest => forget (cachePinnedIndex indexes filterId (.folder folderId) 0) filterId data rest
  | .history peerId :: rest =>
      if .history peerId ∈ data then forget indexes filterId data rest
      else forget (cachePinnedIndex indexes filterId (.history peerId) 0) filterId data rest

/-- `applyList` of the pinned chats of a filter. -/
def applyHistories (s : PinnedList) (list : List Nat) : Option PinnedList :=
  if s.filterId = 0 then none
  else
    let data := list.map Key.history
    some { s with data := data, indexes := forget (cacheFrom s.indexes s.filterId 1 data) s.filterId data s.data }

def reorder (s : PinnedList) (key1 key2 : Key) : Option PinnedList :=
  match s.data.idxOf? key1, s.data.idxOf? key2 with
  | some index1, some index2 =>
      if index1 = index2 then none
      else
        let indexes := cachePinnedIndex s.indexes s.filterId key1 (index2 + 1)
        some
          { s with
            data := (s.data.set index1 key2).set index2 key1
            indexes := cachePinnedIndex indexes s.filterId key2 (index1 + 1) }
  | _, _ => none

end PinnedList

/-! ## Runs -/

/-- What is done to a list, and a folder that gets known. -/
inductive PinnedStep where
  | setLimit (limit : Nat)
  | addPinned (key : Key)
  | setPinned (key : Key) (pinned : Bool)
  | reorder (key1 key2 : Key)
  | clear
  | applyPeers (list : List DialogPeer)
  | applyHistories (list : List Nat)
  | folderKnown (key : Key)
  deriving DecidableEq, Repr

namespace PinnedList

def step (s : PinnedList) : PinnedStep → Option PinnedList
  | .setLimit limit => s.setLimit limit
  | .addPinned key => s.addPinned key
  | .setPinned key pinned => s.setPinned key pinned
  | .reorder key1 key2 => s.reorder key1 key2
  | .clear => s.clear
  | .applyPeers list => s.applyPeers list
  | .applyHistories list => s.applyHistories list
  | .folderKnown key => some { s with folderKnown := Function.update s.folderKnown key true }

def next (s : Option PinnedList) (step : PinnedStep) : Option PinnedList := s.bind fun s => s.step step

def run (s : PinnedList) (steps : List PinnedStep) : Option PinnedList := steps.foldl next (some s)

end PinnedList

end IMeDesktop.Dialogs
