import IMeDesktop.Dialogs.Entry
import IMeDesktop.Lib.Positions

/-! # Lists of chats

A list that is sorted by date: its rows, and for each chat the position of its row. A row is seen as its chat.

`none` is an access through a row that is gone.
-/

namespace IMeDesktop.Dialogs

open Lib

/-- `List`. -/
structure DialogsList where
  rows : List Key := []
  rowByKey : Key → Option Nat := fun _ => none

namespace DialogsList

def contains (list : DialogsList) (key : Key) : Bool := (list.rowByKey key).isSome

/-- The rows get one position after another. -/
def renumberRows (rowByKey : Key → Option Nat) : Nat → List Key → Key → Option Nat
  | _, [] => rowByKey
  | index, key :: rest => renumberRows (Function.update rowByKey key (some index)) (index + 1) rest

def rotate (list : DialogsList) (first middle last : Nat) : DialogsList :=
  let rows := rotated list.rows first middle last
  { rows := rows, rowByKey := renumberRows list.rowByKey first ((rows.take last).drop first) }

def adjustByDate (sortKey : Key → SortKey) (list : DialogsList) (row : Key) : Option DialogsList :=
  match list.rowByKey row with
  | none => none
  | some index =>
      let key := sortKey row
      let before := index + 1 + (list.rows.drop (index + 1)).findIdx fun row => sortKey row ≤ key
      if before ≠ index + 1 then some (list.rotate index (index + 1) before)
      else
        let after := index - (list.rows.take index).reverse.findIdx fun row => sortKey row ≥ key
        if after ≠ index then some (list.rotate after index (index + 1)) else some list

def addToEnd (sortKey : Key → SortKey) (list : DialogsList) (key : Key) : Option DialogsList :=
  if list.contains key then some list
  else
    let rowByKey := Function.update list.rowByKey key (some list.rows.length)
    adjustByDate sortKey { rows := list.rows ++ [key], rowByKey := rowByKey } key

def del (list : DialogsList) (key : Key) : DialogsList :=
  match list.rowByKey key with
  | none => list
  | some index =>
      let rows := list.rows.eraseIdx index
      { rows := rows, rowByKey := Function.update (renumberRows list.rowByKey index (rows.drop index)) key none }

end DialogsList

end IMeDesktop.Dialogs
