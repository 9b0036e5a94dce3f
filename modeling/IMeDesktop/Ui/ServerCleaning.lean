import IMeDesktop.Lib.Span
import IMeDesktop.Ui.TextTrim

/-! # Cleaned texts

Tabs become two spaces, from the last to the first, carriage returns are removed, from the first to the last, and
bad characters are replaced by spaces. All is done in the text itself: the parts between are moved, and with a
part the bounds of entities that are in it.

`none` is a move out of the text.
-/

namespace IMeDesktop.Ui

open Lib

namespace EntityInText

def extendToLeft (entity : EntityInText) (extent : Int) : EntityInText :=
  { entity with offset := entity.offset - extent, length := entity.length + extent }

def shrinkFromRight (entity : EntityInText) (shrink : Int) : EntityInText :=
  { entity with length := entity.length - shrink }

end EntityInText

namespace TextUtilities

def tabulation : QChar := 0x09
def carriageReturn : QChar := 0x0D
def space : QChar := 0x20

def IsReplacedBySpace (ch : QChar) : Bool :=
  ch ≤ 0x02 || (0x07 ≤ ch && ch ≤ 0x09) || (0x0B ≤ ch && ch ≤ 0x1F) || ch == 819 || ch == 831 || ch == 778 ||
    (8232 ≤ ch && ch ≤ 8237)

/-! ## Moves -/

def memmove (text : QString) (target origin count : Nat) : Option QString := do
  let part ← subspan text origin count
  overwrite text target part

def moveEntity (target origin count : Int) (entity : EntityInText) : EntityInText :=
  if entity.offset + entity.length ≤ origin then entity
  else
    let entity := if entity.offset ≥ origin then entity.extendToLeft (origin - target) else entity
    if entity.offset + entity.length ≤ origin + count then entity.shrinkFromRight (origin - target) else entity

/-- Up to the first entity behind the part. -/
def moveEntities (target origin count : Int) : List EntityInText → List EntityInText
  | [] => []
  | entity :: rest =>
      if entity.offset ≥ origin + count then entity :: rest
      else moveEntity target origin count entity :: moveEntities target origin count rest

def MoveStringPart (result : TextWithEntities) (target origin count : Nat) : Option TextWithEntities :=
  if count = 0 then some result
  else if target ≠ origin then do
    let text ← memmove result.text target origin count
    some { text := text, entities := moveEntities target origin count result.entities }
  else some result

structure Going where
  result : TextWithEntities
  target : Nat
  origin : Nat

def MovePartAndGoForward (going : Going) (count : Nat) : Option Going :=
  if count = 0 then some going
  else do
    let result ← MoveStringPart going.result going.target going.origin count
    some { result := result, target := going.target + count, origin := going.origin + count }

/-! ## Cleaning -/

def replacement : QString := [space, space]

/-- The characters that are left are those in front of a position. -/
def replaceTabs : Nat → Nat → Nat → TextWithEntities → Option TextWithEntities
  | 0, _, _, result => some result
  | i + 1, movedTill, target, result =>
      if charAt result.text i = tabulation then do
        let toMove := movedTill - (i + 1)
        let target := target - toMove
        let result ← MoveStringPart result target (i + 1) toMove
        let target := target - replacement.length
        let text ← overwrite result.text target replacement
        replaceTabs i i target { result with text := text }
      else replaceTabs i movedTill target result

/-- So many characters are left. -/
def removeReturns (len : Nat) : Nat → Going → Option TextWithEntities
  | 0, going => do
      let going ← MovePartAndGoForward going (len - going.origin)
      some
        (if going.target < len then
          { going.result with text := going.result.text.take going.target }
        else going.result)
  | left + 1, going =>
      let ch := len - (left + 1)
      if charAt going.result.text ch = carriageReturn then do
        let going ← MovePartAndGoForward going (ch - going.origin)
        removeReturns len left { going with origin := going.origin + 1 }
      else if IsReplacedBySpace (charAt going.result.text ch) then
        removeReturns len left
          { going with result := { going.result with text := going.result.text.set ch space } }
      else removeReturns len left going

def ApplyServerCleaning (result : TextWithEntities) : Option TextWithEntities := do
  let len := result.text.length
  let tabs := result.text.count tabulation
  let result ←
    if tabs = 0 then some result
    else
      let size := len + (replacement.length - 1) * tabs
      replaceTabs len len size { result with text := result.text ++ List.replicate (size - len) 0 }
  let len := result.text.length
  removeReturns len len { result := result, target := 0, origin := 0 }

namespace Expressions

variable (e : Expressions)

def PrepareForSending (result : TextWithEntities) (flags : UInt32) : Option TextWithEntities := do
  let result ← ApplyServerCleaning result
  let result ← if flags ≠ 0 then e.ParseEntities result flags else some result
  some (e.Trim result)

end Expressions

end TextUtilities

end IMeDesktop.Ui
