import IMeDesktop.Ui.TextTags

/-! # From entities to the tags of an input field

`ConvertEntitiesToTextTags` goes over the entities by their offsets. The formats and the
link at a position are joined to one id, and what an entity adds to it is removed again at
its end. A tag is only made when the id changes: till then its offset stays behind.
-/

namespace IMeDesktop.Ui.TextUtilities

/-- `InputField::IsValidMarkdownLink`. -/
def IsValidMarkdownLink (link : QString) : Bool := 0x2E ∈ link || 0x3A ∈ link

/-- Texts are compared by their code units. -/
def codes (text : QString) : List Nat := text.map UInt16.toNat

def TagWithRemoved (tag removed : QString) : QString :=
  if tag = removed then [] else JoinTag ((SplitTags tag).filter fun single => single ≠ removed)

def TagWithAdded (tag added : QString) : QString :=
  if tag = [] ∨ tag = added then added
  else
    let list := SplitTags tag
    if added ∈ list then tag else JoinTag ((list ++ [added]).insertionSort fun a b => codes a ≤ codes b)

/-- The variables of `ConvertEntitiesToTextTags`. -/
structure Tagging where
  result : List Tag := []
  offset : Int := 0
  current : QString := []
  toRemove : List (Int × QString) := []
  deriving DecidableEq, Repr

namespace Tagging

def updateCurrent (t : Tagging) (nextOffset : Int) (next : QString) : Tagging :=
  if next = t.current then t
  else if nextOffset > t.offset then
    { t with
      result := if t.current ≠ [] then t.result ++ [⟨t.offset, nextOffset - t.offset, t.current⟩] else t.result
      offset := nextOffset
      current := next }
  else { t with current := next }

/-- The loop of `removeTill`, over what is to be removed. -/
def removeFrom (nextOffset : Int) : List (Int × QString) → Tagging → Tagging
  | [], t => { t with toRemove := [] }
  | first :: rest, t =>
      if first.1 ≤ nextOffset then
        removeFrom nextOffset rest (t.updateCurrent first.1 (TagWithRemoved t.current first.2))
      else { t with toRemove := first :: rest }

def removeTill (t : Tagging) (nextOffset : Int) : Tagging := removeFrom nextOffset t.toRemove t

def place (entry : Int × QString) : Int ×ₗ List Nat := toLex (entry.1, codes entry.2)

def push (t : Tagging) (entity : EntityInText) (tag : QString) : Tagging :=
  let t := t.removeTill entity.offset
  let t := t.updateCurrent entity.offset (TagWithAdded t.current tag)
  { t with
    toRemove := (t.toRemove ++ [(t.offset + entity.length, tag)]).insertionSort fun a b => place a ≤ place b }

end Tagging

/-- What `^(\d+\.\d+)$` matches; `$` also matches before a line feed at the end. -/
def isMentionData (text : QString) : Bool :=
  match text.dropWhile isDigit with
  | 0x2E :: rest =>
      let after := rest.dropWhile isDigit
      text.takeWhile isDigit ≠ [] && rest.takeWhile isDigit ≠ [] && (after = [] || after = [0x0A])
  | _ => false

/-- The tag that is pushed for an entity. -/
def tagOf (entity : EntityInText) : Option QString :=
  match entity.type with
  | .mentionName => if isMentionData entity.data then some (kMentionTagStart ++ entity.data) else none
  | .customUrl =>
      if IsValidMarkdownLink entity.data && !IsMentionLink entity.data then some entity.data else none
  | .bold => some kTagBold
  | .italic => some kTagItalic
  | .underline => some kTagUnderline
  | .strikeOut => some kTagStrikeOut
  | .code => some kTagCode
  | .pre => some kTagPre
  | .spoiler => some kTagSpoiler
  | _ => none

def pushEntity (t : Tagging) (entity : EntityInText) : Tagging :=
  match tagOf entity with
  | some tag => t.push entity tag
  | none => t

def ConvertEntitiesToTextTags (entities : List EntityInText) : List Tag :=
  let t := entities.foldl pushEntity {}
  match t.toRemove.getLast? with
  | some last => (t.removeTill last.1).result
  | none => t.result

end IMeDesktop.Ui.TextUtilities
