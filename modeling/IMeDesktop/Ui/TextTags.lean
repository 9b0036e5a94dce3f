import IMeDesktop.Ui.TextEntity

/-! # From the tags of an input field to entities

`ConvertTextTagsToEntities` goes over the tags and keeps a stack of the entities that
are not closed yet. At each tag it closes what the tag does not have, and with it all
that is above on the stack, and then opens what is missing.
-/

namespace IMeDesktop.Ui.TextUtilities

def kInMaskTypes : List EntityType := [.bold, .italic, .underline, .strikeOut, .spoiler, .code, .pre]

/-- The bits of `mask` are a function of the type. -/
structure State where
  link : QString := []
  mask : EntityType → Bool := fun _ => false

namespace State

def set (state : State) (type : EntityType) : State := { state with mask := Function.update state.mask type true }

def remove (state : State) (type : EntityType) : State := { state with mask := Function.update state.mask type false }

def has (state : State) (type : EntityType) : Bool := state.mask type

end State

/-- The variables of `ConvertTextTagsToEntities`; the back of the stack comes first. -/
structure Converting where
  result : List EntityInText := []
  offset : Int := 0
  state : State := {}
  notClosedEntities : List Nat := []

namespace Converting

/-- Only called with an entity on the stack. -/
def closeOne (c : Converting) : Converting :=
  match c.notClosedEntities with
  | [] => c
  | index :: rest =>
      match c.result[index]? with
      | none => c
      | some entity =>
          { c with
            result := c.result.set index { entity with length := c.offset - entity.offset }
            state :=
              if entity.type ∈ kInMaskTypes then c.state.remove entity.type
              else { c.state with link := [] }
            notClosedEntities := rest }

def closeTimes : Nat → Converting → Converting
  | 0, c => c
  | n + 1, c => closeTimes n c.closeOne

def hasType (c : Converting) (type : EntityType) (index : Nat) : Bool :=
  (c.result[index]?.map EntityInText.type) = some type

/-- `closeCount` is what is above the entity on the stack. -/
def closeType (c : Converting) (type : EntityType) : Converting :=
  match c.notClosedEntities.findIdx? (c.hasType type) with
  | none => c
  | some closeCount => closeTimes (closeCount + 1) c

def openType (c : Converting) (type : EntityType) (data : QString) : Converting :=
  { c with
    notClosedEntities := c.result.length :: c.notClosedEntities
    result := c.result ++ [{ type := type, offset := c.offset, length := -1, data := data }] }

end Converting

def isDigit (ch : QChar) : Bool := 0x30 ≤ ch && ch ≤ 0x39

/-- What `^(\d+\.\d+)(/|$)` captures; `$` also matches before a line feed at the end. -/
def mentionFields (text : QString) : Option QString :=
  let userId := text.takeWhile isDigit
  match text.dropWhile isDigit with
  | 0x2E :: rest =>
      let accessHash := rest.takeWhile isDigit
      let after := rest.dropWhile isDigit
      if userId ≠ [] ∧ accessHash ≠ [] ∧ (after = [] ∨ after = [0x0A] ∨ after.head? = some 0x2F) then
        some (userId ++ 0x2E :: accessHash)
      else none
  | _ => none

namespace Converting

def closeLink (c : Converting) (nextState : State) : Converting :=
  if nextState.link ≠ c.state.link then
    if IsMentionLink c.state.link then c.closeType .mentionName else c.closeType .customUrl
  else c

def closeTypes (c : Converting) (nextState : State) : Converting :=
  kInMaskTypes.foldl
    (fun c type => if c.state.has type && !nextState.has type then c.closeType type else c) c

def openLink (c : Converting) (linkChanged : Bool) (nextState : State) : Converting :=
  if linkChanged && nextState.link ≠ [] then
    if IsMentionLink nextState.link then
      match mentionFields (nextState.link.drop kMentionTagStart.length) with
      | some captured => c.openType .mentionName captured
      | none => c
    else c.openType .customUrl nextState.link
  else c

def openTypes (c : Converting) (nextState : State) : Converting :=
  kInMaskTypes.foldl
    (fun c type => if nextState.has type && !c.state.has type then c.openType type [] else c) c

def processState (c : Converting) (nextState : State) : Converting :=
  let linkChanged : Bool := nextState.link ≠ c.state.link
  let c := c.closeLink nextState
  let c := c.closeTypes nextState
  let c := c.openLink linkChanged nextState
  let c := c.openTypes nextState
  { c with state := nextState }

end Converting

def addTag (state : State) (single : QString) : State :=
  if single = kTagBold then state.set .bold
  else if single = kTagItalic then state.set .italic
  else if single = kTagUnderline then state.set .underline
  else if single = kTagStrikeOut then state.set .strikeOut
  else if single = kTagCode then state.set .code
  else if single = kTagPre then state.set .pre
  else if single = kTagSpoiler then state.set .spoiler
  else { state with link := single }

def stateForTag (tag : QString) : State := (SplitTags tag).foldl addTag {}

def processTag (c : Converting) (tag : Tag) : Converting :=
  let c := if tag.offset > c.offset then c.processState {} else c
  let c := { c with offset := tag.offset }.processState (stateForTag tag.id)
  { c with offset := c.offset + tag.length }

def ConvertTextTagsToEntities (tags : List Tag) : List EntityInText :=
  let c := (tags.foldl processTag {}).processState {}
  c.result.filter fun entity => 0 < entity.length

end IMeDesktop.Ui.TextUtilities
