import IMeDesktop.Ui.TextTrim

/-! # A part of a text

A text that is too long for a message is sent in parts. A part ends at the best place in its second half, where the
text has a new line rather than a space, and no entity rather than one that can be sent in two pieces.

What `Emoji::Find` finds is taken from outside. The limit is not negative.
-/

namespace IMeDesktop.Ui

/-- How many code units an emoji at the beginning of a text has. -/
abbrev Find := QString → Option Nat

def IsWordSeparator (ch : QChar) : Bool :=
  [0x20, 0x0A, 0x2E, 0x2C, 0x3F, 0x21, 0x40, 0x23, 0x24, 0x3A, 0x3B, 0x2D, 0x3C, 0x3E, 0x5B, 0x5D, 0x28, 0x29, 0x7B,
    0x7D, 0x3D, 0x2F, 0x2B, 0x25, 0x26, 0x5E, 0x2A, 0x27, 0x22, 0x60, 0x7E, 0x7C].contains ch

namespace TextUtilities

def IsSentencePartEnd (ch : QChar) : Bool := ch == 0x2C || ch == 0x3A || ch == 0x3B

def IsSentenceEnd (ch : QChar) : Bool := ch == 0x2E || ch == 0x3F || ch == 0x21

/-- A place where a part may end. -/
structure Good where
  level : Nat := 0
  position : Nat := 0
  entity : Nat := 0
  inEntity : Bool := false
  canBreakEntity : Bool := false
  deriving DecidableEq, Repr

def Good.markAs (was now : Good) : Good := if was.level > now.level then was else now

/-- The first entity from this one that does not end before a position. -/
def skipEnded (entities : List EntityInText) (ch current : Nat) : Nat :=
  current + ((entities.drop current).takeWhile fun entity => entity.offset + entity.length ≤ (ch : Int)).length

def canBreak (type : EntityType) : Bool := type = .pre || type = .code

section Code

variable (e : Expressions) (find : Find)

/-- The place before a code unit, with the entity that does not end before it. -/
def placeAt (text : QString) (entities : List EntityInText) (ch current : Nat) : Good :=
  let inEntity := (entities[current]?).any fun entity =>
    entity.offset < (ch : Int) && (ch : Int) < entity.offset + entity.length
  let canBreakEntity := (entities[current]?).any fun entity => canBreak entity.type
  let noEntityLevel := if inEntity then 0 else 1
  let nextNewline := ch + 1 < text.length && IsNewline (charAt text (ch + 1))
  let beforePre := (entities[current]?).any fun entity => (ch + 1 : Int) = entity.offset && entity.type = .pre
  let afterPre := current > 0 &&
    (entities[current - 1]?).any fun entity => (ch : Int) = entity.offset + entity.length && entity.type = .pre
  let level :=
    if inEntity && !canBreakEntity then 0
    else if IsNewline (charAt text ch) then
      if inEntity then (if nextNewline then 12 else 11)
      else if nextNewline then 15
      else if beforePre then 14
      else if afterPre then 14
      else 13
    else if e.IsSpace (charAt text ch) then
      if IsSentenceEnd (charAt text (ch - 1)) then 9 + noEntityLevel
      else if IsSentencePartEnd (charAt text (ch - 1)) then 7 + noEntityLevel
      else 5 + noEntityLevel
    else if IsWordSeparator (charAt text (ch - 1)) then 3 + noEntityLevel
    else 1 + noEntityLevel
  ⟨level, ch, current, inEntity, canBreakEntity⟩

/-- The loop over the code units of an emoji, of which some are left. -/
def passEmoji (text : QString) : Nat → Nat → Nat → Nat × Nat
  | 0, ch, s => (ch, s)
  | 1, ch, s => (ch + 1, s + 1)
  | left + 2, ch, s =>
      if isHighSurrogate (charAt text ch) && isLowSurrogate (charAt text (ch + 1)) then
        passEmoji text left (ch + 2) (s + 1)
      else passEmoji text (left + 1) (ch + 1) (s + 1)

/-- What is at a position is passed, up to its last code unit. -/
def passOne (text : QString) (ch s : Nat) : Nat × Nat :=
  match find (text.drop ch) with
  | some elen => ((passEmoji text elen ch s).1 - 1, (passEmoji text elen ch s).2 - 1)
  | none =>
      if isHighSurrogate (charAt text ch) && ch + 1 < text.length && isLowSurrogate (charAt text (ch + 1)) then
        (ch + 1, s)
      else (ch, s)

/-- The loop over the text, with a bound on its steps. Where it ends early, the text is cut. -/
def findGood (left : TextWithEntities) (limit : Nat) : Nat → Nat → Nat → Nat → Good → Option Good
  | 0, _, _, _, _ => none
  | steps + 1, ch, s, current, good =>
      if left.text.length ≤ ch then none
      else
        let current := skipEnded left.entities ch current
        let good := if s > limit / 2 then good.markAs (placeAt e left.text left.entities ch current) else good
        let (ch, s) := passOne find left.text ch s
        if s ≥ limit then some good else findGood left limit steps (ch + 1) (s + 1) current good

/-- The part to be sent, and what is left. The entities that are behind one that is dropped keep their places. -/
def CutPart (left : TextWithEntities) (limit : Nat) : Option (TextWithEntities × TextWithEntities) :=
  if left.text = [] ∨ limit = 0 then none
  else
    match findGood e find left limit left.text.length 0 0 0 {} with
    | none => some (left, {})
    | some good =>
        let sent := left.text.take good.position
        let rest := left.text.drop good.position
        let before := left.entities.take good.entity
        let shifted (entities : List EntityInText) := entities.map (·.shiftLeft good.position)
        if good.inEntity then
          if good.canBreakEntity then
            let cut := (left.entities[good.entity]?).toList.map (·.updateTextEnd good.position)
            some (⟨sent, before ++ cut⟩, ⟨rest, shifted (left.entities.drop good.entity)⟩)
          else some (⟨sent, before⟩, ⟨rest, left.entities.drop (good.entity + 1)⟩)
        else some (⟨sent, before⟩, ⟨rest, shifted (left.entities.drop good.entity)⟩)

/-- A text is sent in parts. -/
inductive Sends (limit : Nat) : TextWithEntities → List TextWithEntities → Prop
  | done {left : TextWithEntities} : CutPart e find left limit = none → Sends limit left []
  | more {sending left rest : TextWithEntities} {parts : List TextWithEntities} :
      CutPart e find left limit = some (sending, rest) → Sends limit rest parts → Sends limit left (sending :: parts)

end Code

end TextUtilities

end IMeDesktop.Ui
