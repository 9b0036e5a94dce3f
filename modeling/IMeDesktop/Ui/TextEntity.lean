import Mathlib

/-! # Text with entities and with tags

A text is a list of UTF-16 code units. Its formatting comes in two forms: entities, each
with a type and a range, and the tags of an input field, each a range with an id. The id
is a list of formats and links joined with a separator.

`int` is unbounded here: offsets and lengths are those of a text in memory.
-/

namespace IMeDesktop.Ui

abbrev QChar := UInt16

abbrev QString := List QChar

def latin1 (chars : List Char) : QString := chars.map fun c => c.toNat.toUInt16

inductive EntityType where
  | invalid
  | url
  | customUrl
  | email
  | hashtag
  | cashtag
  | mention
  | mentionName
  | botCommand
  | mediaTimestamp
  | plainLink
  | bold
  | semibold
  | italic
  | underline
  | strikeOut
  | code
  | pre
  | spoiler
  deriving DecidableEq, Repr

structure EntityInText where
  type : EntityType
  offset : Int
  length : Int
  data : QString := []
  deriving DecidableEq, Repr

namespace EntityInText

def shiftLeft (entity : EntityInText) (shift : Int) : EntityInText :=
  let offset := entity.offset - shift
  if offset < 0 then { entity with offset := 0, length := max (entity.length + offset) 0 }
  else { entity with offset := offset }

def updateTextEnd (entity : EntityInText) (textEnd : Int) : EntityInText :=
  if entity.offset > textEnd then { entity with offset := textEnd, length := 0 }
  else if entity.offset + entity.length > textEnd then { entity with length := textEnd - entity.offset }
  else entity

def Covers (entity : EntityInText) (position : Int) : Prop :=
  entity.offset ≤ position ∧ position < entity.offset + entity.length

end EntityInText

structure TextWithEntities where
  text : QString := []
  entities : List EntityInText := []
  deriving DecidableEq, Repr

/-- `TextWithTags::Tag`. -/
structure Tag where
  offset : Int
  length : Int
  id : QString
  deriving DecidableEq, Repr

namespace TextUtilities

/-! ## Tags -/

def kTagSeparator : QChar := 0x5C
def kTagBold : QString := latin1 ['*', '*']
def kTagItalic : QString := latin1 ['_', '_']
def kTagUnderline : QString := latin1 ['^', '^']
def kTagStrikeOut : QString := latin1 ['~', '~']
def kTagCode : QString := [0x60]
def kTagPre : QString := [0x60, 0x60, 0x60]
def kTagSpoiler : QString := latin1 ['|', '|']

/-- The text `mention://user.`. -/
def kMentionTagStart : QString :=
  latin1 ['m', 'e', 'n', 't', 'i', 'o', 'n', ':', '/', '/', 'u', 's', 'e', 'r', '.']

def IsMentionLink (link : QString) : Bool := kMentionTagStart.isPrefixOf link

def IsSeparateTag (tag : QString) : Bool := tag = kTagCode || tag = kTagPre

def JoinTag : List QString → QString
  | [] => []
  | first :: rest =>
      first ++ ((rest.filter fun tag => !IsSeparateTag tag).map fun tag => kTagSeparator :: tag).flatten

def SplitTags (tag : QString) : List QString := tag.splitOn kTagSeparator

end TextUtilities

end IMeDesktop.Ui
