import IMeDesktop.Ui.TextEntity

/-! # Links in a text

`ParseEntities` looks for mentions, hashtags, bot commands, e-mails and domains, always takes the nearest,
and goes on behind it. A link that was found is put next to the entities that were there, which are
walked through at the same time.

The regular expressions, and what the library and the lists say of characters and names, are given.
Positions are those in a text in memory, so nothing is at `kNotFound`, which is `none` here. A loop that
runs out of steps is `none`.
-/

namespace IMeDesktop.Ui.TextUtilities

/-! ## Expressions -/

structure Match where
  capturedStart : Nat
  capturedEnd : Nat
  captured : Nat → QString

/-- What is found is not empty, and not before the offset. -/
structure RegExp where
  find : QString → Nat → Option Match
  bounds : ∀ {text offset m}, find text offset = some m →
    offset ≤ m.capturedStart ∧ m.capturedStart < m.capturedEnd ∧ m.capturedEnd ≤ text.length

theorem not_found {text : QString} {offset : Nat} {m : Match} (found : none = some m) :
    offset ≤ m.capturedStart ∧ m.capturedStart < m.capturedEnd ∧ m.capturedEnd ≤ text.length := by
  cases found

/-- A search that the flags ask for. -/
def RegExp.asked (r : RegExp) (flags flag : UInt32) (text : QString) (offset : Nat) : Option Match :=
  if flags &&& flag ≠ 0 then r.find text offset else none

/-- One character belongs to a border that was captured. -/
def border (captured : QString) : Nat := if captured = [] then 0 else 1

/-- Something is found between the borders, the first group and the last one. -/
structure BorderedRegExp (last : Nat) extends RegExp where
  body : ∀ {text offset m}, find text offset = some m →
    m.capturedStart + border (m.captured 1) < m.capturedEnd - border (m.captured last)

theorem no_body {last : Nat} {m : Match} (found : none = some m) :
    m.capturedStart + border (m.captured 1) < m.capturedEnd - border (m.captured last) := by
  cases found

/-- An expression that is never found. -/
def BorderedRegExp.never (last : Nat) : BorderedRegExp last :=
  { find := fun _ _ => none, bounds := not_found, body := no_body }

structure Expressions where
  domain : RegExp
  domainExplicit : RegExp
  hashtag : BorderedRegExp 2
  mention : BorderedRegExp 2
  botCommand : BorderedRegExp 3
  mailNameAtEnd : RegExp
  hashtagExclude : QString → Bool
  IsValidProtocol : QString → Bool
  IsValidTopDomain : QString → Bool
  toLower : QString → QString
  isLetter : QChar → Bool
  isLetterOrNumber : QChar → Bool
  isSpace : QChar → Bool
  isMac : Bool

def isLowSurrogate (ch : QChar) : Bool := 0xDC00 ≤ ch && ch < 0xE000

def isHighSurrogate (ch : QChar) : Bool := 0xD800 ≤ ch && ch < 0xDC00

def IsAlmostLinkEnd (ch : QChar) : Bool :=
  ch == 0x3F || ch == 0x2C || ch == 0x2E || ch == 0x22 || ch == 0x3A || ch == 0x21 || ch == 0x27

def IsNewline (ch : QChar) : Bool := ch == 0x0A || ch == 156

def mid (text : QString) (position count : Nat) : QString := (text.drop position).take count

/-- A text in memory ends with a zero. -/
def charAt (text : QString) (position : Nat) : QChar := text.getD position 0

def TextParseMentions : UInt32 := 0x004
def TextParseHashtags : UInt32 := 0x008
def TextParseBotCommands : UInt32 := 0x010

namespace Expressions

variable (e : Expressions)

def IsBad (ch : QChar) : Bool :=
  ch == 0 || (8232 ≤ ch && ch < 8237) || (65024 ≤ ch && ch < 65040 && ch != 65039) ||
    (127 ≤ ch && ch < 160 && ch != 156) || (e.isMac && ch == 6158)

def IsSpace (ch : QChar) : Bool :=
  e.isSpace ch || ch < 32 || ch == 0x2029 || ch == 0x2028 || ch == 0xFFFC || ch == 0x0D || ch == 0x09 || ch == 8203

def IsLinkEnd (ch : QChar) : Bool :=
  e.IsBad ch || e.IsSpace ch || IsNewline ch || isLowSurrogate ch || isHighSurrogate ch

/-! ## The end of a link -/

/-- The first position from here where no link almost ends. -/
def skipAlmostLinkEnd (text : QString) (position : Nat) : Nat :=
  position + ((text.drop position).takeWhile IsAlmostLinkEnd).length

/-- The bracket that a closing one belongs to. -/
def openingOf (ch : QChar) : Option QChar :=
  if ch = 0x29 then some 0x28
  else if ch = 0x5D then some 0x5B
  else if ch = 0x7D then some 0x7B
  else if ch = 0x3E then some 0x3C
  else none

def isOpening (ch : QChar) : Bool := ch == 0x28 || ch == 0x5B || ch == 0x7B || ch == 0x3C

/-- Where the link ends that goes on at a position, with the brackets that are open. The steps are those of the
text that is left. -/
def linkEnd (text : QString) : Nat → Nat → List Nat → Nat
  | 0, p, _ => p
  | steps + 1, p, parenth =>
      if text.length ≤ p then p
      else if e.IsLinkEnd (charAt text p) then p
      else
        let almost := IsAlmostLinkEnd (charAt text p)
        let endTest := if almost then skipAlmostLinkEnd text (p + 1) else p
        if almost && (text.length ≤ endTest || e.IsLinkEnd (charAt text endTest)) then p
        else
          let ch := charAt text endTest
          if isOpening ch then linkEnd text steps (endTest + 1) (endTest :: parenth)
          else
            match openingOf ch with
            | none => linkEnd text steps (endTest + 1) parenth
            | some opening =>
                match parenth with
                | [] => endTest
                | q :: parenth => if charAt text q ≠ opening then q else linkEnd text steps (endTest + 1) parenth

/-! ## The nearest link -/

/-- The captured range without its borders. -/
def trimmed (last : Nat) (m : Match) : Nat × Nat :=
  (m.capturedStart + border (m.captured 1), m.capturedEnd - border (m.captured last))

/-- Whether something starts before something else does. -/
def startsBefore : Option (Nat × Nat) → Option (Nat × Nat) → Bool
  | none, _ => false
  | some _, none => true
  | some a, some b => a.1 < b.1

structure Mention where
  range : Option (Nat × Nat) := none
  hasMatch : Bool := false
  ignore : Bool := false
  skip : Nat

/-- A pair of surrogates is not split. -/
def mentionSkipFrom (text : QString) (mentionEnd : Nat) : Nat :=
  if mentionEnd < text.length && isLowSurrogate (charAt text mentionEnd) then mentionEnd + 1 else mentionEnd

/-- The loop over the mentions, from one that was found. -/
def nextMention (text : QString) (matchOffset : Nat) : Nat → Match → Nat → Option Mention
  | 0, _, _ => none
  | steps + 1, m, skip =>
      let range := trimmed 2 m
      if !e.isLetter (charAt text (range.1 + 1)) || !e.isLetterOrNumber (charAt text (range.2 - 1)) then
        let skip := mentionSkipFrom text range.2
        match e.mention.find text (max skip matchOffset) with
        | none => some { range := some range, ignore := true, skip := skip }
        | some m => nextMention text matchOffset steps m skip
      else some { range := some range, hasMatch := true, skip := skip }

inductive Detected where
  | nothing
  | ignored (offset matchOffset : Nat)
  | link (type : EntityType) (start length : Nat)

def detected (type : EntityType) (ignore : Bool) : Option (Nat × Nat) → Detected
  | none => .nothing
  | some (start, finish) => if ignore then .ignored finish finish else .link type start (finish - start)

/-- A domain that is the nearest: the end of an e-mail, or a link, or nothing. -/
def detectDomain (text : QString) (offset : Nat) (mDomain : Match) : Detected :=
  let protocol := e.toLower (mDomain.captured 1)
  let topDomain := e.toLower (mDomain.captured 3)
  let isProtocolValid := protocol = [] || e.IsValidProtocol protocol
  let isTopDomainValid := protocol ≠ [] || e.IsValidTopDomain topDomain
  let domainStart := mDomain.capturedStart
  let domainEnd := mDomain.capturedEnd
  let mMailName :=
    if protocol = [] ∧ domainStart > offset + 1 ∧ charAt text (domainStart - 1) = 0x40 then
      e.mailNameAtEnd.find (mid text offset (domainStart - offset - 1)) 0
    else none
  match mMailName with
  | some mMailName =>
      let mailStart := offset + mMailName.capturedStart
      .link .email mailStart (domainEnd - mailStart)
  | none =>
      if !isProtocolValid || !isTopDomainValid then .ignored offset domainEnd
      else
        let p := e.linkEnd text (text.length - domainEnd) domainEnd []
        if p > domainEnd ∧ charAt text domainEnd ≠ 0x2F ∧ charAt text domainEnd ≠ 0x3F then .ignored offset domainEnd
        else .link .url domainStart (p - domainStart)

def firstMention (text : QString) (flags : UInt32) (matchOffset mentionSkip : Nat) : Option Mention :=
  match e.mention.asked flags TextParseMentions text (max mentionSkip matchOffset) with
  | none => some { skip := mentionSkip }
  | some m => e.nextMention text matchOffset (text.length + 1) m mentionSkip

def range (m : Match) : Nat × Nat := (m.capturedStart, m.capturedEnd)

/-- What starts first is taken. Of two that start together a domain is before a bot command, and a bot command
before a hashtag. -/
def nearest (text : QString) (offset : Nat) (mention : Mention) (hashtag botCommand : Option (Nat × Nat))
    (mDomain : Option Match) : Detected :=
  let domain := mDomain.map range
  if startsBefore mention.range hashtag && startsBefore mention.range domain &&
      startsBefore mention.range botCommand then
    detected .mention mention.ignore mention.range
  else if startsBefore hashtag domain && startsBefore hashtag botCommand then
    let hashtagIgnore := hashtag.any fun range => e.hashtagExclude (mid text (range.1 + 1) (range.2 - range.1 - 1))
    detected .hashtag hashtagIgnore hashtag
  else if startsBefore botCommand domain then detected .botCommand false botCommand
  else
    match mDomain with
    | none => .nothing
    | some mDomain => e.detectDomain text offset mDomain

/-- What is nearest, and where mentions are looked for next. -/
def detect (text : QString) (flags : UInt32) (offset matchOffset mentionSkip : Nat) : Option (Detected × Nat) := do
  let mDomain := e.domain.find text matchOffset
  let mExplicitDomain := e.domainExplicit.find text matchOffset
  let mHashtag := e.hashtag.asked flags TextParseHashtags text matchOffset
  let mBotCommand := e.botCommand.asked flags TextParseBotCommands text matchOffset
  let mention ← e.firstMention text flags matchOffset mentionSkip
  if mDomain.isNone && mExplicitDomain.isNone && mHashtag.isNone && !mention.hasMatch && mBotCommand.isNone then
    some (.nothing, mention.skip)
  else
    let mDomain := if startsBefore (mExplicitDomain.map range) (mDomain.map range) then mExplicitDomain else mDomain
    some (e.nearest text offset mention (mHashtag.map (trimmed 2)) (mBotCommand.map (trimmed 3)) mDomain, mention.skip)

/-! ## The loop -/

/-- The entities that were there and the new ones. The index is that of the first entity behind the last link. -/
structure Merging where
  existingEntityIndex : Nat := 0
  existingEntityEnd : Int := 0
  newEntities : List EntityInText := []
  entities : List EntityInText

/-- The entities up to the link are passed, and the link is kept if none of them reaches it. -/
def Merging.addLink (existingEntitiesCount : Nat) (m : Merging) (link : EntityInText) : Merging :=
  let passed := ((m.entities.take existingEntitiesCount).drop m.existingEntityIndex).takeWhile
    fun entity => entity.offset ≤ link.offset
  let existingEntityEnd := passed.foldl (fun last entity => max last (entity.offset + entity.length)) m.existingEntityEnd
  { existingEntityIndex := m.existingEntityIndex + passed.length
    existingEntityEnd := existingEntityEnd
    newEntities := m.newEntities ++ passed
    entities := if link.offset ≥ existingEntityEnd then m.entities ++ [link] else m.entities }

def parseFrom (text : QString) (flags : UInt32) (existingEntitiesCount : Nat) :
    Nat → Nat → Nat → Nat → Merging → Option Merging
  | 0, _, _, _, _ => none
  | steps + 1, offset, matchOffset, mentionSkip, merging =>
      if text.length ≤ offset then some merging
      else do
        let (found, mentionSkip) ← e.detect text flags offset matchOffset mentionSkip
        match found with
        | .nothing => some merging
        | .ignored offset matchOffset =>
            parseFrom text flags existingEntitiesCount steps offset matchOffset mentionSkip merging
        | .link type start length =>
            parseFrom text flags existingEntitiesCount steps (start + length) (start + length) mentionSkip
              (merging.addLink existingEntitiesCount ⟨type, start, length, []⟩)

def ParseEntities (result : TextWithEntities) (flags : UInt32) : Option TextWithEntities := do
  let existingEntitiesCount := result.entities.length
  let merging ← e.parseFrom result.text flags existingEntitiesCount (result.text.length + 1) 0 0 0
    { entities := result.entities }
  some
    { result with
      entities :=
        if merging.newEntities = [] then merging.entities
        else
          merging.newEntities ++ (merging.entities.take existingEntitiesCount).drop merging.existingEntityIndex }

end Expressions

end IMeDesktop.Ui.TextUtilities
