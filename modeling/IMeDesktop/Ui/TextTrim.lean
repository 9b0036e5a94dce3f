import IMeDesktop.Lib.Trim
import IMeDesktop.Ui.ParseEntities

/-! # Trimmed texts

`Trim` drops spaces at both ends of a text, at the beginning only up to a monospace entity. The entities go on
to cover what is left of what they covered.
-/

namespace IMeDesktop.Ui

open Lib

namespace EntityInText

def FirstMonospaceOffset (entities : List EntityInText) (textLength : Int) : Int :=
  ((entities.filter fun entity => entity.type = .pre || entity.type = .code).map offset).min?.getD textLength

/-! ## What an entity covers -/

structure Inside (entity : EntityInText) (size : Nat) : Prop where
  start : 0 ≤ entity.offset
  length : 0 ≤ entity.length
  finish : entity.offset + entity.length ≤ size

/-- Inside of a text, unless it is empty. -/
structure Fits (entity : EntityInText) (size : Nat) : Prop where
  start : 0 ≤ entity.offset
  length : 0 ≤ entity.length
  finish : 0 < entity.length → entity.offset + entity.length ≤ size

/-- Of what an entity covers, a piece of the text is left. -/
structure Remains (start size : Nat) (entity part : EntityInText) : Prop where
  type : part.type = entity.type
  data : part.data = entity.data
  covers : ∀ i : Int, part.Covers i ↔ 0 ≤ i ∧ i < size ∧ entity.Covers (start + i)

/-- Of what an entity covers the part does in a piece of the text. -/
structure Part (start size : Nat) (entity part : EntityInText) : Prop where
  type : part.type = entity.type
  data : part.data = entity.data
  inside : part.Inside size
  covers : ∀ i : Nat, part.Covers i ↔ i < size ∧ entity.Covers (start + i)

variable {entity : EntityInText} {size : Nat}

theorem updateTextEnd_self (inside : entity.Inside size) : entity.updateTextEnd size = entity := by
  have start := inside.start
  have length := inside.length
  have finish := inside.finish
  rw [updateTextEnd, if_neg (by omega), if_neg (by omega)]

theorem shiftLeft_zero (inside : entity.Inside size) : entity.shiftLeft 0 = entity := by
  have start := inside.start
  rw [shiftLeft, Int.sub_zero, if_neg (by omega)]

theorem covers_updateTextEnd (entity : EntityInText) (textEnd position : Int) :
    (entity.updateTextEnd textEnd).Covers position ↔ entity.Covers position ∧ position < textEnd := by
  rw [updateTextEnd, Covers, Covers]
  split_ifs
  · dsimp only
    omega
  · dsimp only
    omega
  · omega

theorem covers_shiftLeft (entity : EntityInText) (shift position : Int) :
    (entity.shiftLeft shift).Covers position ↔ 0 ≤ position ∧ entity.Covers (shift + position) := by
  rw [shiftLeft, Covers, Covers]
  split_ifs
  · dsimp only
    omega
  · dsimp only
    omega

theorem Inside.updateTextEnd (inside : entity.Inside size) (textEnd : Nat) :
    (entity.updateTextEnd textEnd).Inside textEnd := by
  have start := inside.start
  have length := inside.length
  rw [EntityInText.updateTextEnd]
  split_ifs
  · constructor <;> dsimp only <;> omega
  · constructor <;> dsimp only <;> omega
  · constructor <;> omega

theorem Inside.shiftLeft (inside : entity.Inside size) {shift : Nat} (short : shift ≤ size) :
    (entity.shiftLeft shift).Inside (size - shift) := by
  have start := inside.start
  have length := inside.length
  have finish := inside.finish
  rw [EntityInText.shiftLeft]
  split_ifs
  · constructor <;> dsimp only <;> omega
  · constructor <;> dsimp only <;> omega

theorem offset_shiftLeft (entity : EntityInText) (shift : Int) :
    (entity.shiftLeft shift).offset = max (entity.offset - shift) 0 := by
  rw [shiftLeft]
  split_ifs
  · dsimp only
    omega
  · dsimp only
    omega

theorem offset_updateTextEnd (entity : EntityInText) (textEnd : Int) :
    (entity.updateTextEnd textEnd).offset = min entity.offset textEnd := by
  rw [updateTextEnd]
  split_ifs
  · dsimp only
    omega
  · dsimp only
    omega
  · omega

/-- The entity after both. -/
def cut (entity : EntityInText) (textEnd shift : Int) : EntityInText := (entity.updateTextEnd textEnd).shiftLeft shift

theorem cut_part (inside : entity.Inside size) {textEnd shift : Nat} (short : shift ≤ textEnd) :
    Part shift (textEnd - shift) entity (entity.cut textEnd shift) := by
  refine ⟨?_, ?_, (inside.updateTextEnd textEnd).shiftLeft short, fun i => ?_⟩
  · rw [cut, shiftLeft, updateTextEnd]
    split_ifs <;> rfl
  · rw [cut, shiftLeft, updateTextEnd]
    split_ifs <;> rfl
  · rw [cut, covers_shiftLeft, covers_updateTextEnd]
    constructor
    · intro ⟨_, covers, before⟩
      exact ⟨by omega, covers⟩
    · intro ⟨before, covers⟩
      exact ⟨by omega, covers, by omega⟩

theorem offset_cut (entity : EntityInText) (textEnd shift : Int) :
    (entity.cut textEnd shift).offset = max (min entity.offset textEnd - shift) 0 := by
  rw [cut, offset_shiftLeft, offset_updateTextEnd]

/-! ## The first monospace entity -/

theorem min?_map_min (bound : Int) (offsets : List Int) :
    (offsets.map (min · bound)).min? = offsets.min?.map (min · bound) := by
  cases offsets with
  | nil => rfl
  | cons first rest =>
      simp only [List.map_cons, List.min?_cons', Option.map_some, Option.some.injEq]
      induction rest generalizing first with
      | nil => rfl
      | cons second rest ih =>
          simp only [List.map_cons, List.foldl_cons]
          rw [show min (min first bound) (min second bound) = min (min first second) bound by omega, ih]

theorem FirstMonospaceOffset_updated (entities : List EntityInText) {textEnd textLength : Int}
    (shorter : textEnd ≤ textLength) :
    FirstMonospaceOffset (entities.map fun entity => entity.updateTextEnd textEnd) textEnd =
      min (FirstMonospaceOffset entities textLength) textEnd := by
  have type : ∀ entity : EntityInText, (entity.updateTextEnd textEnd).type = entity.type := by
    intro entity
    rw [updateTextEnd]
    split_ifs <;> rfl
  have offsets : ((entities.map fun entity => entity.updateTextEnd textEnd).filter
      fun entity => entity.type = .pre || entity.type = .code).map offset =
      ((entities.filter fun entity => entity.type = .pre || entity.type = .code).map offset).map (min · textEnd) := by
    rw [List.filter_map, List.map_map, List.map_map]
    congr 1
    · exact funext fun entity => offset_updateTextEnd entity textEnd
    · congr 1
      funext entity
      simp only [Function.comp, type]
  rw [FirstMonospaceOffset, FirstMonospaceOffset, offsets, min?_map_min]
  cases ((entities.filter fun entity => entity.type = .pre || entity.type = .code).map offset).min? with
  | none => exact (min_eq_right shorter).symm
  | some first => rfl

theorem FirstMonospaceOffset_nonneg {entities : List EntityInText} (starts : ∀ entity ∈ entities, 0 ≤ entity.offset) :
    0 ≤ FirstMonospaceOffset entities size := by
  rw [FirstMonospaceOffset]
  cases least : ((entities.filter fun entity => entity.type = .pre || entity.type = .code).map offset).min? with
  | none => exact Int.natCast_nonneg size
  | some first =>
      obtain ⟨entity, known, rfl⟩ := List.mem_map.mp (List.min?_mem least)
      exact starts entity (List.mem_filter.mp known).1

end EntityInText

open EntityInText

namespace TextUtilities.Expressions

variable (e : Expressions)

def IsTrimmed (ch : QChar) : Bool := e.IsSpace ch || e.IsBad ch

/-- The first position that is not trimmed, or that is the given one. -/
def leftTrim (firstMonospaceOffset : Int) : Nat → QString → Option Nat
  | _, [] => none
  | position, ch :: rest =>
      if !e.IsTrimmed ch || position = firstMonospaceOffset then some position
      else leftTrim firstMonospaceOffset (position + 1) rest

def Trim (result : TextWithEntities) : TextWithEntities :=
  let l := (result.text.rdropWhile e.IsTrimmed).length
  if l = 0 then {}
  else
    let result :=
      if l < result.text.length then
        { text := result.text.take l, entities := result.entities.map fun entity => entity.updateTextEnd l }
      else result
    let firstMonospaceOffset := FirstMonospaceOffset result.entities result.text.length
    match e.leftTrim firstMonospaceOffset 0 result.text with
    | none => result
    | some l =>
        if l > 0 then
          { text := result.text.drop l, entities := result.entities.map fun entity => entity.shiftLeft l }
        else result

variable {e}

theorem leftTrim_eq {before : QString} (trimmed : ∀ ch ∈ before, e.IsTrimmed ch = true) {ch : QChar}
    (kept : ¬ e.IsTrimmed ch) (rest : QString) {firstMonospaceOffset : Int} {position : Nat}
    (first : position ≤ firstMonospaceOffset) :
    e.leftTrim firstMonospaceOffset position (before ++ ch :: rest) =
      some (min (position + before.length) firstMonospaceOffset.toNat) := by
  induction before generalizing position with
  | nil =>
      rw [List.nil_append, leftTrim, if_pos (by simp [kept])]
      exact congrArg some (by rw [List.length_nil]; omega)
  | cons head before ih =>
      have headTrimmed := trimmed head List.mem_cons_self
      rw [List.cons_append, leftTrim, headTrimmed, List.length_cons]
      by_cases here : (position : Int) = firstMonospaceOffset
      · rw [if_pos (by simp [here])]
        exact congrArg some (by omega)
      · rw [if_neg (by simp [here]), ih (fun ch known => trimmed ch (List.mem_cons_of_mem _ known)) (by omega)]
        exact congrArg some (by omega)

variable {text : TextWithEntities} {before middle after : QString}

theorem Trim_none (trimmed : ∀ ch ∈ text.text, e.IsTrimmed ch = true) : e.Trim text = {} := by
  rw [Trim, List.rdropWhile_eq_nil_iff.mpr trimmed]
  rfl

/-- An entity after the text was shortened to a length, if it was. -/
def rightTrimmed (last length : Nat) (entity : EntityInText) : EntityInText :=
  if last < length then entity.updateTextEnd last else entity

/-- And after some of its first characters were dropped, if any were. -/
def leftTrimmed (start : Nat) (entity : EntityInText) : EntityInText :=
  if 0 < start then entity.shiftLeft start else entity

theorem rightTrimmed_start {entity : EntityInText} (starts : 0 ≤ entity.offset) (last length : Nat) :
    0 ≤ (rightTrimmed last length entity).offset := by
  rw [rightTrimmed]
  split_ifs
  · rw [offset_updateTextEnd]
    omega
  · exact starts

theorem rightTrimmed_eq {entity : EntityInText} {last length : Nat} (inside : entity.Inside length)
    (shorter : last ≤ length) : rightTrimmed last length entity = entity.updateTextEnd last := by
  rw [rightTrimmed]
  split_ifs
  · rfl
  · have same : last = length := by omega
    rw [same, updateTextEnd_self inside]

theorem leftTrimmed_eq {entity : EntityInText} {size : Nat} (inside : entity.Inside size) (start : Nat) :
    leftTrimmed start entity = entity.shiftLeft start := by
  rw [leftTrimmed]
  split_ifs with moves
  · rfl
  · have zero : start = 0 := by omega
    rw [zero, Int.natCast_zero, shiftLeft_zero inside]

/-- The text up to its last characters. -/
theorem rightTrim_eq (ends : Ends e.IsTrimmed text.text before middle after) :
    (if (before ++ middle).length < text.text.length then
        { text := text.text.take (before ++ middle).length
          entities := text.entities.map fun entity => entity.updateTextEnd (before ++ middle).length }
      else text) =
      ({ text := before ++ middle
         entities := text.entities.map (rightTrimmed (before ++ middle).length text.text.length) } :
        TextWithEntities) := by
  have whole : text.text = before ++ middle ++ after := by rw [ends.whole, List.append_assoc]
  by_cases more : (before ++ middle).length < text.text.length
  · have front : text.text.take (before ++ middle).length = before ++ middle := by rw [whole, List.take_left]
    have entities : text.entities.map (rightTrimmed (before ++ middle).length text.text.length) =
        text.entities.map fun entity => entity.updateTextEnd (before ++ middle).length :=
      List.map_congr_left fun entity _ => if_pos more
    rw [if_pos more, front, entities]
  · have nothing : after = [] := by
      rw [whole, @List.length_append _ (before ++ middle) after] at more
      exact List.eq_nil_of_length_eq_zero (by omega)
    have all : before ++ middle = text.text := by rw [whole, nothing, List.append_nil]
    have entities : text.entities.map (rightTrimmed (before ++ middle).length text.text.length) = text.entities :=
      (List.map_congr_left fun entity _ => if_neg more).trans (List.map_id' _)
    rw [if_neg more, entities, all]

/-- Both trims, up to a first position. -/
theorem Trim_shape (ends : Ends e.IsTrimmed text.text before middle after) (some : middle ≠ [])
    (starts : ∀ entity ∈ text.entities, 0 ≤ entity.offset) :
    ∃ start : Nat, start = min (before.length : Int) (FirstMonospaceOffset
        (text.entities.map (rightTrimmed (before ++ middle).length text.text.length)) (before ++ middle).length) ∧
      e.Trim text =
        { text := (before ++ middle).drop start
          entities := text.entities.map fun entity =>
            leftTrimmed start (rightTrimmed (before ++ middle).length text.text.length entity) } := by
  have first : 0 ≤ FirstMonospaceOffset
      (text.entities.map (rightTrimmed (before ++ middle).length text.text.length)) (before ++ middle).length :=
    FirstMonospaceOffset_nonneg fun entity known => by
      obtain ⟨entity, member, rfl⟩ := List.mem_map.mp known
      exact rightTrimmed_start (starts entity member) _ _
  obtain ⟨ch, rest, rfl⟩ := List.exists_cons_of_ne_nil some
  have kept := ends.first rfl
  have notNone : ¬ (before ++ ch :: rest).length = 0 := by simp
  rw [Trim, ends.rdropWhile some]
  simp only [if_neg notNone, rightTrim_eq ends]
  generalize FirstMonospaceOffset (text.entities.map (rightTrimmed (before ++ ch :: rest).length text.text.length))
    (before ++ ch :: rest).length = firstMonospaceOffset at first ⊢
  have found := @leftTrim_eq e before ends.before ch kept rest firstMonospaceOffset 0 first
  rw [Nat.zero_add] at found
  refine ⟨min before.length firstMonospaceOffset.toNat, by omega, ?_⟩
  rw [found]
  generalize min before.length firstMonospaceOffset.toNat = start
  dsimp only
  by_cases moves : 0 < start
  · have left : (fun entity => leftTrimmed start
        (rightTrimmed (before ++ ch :: rest).length text.text.length entity)) = fun entity =>
        (rightTrimmed (before ++ ch :: rest).length text.text.length entity).shiftLeft start :=
      funext fun entity => if_pos moves
    rw [if_pos moves, List.map_map, left]
    rfl
  · have left : (fun entity => leftTrimmed start
        (rightTrimmed (before ++ ch :: rest).length text.text.length entity)) =
        rightTrimmed (before ++ ch :: rest).length text.text.length := funext fun entity => if_neg moves
    have zero : start = 0 := by omega
    rw [if_neg moves, left, zero, List.drop_zero]

theorem trimmed_remains {entity : EntityInText} {last length start : Nat} (fits : entity.Fits length)
    (shorter : last ≤ length) :
    Remains start (last - start) entity (leftTrimmed start (rightTrimmed last length entity)) := by
  have begins := fits.start
  have finishes := fits.finish
  have right : ∀ i, (rightTrimmed last length entity).Covers i ↔ entity.Covers i ∧ i < last := by
    intro i
    rw [rightTrimmed]
    split_ifs with cuts
    · exact covers_updateTextEnd entity last i
    · simp only [Covers]
      omega
  have nonneg := rightTrimmed_start begins last length
  have left : ∀ i, (leftTrimmed start (rightTrimmed last length entity)).Covers i ↔
      0 ≤ i ∧ (rightTrimmed last length entity).Covers (start + i) := by
    intro i
    rw [leftTrimmed]
    split_ifs with cuts
    · exact covers_shiftLeft _ start i
    · have zero : start = 0 := by omega
      rw [zero]
      simp only [Covers]
      omega
  refine ⟨?_, ?_, fun i => ?_⟩
  · rw [leftTrimmed, rightTrimmed, shiftLeft, updateTextEnd]
    split_ifs <;> rfl
  · rw [leftTrimmed, rightTrimmed, shiftLeft, updateTextEnd]
    split_ifs <;> rfl
  · rw [left, right]
    constructor
    · intro ⟨positive, covers, below⟩
      exact ⟨positive, by omega, covers⟩
    · intro ⟨positive, below, covers⟩
      exact ⟨positive, covers, by omega⟩

/-- A piece of the text is left with what the entities cover of it, or nothing of a text that has to be trimmed. -/
def Trimmed (e : Expressions) (text result : TextWithEntities) : Prop :=
  (∀ ch ∈ text.text, e.IsTrimmed ch = true) ∧ result = {} ∨
  ∃ start, start + result.text.length ≤ text.text.length ∧
    result.text = (text.text.drop start).take result.text.length ∧
    List.Forall₂ (Remains start result.text.length) text.entities result.entities

theorem Trim_trimmed (e : Expressions) (text : TextWithEntities)
    (fits : ∀ entity ∈ text.entities, entity.Fits text.text.length) : Trimmed e text (e.Trim text) := by
  obtain ⟨before, middle, after, ends⟩ := exists_ends e.IsTrimmed text.text
  by_cases nothing : middle = []
  · have trimmed := ends.middle_eq_nil_iff.mp nothing
    exact .inl ⟨trimmed, Trim_none trimmed⟩
  · obtain ⟨start, startEq, made⟩ := Trim_shape ends nothing fun entity known => (fits entity known).start
    have whole : text.text = before ++ middle ++ after := by rw [ends.whole, List.append_assoc]
    have shorter : (before ++ middle).length ≤ text.text.length := by
      rw [whole, @List.length_append _ (before ++ middle) after]
      omega
    have size : (e.Trim text).text.length = (before ++ middle).length - start := by rw [made, List.length_drop]
    have low : start ≤ (before ++ middle).length := by
      rw [List.length_append]
      omega
    refine .inr ⟨start, by omega, ?_, ?_⟩
    · rw [size, made, whole, List.drop_append_of_le_length low, List.take_left' List.length_drop]
    · rw [size, made, List.forall₂_map_right_iff, List.forall₂_same]
      exact fun entity known => trimmed_remains (fits entity known) shorter

theorem Trim_eq (ends : Ends e.IsTrimmed text.text before middle after) (some : middle ≠ [])
    (inside : ∀ entity ∈ text.entities, entity.Inside text.text.length) :
    ∃ start : Nat, start = min (before.length : Int) (FirstMonospaceOffset text.entities text.text.length) ∧
      e.Trim text =
        { text := (before ++ middle).drop start
          entities := text.entities.map fun entity => entity.cut (before ++ middle).length start } := by
  have shorter : (before ++ middle).length ≤ text.text.length := by
    rw [ends.whole, ← List.append_assoc, @List.length_append _ (before ++ middle) after]
    omega
  have length : (before ++ middle).length = before.length + middle.length := List.length_append
  obtain ⟨start, startEq, made⟩ := Trim_shape ends some fun entity known => (inside entity known).start
  have right : text.entities.map (rightTrimmed (before ++ middle).length text.text.length) =
      text.entities.map fun entity => entity.updateTextEnd (before ++ middle).length :=
    List.map_congr_left fun entity known => rightTrimmed_eq (inside entity known) shorter
  rw [right, FirstMonospaceOffset_updated _ (Int.ofNat_le.mpr shorter)] at startEq
  refine ⟨start, by omega, ?_⟩
  rw [made]
  congr 1
  refine List.map_congr_left fun entity known => ?_
  rw [rightTrimmed_eq (inside entity known) shorter, leftTrimmed_eq ((inside entity known).updateTextEnd _), cut]

/-- No links are found, and nothing but a space is one. -/
def plain : Expressions where
  domain := ⟨fun _ _ => none, not_found⟩
  domainExplicit := ⟨fun _ _ => none, not_found⟩
  hashtag := .never 2
  mention := .never 2
  botCommand := .never 3
  mailNameAtEnd := ⟨fun _ _ => none, not_found⟩
  hashtagExclude _ := false
  IsValidProtocol _ := false
  IsValidTopDomain _ := false
  toLower := id
  isLetter _ := false
  isLetterOrNumber _ := false
  isSpace ch := ch = 0x20
  isMac := false

end TextUtilities.Expressions

end IMeDesktop.Ui
