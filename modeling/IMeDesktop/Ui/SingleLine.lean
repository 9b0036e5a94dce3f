import IMeDesktop.Ui.TextTrim

/-! # Texts in a single line

`SingleLine` trims a text and its entities with `Trim`, and then the text once more, this time past monospace
entities and without the entities.
-/

namespace IMeDesktop.Ui.TextUtilities.Expressions

open Lib EntityInText

variable (e : Expressions)

def oneLine (ch : QChar) : QChar := if IsNewline ch then 0x20 else ch

/-- `SingleLine` of a `QString`. -/
def SingleLineText (text : QString) : QString := (trim e.IsTrimmed text).map oneLine

def SingleLine (text : TextWithEntities) : TextWithEntities :=
  let copy := e.Trim text
  { text := e.SingleLineText copy.text, entities := copy.entities }

/-! ## Attached entities -/

/-- What is trimmed at the beginning. -/
def leading (text : QString) : Nat := (text.takeWhile e.IsTrimmed).length

/-- The text without its ends in one line, where each entity covers what is left of its characters. Nothing is
left of an empty text. -/
structure InOneLine (text result : TextWithEntities) : Prop where
  line : result.text = (trim e.IsTrimmed text.text).map oneLine
  attached : result.text = [] ∧ result.entities = [] ∨
    List.Forall₂ (Part (e.leading text.text) result.text.length) text.entities result.entities

/-- The first trim leaves nothing to the second, or the entities have nothing left to cover. -/
def TrimmedOnce (text : TextWithEntities) : Prop :=
  let firstMonospaceOffset := FirstMonospaceOffset text.entities text.text.length
  (∀ ch ∈ text.text, e.IsTrimmed ch) ∨ e.leading text.text ≤ firstMonospaceOffset ∨
    ∀ entity ∈ text.entities,
      entity.offset + (e.leading text.text - firstMonospaceOffset) ≤ (text.text.rdropWhile e.IsTrimmed).length ∧
        (entity.length = 0 ∨ entity.offset + entity.length ≤ firstMonospaceOffset)

variable {e} {text : TextWithEntities} {before middle after : QString}

/-- With a later beginning, an entity covers the same characters only if it has none. -/
theorem cut_later_iff {entity : EntityInText} {n first start last : Nat} (inside : entity.Inside n)
    (later : first < start) (finish : start < last) :
    Part start (last - start) entity (entity.cut last first) ↔
      entity.offset + (start - first : Int) ≤ last ∧
        (entity.length = 0 ∨ entity.offset + entity.length ≤ first) := by
  have part := cut_part inside (show first ≤ last by omega)
  have offset := offset_cut entity last first
  have within := part.inside
  have covers := part.covers
  generalize entity.cut last first = cut at part offset within covers ⊢
  have begins := inside.start
  have long := inside.length
  have nonneg := within.start
  have longer := within.length
  have ends := within.finish
  constructor
  · intro again
    have shorter := again.inside.finish
    have empty : cut.length = 0 := by
      -- the last character is covered at both places, and so is all between them
      by_contra some
      obtain ⟨i, last⟩ := Int.eq_ofNat_of_zero_le (show 0 ≤ cut.offset + cut.length - 1 by omega)
      have here := again.covers i
      have there := covers i
      have next := covers (i + 1)
      simp only [Covers] at here there next
      omega
    refine ⟨by omega, ?_⟩
    by_contra some
    obtain ⟨i, covered⟩ := Int.eq_ofNat_of_zero_le (show 0 ≤ max entity.offset first - first by omega)
    have here := covers i
    simp only [Covers] at here
    omega
  · rintro ⟨early, nothing⟩
    have empty : cut.length = 0 := by
      by_contra some
      obtain ⟨i, covered⟩ := Int.eq_ofNat_of_zero_le nonneg
      have here := covers i
      simp only [Covers] at here
      omega
    refine ⟨part.type, part.data, ⟨nonneg, longer, by omega⟩, fun i => ?_⟩
    simp only [Covers]
    omega

/-- Where a part of the text is left, the trimmed beginning and the new entities are known. -/
theorem inOneLine_iff (ends : Ends e.IsTrimmed text.text before middle after) (some : middle ≠ []) {start : Nat}
    (few : start ≤ before.length)
    (made : e.Trim text =
      { text := (before ++ middle).drop start
        entities := text.entities.map fun entity => entity.cut (before ++ middle).length start }) :
    e.InOneLine text (e.SingleLine text) ↔ ∀ entity ∈ text.entities,
      Part before.length ((before ++ middle).length - before.length) entity
        (entity.cut (before ++ middle).length start) := by
  have line : (e.SingleLine text).text = middle.map oneLine := by
    rw [SingleLine, made, SingleLineText, (ends.drop few).trim_eq]
  have entities : (e.SingleLine text).entities =
      text.entities.map fun entity => entity.cut (before ++ middle).length start := by
    rw [SingleLine, made]
  have size : (e.SingleLine text).text.length = (before ++ middle).length - before.length := by
    rw [line, List.length_map, List.length_append, Nat.add_sub_cancel_left]
  have left : (e.SingleLine text).text ≠ [] := by
    rw [line]
    exact mt List.map_eq_nil_iff.mp some
  have leads : e.leading text.text = before.length := by rw [leading, ends.takeWhile some]
  constructor
  · intro attached
    have parts := attached.attached.resolve_left fun nothing => left nothing.1
    rw [leads, size, entities, List.forall₂_map_right_iff, List.forall₂_same] at parts
    exact parts
  · intro parts
    refine ⟨by rw [line, ends.trim_eq], .inr ?_⟩
    rw [leads, size, entities, List.forall₂_map_right_iff, List.forall₂_same]
    exact parts

theorem SingleLine_inOneLine_iff (text : TextWithEntities)
    (inside : ∀ entity ∈ text.entities, entity.Inside text.text.length) :
    e.InOneLine text (e.SingleLine text) ↔ e.TrimmedOnce text := by
  obtain ⟨before, middle, after, ends⟩ := exists_ends e.IsTrimmed text.text
  by_cases nothing : middle = []
  · have trimmed := ends.middle_eq_nil_iff.mp nothing
    have made : e.SingleLine text = {} := by
      rw [SingleLine, Trim_none trimmed]
      rfl
    rw [made]
    refine iff_of_true ⟨?_, .inl ⟨rfl, rfl⟩⟩ (.inl trimmed)
    rw [ends.trim_eq, nothing]
    rfl
  · obtain ⟨start, startEq, made⟩ := Trim_eq ends nothing inside
    have leads : e.leading text.text = before.length := by rw [leading, ends.takeWhile nothing]
    have notAll := mt ends.middle_eq_nil_iff.mpr nothing
    have length : (before ++ middle).length = before.length + middle.length := List.length_append
    have long := List.length_pos_iff.mpr nothing
    rw [inOneLine_iff ends nothing (by omega) made, TrimmedOnce, or_iff_right notAll, leads, ends.rdropWhile nothing]
    by_cases stops : (before.length : Int) ≤ FirstMonospaceOffset text.entities text.text.length
    · have same : start = before.length := by omega
      refine iff_of_true (fun entity known => ?_) (.inl stops)
      rw [same]
      exact cut_part (inside entity known) (by omega)
    · have first : FirstMonospaceOffset text.entities text.text.length = start := by omega
      rw [or_iff_right stops, first]
      refine forall₂_congr fun entity known => ?_
      exact cut_later_iff (inside entity known) (by omega) (by omega)

/-- A space and a letter, both bold. -/
def bolded : TextWithEntities := ⟨latin1 [' ', 'a'], [⟨.bold, 0, 2, []⟩]⟩

/-- A space and a letter, both code. -/
def coded : TextWithEntities := ⟨latin1 [' ', 'a'], [⟨.code, 0, 2, []⟩]⟩

theorem bolded_inOneLine : plain.InOneLine bolded (plain.SingleLine bolded) ↔ plain.TrimmedOnce bolded :=
  SingleLine_inOneLine_iff bolded fun _ known => by
    rw [List.mem_singleton.mp known]
    exact ⟨by decide, by decide, by decide⟩

/-- The text is trimmed for a second time, and the code goes past its end. -/
theorem coded_not_inOneLine : (∀ entity ∈ coded.entities, entity.Inside coded.text.length) ∧
    ¬ plain.InOneLine coded (plain.SingleLine coded) := by
  constructor
  · intro entity known
    rw [List.mem_singleton.mp known]
    exact ⟨by decide, by decide, by decide⟩
  have made : plain.SingleLine coded = ⟨latin1 ['a'], [⟨.code, 0, 2, []⟩]⟩ := by decide
  intro attached
  rw [made] at attached
  have parts := attached.attached.resolve_left (by decide)
  cases parts with
  | cons part _ => exact absurd part.inside.finish (by decide)

end IMeDesktop.Ui.TextUtilities.Expressions
