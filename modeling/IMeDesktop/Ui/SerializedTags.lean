import IMeDesktop.Lib.DataStream
import IMeDesktop.Ui.TextEntity

/-! # Tags as bytes

The tags of an input field go through the clipboard and through drafts as bytes. They are read back until
one of them does not lie in the text. Where a tag ends is computed in 32 bits, and an end that does not fit
in them comes out negative.
-/

namespace IMeDesktop.Ui.SerializedTags

open Lib DataStream

structure Tag where
  offset : Int32
  length : Int32
  id : Option QString
  deriving DecidableEq

namespace Tag

def idSize (tag : Tag) : Nat := (tag.id.getD []).length

def serialized (tag : Tag) : Bytes := putInt32 tag.offset ++ (putInt32 tag.length ++ putNullable tag.id)

def refused (textLength : Int32) (tag : Tag) : Bool :=
  tag.offset < 0 || tag.length ≤ 0 || tag.offset + tag.length > textLength

/-- The tag lies in the text. -/
structure InBounds (textLength : Int32) (tag : Tag) : Prop where
  offset : 0 ≤ tag.offset.toInt
  length : 0 < tag.length.toInt
  textEnd : tag.offset.toInt + tag.length.toInt ≤ textLength.toInt

/-- The end of the tag does not fit in 32 bits. -/
structure Overflows (tag : Tag) : Prop where
  offset : 0 ≤ tag.offset.toInt
  length : 0 < tag.length.toInt
  textEnd : 2 ^ 31 ≤ tag.offset.toInt + tag.length.toInt

end Tag

/-- Sizes are added in 32 bits. -/
def serializeTagsSize (tags : List Tag) : Int32 :=
  if tags = [] then 0
  else tags.foldl (fun result tag => result + Int32.ofNat (2 * 4 + 4 + tag.idSize * 2)) 4

def serializeTags (tags : List Tag) : Bytes :=
  if tags = [] then [] else putInt32 (Int32.ofNat tags.length) ++ tags.flatMap Tag.serialized

def getTag : Stream Tag := do
  let offset ← getInt32
  let length ← getInt32
  let id ← getNullable
  pure { offset := offset, length := length, id := id }

def readTags (textLength : Int32) : Nat → Bytes → List Tag
  | 0, _ => []
  | count + 1, data =>
      match getTag data with
      | none => []
      | some (tag, rest) => if tag.refused textLength then [] else tag :: readTags textLength count rest

def deserializeTags (data : Bytes) (textLength : Int32) : List Tag :=
  if data = [] then []
  else
    match getInt32 data with
    | none => []
    | some (tagCount, rest) =>
        if tagCount ≤ 0 ∨ tagCount > textLength then [] else readTags textLength tagCount.toInt.toNat rest

/-! ## The tags in the bytes -/

/-- As many tags as are asked for, or as the stream holds. -/
def storedFrom : Nat → Bytes → List Tag
  | 0, _ => []
  | count + 1, data =>
      match getTag data with
      | none => []
      | some (tag, rest) => tag :: storedFrom count rest

/-- All tags in the bytes, whether they lie in the text or not, where their number is one the text allows. -/
def storedTags (data : Bytes) (textLength : Int32) : List Tag :=
  match getInt32 data with
  | none => []
  | some (tagCount, rest) =>
      if 0 < tagCount.toInt ∧ tagCount.toInt ≤ textLength.toInt then storedFrom tagCount.toInt.toNat rest else []

variable {textLength : Int32} {tag : Tag} {tags : List Tag} {data rest : Bytes}

/-- Where the text is not of a negative length, just the tags that lie in it and those whose end
overflows are let through. -/
theorem not_refused_iff (text : 0 ≤ textLength.toInt) :
    tag.refused textLength = false ↔ tag.InBounds textLength ∨ tag.Overflows := by
  have upper := tag.offset.toInt_lt
  have upper' := tag.length.toInt_lt
  have zero : (0 : Int32).toInt = 0 := rfl
  simp only [Tag.refused, Bool.or_eq_false_iff, decide_eq_false_iff_not, gt_iff_lt, Int32.lt_iff_toInt_lt,
    Int32.le_iff_toInt_le, Int32.toInt_add, zero, not_lt, not_le]
  by_cases starts : 0 ≤ tag.offset.toInt ∧ 0 < tag.length.toInt
  · by_cases wraps : 2 ^ 31 ≤ tag.offset.toInt + tag.length.toInt
    · have value : (tag.offset.toInt + tag.length.toInt).bmod (2 ^ 32) =
          tag.offset.toInt + tag.length.toInt - 2 ^ 32 := by
        rw [Int.bmod_def]
        omega
      rw [value]
      exact iff_of_true ⟨starts, by omega⟩ (.inr ⟨starts.1, starts.2, wraps⟩)
    · have value : (tag.offset.toInt + tag.length.toInt).bmod (2 ^ 32) =
          tag.offset.toInt + tag.length.toInt := by
        rw [Int.bmod_def]
        omega
      rw [value]
      constructor
      · exact fun fits => .inl ⟨starts.1, starts.2, fits.2⟩
      · rintro (inside | overflows)
        · exact ⟨starts, inside.textEnd⟩
        · exact absurd overflows.textEnd wraps
  · refine iff_of_false (fun fits => starts fits.1) ?_
    rintro (inside | overflows)
    · exact starts ⟨inside.offset, inside.length⟩
    · exact starts ⟨overflows.offset, overflows.length⟩

theorem readTags_eq (textLength : Int32) (count : Nat) (data : Bytes) :
    readTags textLength count data = (storedFrom count data).takeWhile fun tag => !tag.refused textLength := by
  induction count generalizing data with
  | zero => rfl
  | succ count ih =>
      rw [readTags, storedFrom]
      cases getTag data with
      | none => rfl
      | some found =>
          dsimp only
          rw [List.takeWhile_cons, ih]
          cases found.1.refused textLength
          · rfl
          · rfl

/-- The stored tags up to the first one that is refused are the result. -/
theorem deserializeTags_eq (data : Bytes) (textLength : Int32) :
    deserializeTags data textLength = (storedTags data textLength).takeWhile fun tag => !tag.refused textLength := by
  unfold deserializeTags storedTags
  split
  · rename_i empty
    rw [empty]
    rfl
  · cases getInt32 data with
    | none => rfl
    | some found =>
        have zero : (0 : Int32).toInt = 0 := rfl
        dsimp only
        simp only [gt_iff_lt, Int32.lt_iff_toInt_lt, Int32.le_iff_toInt_le, zero]
        by_cases allowed : 0 < found.1.toInt ∧ found.1.toInt ≤ textLength.toInt
        · rw [if_pos allowed, if_neg (by omega)]
          exact readTags_eq ..
        · rw [if_neg allowed, if_pos (by omega)]
          rfl

theorem textLength_of_stored (member : tag ∈ storedTags data textLength) : 0 ≤ textLength.toInt := by
  unfold storedTags at member
  split at member
  · cases member
  · split at member
    · omega
    · cases member

/-! ## Tags that are read back -/

theorem getTag_serialized (short : tag.idSize < 2 ^ 31) : Reads getTag tag.serialized tag := by
  refine (reads_int32 tag.offset).bind ((reads_int32 tag.length).bind ?_)
  exact (reads_nullable short).map fun id => ({ offset := tag.offset, length := tag.length, id := id } : Tag)

theorem storedFrom_serialized (short : ∀ tag ∈ tags, tag.idSize < 2 ^ 31) (rest : Bytes) :
    storedFrom tags.length (tags.flatMap Tag.serialized ++ rest) = tags := by
  induction tags with
  | nil => rfl
  | cons tag others ih =>
      obtain ⟨here, later⟩ := List.forall_mem_cons.mp short
      rw [List.flatMap_cons, List.append_assoc, List.length_cons, storedFrom, getTag_serialized here]
      dsimp only
      rw [ih later]

theorem toInt_count {count : Nat} (few : (count : Int) ≤ textLength.toInt) : (Int32.ofNat count).toInt = count := by
  have bound := textLength.toInt_lt
  apply Int32.toInt_ofNat_of_lt
  omega

/-- As many tags as the text allows are found where they were written. -/
theorem storedTags_serializeTags (short : ∀ tag ∈ tags, tag.idSize < 2 ^ 31)
    (few : (tags.length : Int) ≤ textLength.toInt) : storedTags (serializeTags tags) textLength = tags := by
  unfold storedTags serializeTags
  by_cases empty : tags = []
  · rw [empty]
    rfl
  · have positive := List.length_pos_iff.mpr empty
    have stored := storedFrom_serialized short []
    rw [List.append_nil] at stored
    rw [if_neg empty, reads_int32]
    dsimp only
    rw [toInt_count few, if_pos (by omega), Int.toNat_natCast, stored]

theorem deserializeTags_serializeTags (short : ∀ tag ∈ tags, tag.idSize < 2 ^ 31)
    (few : (tags.length : Int) ≤ textLength.toInt) (inside : ∀ tag ∈ tags, tag.InBounds textLength) :
    deserializeTags (serializeTags tags) textLength = tags := by
  rw [deserializeTags_eq, storedTags_serializeTags short few, List.takeWhile_eq_self_iff]
  intro tag member
  have text : 0 ≤ textLength.toInt := by omega
  rw [(not_refused_iff text).mpr (.inl (inside tag member))]
  rfl

/-! ## The size -/

theorem length_serialized (tag : Tag) : tag.serialized.length = 2 * 4 + 4 + tag.idSize * 2 := by
  unfold Tag.serialized putInt32
  rw [List.length_append, List.length_append, length_put, length_put, length_putNullable, Tag.idSize]
  omega

theorem size_from (start : Nat) (tags : List Tag) :
    tags.foldl (fun result tag => result + Int32.ofNat (2 * 4 + 4 + tag.idSize * 2)) (Int32.ofNat start) =
      Int32.ofNat (start + (tags.flatMap Tag.serialized).length) := by
  induction tags generalizing start with
  | nil => rfl
  | cons tag others ih =>
      rw [List.foldl_cons, ← length_serialized, ← Int32.ofNat_add, ih, List.flatMap_cons, List.length_append,
        Nat.add_assoc]

/-- The size is the number of bytes, in 32 bits. -/
theorem serializeTagsSize_eq (tags : List Tag) : serializeTagsSize tags = Int32.ofNat (serializeTags tags).length := by
  unfold serializeTagsSize serializeTags
  split
  · rfl
  · rw [List.length_append, putInt32, length_put]
    exact size_from 4 tags

/-! ## What is promised -/

/-- What is kept is fine exactly when nothing is let through wrongly after entries that are all fine. -/
theorem takeWhile_fine_iff {α : Type} {kept : α → Bool} {fine : α → Prop} (lets : ∀ x, fine x → kept x = true)
    (list : List α) :
    (∀ x ∈ list.takeWhile kept, fine x) ↔
      ∀ before x later, list = before ++ x :: later → (∀ y ∈ before, fine y) → kept x = true → fine x := by
  constructor
  · intro all before x later eq good through
    apply all
    rw [eq, List.takeWhile_append_of_pos fun y member => lets y (good y member), List.takeWhile_cons_of_pos through]
    simp
  · induction list with
    | nil => exact fun _ => nofun
    | cons first rest ih =>
        intro good x member
        by_cases through : kept first = true
        · have here := good [] first rest rfl nofun through
          rw [List.takeWhile_cons_of_pos through] at member
          cases member with
          | head => exact here
          | tail _ member =>
              apply ih _ x member
              intro before y later eq fine
              exact good (first :: before) y later (by rw [eq, List.cons_append]) (List.forall_mem_cons.mpr ⟨here, fine⟩)
        · rw [List.takeWhile_cons_of_neg through] at member
          cases member

/-- All tags that are read lie in the text exactly when no stored tag that is reached, because those before it
lie in the text, ends past 32 bits. Tags that lie in the text are read back as they were written. -/
theorem deserializeTags_inBounds_iff (data : Bytes) (textLength : Int32) (tags : List Tag)
    (short : ∀ tag ∈ tags, tag.idSize < 2 ^ 31) :
    ((∀ tag ∈ deserializeTags data textLength, tag.InBounds textLength) ↔
      ∀ before tag later, storedTags data textLength = before ++ tag :: later →
        (∀ earlier ∈ before, earlier.InBounds textLength) → ¬ tag.Overflows) ∧
    ((tags.length : Int) ≤ textLength.toInt → (∀ tag ∈ tags, tag.InBounds textLength) →
      deserializeTags (serializeTags tags) textLength = tags) ∧
    ((serializeTags tags).length < 2 ^ 31 → (serializeTagsSize tags).toInt = (serializeTags tags).length) := by
  refine ⟨?_, deserializeTags_serializeTags short, fun fits => ?_⟩
  · by_cases text : 0 ≤ textLength.toInt
    · have through : ∀ tag : Tag, (!tag.refused textLength) = true ↔ tag.InBounds textLength ∨ tag.Overflows := by
        intro tag
        rw [Bool.not_eq_true']
        exact not_refused_iff text
      rw [deserializeTags_eq, takeWhile_fine_iff fun tag inside => (through tag).mpr (.inl inside)]
      apply forall_congr'
      intro before
      apply forall_congr'
      intro tag
      have apart : tag.Overflows → ¬ tag.InBounds textLength := by
        intro overflows inside
        have upper := textLength.toInt_lt
        have past := overflows.textEnd
        have ends := inside.textEnd
        omega
      grind
    · have none : storedTags data textLength = [] := by
        apply List.eq_nil_iff_forall_not_mem.mpr
        exact fun tag member => text (textLength_of_stored member)
      rw [deserializeTags_eq, none]
      simp
  · rw [serializeTagsSize_eq]
    exact Int32.toInt_ofNat_of_lt fits

/-! ## Three tags -/

def firstLetter : Tag := { offset := 0, length := 1, id := some [0x2A, 0x2A] }

def nameless : Tag := { offset := 1, length := 1, id := none }

theorem two_tags_restored :
    deserializeTags (serializeTags [firstLetter, nameless]) 2 = [firstLetter, nameless] := by
  have short : ∀ tag ∈ [firstLetter, nameless], tag.idSize < 2 ^ 31 := by decide
  have inside : ∀ tag ∈ [firstLetter, nameless], tag.InBounds 2 := by
    intro tag member
    rcases List.mem_pair.mp member with rfl | rfl
    · exact ⟨by decide, by decide, by decide⟩
    · exact ⟨by decide, by decide, by decide⟩
  exact (deserializeTags_inBounds_iff [] 2 [firstLetter, nameless] short).2.1 (by decide) inside

/-- One letter from the last offset that fits in 32 bits. -/
theorem last_offset_read :
    deserializeTags [0, 0, 0, 1, 0x7F, 0xFF, 0xFF, 0xFF, 0, 0, 0, 1, 0xFF, 0xFF, 0xFF, 0xFF] 1 =
      [{ offset := 0x7FFFFFFF, length := 1, id := none }] ∧
    ¬ ({ offset := 0x7FFFFFFF, length := 1, id := none } : Tag).InBounds 1 := by
  constructor
  · decide
  · intro inside
    exact absurd inside.textEnd (by decide)

end IMeDesktop.Ui.SerializedTags
