import IMeDesktop.Ui.ServerCleaningReturns

/-! # Entities of a prepared text

Both loops of the cleaning, one after another, put each entity where the images of its characters are, if the
loops move all of its bounds. Where a bound is in no part, a text with only one of the two characters shows it.
-/

namespace IMeDesktop.Ui.TextUtilities

open Lib EntityInText

/-- The image of a character. -/
def clean (ch : QChar) : QString :=
  if ch = tabulation then [space, space]
  else if ch = carriageReturn then []
  else if IsReplacedBySpace ch then [space]
  else [ch]

theorem clean_eq (ch : QChar) : (expanded ch).flatMap cleaned = clean ch := by
  rw [expanded, clean]
  by_cases tab : ch = tabulation
  · rw [if_pos tab, if_pos tab]
    decide
  · rw [if_neg tab, if_neg tab, List.flatMap_singleton, cleaned]

theorem clean_funext : (fun ch => (expanded ch).flatMap cleaned) = clean := funext clean_eq

/-- What is covered are the images of what was covered. -/
structure Image (text : QString) (entity image : EntityInText) : Prop where
  type : image.type = entity.type
  data : image.data = entity.data
  covers : ∀ j : Int, image.Covers j ↔
    ∃ i : Nat, entity.Covers i ∧ place clean text i ≤ j ∧ j < place clean text (i + 1)

structure Cleaned (text result : TextWithEntities) : Prop where
  line : result.text = text.text.flatMap clean
  attached : List.Forall₂ (Image text.text) text.entities result.entities

/-- An entity whose bounds are in parts, or at a character with no such before it. -/
def Apart (special : QChar) (text : QString) (entity : EntityInText) : Prop :=
  0 < entity.length → text[(finish entity).toNat - 1]? ≠ some special ∧
    (text[entity.offset.toNat]? = some special → special ∉ text.take entity.offset.toNat)

def Attachable (text : TextWithEntities) : Prop :=
  ∀ entity ∈ text.entities, Apart tabulation text.text entity ∧ Apart carriageReturn text.text entity

/-- The text is cleaned and then trimmed, with its entities, and nothing of them is outside. -/
def Kept (e : Expressions) (text : TextWithEntities) : Prop :=
  ∃ cleaned result, ApplyServerCleaning text = some cleaned ∧ e.PrepareForSending text 0 = some result ∧
    Cleaned text cleaned ∧ e.Trimmed cleaned result ∧
    ∀ entity ∈ result.entities, 0 < entity.length → entity.Inside result.text.length

/-! ## Lists of entities -/

section Related

variable {α β γ : Type} {l : List α} {m : List β} {n : List γ}

theorem forall₂_comp {R : α → β → Prop} {S : β → γ → Prop} {T : α → γ → Prop} (comp : ∀ a b c, R a b → S b c → T a c)
    (first : List.Forall₂ R l m) (second : List.Forall₂ S m n) : List.Forall₂ T l n := by
  induction first generalizing n with
  | nil =>
      cases second
      exact .nil
  | cons head tail ih =>
      cases second with
      | cons head' tail' => exact .cons (comp _ _ _ head head') (ih tail')

theorem forall_of_forall₂ {R : α → β → Prop} {P : β → Prop} (carry : ∀ a b, R a b → P b) (related : List.Forall₂ R l m) :
    ∀ b ∈ m, P b := by
  induction related with
  | nil => exact fun b known => absurd known List.not_mem_nil
  | cons head tail ih => exact List.forall_mem_cons.mpr ⟨carry _ _ head, ih⟩

theorem pairwise_of_forall₂ {R : α → β → Prop} {S : α → α → Prop} {T : β → β → Prop}
    (carry : ∀ a b a' b', S a b → R a a' → R b b' → T a' b') (related : List.Forall₂ R l m) (pairs : l.Pairwise S) :
    m.Pairwise T := by
  induction related with
  | nil => exact .nil
  | @cons a a' l m head tail ih =>
      obtain ⟨first, rest⟩ := List.pairwise_cons.mp pairs
      refine List.pairwise_cons.mpr ⟨fun b' known => ?_, ih rest⟩
      obtain ⟨i, below, rfl⟩ := List.mem_iff_getElem.mp known
      have inside : i < l.length := tail.length_eq ▸ below
      exact carry _ _ _ _ (first _ (List.getElem_mem inside)) head (tail.get inside below)

end Related

variable {e : Expressions} {text : TextWithEntities}

/-! ## Both loops -/

theorem ApplyServerCleaning_eq (text : TextWithEntities) : ApplyServerCleaning text =
    (expandTabs text).bind fun result => removeReturns result.text.length result.text.length ⟨result, 0, 0⟩ := by
  rw [ApplyServerCleaning, expandTabs]
  by_cases nothing : text.text.count tabulation = 0
  · simp only [if_pos nothing, Option.bind_eq_bind]
  · simp only [if_neg nothing, Option.bind_eq_bind]

theorem removing_start {P : Nat → List EntityInText → Prop} (result : TextWithEntities) (start : P 0 result.entities) :
    Removing result.text P (result.text.length - result.text.length) { result := result, target := 0, origin := 0 } := by
  rw [Nat.sub_self]
  refine ⟨Nat.le_refl 0, Nat.zero_le _, (place_zero _ _).symm, rfl, rfl, rfl, rfl, ?_, start⟩
  intro j ch low high
  omega

theorem cleans {P : Nat → List EntityInText → Prop} {result : TextWithEntities} (made : expandTabs text = some result)
    (expands : result.text = text.text.flatMap expanded) (rule : EntityRule result.text P) (start : P 0 result.entities) :
    ∃ last, ApplyServerCleaning text = some last ∧ last.text = text.text.flatMap clean ∧
      P (result.text.length + 1) last.entities := by
  obtain ⟨last, done, final, entities⟩ := removeReturns_removes rule (Nat.le_refl _) (removing_start result start)
  refine ⟨last, ?_, ?_, entities⟩
  · rw [ApplyServerCleaning_eq, made]
    exact done
  · rw [final, expands, List.flatMap_assoc, clean_funext]

/-! ## Bounds that are moved -/

theorem startMoved_eq {special : QChar} {f : QChar → QString} {text : QString} {start : Nat}
    (single : ∀ ch, ch ≠ special → (f ch).length = 1) (inside : start ≤ text.length)
    (first : text[start]? = some special → special ∉ text.take start) :
    startMoved special f text start = place f text start := by
  by_cases here : text[start]? = some special
  · have alone := @place_of_single _ _ f text 0 start (fun i x _ high known => single x ?_)
      (Nat.zero_le _) inside
    · rw [startMoved_special here, alone, place_zero, Nat.zero_add, Nat.sub_zero]
    · intro same
      refine first here ?_
      rw [same] at known
      refine List.mem_of_getElem? (i := i) ?_
      rw [List.getElem?_take, if_pos high, known]
  · exact startMoved_part here

theorem nonempty_or_empty {entity : EntityInText} {size : Nat} (inside : entity.Inside size) :
    (∃ start last : Nat, entity.offset = start ∧ finish entity = last ∧ start < last ∧ last ≤ size) ∨
      ∃ start : Nat, entity.offset = start ∧ entity.length = 0 ∧ start ≤ size := by
  have nonneg := inside.start
  have length := inside.length
  have finishes := inside.finish
  obtain ⟨start, begins⟩ := Int.eq_ofNat_of_zero_le nonneg
  obtain ⟨last, ends⟩ := Int.eq_ofNat_of_zero_le (show 0 ≤ finish entity by rw [finish]; omega)
  by_cases ordered : start < last
  · refine .inl ⟨start, last, begins, ends, ordered, ?_⟩
    rw [finish] at ends
    omega
  · rw [finish] at ends
    exact .inr ⟨start, begins, by omega, by omega⟩

theorem Apart.bounds {special : QChar} {text : QString} {entity : EntityInText} (apart : Apart special text entity)
    {start last : Nat} (begins : entity.offset = start) (ends : finish entity = last) (ordered : start < last) :
    text[last - 1]? ≠ some special ∧ (text[start]? = some special → special ∉ text.take start) := by
  have length : 0 < entity.length := by
    rw [finish] at ends
    omega
  have both := apart length
  rw [ends, begins, Int.toNat_natCast, Int.toNat_natCast] at both
  exact both

/-- An entity with its bounds at the images of its bounds. -/
structure Carried (f : QChar → QString) (text : QString) (entity moved : EntityInText) : Prop where
  type : moved.type = entity.type
  data : moved.data = entity.data
  covering : ∀ start last : Nat, entity.offset = start → finish entity = last → start < last →
    moved.offset = (place f text start : Nat) ∧ finish moved = (place f text last : Nat)
  empty : entity.length = 0 → moved.length = 0 ∧ 0 ≤ moved.offset

variable {chars : QString} {entity moved final : EntityInText}

theorem HalfTabbed.carried (half : HalfTabbed chars 0 entity moved) (inside : entity.Inside chars.length)
    (apart : Apart tabulation chars entity) : Carried expanded chars entity moved := by
  have finishes := inside.finish
  refine ⟨half.type, half.data, fun start last begins ends ordered => ?_, fun nothing => ?_⟩
  · obtain ⟨offset, last_eq⟩ := half.covering start last begins ends ordered
    obtain ⟨notBehind, notAt⟩ := apart.bounds begins ends ordered
    rw [finish] at ends
    rw [if_pos (Nat.zero_le start), startMoved_eq (fun _ => length_expanded) (by omega) notAt] at offset
    rw [if_pos (by omega), finishMoved_part notBehind] at last_eq
    exact ⟨offset, last_eq⟩
  · obtain ⟨start, begins⟩ := Int.eq_ofNat_of_zero_le inside.start
    obtain ⟨length, position, offset, _, _⟩ := half.empty start begins nothing
    exact ⟨length, by omega⟩

/-- No start is behind the image of the start, not even of an empty entity. -/
theorem HalfTabbed.offset_le (half : HalfTabbed chars 0 entity moved) (inside : entity.Inside chars.length)
    (apart : Apart tabulation chars entity) {start : Nat} (begins : entity.offset = start) :
    moved.offset ≤ (place expanded chars start : Nat) := by
  rcases nonempty_or_empty inside with ⟨first, last, begins', ends, ordered, _⟩ | ⟨first, begins', nothing, _⟩
  · have same : start = first := by omega
    rw [same, ((half.carried inside apart).covering first last begins' ends ordered).1]
  · obtain ⟨_, position, offset, low, _⟩ := half.empty start begins nothing
    omega

theorem expanded_return {ch : QChar} : carriageReturn ∈ expanded ch ↔ ch = carriageReturn := by
  rw [expanded]
  split_ifs with tab
  · rw [tab]
    decide
  · rw [List.mem_singleton]
    exact eq_comm

/-- After the tabs, bounds are still apart from the carriage returns. -/
theorem Carried.apart (carried : Carried expanded chars entity moved) (inside : entity.Inside chars.length)
    (tabs : Apart tabulation chars entity) (returns : Apart carriageReturn chars entity) :
    Apart carriageReturn (chars.flatMap expanded) moved := by
  intro covers
  rcases nonempty_or_empty inside with ⟨start, last, begins, ends, ordered, short⟩ | ⟨_, _, nothing, _⟩
  · obtain ⟨offset, last_eq⟩ := carried.covering start last begins ends ordered
    obtain ⟨lastTab, _⟩ := tabs.bounds begins ends ordered
    obtain ⟨lastReturn, firstReturn⟩ := returns.bounds begins ends ordered
    rw [offset, last_eq, Int.toNat_natCast, Int.toNat_natCast]
    constructor
    · obtain ⟨ch, at_last⟩ : ∃ ch, chars[last - 1]? = some ch := ⟨_, List.getElem?_eq_getElem (by omega)⟩
      have other : ch ≠ tabulation := fun same => lastTab (at_last.trans (congrArg some same))
      have step := @place_succ _ _ expanded _ _ _ at_last
      have single := length_expanded other
      have here := @getElem?_place _ _ expanded chars ch (last - 1) 0 at_last (by omega)
      have before : place expanded chars last - 1 = place expanded chars (last - 1) + 0 := by
        rw [show last - 1 + 1 = last by omega] at step
        omega
      rw [at_last] at lastReturn
      rw [before, here, expanded, if_neg other]
      exact lastReturn
    · obtain ⟨ch, at_start⟩ : ∃ ch, chars[start]? = some ch := ⟨_, List.getElem?_eq_getElem (by omega)⟩
      have here := @getElem?_place _ _ expanded chars ch start 0 at_start (List.length_pos_iff.mpr (expanded_ne_nil _))
      rw [Nat.add_zero] at here
      rw [here, take_place]
      intro isReturn known
      have same := expanded_return.mp (List.mem_of_getElem? isReturn)
      obtain ⟨other, before, image⟩ := List.mem_flatMap.mp known
      rw [expanded_return.mp image] at before
      exact firstReturn (at_start.trans (congrArg some same)) before
  · exact absurd (carried.empty nothing).1 (by omega)

theorem Carried.fits {f : QChar → QString} (carried : Carried f chars entity moved) (inside : entity.Inside chars.length) :
    moved.Fits (chars.flatMap f).length := by
  rcases nonempty_or_empty inside with ⟨start, last, begins, ends, ordered, _⟩ | ⟨_, _, nothing, _⟩
  · obtain ⟨offset, last_eq⟩ := carried.covering start last begins ends ordered
    have later := place_mono f chars (Nat.le_of_lt ordered)
    have total := place_le f chars last
    rw [finish] at last_eq
    exact ⟨by omega, by omega, by omega⟩
  · obtain ⟨length, nonneg⟩ := carried.empty nothing
    exact ⟨nonneg, by omega, by omega⟩

/-- The images of what is covered, as a range. -/
theorem covers_images_iff {start last : Nat} (begins : entity.offset = start) (ends : finish entity = last)
    (ordered : start < last) (j : Int) :
    (∃ i : Nat, entity.Covers i ∧ place clean chars i ≤ j ∧ j < place clean chars (i + 1)) ↔
      place clean chars start ≤ j ∧ j < place clean chars last := by
  rw [finish] at ends
  constructor
  · rintro ⟨i, ⟨first, below⟩, low, high⟩
    have before := place_mono clean chars (show start ≤ i by omega)
    have after := place_mono clean chars (show i + 1 ≤ last by omega)
    exact ⟨by omega, by omega⟩
  · rintro ⟨low, high⟩
    obtain ⟨position, rfl⟩ := Int.eq_ofNat_of_zero_le (show 0 ≤ j by omega)
    obtain ⟨i, first, below, here⟩ := (@exists_place_iff _ _ position start last clean chars (Nat.le_of_lt ordered)).mp
      ⟨by omega, by omega⟩
    exact ⟨i, ⟨by omega, by omega⟩, by omega, by omega⟩

theorem Carried.image (carried : Carried clean chars entity moved) (inside : entity.Inside chars.length) :
    Image chars entity moved := by
  refine ⟨carried.type, carried.data, fun j => ?_⟩
  rcases nonempty_or_empty inside with ⟨start, last, begins, ends, ordered, _⟩ | ⟨_, begins, nothing, _⟩
  · obtain ⟨offset, last_eq⟩ := carried.covering start last begins ends ordered
    rw [covers_images_iff begins ends ordered, Covers, offset, ← last_eq, finish, offset]
  · obtain ⟨length, _⟩ := carried.empty nothing
    constructor
    · rintro ⟨low, high⟩
      omega
    · rintro ⟨i, ⟨first, below⟩, _, _⟩
      omega

theorem HalfReturned.bounds (half : HalfReturned chars (chars.length + 1) entity moved) (fits : entity.Fits chars.length)
    (apart : Apart carriageReturn chars entity) {start last : Nat} (begins : entity.offset = start)
    (ends : finish entity = last) (ordered : start < last) :
    moved.offset = (place cleaned chars start : Nat) ∧ finish moved = (place cleaned chars last : Nat) := by
  obtain ⟨offset, last_eq⟩ := half.covering start last begins ends ordered
  obtain ⟨notBehind, notAt⟩ := apart.bounds begins ends ordered
  have finishes := fits.finish
  rw [finish] at ends
  rw [if_pos (by omega), startMoved_eq (fun _ => length_cleaned) (by omega) notAt] at offset
  rw [if_pos (by omega), finishMoved_part notBehind] at last_eq
  exact ⟨offset, last_eq⟩

theorem place_lt_place {start last : Nat} (ordered : start < last) (short : last ≤ chars.length) :
    place expanded chars start < place expanded chars last := by
  obtain ⟨ch, at_start⟩ : ∃ ch, chars[start]? = some ch := ⟨_, List.getElem?_eq_getElem (by omega)⟩
  have step := @place_succ _ _ expanded _ _ _ at_start
  have long := List.length_pos_iff.mpr (expanded_ne_nil ch)
  have after := place_mono expanded chars (show start + 1 ≤ last from ordered)
  omega

theorem place_cleaned_expanded (chars : QString) (i : Nat) :
    place cleaned (chars.flatMap expanded) (place expanded chars i) = place clean chars i := by
  rw [place_place, clean_funext]

/-- Both loops carry an entity to the images of its characters. -/
theorem Carried.returned (carried : Carried expanded chars entity moved) (inside : entity.Inside chars.length)
    (half : HalfReturned (chars.flatMap expanded) ((chars.flatMap expanded).length + 1) moved final)
    (apart : Apart carriageReturn (chars.flatMap expanded) moved) : Carried clean chars entity final := by
  have fits := carried.fits inside
  refine ⟨half.type.trans carried.type, half.data.trans carried.data, fun start last begins ends ordered => ?_,
    fun nothing => ?_⟩
  · obtain ⟨offset, last_eq⟩ := carried.covering start last begins ends ordered
    have finishes := inside.finish
    have less := @place_lt_place chars start last ordered (by rw [finish] at ends; omega)
    have bounds := half.bounds fits apart offset last_eq less
    rw [place_cleaned_expanded, place_cleaned_expanded] at bounds
    exact bounds
  · obtain ⟨length, nonneg⟩ := carried.empty nothing
    obtain ⟨start, begins⟩ := Int.eq_ofNat_of_zero_le nonneg
    obtain ⟨short, position, offset, _, _⟩ := half.empty start begins length
    exact ⟨short, by omega⟩

/-! ## Prepared texts -/

/-- Whatever moves are made, of entities in the right order and inside of the text. -/
theorem halfReturned_rule {entities : List EntityInText}
    (sorted : entities.Pairwise fun a b => 0 < b.length → a.offset ≤ b.offset)
    (fits : ∀ entity ∈ entities, entity.Fits chars.length) :
    EntityRule chars fun origin moved => List.Forall₂ (HalfReturned chars origin) entities moved := by
  constructor
  · intro o p moved part half still
    refine ((List.forall₂_and_left _ _).mpr ⟨fits, half⟩).imp fun _ _ both => ?_
    exact both.2.stay part both.1 (still.imp_right .inl)
  · intro o p moved part half _
    exact halfReturned_moveEntities half sorted fits part

/-- Before anything is removed. -/
theorem HalfReturned.refl (entity : EntityInText) : HalfReturned chars 0 entity entity := by
  constructor
  · rfl
  · rfl
  · intro start last begins ends ordered
    rw [if_neg (Nat.not_lt_zero start), if_neg (by omega)]
    exact ⟨begins, ends⟩
  · intro start begins nothing
    exact ⟨nothing, start, begins, Nat.le_refl start, .inl rfl⟩

/-- After the tabs, the entities still are in order and inside of the text. -/
theorem expanded_of_apart (sorted : text.entities.Pairwise fun a b => a.offset ≤ b.offset)
    (inside : ∀ entity ∈ text.entities, entity.Inside text.text.length)
    (tabs : ∀ entity ∈ text.entities, Apart tabulation text.text entity) :
    ∃ result, expandTabs text = some result ∧ result.text = text.text.flatMap expanded ∧
      List.Forall₂ (Carried expanded text.text) text.entities result.entities ∧
      EntityRule result.text fun origin moved => List.Forall₂ (HalfReturned result.text origin) result.entities moved := by
  obtain ⟨result, made, expands, half⟩ := expandTabs_spec sorted inside
  have known := (List.forall₂_and_left _ _).mpr ⟨fun entity member => And.intro (inside entity member) (tabs entity member),
    half⟩
  have sortedTabs : result.entities.Pairwise fun a b => 0 < b.length → a.offset ≤ b.offset := by
    refine pairwise_of_forall₂ ?_ known sorted
    intro a b a' b' ordered ⟨⟨insideA, tabsA⟩, halfA⟩ ⟨⟨insideB, tabsB⟩, halfB⟩ covers
    obtain ⟨start, begins⟩ := Int.eq_ofNat_of_zero_le insideA.start
    have low := halfA.offset_le insideA tabsA begins
    rcases nonempty_or_empty insideB with ⟨later, last, begins', ends, less, _⟩ | ⟨_, _, nothing, _⟩
    · have bound := ((halfB.carried insideB tabsB).covering later last begins' ends less).1
      have order := place_mono expanded text.text (show start ≤ later by omega)
      omega
    · exact absurd ((halfB.carried insideB tabsB).empty nothing).1 (by omega)
  have fits : ∀ entity ∈ result.entities, entity.Fits result.text.length := by
    rw [expands]
    exact forall_of_forall₂ (fun _ _ both => (both.2.carried both.1.1 both.1.2).fits both.1.1) known
  exact ⟨result, made, expands, known.imp fun _ _ both => both.2.carried both.1.1 both.1.2,
    halfReturned_rule sortedTabs fits⟩

theorem cleaned_of_attachable (sorted : text.entities.Pairwise fun a b => a.offset ≤ b.offset)
    (inside : ∀ entity ∈ text.entities, entity.Inside text.text.length) (attachable : Attachable text) :
    ∃ last, ApplyServerCleaning text = some last ∧ last.text = text.text.flatMap clean ∧
      List.Forall₂ (Carried clean text.text) text.entities last.entities := by
  obtain ⟨result, made, expands, carried, rule⟩ :=
    expanded_of_apart sorted inside fun entity member => (attachable entity member).1
  obtain ⟨last, done, final, returned⟩ := cleans made expands rule (List.forall₂_same.mpr fun entity _ => .refl entity)
  have known := (List.forall₂_and_left _ _).mpr
    ⟨fun entity member => And.intro (inside entity member) (attachable entity member), carried⟩
  refine ⟨last, done, final, forall₂_comp ?_ known returned⟩
  intro entity moved final ⟨⟨inside, tabs, returns⟩, carried⟩ returned
  rw [expands] at returned
  exact carried.returned inside returned (carried.apart inside tabs returns)

/-- What is left of an entity is inside of what is left of the text. -/
theorem inside_of_remains {start size : Nat} (remains : Remains start size entity moved) (covers : 0 < moved.length) :
    moved.Inside size := by
  have first := (remains.covers moved.offset).mp ⟨by omega, by omega⟩
  have last := (remains.covers (moved.offset + moved.length - 1)).mp ⟨by omega, by omega⟩
  exact ⟨first.1, by omega, by omega⟩

theorem trimmed_inside {result : TextWithEntities} (trimmed : e.Trimmed text result) :
    ∀ entity ∈ result.entities, 0 < entity.length → entity.Inside result.text.length := by
  rcases trimmed with ⟨_, rfl⟩ | ⟨start, _, _, related⟩
  · exact fun entity known => absurd known List.not_mem_nil
  · exact forall_of_forall₂ (fun _ _ remains => inside_of_remains remains) related

theorem kept_of_attachable (e : Expressions) (sorted : text.entities.Pairwise fun a b => a.offset ≤ b.offset)
    (inside : ∀ entity ∈ text.entities, entity.Inside text.text.length) (attachable : Attachable text) :
    Kept e text := by
  obtain ⟨cleaned, made, line, carried⟩ := cleaned_of_attachable sorted inside attachable
  have known := (List.forall₂_and_left _ _).mpr ⟨inside, carried⟩
  have fits : ∀ entity ∈ cleaned.entities, entity.Fits cleaned.text.length := by
    rw [line]
    exact forall_of_forall₂ (fun _ _ both => both.2.fits both.1) known
  have trimmed := Expressions.Trim_trimmed e cleaned fits
  refine ⟨cleaned, e.Trim cleaned, made, ?_, ⟨line, known.imp fun _ _ both => both.2.image both.1⟩, trimmed,
    trimmed_inside trimmed⟩
  rw [Expressions.PrepareForSending, made]
  rfl

/-! ## Bounds that are not moved -/

theorem length_flatMap_cleaned (chars : QString) :
    (chars.flatMap cleaned).length + chars.count carriageReturn = chars.length := by
  induction chars with
  | nil => rfl
  | cons ch rest ih =>
      rw [List.flatMap_cons, List.length_append, List.length_cons]
      by_cases returns : ch = carriageReturn
      · rw [returns, List.count_cons_self, cleaned, if_pos rfl, List.length_nil]
        omega
      · rw [List.count_cons_of_ne returns, length_cleaned returns]
        omega

/-- An end behind a tab leaves out a space, and a start at a later tab takes in what is before. -/
theorem apart_tab {start last : Nat} (begins : entity.offset = start) (ends : finish entity = last)
    (ordered : start < last) (short : last ≤ chars.length)
    (offset : final.offset = (startMoved tabulation expanded chars start : Nat))
    (last_eq : finish final = (finishMoved tabulation expanded chars last : Nat))
    (covers : ∀ j : Int, final.Covers j ↔ place expanded chars start ≤ j ∧ j < place expanded chars last) :
    Apart tabulation chars entity := by
  intro _
  have image := place_lt_place ordered short
  rw [begins, ends, Int.toNat_natCast, Int.toNat_natCast]
  rw [finish] at last_eq
  have notBehind : chars[last - 1]? ≠ some tabulation := by
    intro behind
    rw [finishMoved_special behind] at last_eq
    have tab := place_tab behind
    have low := @le_place_expanded chars (last - 1) (by omega)
    have uncovered := (covers (place expanded chars last - 1)).mpr ⟨by omega, by omega⟩
    rw [show last - 1 + 1 = last by omega] at tab
    obtain ⟨_, high⟩ := uncovered
    omega
  refine ⟨notBehind, fun here before => ?_⟩
  have count := List.count_pos_iff.mpr before
  have longer := length_flatMap_expanded (chars.take start)
  rw [length_flatMap_take, List.length_take] at longer
  rw [startMoved_special here] at offset
  rw [finishMoved_part notBehind] at last_eq
  have taken := (covers start).mp ⟨by omega, by omega⟩
  omega

/-- An end behind a carriage return takes in what is behind, and a start at a later one leaves out characters. -/
theorem apart_return {start last : Nat} (begins : entity.offset = start) (ends : finish entity = last)
    (ordered : start < last) (short : last ≤ chars.length)
    (offset : final.offset = (startMoved carriageReturn cleaned chars start : Nat))
    (last_eq : finish final = (finishMoved carriageReturn cleaned chars last : Nat))
    (covers : ∀ j : Int, final.Covers j ↔ place cleaned chars start ≤ j ∧ j < place cleaned chars last) :
    Apart carriageReturn chars entity := by
  intro _
  rw [begins, ends, Int.toNat_natCast, Int.toNat_natCast]
  rw [finish] at last_eq
  have low := startMoved_le chars start
  have notBehind : chars[last - 1]? ≠ some carriageReturn := by
    intro behind
    rw [finishMoved_special behind] at last_eq
    have gone : place cleaned chars (last - 1 + 1) = place cleaned chars (last - 1) := place_succ behind
    have most := place_cleaned_le chars (last - 1)
    have taken := (covers (last - 1 : Nat)).mp ⟨by omega, by omega⟩
    rw [show last - 1 + 1 = last by omega] at gone
    omega
  refine ⟨notBehind, fun here before => ?_⟩
  have count := List.count_pos_iff.mpr before
  have shorter := length_flatMap_cleaned (chars.take start)
  rw [length_flatMap_take, List.length_take] at shorter
  rw [startMoved_special here] at offset
  obtain ⟨ch, at_last⟩ : ∃ ch, chars[last - 1]? = some ch := ⟨_, List.getElem?_eq_getElem (by omega)⟩
  have single := length_cleaned fun same : ch = carriageReturn => notBehind (at_last.trans (congrArg some same))
  have step := @place_succ _ _ cleaned _ _ _ at_last
  have order := place_mono cleaned chars (show start ≤ last - 1 by omega)
  rw [show last - 1 + 1 = last by omega] at step
  obtain ⟨uncovered, _⟩ := (covers (place cleaned chars start)).mpr ⟨by omega, by omega⟩
  omega

theorem apart_of_returned (noTabs : tabulation ∉ chars) (inside : entity.Inside chars.length)
    (carried : Carried expanded chars entity moved) (half : HalfReturned chars (chars.length + 1) moved final)
    (image : Image chars entity final) : Apart carriageReturn chars entity := by
  rcases nonempty_or_empty inside with ⟨start, last, begins, ends, ordered, short⟩ | ⟨_, _, nothing, _⟩
  · have other : ∀ ch ∈ chars, ch ≠ tabulation := fun ch known same => noTabs (same ▸ known)
    have still : ∀ i ≤ chars.length, place expanded chars i = i := fun i low =>
      place_eq_self (fun ch known => length_expanded (other ch known)) low
    have same : ∀ i, place clean chars i = place cleaned chars i := place_congr fun ch known => by
      rw [clean, cleaned, if_neg (other ch known)]
    obtain ⟨offset, last_eq⟩ := carried.covering start last begins ends ordered
    rw [still start (by omega)] at offset
    rw [still last short] at last_eq
    obtain ⟨offset, last_eq⟩ := half.covering start last offset last_eq ordered
    rw [if_pos (by omega)] at offset last_eq
    refine apart_return begins ends ordered short offset last_eq fun j => ?_
    rw [image.covers, covers_images_iff begins ends ordered, same, same]
  · exact fun covers => absurd nothing (by omega)

theorem apart_of_expanded (noReturns : carriageReturn ∉ chars) (inside : entity.Inside chars.length)
    (half : HalfTabbed chars 0 entity final) (image : Image chars entity final) : Apart tabulation chars entity := by
  rcases nonempty_or_empty inside with ⟨start, last, begins, ends, ordered, short⟩ | ⟨_, _, nothing, _⟩
  · have same : ∀ i, place clean chars i = place expanded chars i := place_congr fun ch known => by
      have other : ch ≠ carriageReturn := fun same => noReturns (same ▸ known)
      rw [clean, expanded, if_neg other]
      split_ifs <;> rfl
    obtain ⟨offset, last_eq⟩ := half.covering start last begins ends ordered
    rw [if_pos (Nat.zero_le start)] at offset
    rw [if_pos (by omega)] at last_eq
    refine apart_tab begins ends ordered short offset last_eq fun j => ?_
    rw [image.covers, covers_images_iff begins ends ordered, same, same]
  · exact fun covers => absurd nothing (by omega)

theorem apart_of_not_mem {special : QChar} (absent : special ∉ chars) (entity : EntityInText) :
    Apart special chars entity := by
  intro _
  constructor
  · exact fun here => absent (List.mem_of_getElem? here)
  · exact fun here => absurd (List.mem_of_getElem? here) absent

/-- Without carriage returns, nothing is moved any more. -/
theorem still_rule (noReturns : carriageReturn ∉ chars) (entities : List EntityInText) :
    EntityRule chars fun _ moved => moved = entities := by
  constructor
  · exact fun _ same _ => same
  · intro o p moved part _ moves
    have still := @place_eq_self _ _ cleaned chars o
      (fun ch known => length_cleaned fun same => noReturns (same ▸ known)) (by have := part.ordered; have := part.inside; omega)
    exact absurd still moves

theorem attachable_of_kept (sorted : text.entities.Pairwise fun a b => a.offset ≤ b.offset)
    (inside : ∀ entity ∈ text.entities, entity.Inside text.text.length)
    (one : tabulation ∉ text.text ∨ carriageReturn ∉ text.text) (kept : Kept e text) : Attachable text := by
  obtain ⟨last, _, made, _, ⟨_, images⟩, _⟩ := kept
  have known := (List.forall₂_and_left _ _).mpr ⟨inside, images⟩
  rcases one with noTabs | noReturns
  · have tabs : ∀ entity ∈ text.entities, Apart tabulation text.text entity := fun entity _ =>
      apart_of_not_mem noTabs entity
    obtain ⟨result, expandedTabs, expands, carried, rule⟩ := expanded_of_apart sorted inside tabs
    obtain ⟨last', made', _, returned⟩ := cleans expandedTabs expands rule
      (List.forall₂_same.mpr fun entity _ => .refl entity)
    cases made.symm.trans made'
    have same : result.text = text.text :=
      expands.trans (flatMap_expanded_single fun ch member same => noTabs (same ▸ member))
    rw [same] at returned
    have both := forall₂_comp (fun _ moved _ first second => Exists.intro moved (And.intro first second)) carried returned
    refine forall_of_forall₂ (fun final entity all => ?_)
      (List.Forall₂.mp (fun _ _ moves image => And.intro moves image) both known).flip
    obtain ⟨⟨moved, carried, half⟩, inside, image⟩ := all
    exact ⟨apart_of_not_mem noTabs entity, apart_of_returned noTabs inside carried half image⟩
  · obtain ⟨result, expandedTabs, expands, half⟩ := expandTabs_spec sorted inside
    have still : carriageReturn ∉ result.text := by
      rw [expands]
      intro returns
      obtain ⟨ch, member, image⟩ := List.mem_flatMap.mp returns
      exact noReturns (expanded_return.mp image ▸ member)
    obtain ⟨last', made', _, same⟩ := cleans expandedTabs expands (still_rule still result.entities) rfl
    cases made.symm.trans made'
    rw [same] at known
    refine forall_of_forall₂ (fun final entity all => ?_)
      (List.Forall₂.mp (fun _ _ tabs image => And.intro tabs image) half known).flip
    obtain ⟨half, inside, image⟩ := all
    exact ⟨apart_of_expanded noReturns inside half image, apart_of_not_mem noReturns entity⟩

/-- Entities stay with their characters if their bounds are moved. With both tabs and carriage returns, a bound can be
left behind twice and be right again. -/
theorem PrepareForSending_kept_iff (e : Expressions) (text : TextWithEntities)
    (sorted : text.entities.Pairwise fun a b => a.offset ≤ b.offset)
    (inside : ∀ entity ∈ text.entities, entity.Inside text.text.length) :
    (Attachable text → Kept e text) ∧
      (tabulation ∉ text.text ∨ carriageReturn ∉ text.text → (Kept e text ↔ Attachable text)) := by
  constructor
  · exact kept_of_attachable e sorted inside
  · exact fun one => ⟨attachable_of_kept sorted inside one, kept_of_attachable e sorted inside⟩

/-- A tab, a letter, a carriage return and a letter, of which both letters and what is between are bold. -/
def twoLines : TextWithEntities := ⟨[tabulation, 0x61, carriageReturn, 0x62], [⟨.bold, 1, 3, []⟩]⟩

theorem twoLines_kept : Kept Expressions.plain twoLines := by
  have sorted : twoLines.entities.Pairwise fun a b => a.offset ≤ b.offset := List.pairwise_singleton _ _
  have inside : ∀ entity ∈ twoLines.entities, entity.Inside twoLines.text.length := by
    intro entity known
    rw [List.mem_singleton.mp known]
    exact ⟨by decide, by decide, by decide⟩
  refine (PrepareForSending_kept_iff Expressions.plain twoLines sorted inside).1 fun entity known => ?_
  rw [List.mem_singleton.mp known]
  exact ⟨fun _ => by decide, fun _ => by decide⟩

/-- A letter and a carriage return, both bold. -/
def oneLine : TextWithEntities := ⟨[0x61, carriageReturn], [⟨.bold, 0, 2, []⟩]⟩

/-- The carriage return is removed, and the end right behind it stays outside of the text. -/
theorem oneLine_not_kept : oneLine.entities.Pairwise (fun a b => a.offset + a.length ≤ b.offset) ∧
    (∀ entity ∈ oneLine.entities, entity.Inside oneLine.text.length) ∧
    Expressions.plain.PrepareForSending oneLine 0 = some ⟨[0x61], [⟨.bold, 0, 2, []⟩]⟩ ∧
    ¬ Kept Expressions.plain oneLine := by
  have made : Expressions.plain.PrepareForSending oneLine 0 = some ⟨[0x61], [⟨.bold, 0, 2, []⟩]⟩ := by decide
  refine ⟨List.pairwise_singleton _ _, fun entity known => ?_, made, fun kept => ?_⟩
  · rw [List.mem_singleton.mp known]
    exact ⟨by decide, by decide, by decide⟩
  · obtain ⟨_, result, _, final, _, _, inside⟩ := kept
    cases made.symm.trans final
    have outside := inside _ (List.mem_singleton_self _) (by decide)
    exact absurd outside.finish (by decide)

end IMeDesktop.Ui.TextUtilities
