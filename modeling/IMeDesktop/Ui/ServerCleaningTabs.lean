import IMeDesktop.Lib.Places
import IMeDesktop.Ui.ServerCleaning

/-! # Tabs and the bounds of entities

While the parts between tabs are moved, a bound of an entity is moved with the part that it is in. A start at a
tab and an end right behind one are in no part and stay where they are.
-/

namespace IMeDesktop.Ui.TextUtilities

open Lib EntityInText

/-! ## One move -/

def finish (entity : EntityInText) : Int := entity.offset + entity.length

variable {target origin count : Int} {entity moved : EntityInText}

theorem moveEntity_type (entity : EntityInText) : (moveEntity target origin count entity).type = entity.type := by
  grind [moveEntity, extendToLeft, shrinkFromRight]

theorem moveEntity_data (entity : EntityInText) : (moveEntity target origin count entity).data = entity.data := by
  grind [moveEntity, extendToLeft, shrinkFromRight]

theorem moveEntity_offset (entity : EntityInText) : (moveEntity target origin count entity).offset =
    if origin < finish entity ∧ origin ≤ entity.offset then entity.offset + (target - origin) else entity.offset := by
  grind [moveEntity, finish, extendToLeft, shrinkFromRight]

theorem moveEntity_finish (entity : EntityInText) : finish (moveEntity target origin count entity) =
    if origin < finish entity ∧ finish entity ≤ origin + count then finish entity + (target - origin)
    else finish entity := by
  grind [moveEntity, finish, extendToLeft, shrinkFromRight]

theorem moveEntity_empty (empty : entity.length = 0) (before : entity.offset < origin + count) :
    (moveEntity target origin count entity).length = 0 := by
  grind [moveEntity, extendToLeft, shrinkFromRight]

/-- Where a start goes that is moved with its part, if it is in one. -/
def startMoved (special : QChar) (f : QChar → QString) (text : QString) (start : Nat) : Nat :=
  if text[start]? = some special then start else place f text start

/-- An end is in the part of the character in front of it. -/
def finishMoved (special : QChar) (f : QChar → QString) (text : QString) (last : Nat) : Nat :=
  if text[last - 1]? = some special then last else place f text last

section Bounds

variable {special : QChar} {f : QChar → QString} {text : QString} {start last : Nat}

theorem startMoved_special (here : text[start]? = some special) : startMoved special f text start = start := if_pos here

theorem startMoved_part (other : text[start]? ≠ some special) :
    startMoved special f text start = place f text start := if_neg other

theorem finishMoved_special (before : text[last - 1]? = some special) : finishMoved special f text last = last :=
  if_pos before

theorem finishMoved_part (other : text[last - 1]? ≠ some special) :
    finishMoved special f text last = place f text last := if_neg other

end Bounds

/-! ## Tabs -/

def expanded (ch : QChar) : QString := if ch = tabulation then replacement else [ch]

variable {text : QString} {i m : Nat}

theorem expanded_ne_nil (ch : QChar) : expanded ch ≠ [] := by
  rw [expanded]
  split_ifs <;> exact List.cons_ne_nil _ _

theorem length_expanded {ch : QChar} (other : ch ≠ tabulation) : (expanded ch).length = 1 := by
  rw [expanded, if_neg other]
  rfl

theorem place_tab (at_tab : text[i]? = some tabulation) :
    place expanded text (i + 1) = place expanded text i + 2 := place_succ at_tab

/-- An entity while the text from a position on has no tabs any more. An empty one covers nothing. -/
structure HalfTabbed (text : QString) (movedTill : Nat) (entity moved : EntityInText) : Prop where
  type : moved.type = entity.type
  data : moved.data = entity.data
  covering : ∀ start last : Nat, entity.offset = start → finish entity = last → start < last →
    moved.offset = ((if movedTill ≤ start then startMoved tabulation expanded text start else start : Nat) : Int) ∧
    finish moved = ((if movedTill < last then finishMoved tabulation expanded text last else last : Nat) : Int)
  empty : ∀ start : Nat, entity.offset = start → entity.length = 0 → moved.length = 0 ∧
    ∃ position : Nat, moved.offset = position ∧ position ≤ place expanded text start ∧
      (position = start ∨ movedTill ≤ start)

/-- A part is between a tab and the text without tabs. -/
structure TabPart (text : QString) (i movedTill : Nat) : Prop where
  tab : text[i]? = some tabulation
  before : i < movedTill
  inside : movedTill ≤ text.length
  single : ∀ j ch, i + 1 ≤ j → j < movedTill → text[j]? = some ch → ch ≠ tabulation

theorem TabPart.place_eq (part : TabPart text i m) {j : Nat} (low : i + 1 ≤ j) (high : j ≤ m) :
    place expanded text j = place expanded text (i + 1) + (j - (i + 1)) :=
  place_of_single (fun k ch first last known => length_expanded (part.single k ch first (by omega) known)) low
    (high.trans part.inside)

theorem TabPart.longer (part : TabPart text i m) : i + 2 ≤ place expanded text (i + 1) := by
  have below := @le_place _ _ expanded text i (fun ch _ => expanded_ne_nil ch) (by have := part.inside; have := part.before; omega)
  rw [place_tab part.tab]
  omega

theorem le_place_expanded (inside : i ≤ text.length) : i ≤ place expanded text i :=
  le_place (fun ch _ => expanded_ne_nil ch) inside

theorem le_startMoved (inside : i ≤ text.length) : i ≤ startMoved tabulation expanded text i := by
  have below := le_place_expanded inside
  rw [startMoved]
  split_ifs <;> omega

theorem le_finishMoved (inside : i ≤ text.length) : i ≤ finishMoved tabulation expanded text i := by
  have below := le_place_expanded inside
  rw [finishMoved]
  split_ifs <;> omega

/-- A start in the part or at the tab, when the part is moved. -/
theorem TabPart.startMoved_eq (part : TabPart text i m) {start : Nat} (low : i ≤ start) (high : start < m) :
    startMoved tabulation expanded text start =
      if start = i then i else place expanded text (i + 1) + (start - (i + 1)) := by
  by_cases here : start = i
  · rw [if_pos here, here, startMoved_special part.tab]
  · have other : text[start]? ≠ some tabulation := fun at_tab => part.single start _ (by omega) high at_tab rfl
    rw [if_neg here, startMoved_part other, part.place_eq (by omega) (by omega)]

theorem TabPart.finishMoved_eq (part : TabPart text i m) {last : Nat} (low : i < last) (high : last ≤ m) :
    finishMoved tabulation expanded text last =
      if last = i + 1 then i + 1 else place expanded text (i + 1) + (last - (i + 1)) := by
  by_cases here : last = i + 1
  · subst here
    rw [if_pos rfl, finishMoved_special part.tab]
  · have other : text[last - 1]? ≠ some tabulation := fun at_tab =>
      part.single (last - 1) _ (by omega) (by omega) at_tab rfl
    rw [if_neg here, finishMoved_part other, part.place_eq (by omega) (by omega)]

/-- Bounds in the part go with it. -/
theorem HalfTabbed.move (half : HalfTabbed text m entity moved) (part : TabPart text i m)
    (inside : entity.Inside text.length) (first : moved.offset < m) :
    HalfTabbed text i entity
      (moveEntity (place expanded text (i + 1)) ((i + 1 : Nat) : Int) ((m - (i + 1) : Nat) : Int) moved) := by
  have before := part.before
  have longer := part.longer
  have finishes := inside.finish
  constructor
  · exact (moveEntity_type moved).trans half.type
  · exact (moveEntity_data moved).trans half.data
  · intro start last begins ends ordered
    obtain ⟨offset, last_eq⟩ := half.covering start last begins ends ordered
    have short : last ≤ text.length := by
      rw [finish] at ends
      omega
    have startLow := @le_startMoved text start (by omega)
    have lastLow := @le_finishMoved text last short
    have low : start < m := by
      rw [offset] at first
      split_ifs at first <;> omega
    rw [if_neg (by omega)] at offset
    rw [moveEntity_offset, moveEntity_finish]
    constructor
    · have later : (last : Int) ≤ finish moved := by
        rw [last_eq]
        split_ifs <;> omega
      by_cases here : i ≤ start
      · rw [if_pos here, part.startMoved_eq here low, offset]
        split_ifs <;> omega
      · rw [if_neg here, if_neg (by omega), offset]
    · by_cases past : m < last
      · rw [if_pos past] at last_eq
        rw [if_neg (by omega), if_pos (by omega), last_eq]
      · rw [if_neg past] at last_eq
        by_cases behind : i < last
        · rw [if_pos behind, part.finishMoved_eq behind (by omega), last_eq]
          split_ifs <;> omega
        · rw [if_neg behind, if_neg (by omega), last_eq]
  · intro start begins empty
    obtain ⟨length, position, offset, low, stays⟩ := half.empty start begins empty
    refine ⟨moveEntity_empty length (by omega), ?_⟩
    have emptyMoved : finish moved = position := by rw [finish, length, offset, Int.add_zero]
    rw [moveEntity_offset, emptyMoved, offset]
    by_cases goes : i + 1 < position
    · have here := part.place_eq (show i + 1 ≤ position by omega) (by omega)
      have most : place expanded text position ≤ place expanded text start := by
        rcases stays with same | behind
        · rw [same]
        · exact place_mono expanded text (by omega)
      refine ⟨place expanded text position, ?_, most, .inr (by omega)⟩
      rw [if_pos (by omega), here]
      omega
    · refine ⟨position, ?_, low, by omega⟩
      rw [if_neg (by omega)]

/-- Nothing is in an empty part, and no start behind a part. -/
theorem HalfTabbed.stay (half : HalfTabbed text m entity moved) (part : TabPart text i m)
    (empty : i + 1 = m ∨ (m : Int) ≤ entity.offset) : HalfTabbed text i entity moved := by
  have before := part.before
  constructor
  · exact half.type
  · exact half.data
  · intro start last begins ends ordered
    obtain ⟨offset, last_eq⟩ := half.covering start last begins ends ordered
    rw [offset, last_eq]
    constructor
    · by_cases here : start = i
      · rw [if_neg (by omega), if_pos (by omega), here, startMoved_special part.tab]
      · split_ifs <;> omega
    · by_cases here : last = i + 1
      · have same := part.finishMoved_eq (show i < last by omega) (by omega)
        rw [if_pos here] at same
        rw [if_neg (by omega), if_pos (by omega), same, here]
      · split_ifs <;> omega
  · intro start begins nothing
    obtain ⟨length, position, offset, low, stays⟩ := half.empty start begins nothing
    exact ⟨length, position, offset, low, by omega⟩

theorem HalfTabbed.behind (half : HalfTabbed text m entity moved) (inside : entity.Inside text.length)
    (behind : (m : Int) ≤ moved.offset) : (m : Int) ≤ entity.offset := by
  have nonneg := inside.start
  have length := inside.length
  obtain ⟨start, begins⟩ := Int.eq_ofNat_of_zero_le nonneg
  obtain ⟨last, ends⟩ := Int.eq_ofNat_of_zero_le (show 0 ≤ finish entity by rw [finish]; omega)
  by_cases some : start < last
  · have offset := (half.covering start last begins ends some).1
    split_ifs at offset <;> omega
  · have empty : entity.length = 0 := by
      rw [finish] at ends
      omega
    obtain ⟨_, position, offset, _, stays⟩ := half.empty start begins empty
    omega

/-- All entities, of which those behind the part are not looked at. -/
theorem halfTabbed_moveEntities {entities result : List EntityInText}
    (half : List.Forall₂ (HalfTabbed text m) entities result)
    (sorted : entities.Pairwise fun a b => a.offset ≤ b.offset)
    (inside : ∀ entity ∈ entities, entity.Inside text.length) (part : TabPart text i m) :
    List.Forall₂ (HalfTabbed text i) entities
      (moveEntities (place expanded text (i + 1)) ((i + 1 : Nat) : Int) ((m - (i + 1) : Nat) : Int) result) := by
  have before := part.before
  induction half with
  | nil => exact .nil
  | @cons entity moved rest moveds half later ih =>
      have sortedRest := (List.pairwise_cons.mp sorted).2
      have insideRest : ∀ entity ∈ rest, entity.Inside text.length := fun entity known =>
        inside entity (List.mem_cons_of_mem _ known)
      have insideFirst := inside entity List.mem_cons_self
      rw [moveEntities]
      by_cases stops : moved.offset ≥ ((i + 1 : Nat) : Int) + ((m - (i + 1) : Nat) : Int)
      · have behind := half.behind insideFirst (by omega)
        rw [if_pos stops]
        have allBehind : ∀ entity ∈ rest, (m : Int) ≤ entity.offset := fun entity known =>
          behind.trans ((List.pairwise_cons.mp sorted).1 entity known)
        exact .cons (half.stay part (.inr behind))
          (((List.forall₂_and_left _ _).mpr ⟨allBehind, later⟩).imp fun _ _ both => both.2.stay part (.inr both.1))
      · rw [if_neg stops]
        exact .cons (half.move part insideFirst (by omega)) (ih sortedRest insideRest)

/-! ## The loop -/

theorem take_eq_of_le {a b : QString} {k n : Nat} (same : a.take n = b.take n) (le : k ≤ n) : a.take k = b.take k := by
  have both := congrArg (List.take k) same
  rw [List.take_take, List.take_take, min_eq_left le] at both
  exact both

theorem window_eq_of_take {a b : QString} {start size n : Nat} (same : a.take n = b.take n) (inside : start + size ≤ n) :
    window a start size = window b start size := by
  have both := congrArg (List.drop start) (take_eq_of_le same inside)
  rw [List.drop_take, List.drop_take, Nat.add_sub_cancel_left] at both
  exact both

theorem memmove_eq {target origin count : Nat} (inside : origin + count ≤ text.length)
    (fits : target + count ≤ text.length) : ∃ moved, memmove text target origin count = some moved ∧
      moved.length = text.length ∧ moved.take target = text.take target ∧
      moved.drop target = window text origin count ++ text.drop (target + count) ∧
      ∀ position, target + count ≤ position → moved.drop position = text.drop position := by
  have length := length_window inside
  obtain ⟨moved, written⟩ := @overwrite_inside _ text (window text origin count) target (by omega)
  have behind := drop_overwrite written
  rw [length] at behind
  refine ⟨moved, ?_, length_overwrite written, take_overwrite written, behind, fun position after =>
    drop_overwrite_after written (by omega)⟩
  rw [memmove, subspan_window inside]
  exact written

theorem flatMap_expanded_single {part : QString} (single : ∀ ch ∈ part, ch ≠ tabulation) :
    part.flatMap expanded = part := by
  induction part with
  | nil => rfl
  | cons ch rest ih =>
      rw [List.flatMap_cons, ih fun ch known => single ch (List.mem_cons_of_mem _ known), expanded,
        if_neg (single ch List.mem_cons_self)]
      rfl

theorem mem_window {ch : QChar} {start size : Nat} (known : ch ∈ window text start size) :
    ∃ j, start ≤ j ∧ j < start + size ∧ text[j]? = some ch := by
  obtain ⟨j, at_j⟩ := List.getElem?_of_mem known
  have low : j < size := by
    have inside := (List.getElem?_eq_some_iff.mp at_j).1
    rw [window, List.length_take] at inside
    omega
  rw [window, List.getElem?_take, if_pos low, List.getElem?_drop] at at_j
  exact ⟨start + j, Nat.le_add_right _ _, by omega, at_j⟩

theorem TabPart.flatMap_eq (part : TabPart text i m) : (text.drop (i + 1)).flatMap expanded =
    window text (i + 1) (m - (i + 1)) ++ (text.drop m).flatMap expanded := by
  have before := part.before
  have split := (List.take_append_drop (m - (i + 1)) (text.drop (i + 1))).symm
  rw [List.drop_drop, show i + 1 + (m - (i + 1)) = m by omega] at split
  have single : (window text (i + 1) (m - (i + 1))).flatMap expanded = window text (i + 1) (m - (i + 1)) := by
    refine flatMap_expanded_single fun ch known => ?_
    obtain ⟨j, low, high, at_j⟩ := mem_window known
    exact part.single j ch low (by omega) at_j
  rw [split, List.flatMap_append, ← window, single]

theorem flatMap_expanded_drop (at_tab : text[i]? = some tabulation) :
    (text.drop i).flatMap expanded = replacement ++ (text.drop (i + 1)).flatMap expanded := by
  obtain ⟨below, is_tab⟩ := List.getElem?_eq_some_iff.mp at_tab
  rw [List.drop_eq_getElem_cons below, is_tab, List.flatMap_cons]
  rfl

/-- The text while its end has no tabs any more. -/
structure Expanding (text : TextWithEntities) (movedTill target : Nat) (result : TextWithEntities) : Prop where
  inside : movedTill ≤ text.text.length
  begins : target = place expanded text.text movedTill
  length : result.text.length = (text.text.flatMap expanded).length
  front : result.text.take movedTill = text.text.take movedTill
  back : result.text.drop target = (text.text.drop movedTill).flatMap expanded
  entities : List.Forall₂ (HalfTabbed text.text movedTill) text.entities result.entities

/-- The part behind a tab is moved. -/
theorem Expanding.movePart {text result : TextWithEntities} {target : Nat} (expanding : Expanding text m target result)
    (part : TabPart text.text i m) (sorted : text.entities.Pairwise fun a b => a.offset ≤ b.offset)
    (inside : ∀ entity ∈ text.entities, entity.Inside text.text.length) :
    ∃ moved, MoveStringPart result (place expanded text.text (i + 1)) (i + 1) (m - (i + 1)) = some moved ∧
      moved.text.length = (text.text.flatMap expanded).length ∧
      moved.text.take (place expanded text.text (i + 1)) = result.text.take (place expanded text.text (i + 1)) ∧
      moved.text.drop (place expanded text.text (i + 1)) = (text.text.drop (i + 1)).flatMap expanded ∧
      List.Forall₂ (HalfTabbed text.text i) text.entities moved.entities := by
  have before := part.before
  have ends := part.place_eq (show i + 1 ≤ m by omega) (Nat.le_refl m)
  have begins := expanding.begins
  have back := expanding.back
  by_cases empty : m - (i + 1) = 0
  · have same : m = i + 1 := by omega
    refine ⟨result, by rw [MoveStringPart, if_pos empty], expanding.length, rfl, ?_, ?_⟩
    · rw [← same, ← begins, back]
    · exact expanding.entities.imp fun _ _ half => half.stay part (.inl same.symm)
  · have longer := part.longer
    have short := place_le expanded text.text m
    have inText := le_place_expanded expanding.inside
    have total := expanding.length
    obtain ⟨moved, written, length, front, behind, _⟩ := @memmove_eq result.text (place expanded text.text (i + 1))
      (i + 1) (m - (i + 1)) (by omega) (by omega)
    refine ⟨⟨moved, _⟩, ?_, length.trans total, front, ?_, halfTabbed_moveEntities expanding.entities sorted inside part⟩
    · rw [MoveStringPart, if_neg empty, if_pos (by omega), written]
      rfl
    · rw [behind, ← ends, ← begins, back, part.flatMap_eq, window_eq_of_take expanding.front (by omega)]

/-- And two spaces are put in front of it. -/
theorem Expanding.step {text result : TextWithEntities} {target : Nat} (expanding : Expanding text m target result)
    (part : TabPart text.text i m) (sorted : text.entities.Pairwise fun a b => a.offset ≤ b.offset)
    (inside : ∀ entity ∈ text.entities, entity.Inside text.text.length) :
    ∃ moved written, MoveStringPart result (target - (m - (i + 1))) (i + 1) (m - (i + 1)) = some moved ∧
      overwrite moved.text (target - (m - (i + 1)) - replacement.length) replacement = some written ∧
      Expanding text i (target - (m - (i + 1)) - replacement.length) { moved with text := written } := by
  have before := part.before
  have ends := part.place_eq (show i + 1 ≤ m by omega) (Nat.le_refl m)
  have begins := expanding.begins
  have tab := place_tab part.tab
  have here : target - (m - (i + 1)) = place expanded text.text (i + 1) := by omega
  have two : replacement.length = 2 := rfl
  have first : place expanded text.text (i + 1) - replacement.length = place expanded text.text i := by omega
  have short := place_le expanded text.text (i + 1)
  obtain ⟨moved, made, length, front, behind, entities⟩ := expanding.movePart part sorted inside
  obtain ⟨written, wrote⟩ := @overwrite_inside _ moved.text replacement (place expanded text.text i) (by omega)
  rw [here, first]
  refine ⟨moved, written, made, wrote, ?_⟩
  have low : i ≤ place expanded text.text i := le_place_expanded (by have := expanding.inside; omega)
  constructor
  · have := expanding.inside
    omega
  · rfl
  · exact (length_overwrite wrote).trans length
  · calc written.take i = moved.text.take i := take_eq_of_le (take_overwrite wrote) low
      _ = result.text.take i := take_eq_of_le front (by omega)
      _ = text.text.take i := take_eq_of_le expanding.front (by omega)
  · dsimp only
    rw [drop_overwrite wrote, two, ← tab, behind, flatMap_expanded_drop part.tab]
  · exact entities

theorem charAt_eq_iff {a b : QString} {n : Nat} (same : a.take n = b.take n) (below : i < n) (inside : i < b.length)
    {ch : QChar} : charAt a i = ch ↔ b[i]? = some ch := by
  have here := congrArg (fun text => text[i]?) same
  simp only [List.getElem?_take, if_pos below] at here
  rw [charAt, List.getD_eq_getElem?_getD, here, List.getElem?_eq_getElem inside, Option.getD_some, Option.some.injEq]

/-- In front of the first tab, nothing has to be moved. -/
theorem HalfTabbed.done (half : HalfTabbed text m entity moved) (inside : m ≤ text.length)
    (single : ∀ j ch, 0 ≤ j → j < m → text[j]? = some ch → ch ≠ tabulation) : HalfTabbed text 0 entity moved := by
  have same : ∀ j ≤ m, place expanded text j = j := by
    intro j low
    have eq := place_of_single (fun k ch first last known => length_expanded (single k ch first (by omega) known))
      (Nat.zero_le j) (low.trans inside)
    rw [place_zero, Nat.zero_add] at eq
    exact eq
  constructor
  · exact half.type
  · exact half.data
  · intro start last begins ends ordered
    obtain ⟨offset, last_eq⟩ := half.covering start last begins ends ordered
    rw [offset, last_eq, if_pos (Nat.zero_le start), if_pos (show 0 < last by omega)]
    constructor
    · by_cases low : m ≤ start
      · rw [if_pos low]
      · have other : text[start]? ≠ some tabulation := fun at_tab => single start _ (by omega) (by omega) at_tab rfl
        rw [if_neg low, startMoved_part other, same start (by omega)]
    · by_cases low : m < last
      · rw [if_pos low]
      · have other : text[last - 1]? ≠ some tabulation := fun at_tab =>
          single (last - 1) _ (by omega) (by omega) at_tab rfl
        rw [if_neg low, finishMoved_part other, same last (by omega)]
  · intro start begins empty
    obtain ⟨length, position, offset, low, _⟩ := half.empty start begins empty
    exact ⟨length, position, offset, low, .inr (Nat.zero_le start)⟩

theorem replaceTabs_expands {text : TextWithEntities} (sorted : text.entities.Pairwise fun a b => a.offset ≤ b.offset)
    (inside : ∀ entity ∈ text.entities, entity.Inside text.text.length) {target : Nat} {result : TextWithEntities}
    (expanding : Expanding text m target result) (low : i ≤ m)
    (single : ∀ j ch, i ≤ j → j < m → text.text[j]? = some ch → ch ≠ tabulation) :
    ∃ last, replaceTabs i m target result = some last ∧ last.text = text.text.flatMap expanded ∧
      List.Forall₂ (HalfTabbed text.text 0) text.entities last.entities := by
  induction i generalizing m target result with
  | zero =>
      have within := expanding.inside
      refine ⟨result, by rw [replaceTabs], ?_, expanding.entities.imp fun _ _ half => half.done within single⟩
      have same : target = m := by
        have eq := place_of_single (fun k ch first last known => length_expanded (single k ch first last known)) low within
        rw [expanding.begins, eq, place_zero, Nat.zero_add, Nat.sub_zero]
      have front : (text.text.take m).flatMap expanded = text.text.take m := by
        refine flatMap_expanded_single fun ch known => ?_
        obtain ⟨j, first, last, at_j⟩ := @mem_window text.text ch 0 m known
        exact single j ch first (by omega) at_j
      have back := expanding.back
      rw [same] at back
      rw [← List.take_append_drop m result.text, back, expanding.front, flatMap_split expanded text.text m, front]
  | succ i ih =>
      have within := expanding.inside
      have isTab : charAt result.text i = tabulation ↔ text.text[i]? = some tabulation :=
        charAt_eq_iff expanding.front (show i < m by omega) (by omega)
      rw [replaceTabs]
      by_cases tab : charAt result.text i = tabulation
      · have part : TabPart text.text i m := ⟨isTab.mp tab, by omega, within, single⟩
        obtain ⟨moved, written, made, wrote, next⟩ := expanding.step part sorted inside
        obtain ⟨last, done, rest⟩ := ih next (Nat.le_refl i) (by omega)
        refine ⟨last, ?_, rest⟩
        rw [if_pos tab]
        simp only [made, Option.bind_eq_bind, Option.bind_some, wrote, done]
      · rw [if_neg tab]
        refine ih expanding (by omega) fun j ch first last known => ?_
        by_cases here : j = i
        · subst here
          intro same
          exact tab (isTab.mpr (same ▸ known))
        · exact single j ch (by omega) last known

theorem length_flatMap_expanded (text : QString) :
    (text.flatMap expanded).length = text.length + text.count tabulation := by
  induction text with
  | nil => rfl
  | cons ch rest ih =>
      rw [List.flatMap_cons, List.length_append, ih, List.length_cons]
      by_cases tab : ch = tabulation
      · rw [tab, List.count_cons_self, expanded, if_pos rfl, show replacement.length = 2 from rfl]
        omega
      · rw [List.count_cons_of_ne tab, length_expanded tab]
        omega

/-- Before anything is moved. -/
theorem HalfTabbed.refl (inside : entity.Inside text.length) : HalfTabbed text text.length entity entity := by
  have finishes := inside.finish
  constructor
  · rfl
  · rfl
  · intro start last begins ends ordered
    have short : last ≤ text.length := by
      rw [finish] at ends
      omega
    rw [if_neg (by omega), if_neg (by omega)]
    exact ⟨begins, ends⟩
  · intro start begins empty
    exact ⟨empty, start, begins, le_place_expanded (by omega), .inl rfl⟩

/-- The tabs of a text, as the cleaning begins with them. -/
def expandTabs (result : TextWithEntities) : Option TextWithEntities :=
  let len := result.text.length
  let tabs := result.text.count tabulation
  if tabs = 0 then some result
  else
    let size := len + (replacement.length - 1) * tabs
    replaceTabs len len size { result with text := result.text ++ List.replicate (size - len) 0 }

theorem expandTabs_spec {text : TextWithEntities} (sorted : text.entities.Pairwise fun a b => a.offset ≤ b.offset)
    (inside : ∀ entity ∈ text.entities, entity.Inside text.text.length) :
    ∃ last, expandTabs text = some last ∧ last.text = text.text.flatMap expanded ∧
      List.Forall₂ (HalfTabbed text.text 0) text.entities last.entities := by
  have related : List.Forall₂ (HalfTabbed text.text text.text.length) text.entities text.entities :=
    List.forall₂_same.mpr fun entity known => .refl (inside entity known)
  rw [expandTabs]
  by_cases nothing : text.text.count tabulation = 0
  · have other : ∀ ch ∈ text.text, ch ≠ tabulation := fun ch known same =>
      List.count_eq_zero.mp nothing (same ▸ known)
    refine ⟨text, by simp only [if_pos nothing], (flatMap_expanded_single other).symm, related.imp fun _ _ half => ?_⟩
    exact half.done (Nat.le_refl _) fun j ch _ _ at_j => other ch (List.mem_of_getElem? at_j)
  · have size : text.text.length + (replacement.length - 1) * text.text.count tabulation =
        text.text.length + text.text.count tabulation := by
      rw [show replacement.length - 1 = 1 from rfl, Nat.one_mul]
    simp only [if_neg nothing, size]
    have total := length_flatMap_expanded text.text
    refine replaceTabs_expands sorted inside ⟨Nat.le_refl _, ?_, ?_, ?_, ?_, related⟩ (Nat.le_refl _) ?_
    · rw [place_length, total]
    · rw [List.length_append, List.length_replicate, total]
      omega
    · rw [List.take_left, List.take_length]
    · rw [List.drop_eq_nil_of_le (by simp), List.drop_length]
      rfl
    · intro j ch low high
      omega

end IMeDesktop.Ui.TextUtilities
