import IMeDesktop.Ui.ServerCleaningTabs

/-! # Carriage returns and the bounds of entities

The parts between carriage returns are moved to the left, over those that were removed, and the bounds in them
as well. A start at a carriage return and an end right behind one stay where they are.
-/

namespace IMeDesktop.Ui.TextUtilities

open Lib EntityInText

def cleaned (ch : QChar) : QString :=
  if ch = carriageReturn then [] else if IsReplacedBySpace ch then [space] else [ch]

variable {text : QString} {o p : Nat} {entity moved : EntityInText}

theorem length_cleaned {ch : QChar} (other : ch ≠ carriageReturn) : (cleaned ch).length = 1 := by
  rw [cleaned, if_neg other]
  split_ifs <;> rfl

theorem length_cleaned_le (ch : QChar) : (cleaned ch).length ≤ 1 := by
  rw [cleaned]
  split_ifs
  · exact Nat.zero_le 1
  · exact Nat.le_refl 1
  · exact Nat.le_refl 1

theorem place_cleaned_le (text : QString) (i : Nat) : place cleaned text i ≤ i :=
  place_le_self (fun ch _ => length_cleaned_le ch) i

/-! ## Entities -/

/-- An entity while the text up to a position has no carriage returns any more. -/
structure HalfReturned (text : QString) (origin : Nat) (entity moved : EntityInText) : Prop where
  type : moved.type = entity.type
  data : moved.data = entity.data
  covering : ∀ start last : Nat, entity.offset = start → finish entity = last → start < last →
    moved.offset = ((if start < origin then startMoved carriageReturn cleaned text start else start : Nat) : Int) ∧
    finish moved = ((if last ≤ origin then finishMoved carriageReturn cleaned text last else last : Nat) : Int)
  empty : ∀ start : Nat, entity.offset = start → entity.length = 0 → moved.length = 0 ∧
    ∃ position : Nat, moved.offset = position ∧ position ≤ start ∧ (position = start ∨ start < origin)

/-- A part is in front of a carriage return or of the end of the text. -/
structure ReturnPart (text : QString) (origin p : Nat) : Prop where
  ordered : origin ≤ p
  inside : p ≤ text.length
  stops : text[p]? = some carriageReturn ∨ p = text.length
  single : ∀ j ch, origin ≤ j → j < p → text[j]? = some ch → ch ≠ carriageReturn

theorem ReturnPart.place_eq (part : ReturnPart text o p) {j : Nat} (low : o ≤ j) (high : j ≤ p) :
    place cleaned text j = place cleaned text o + (j - o) :=
  place_of_single (fun k ch first last known => length_cleaned (part.single k ch first (by omega) known)) low
    (high.trans part.inside)

theorem startMoved_le (text : QString) (i : Nat) : startMoved carriageReturn cleaned text i ≤ i := by
  have below := place_cleaned_le text i
  rw [startMoved]
  split_ifs <;> omega

theorem finishMoved_le (text : QString) (i : Nat) : finishMoved carriageReturn cleaned text i ≤ i := by
  have below := place_cleaned_le text i
  rw [finishMoved]
  split_ifs <;> omega

theorem ReturnPart.startMoved_eq (part : ReturnPart text o p) {start : Nat} (low : o ≤ start) (high : start < p) :
    startMoved carriageReturn cleaned text start = place cleaned text o + (start - o) := by
  have other : text[start]? ≠ some carriageReturn := fun here => part.single start _ low high here rfl
  rw [startMoved_part other, part.place_eq low (by omega)]

theorem ReturnPart.finishMoved_eq (part : ReturnPart text o p) {last : Nat} (low : o < last) (high : last ≤ p) :
    finishMoved carriageReturn cleaned text last = place cleaned text o + (last - o) := by
  have other : text[last - 1]? ≠ some carriageReturn := fun before =>
    part.single (last - 1) _ (by omega) (by omega) before rfl
  rw [finishMoved_part other, part.place_eq (by omega) high]

/-- Behind the part, a start and an end that are at the carriage return stay. -/
theorem ReturnPart.startMoved_stop (part : ReturnPart text o p) (inside : p < text.length) :
    startMoved carriageReturn cleaned text p = p :=
  startMoved_special (part.stops.resolve_right (by omega))

theorem ReturnPart.finishMoved_stop (part : ReturnPart text o p) (inside : p < text.length) :
    finishMoved carriageReturn cleaned text (p + 1) = p + 1 :=
  finishMoved_special (part.stops.resolve_right (by omega))

/-- Bounds in the part go with it. -/
theorem HalfReturned.move (half : HalfReturned text o entity moved) (part : ReturnPart text o p)
    (fits : Fits entity text.length) (first : moved.offset < p) :
    HalfReturned text (p + 1) entity (moveEntity (place cleaned text o) (o : Int) ((p - o : Nat) : Int) moved) := by
  have ordered := part.ordered
  have lower := place_cleaned_le text o
  constructor
  · exact (moveEntity_type moved).trans half.type
  · exact (moveEntity_data moved).trans half.data
  · intro start last begins ends less
    obtain ⟨offset, last_eq⟩ := half.covering start last begins ends less
    have short : last ≤ text.length := by
      have finishes := fits.finish
      rw [finish] at ends
      omega
    have startHigh := startMoved_le text start
    have lastHigh := finishMoved_le text last
    have low : start < p := by
      rw [offset] at first
      split_ifs at first <;> omega
    rw [moveEntity_offset, moveEntity_finish, if_pos (show start < p + 1 by omega)]
    constructor
    · by_cases before : start < o
      · rw [if_pos before] at offset
        rw [if_neg (by omega), offset]
      · rw [if_neg before] at offset
        have later : (o : Int) < finish moved := by
          rw [last_eq, if_neg (by omega)]
          omega
        rw [if_pos (by omega), part.startMoved_eq (by omega) low, offset]
        omega
    · by_cases before : last ≤ o
      · rw [if_pos before] at last_eq
        rw [if_neg (by omega), if_pos (by omega), last_eq]
      · rw [if_neg before] at last_eq
        by_cases within : last ≤ p
        · rw [if_pos (by omega), if_pos (by omega), part.finishMoved_eq (by omega) within, last_eq]
          omega
        · rw [if_neg (by omega), last_eq]
          by_cases here : last = p + 1
          · rw [here, if_pos (Nat.le_refl _), part.finishMoved_stop (by omega)]
          · rw [if_neg (by omega)]
  · intro start begins nothing
    obtain ⟨length, position, offset, high, stays⟩ := half.empty start begins nothing
    refine ⟨moveEntity_empty length (by omega), ?_⟩
    have emptyMoved : finish moved = position := by rw [finish, length, offset, Int.add_zero]
    rw [moveEntity_offset, emptyMoved, offset]
    by_cases goes : o < position
    · refine ⟨position - (o - place cleaned text o), ?_, by omega, .inr (by omega)⟩
      rw [if_pos (by omega)]
      omega
    · refine ⟨position, ?_, high, by omega⟩
      rw [if_neg (by omega)]

/-- Nothing is in an empty part, no start behind a part, and nothing moves before the first carriage return. -/
theorem HalfReturned.stay (half : HalfReturned text o entity moved) (part : ReturnPart text o p)
    (fits : Fits entity text.length)
    (still : o = p ∨ place cleaned text o = o ∨ (0 < entity.length → (p : Int) ≤ entity.offset)) :
    HalfReturned text (p + 1) entity moved := by
  have ordered := part.ordered
  constructor
  · exact half.type
  · exact half.data
  · intro start last begins ends less
    obtain ⟨offset, last_eq⟩ := half.covering start last begins ends less
    have short : last ≤ text.length := by
      have finishes := fits.finish
      rw [finish] at ends
      omega
    have covers : 0 < entity.length := by
      rw [finish] at ends
      omega
    have behind : o = p ∨ place cleaned text o = o ∨ p ≤ start := by
      rcases still with empty | before | behind
      · exact .inl empty
      · exact .inr (.inl before)
      · have low := behind covers
        omega
    rw [offset, last_eq]
    constructor
    · by_cases moves : start < o
      · rw [if_pos moves, if_pos (by omega)]
      · rw [if_neg moves]
        by_cases within : start < p
        · rw [if_pos (by omega), part.startMoved_eq (by omega) within]
          omega
        · by_cases here : start = p
          · rw [here, if_pos (Nat.lt_succ_self p), part.startMoved_stop (by omega)]
          · rw [if_neg (by omega)]
    · by_cases moves : last ≤ o
      · rw [if_pos moves, if_pos (by omega)]
      · rw [if_neg moves]
        by_cases within : last ≤ p
        · rw [if_pos (by omega), part.finishMoved_eq (by omega) within]
          omega
        · by_cases here : last = p + 1
          · rw [here, if_pos (Nat.le_refl _), part.finishMoved_stop (by omega)]
          · rw [if_neg (by omega)]
  · intro start begins nothing
    obtain ⟨length, position, offset, high, stays⟩ := half.empty start begins nothing
    exact ⟨length, position, offset, high, by omega⟩

theorem HalfReturned.behind (half : HalfReturned text o entity moved) (fits : Fits entity text.length)
    (behind : (p : Int) ≤ moved.offset) : (p : Int) ≤ entity.offset := by
  have nonneg := fits.start
  have length := fits.length
  obtain ⟨start, begins⟩ := Int.eq_ofNat_of_zero_le nonneg
  obtain ⟨last, ends⟩ := Int.eq_ofNat_of_zero_le (show 0 ≤ finish entity by rw [finish]; omega)
  by_cases covers : start < last
  · have offset := (half.covering start last begins ends covers).1
    have high := startMoved_le text start
    split_ifs at offset <;> omega
  · have empty : entity.length = 0 := by
      rw [finish] at ends
      omega
    obtain ⟨_, position, offset, high, _⟩ := half.empty start begins empty
    omega

/-- All entities, of which those behind the part are not looked at. An empty one may be out of order. -/
theorem halfReturned_moveEntities {entities result : List EntityInText}
    (half : List.Forall₂ (HalfReturned text o) entities result)
    (sorted : entities.Pairwise fun a b => 0 < b.length → a.offset ≤ b.offset)
    (fits : ∀ entity ∈ entities, Fits entity text.length) (part : ReturnPart text o p) :
    List.Forall₂ (HalfReturned text (p + 1)) entities
      (moveEntities (place cleaned text o) (o : Int) ((p - o : Nat) : Int) result) := by
  have ordered := part.ordered
  induction half with
  | nil => exact .nil
  | @cons entity moved rest moveds half later ih =>
      have sortedRest := (List.pairwise_cons.mp sorted).2
      have fitsRest : ∀ entity ∈ rest, Fits entity text.length := fun entity known =>
        fits entity (List.mem_cons_of_mem _ known)
      have fitsFirst := fits entity List.mem_cons_self
      rw [moveEntities]
      by_cases stops : moved.offset ≥ (o : Int) + ((p - o : Nat) : Int)
      · have behind := half.behind fitsFirst (show (p : Int) ≤ moved.offset by omega)
        have allBehind : ∀ entity ∈ rest, Fits entity text.length ∧ (0 < entity.length → (p : Int) ≤ entity.offset) :=
          fun entity known =>
            ⟨fitsRest entity known, fun covers => behind.trans ((List.pairwise_cons.mp sorted).1 entity known covers)⟩
        rw [if_pos stops]
        exact .cons (half.stay part fitsFirst (.inr (.inr fun _ => behind)))
          (((List.forall₂_and_left _ _).mpr ⟨allBehind, later⟩).imp fun _ _ both =>
            both.2.stay part both.1.1 (.inr (.inr both.1.2)))
      · rw [if_neg stops]
        exact .cons (half.move part fitsFirst (by omega)) (ih sortedRest fitsRest)

/-! ## The loop -/

/-- What moves preserve of the entities, whose bounds in front of a position are moved. -/
structure EntityRule (text : QString) (P : Nat → List EntityInText → Prop) : Prop where
  stay : ∀ {o p entities}, ReturnPart text o p → P o entities → o = p ∨ place cleaned text o = o → P (p + 1) entities
  move : ∀ {o p entities}, ReturnPart text o p → P o entities → place cleaned text o ≠ o →
    P (p + 1) (moveEntities (place cleaned text o) (o : Int) ((p - o : Nat) : Int) entities)

/-- The text while its beginning is cleaned up to a position, and in place from the last carriage return on. -/
structure Removing (text : QString) (P : Nat → List EntityInText → Prop) (p : Nat) (going : Going) : Prop where
  ordered : going.origin ≤ p
  inside : p ≤ text.length
  begins : going.target = place cleaned text going.origin
  length : going.result.text.length = text.length
  front : going.result.text.take going.target = (text.take going.origin).flatMap cleaned
  middle : window going.result.text going.origin (p - going.origin) =
    (window text going.origin (p - going.origin)).flatMap cleaned
  back : going.result.text.drop p = text.drop p
  single : ∀ j ch, going.origin ≤ j → j < p → text[j]? = some ch → ch ≠ carriageReturn
  entities : P going.origin going.result.entities

theorem window_succ {ch : QChar} {start size : Nat} (at_last : text[start + size]? = some ch) :
    window text start (size + 1) = window text start size ++ [ch] := by
  obtain ⟨below, rfl⟩ := List.getElem?_eq_some_iff.mp at_last
  rw [window_add, window, window, List.drop_eq_getElem_cons below]
  rfl

/-- A character that stays. -/
theorem Removing.keep {P : Nat → List EntityInText → Prop} {going : Going} (removing : Removing text P p going)
    {ch new : QChar} {later : QString} (at_p : text[p]? = some ch) (other : ch ≠ carriageReturn)
    (clean : cleaned ch = [new]) (length : later.length = text.length)
    (before : later.take p = going.result.text.take p) (here : later[p]? = some new)
    (behind : later.drop (p + 1) = text.drop (p + 1)) :
    Removing text P (p + 1) { going with result := { going.result with text := later } } := by
  have ordered := removing.ordered
  have lower := place_cleaned_le text going.origin
  have begins := removing.begins
  constructor
  · exact Nat.le_succ_of_le ordered
  · exact (List.getElem?_eq_some_iff.mp at_p).1
  · exact begins
  · exact length
  · exact (take_eq_of_le before (show going.target ≤ p by omega)).trans removing.front
  · dsimp only
    have size : p + 1 - going.origin = p - going.origin + 1 := by omega
    have last : going.origin + (p - going.origin) = p := by omega
    rw [size, window_succ (last.symm ▸ here), window_succ (last.symm ▸ at_p), List.flatMap_append,
      window_eq_of_take before (by omega), removing.middle, List.flatMap_singleton, clean]
  · exact behind
  · intro j ch' low high known
    by_cases same : j = p
    · rw [same, at_p] at known
      exact Option.some.inj known ▸ other
    · exact removing.single j ch' low (by omega) known
  · exact removing.entities

/-- The part up to a carriage return, or to the end, is moved. -/
theorem Removing.movePart {P : Nat → List EntityInText → Prop} {going : Going} (removing : Removing text P p going)
    (rule : EntityRule text P) (stops : text[p]? = some carriageReturn ∨ p = text.length) :
    ∃ moved, MovePartAndGoForward going (p - going.origin) = some moved ∧ moved.target = place cleaned text p ∧
      moved.origin = p ∧ moved.result.text.length = text.length ∧
      moved.result.text.take (place cleaned text p) = (text.take p).flatMap cleaned ∧
      moved.result.text.drop p = text.drop p ∧ P (p + 1) moved.result.entities := by
  obtain ⟨result, target, origin⟩ := going
  obtain ⟨ordered, inside, begins, length, front, middle, back, single, entities⟩ := removing
  dsimp only at ordered begins length front middle back single entities ⊢
  subst begins
  have part : ReturnPart text origin p := ⟨ordered, inside, stops, single⟩
  have ends := part.place_eq ordered (Nat.le_refl p)
  have lower := place_cleaned_le text origin
  have whole : text.take p = text.take origin ++ window text origin (p - origin) := by
    rw [window, ← List.take_add, Nat.add_sub_cancel' ordered]
  -- what is in front of the part and the part itself
  have joined : ∀ written : QString, written.take (place cleaned text origin) = (text.take origin).flatMap cleaned →
      window written (place cleaned text origin) (p - origin) = (window text origin (p - origin)).flatMap cleaned →
      written.take (place cleaned text p) = (text.take p).flatMap cleaned := by
    intro written first second
    rw [ends, List.take_add, first, ← window, second, whole, List.flatMap_append]
  by_cases empty : p - origin = 0
  · have same : origin = p := by omega
    refine ⟨_, by rw [MovePartAndGoForward, if_pos empty], ?_, same, length, ?_, back, rule.stay part entities (.inl same)⟩
    · dsimp only
      rw [same]
    · rw [← same]
      exact front
  · have moved : ∃ written, MoveStringPart result (place cleaned text origin) origin (p - origin) = some written ∧
        written.text.length = text.length ∧
        written.text.take (place cleaned text p) = (text.take p).flatMap cleaned ∧
        written.text.drop p = text.drop p ∧ P (p + 1) written.entities := by
      by_cases still : place cleaned text origin = origin
      · refine ⟨result, ?_, length, joined _ front ?_, back, rule.stay part entities (.inr still)⟩
        · rw [MoveStringPart, if_neg empty, if_neg (not_not.mpr still)]
        · rw [still, middle]
      · obtain ⟨written, made, total, before, behind, after⟩ := @memmove_eq result.text (place cleaned text origin) origin
          (p - origin) (by omega) (by omega)
        have size : (window result.text origin (p - origin)).length = p - origin := length_window (by omega)
        refine ⟨⟨written, _⟩, ?_, total.trans length, joined _ (before.trans front) ?_, ?_,
          rule.move part entities still⟩
        · rw [MoveStringPart, if_neg empty, if_pos still, made]
          rfl
        · rw [window, behind, List.take_left' size, middle]
        · exact (after p (by omega)).trans back
    obtain ⟨written, made, total, first, last, related⟩ := moved
    refine ⟨⟨written, place cleaned text origin + (p - origin), origin + (p - origin)⟩, ?_, ends.symm,
      Nat.add_sub_cancel' ordered, total, first, last, related⟩
    rw [MovePartAndGoForward, if_neg empty, made]
    rfl

theorem Removing.getElem? {P : Nat → List EntityInText → Prop} {going : Going} (removing : Removing text P p going) :
    going.result.text[p]? = text[p]? := by
  have here := congrArg (fun text => text[0]?) removing.back
  simpa only [List.getElem?_drop, Nat.add_zero] using here

theorem Removing.lt_length {P : Nat → List EntityInText → Prop} {going : Going} (removing : Removing text P p going)
    (below : p < text.length) : p < going.result.text.length := removing.length.symm ▸ below

/-- Behind a carriage return, a new part begins. -/
theorem Removing.next {P : Nat → List EntityInText → Prop} {going : Going} (removing : Removing text P p going)
    (rule : EntityRule text P) (returns : text[p]? = some carriageReturn) :
    ∃ moved, MovePartAndGoForward going (p - going.origin) = some moved ∧
      Removing text P (p + 1) { moved with origin := moved.origin + 1 } := by
  obtain ⟨moved, made, target, origin, length, front, back, entities⟩ := removing.movePart rule (.inl returns)
  have below := (List.getElem?_eq_some_iff.mp returns).1
  have gone : place cleaned text (p + 1) = place cleaned text p := by
    rw [place_succ returns]
    rfl
  have same : (text.take (p + 1)).flatMap cleaned = (text.take p).flatMap cleaned := by
    rw [List.take_add_one, returns, List.flatMap_append]
    exact List.append_nil _
  refine ⟨moved, made, ?_⟩
  constructor
  · dsimp only
    omega
  · exact below
  · dsimp only
    rw [target, origin, gone]
  · exact length
  · dsimp only
    rw [origin, target, same, front]
  · dsimp only
    rw [origin, Nat.sub_self, window, List.take_zero, window, List.take_zero]
    rfl
  · dsimp only
    rw [← List.drop_drop, back, List.drop_drop]
  · intro j ch low high
    dsimp only at low
    omega
  · dsimp only
    rw [origin]
    exact entities

theorem removeReturns_removes {P : Nat → List EntityInText → Prop} (rule : EntityRule text P) {left : Nat}
    (few : left ≤ text.length) {going : Going} (removing : Removing text P (text.length - left) going) :
    ∃ last, removeReturns text.length left going = some last ∧ last.text = text.flatMap cleaned ∧
      P (text.length + 1) last.entities := by
  induction left generalizing going with
  | zero =>
      obtain ⟨moved, made, target, _, length, front, _, entities⟩ := removing.movePart rule (.inr rfl)
      have total := place_cleaned_le text text.length
      rw [Nat.sub_zero] at made target front entities
      rw [place_length] at target total front
      rw [List.take_length] at front
      rw [removeReturns, made]
      by_cases shorter : moved.target < text.length
      · refine ⟨_, congrArg Option.some (if_pos shorter), ?_, entities⟩
        dsimp only
        rw [target, front]
      · refine ⟨_, congrArg Option.some (if_neg shorter), ?_, entities⟩
        rw [← front, List.take_of_length_le (by omega)]
  | succ left ih =>
      obtain ⟨p, p_eq⟩ : ∃ p, text.length - (left + 1) = p := ⟨_, rfl⟩
      have below : p < text.length := by omega
      have at_p : text[p]? = some text[p] := List.getElem?_eq_getElem below
      have next : text.length - left = p + 1 := by omega
      rw [p_eq] at removing
      have char : charAt going.result.text p = text[p] := by
        rw [charAt, List.getD_eq_getElem?_getD, removing.getElem?, at_p, Option.getD_some]
      generalize text[p] = ch at at_p char
      rw [next] at ih
      rw [removeReturns, p_eq]
      simp only [char]
      by_cases returns : ch = carriageReturn
      · obtain ⟨moved, made, went⟩ := removing.next rule (returns ▸ at_p)
        obtain ⟨last, done, rest⟩ := ih (by omega) went
        refine ⟨last, ?_, rest⟩
        rw [if_pos returns, made]
        exact done
      · rw [if_neg returns]
        have behind : going.result.text.drop (p + 1) = text.drop (p + 1) := by
          rw [← List.drop_drop, removing.back, List.drop_drop]
        by_cases bad : IsReplacedBySpace ch = true
        · rw [if_pos bad]
          have clean : cleaned ch = [space] := by rw [cleaned, if_neg returns, if_pos bad]
          refine ih (by omega) (removing.keep at_p returns clean ?_ ?_ ?_ ?_)
          · rw [List.length_set, removing.length]
          · exact List.take_set_of_le (Nat.le_refl p)
          · rw [List.getElem?_set_self (removing.lt_length below)]
          · rw [List.drop_set_of_lt (Nat.lt_succ_self p), behind]
        · rw [if_neg bad]
          have clean : cleaned ch = [ch] := by rw [cleaned, if_neg returns, if_neg bad]
          exact ih (by omega) (removing.keep at_p returns clean removing.length rfl (removing.getElem?.trans at_p) behind)

end IMeDesktop.Ui.TextUtilities
