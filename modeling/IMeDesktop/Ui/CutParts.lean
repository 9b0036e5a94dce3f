import IMeDesktop.Ui.CutPartPlaces

/-! # A long text is sent as a whole

A place that is not inside of a link is better than one inside. So where no link is too long, only code is cut, and
each of its pieces is sent.
-/

namespace IMeDesktop.Ui

namespace TextUtilities

/-! ## One part -/

section Part

variable {e : Expressions} {find : Find} {longest : Nat} {left : TextWithEntities} {limit : Nat}

/-- Entities of a text, one after another, that begin between its characters. -/
structure Attached (find : Find) (text : TextWithEntities) : Prop where
  apart : text.entities.Pairwise fun one other => one.offset + one.length ≤ other.offset
  start : ∀ entity ∈ text.entities, 0 ≤ entity.offset
  length : ∀ entity ∈ text.entities, 0 < entity.length
  finish : ∀ entity ∈ text.entities, entity.offset + entity.length ≤ text.text.length
  visits : ∀ entity ∈ text.entities, Visits find text.text entity.offset.toNat

/-- A link is short enough to be sent as a whole. -/
def ShortLinks (longest limit : Nat) (entities : List EntityInText) : Prop :=
  ∀ entity ∈ entities, canBreak entity.type = false → entity.length + longest ≤ (limit - limit / 2 + 1 : Nat)

theorem apart_of_mem {entities : List EntityInText}
    (apart : entities.Pairwise fun one other => one.offset + one.length ≤ other.offset) {one other : EntityInText}
    (first : one ∈ entities) (second : other ∈ entities) :
    one = other ∨ one.offset + one.length ≤ other.offset ∨ other.offset + other.length ≤ one.offset := by
  induction apart with
  | nil => cases first
  | cons behind _ ih =>
      rcases List.mem_cons.mp first with rfl | first
      · rcases List.mem_cons.mp second with rfl | second
        · exact .inl rfl
        · exact .inr (.inl (behind _ second))
      · rcases List.mem_cons.mp second with rfl | second
        · exact .inr (.inr (behind _ ‹_›))
        · exact ih ‹_› second

/-- The entities that end before a place, and those that end behind it. -/
structure Around (entities before after : List EntityInText) (p : Nat) : Prop where
  split : entities = before ++ after
  count : skipEnded entities p 0 = before.length
  passed : ∀ entity ∈ before, entity.offset + entity.length ≤ p
  behind : ∀ entity ∈ after, (p : Int) < entity.offset + entity.length
  later : ∀ entity ∈ after.tail, (p : Int) < entity.offset

theorem entities_around {entities : List EntityInText}
    (apart : entities.Pairwise fun one other => one.offset + one.length ≤ other.offset)
    (length : ∀ entity ∈ entities, 0 < entity.length) (p : Nat) :
    ∃ before after, Around entities before after p := by
  have split : entities.drop (skipEnded entities p 0) =
      entities.dropWhile fun entity => entity.offset + entity.length ≤ (p : Int) := by
    have whole := List.takeWhile_append_dropWhile (p := fun entity : EntityInText =>
      decide (entity.offset + entity.length ≤ (p : Int))) (l := entities)
    rw [← take_skipEnded] at whole
    exact List.append_cancel_left ((List.take_append_drop _ _).trans whole.symm)
  have behind : ∀ entity ∈ entities.drop (skipEnded entities p 0), (p : Int) < entity.offset + entity.length ∧
      ∀ other ∈ (entities.drop (skipEnded entities p 0)).tail, (p : Int) < other.offset := by
    have ordered := apart.sublist (List.drop_sublist (skipEnded entities p 0) entities)
    have first := List.head?_dropWhile_not (fun entity : EntityInText =>
      decide (entity.offset + entity.length ≤ (p : Int))) entities
    rw [← split] at first
    have member : ∀ entity ∈ entities.drop (skipEnded entities p 0), entity ∈ entities :=
      fun entity there => List.mem_of_mem_drop there
    generalize entities.drop (skipEnded entities p 0) = after at ordered first member
    cases after with
    | nil => exact List.forall_mem_nil _
    | cons head rest =>
        have starts : (p : Int) < head.offset + head.length := by simpa using first
        rw [List.pairwise_cons] at ordered
        have later : ∀ other ∈ rest, (p : Int) < other.offset :=
          fun other there => lt_of_lt_of_le starts (ordered.1 other there)
        rw [List.forall_mem_cons]
        refine ⟨⟨starts, later⟩, fun entity there => ⟨?_, later⟩⟩
        have positive := length entity (member entity (List.mem_cons_of_mem _ there))
        have next := later entity there
        omega
  refine ⟨entities.take (skipEnded entities p 0), entities.drop (skipEnded entities p 0),
    (List.take_append_drop _ _).symm, ?_, fun entity there => mem_take_skipEnded there,
    fun entity there => (behind entity there).1, fun entity there => ?_⟩
  · rw [List.length_take, Nat.min_eq_left (skipEnded_le entities p)]
  · obtain ⟨head, first⟩ := List.exists_mem_of_ne_nil _ (List.ne_nil_of_mem (List.mem_of_mem_tail there))
    exact (behind head first).2 entity there

/-- The best place is inside of a link only if no other one was seen. -/
theorem mark_level {ch : Nat} (zero : (mark e left ch).level = 0) :
    ∃ entity ∈ left.entities, entity.offset < (ch : Int) ∧ (ch : Int) < entity.offset + entity.length ∧
      canBreak entity.type = false := by
  unfold mark placeAt at zero
  generalize skipEnded left.entities ch 0 = current at zero
  simp only at zero
  split_ifs at zero with inside
  · rw [Bool.and_eq_true, Bool.not_eq_true'] at inside
    obtain ⟨within, unbroken⟩ := inside
    cases found : left.entities[current]? with
    | none => simp [found] at within
    | some entity =>
        simp only [found, Option.any_some, Bool.and_eq_true, decide_eq_true_eq] at within unbroken
        exact ⟨entity, List.mem_of_getElem? found, within.1, within.2, unbroken⟩
  all_goals omega

theorem mark_inEntity_of_level {ch : Nat} (some : 0 < (mark e left ch).level) :
    (mark e left ch).inEntity = true → (mark e left ch).canBreakEntity = true := by
  intro inside
  by_contra unbroken
  rw [Bool.not_eq_true] at unbroken
  have zero : (mark e left ch).level = 0 := by
    unfold mark placeAt at inside unbroken ⊢
    simp only at inside unbroken ⊢
    rw [if_pos (by rw [inside, unbroken]; rfl)]
  omega

/-- The best place is not inside of a link. -/
theorem Found.level_pos (finds : Finds find longest) (long : longest ≤ limit - limit / 2)
    (attached : Attached find left) (short : ShortLinks longest limit left.entities) {ch : Nat} {good : Good}
    (h : Found e find left limit ch good) : limit / 2 < codePoints (left.text.take ch) ∧ 0 < good.level := by
  have points := passed_points finds (left.text.drop ch)
  have more := h.more
  have half : limit / 2 < codePoints (left.text.take ch) := by omega
  refine ⟨half, Nat.pos_of_ne_zero fun zero => ?_⟩
  obtain ⟨entity, member, starts, ends, unbroken⟩ :=
    mark_level (Nat.eq_zero_of_le_zero (zero ▸ h.best ch h.visits (Nat.le_refl _) half))
  -- the beginning of the link was seen too, or the link is too long
  have start := attached.start entity member
  have visits := attached.visits entity member
  have before : entity.offset.toNat ≤ ch := by omega
  by_cases seen : limit / 2 < codePoints (left.text.take entity.offset.toNat)
  · obtain ⟨other, there, starts', ends', -⟩ :=
      mark_level (Nat.eq_zero_of_le_zero (zero ▸ h.best _ visits before seen))
    rcases apart_of_mem attached.apart there member with rfl | apart | apart
    · omega
    · omega
    · have length := attached.length entity member
      omega
  · obtain ⟨n, rfl⟩ := Nat.exists_eq_add_of_le before
    have count := visits.points finds n
    have least := codePoints_le_length ((left.text.drop entity.offset.toNat).take n)
    rw [List.length_take] at least
    have fits := short entity member unbroken
    omega

/-- An entity that is partly in a piece of the text. -/
def touches (start finish : Nat) (entity : EntityInText) : Bool :=
  entity.offset < (finish : Int) && (start : Int) < entity.offset + entity.length

theorem updateTextEnd_before {entity : EntityInText} {textEnd : Int} (length : 0 < entity.length)
    (before : entity.offset + entity.length ≤ textEnd) : entity.updateTextEnd textEnd = entity := by
  rw [EntityInText.updateTextEnd, if_neg (by omega), if_neg (by omega)]

namespace Around

variable {before after : List EntityInText} {p : Nat}

theorem head? (h : Around left.entities before after p) :
    left.entities[skipEnded left.entities p 0]? = after.head? := by
  rw [h.count, h.split, List.getElem?_append_right (Nat.le_refl _), Nat.sub_self, List.head?_eq_getElem?]

theorem inEntity (h : Around left.entities before after p) :
    (mark e left p).inEntity = (after.head?).any fun entity =>
      entity.offset < (p : Int) && (p : Int) < entity.offset + entity.length := by
  rw [← h.head?]
  rfl

theorem canBreakEntity (h : Around left.entities before after p) :
    (mark e left p).canBreakEntity = (after.head?).any fun entity => canBreak entity.type := by
  rw [← h.head?]
  rfl

/-- An entity around a place is the first one that ends behind it. -/
theorem whole (h : Around left.entities before after p)
    (breaks : (mark e left p).inEntity = true → (mark e left p).canBreakEntity = true) :
    ∀ entity ∈ left.entities, canBreak entity.type = false →
      ¬(entity.offset < (p : Int) ∧ (p : Int) < entity.offset + entity.length) := by
  rintro entity member unbroken ⟨starts, ends⟩
  rw [h.split, List.mem_append] at member
  rcases member with early | member
  · have last := h.passed entity early
    omega
  · cases after with
    | nil => cases member
    | cons head more =>
        rcases List.mem_cons.mp member with rfl | behindHead
        · have within : (mark e left p).inEntity = true := by
            rw [h.inEntity]
            simp [starts, ends]
          have broken := breaks within
          rw [h.canBreakEntity] at broken
          simp [unbroken] at broken
        · have last := h.later entity behindHead
          omega

theorem kept (h : Around left.entities before after p) (attached : Attached find left) :
    left.entities.filter (touches p left.text.length) = after := by
  have none : before.filter (touches p left.text.length) = [] := List.filter_eq_nil_iff.mpr fun entity member => by
    have last := h.passed entity member
    simp only [touches, Bool.and_eq_true, decide_eq_true_eq]
    omega
  have all : after.filter (touches p left.text.length) = after := List.filter_eq_self.mpr fun entity member => by
    have there : entity ∈ left.entities := h.split ▸ List.mem_append_right _ member
    have length := attached.length entity there
    have finish := attached.finish entity there
    have last := h.behind entity member
    simp only [touches, Bool.and_eq_true, decide_eq_true_eq]
    omega
  rw [h.split, List.filter_append, none, all, List.nil_append]

/-- All of the entities before a place are sent, and the first part of the one around it. -/
theorem sent (h : Around left.entities before after p) (attached : Attached find left) :
    (left.entities.filter (touches 0 p)).map (·.updateTextEnd (p : Int)) =
      before ++ if (mark e left p).inEntity then (after.head?).toList.map (·.updateTextEnd (p : Int)) else [] := by
  have all : before.filter (touches 0 p) = before := List.filter_eq_self.mpr fun entity member => by
    have there : entity ∈ left.entities := h.split ▸ List.mem_append_left _ member
    have first := attached.start entity there
    have length := attached.length entity there
    have last := h.passed entity member
    simp only [touches, Bool.and_eq_true, decide_eq_true_eq]
    omega
  have same : before.map (·.updateTextEnd (p : Int)) = before := by
    refine (List.map_congr_left fun entity member => ?_).trans (List.map_id _)
    have length := attached.length entity (h.split ▸ List.mem_append_left _ member)
    exact updateTextEnd_before length (h.passed entity member)
  rw [h.split, List.filter_append, List.map_append, all, same, List.append_cancel_left_eq, h.inEntity]
  cases after with
  | nil => rfl
  | cons head more =>
      have none : more.filter (touches 0 p) = [] := List.filter_eq_nil_iff.mpr fun other member => by
        have last := h.later other member
        simp only [touches, Bool.and_eq_true, decide_eq_true_eq]
        omega
      have last := h.behind head List.mem_cons_self
      have first := attached.start head (h.split ▸ List.mem_append_right _ List.mem_cons_self)
      have touched : touches 0 p head = (decide (head.offset < (p : Int)) &&
          decide ((p : Int) < head.offset + head.length)) := by
        rw [Bool.eq_iff_iff]
        simp only [touches, Bool.and_eq_true, decide_eq_true_eq]
        omega
      rw [List.filter_cons, none, touched, List.head?_cons, Option.any_some]
      split_ifs <;> rfl

/-- What is cut at a place that is not inside of a link. -/
theorem cut (h : Around left.entities before after p) (attached : Attached find left)
    (breaks : (mark e left p).inEntity = true → (mark e left p).canBreakEntity = true)
    (some : left.text ≠ [] ∧ limit ≠ 0)
    (found : findGood e find left limit left.text.length 0 0 0 {} = .some (mark e left p)) :
    CutPart e find left limit = .some
      (⟨left.text.take p, (left.entities.filter (touches 0 p)).map (·.updateTextEnd p)⟩,
        ⟨left.text.drop p, (left.entities.filter (touches p left.text.length)).map (·.shiftLeft p)⟩) := by
  have place : (mark e left p).position = p := rfl
  have take : left.entities.take (mark e left p).entity = before := by
    change left.entities.take (skipEnded left.entities p 0) = before
    rw [h.count, h.split, List.take_left]
  have drop : left.entities.drop (mark e left p).entity = after := by
    change left.entities.drop (skipEnded left.entities p 0) = after
    rw [h.count, h.split, List.drop_left]
  have next : left.entities[(mark e left p).entity]? = after.head? := h.head?
  unfold CutPart
  rw [if_neg (not_or.mpr some), found, h.kept attached, h.sent attached]
  simp only [take, drop, next, place]
  cases within : (mark e left p).inEntity with
  | true => simp only [breaks within, if_true]
  | false => simp only [Bool.false_eq_true, if_false, List.append_nil]

end Around

/-- One more part, and what is left for the next ones. -/
structure Parted (find : Find) (limit : Nat) (left sending rest : TextWithEntities) (p : Nat) : Prop where
  positive : 0 < p
  inside : p < left.text.length
  visits : Visits find left.text p
  most : codePoints (left.text.take p) ≤ limit
  sending : sending = ⟨left.text.take p, (left.entities.filter (touches 0 p)).map (·.updateTextEnd p)⟩
  rest : rest = ⟨left.text.drop p, (left.entities.filter (touches p left.text.length)).map (·.shiftLeft p)⟩
  whole : ∀ entity ∈ left.entities, canBreak entity.type = false →
    ¬(entity.offset < (p : Int) ∧ (p : Int) < entity.offset + entity.length)

theorem CutPart_spec (finds : Finds find longest) (long : longest ≤ limit - limit / 2) (attached : Attached find left)
    (short : ShortLinks longest limit left.entities) {sending rest : TextWithEntities}
    (cut : CutPart e find left limit = some (sending, rest)) :
    (sending = left ∧ rest = {} ∧ left.text ≠ [] ∧ codePoints left.text ≤ limit) ∨
      ∃ p, Parted find limit left sending rest p := by
  have nothing : ¬(left.text = [] ∨ limit = 0) := by
    intro nothing
    rw [CutPart, if_pos nothing] at cut
    cases cut
  rw [not_or] at nothing
  have start : Looking e find left limit 0 0 0 {} := by
    refine ⟨.refl, rfl, Nat.zero_le _, Nat.zero_le _, List.forall_mem_nil _, ?_, .inl rfl⟩
    exact fun p _ earlier => absurd earlier (Nat.not_lt_zero p)
  obtain ⟨short', found⟩ := findGood_spec finds left.text.length start (Nat.le_add_left _ _)
  cases result : findGood e find left limit left.text.length 0 0 0 {} with
  | none =>
      rw [CutPart, if_neg (not_or.mpr nothing), result, Option.some.injEq, Prod.mk.injEq] at cut
      exact .inl ⟨cut.1.symm, cut.2.symm, nothing.1, short' result⟩
  | some good =>
      right
      obtain ⟨ch, ended⟩ := found good result
      obtain ⟨half, level⟩ := ended.level_pos finds long attached short
      obtain ⟨p, visits, before, late, rfl⟩ := ended.found half
      have positive : 0 < p := by
        refine Nat.pos_of_ne_zero fun zero => ?_
        rw [zero, List.take_zero] at late
        exact Nat.not_lt_zero _ late
      obtain ⟨front, after, around⟩ := entities_around attached.apart attached.length p
      have breaks := mark_inEntity_of_level level
      rw [around.cut attached breaks nothing result, Option.some.injEq, Prod.mk.injEq] at cut
      exact ⟨p, positive, Nat.lt_of_le_of_lt before ended.inside, visits,
        (visits.points_mono finds before).trans ended.most, cut.1.symm, cut.2.symm, around.whole breaks⟩

end Part

/-! ## All parts -/

section Parts

variable {e : Expressions} {find : Find} {longest limit : Nat}

theorem offset_shiftLeft_of {entity : EntityInText} {p : Nat} (ends : (p : Int) < entity.offset + entity.length) :
    (entity.shiftLeft p).offset = max (entity.offset - p) 0 ∧
      (entity.shiftLeft p).offset + (entity.shiftLeft p).length = entity.offset + entity.length - p ∧
      (entity.shiftLeft p).type = entity.type := by
  rw [EntityInText.shiftLeft]
  split_ifs
  · refine ⟨?_, ?_, rfl⟩
    · dsimp only
      omega
    · dsimp only
      omega
  · refine ⟨?_, ?_, rfl⟩
    · dsimp only
      omega
    · dsimp only
      omega

theorem next_drop {text : QString} {p ch next : Nat} :
    Next find (text.drop p) ch next ↔ Next find text (p + ch) (p + next) := by
  rw [Next, Next, List.length_drop, List.drop_drop]
  omega

theorem goes_drop {text : QString} {p ch : Nat} (first : Visits find text p) (goes : Visits find text (p + ch)) :
    Visits find (text.drop p) ch := by
  have up := first.goes goes (Nat.le_add_right p ch)
  clear goes
  generalize last : p + ch = later at up
  induction up generalizing ch with
  | refl =>
      obtain rfl : ch = 0 := by omega
      exact .refl
  | tail before step ih =>
      rename_i middle later
      obtain ⟨n, rfl⟩ := Nat.exists_eq_add_of_le (le_of_goes before)
      subst last
      exact (ih rfl).tail (next_drop.mpr step)

theorem goes_back {text : QString} {p ch : Nat} (first : Visits find text p) (goes : Visits find (text.drop p) ch) :
    Visits find text (p + ch) := by
  induction goes with
  | refl => exact first
  | tail _ step ih => exact ih.tail (next_drop.mp step)

/-- What is left can be cut as well. -/
theorem Parted.attached {left sending rest : TextWithEntities} {p : Nat} (h : Parted find limit left sending rest p)
    (attached : Attached find left) : Attached find rest := by
  have each : ∀ moved ∈ rest.entities, ∃ entity ∈ left.entities, (p : Int) < entity.offset + entity.length ∧
      moved = entity.shiftLeft p := by
    rw [h.rest]
    intro moved member
    obtain ⟨entity, there, rfl⟩ := List.mem_map.mp member
    obtain ⟨inside, touched⟩ := List.mem_filter.mp there
    simp only [touches, Bool.and_eq_true, decide_eq_true_eq] at touched
    exact ⟨entity, inside, touched.2, rfl⟩
  refine ⟨?_, ?_, ?_, ?_, ?_⟩
  · rw [h.rest, List.pairwise_map]
    refine (attached.apart.sublist List.filter_sublist).imp_of_mem fun {one other} first second apart => ?_
    have ends := (List.mem_filter.mp first).2
    have ends' := (List.mem_filter.mp second).2
    simp only [touches, Bool.and_eq_true, decide_eq_true_eq] at ends ends'
    have moved := offset_shiftLeft_of ends.2
    have moved' := offset_shiftLeft_of ends'.2
    omega
  · intro moved member
    obtain ⟨entity, -, ends, rfl⟩ := each moved member
    have moved := offset_shiftLeft_of ends
    omega
  · intro moved member
    obtain ⟨entity, there, ends, rfl⟩ := each moved member
    have moved := offset_shiftLeft_of ends
    have length := attached.length entity there
    omega
  · intro moved member
    obtain ⟨entity, there, ends, rfl⟩ := each moved member
    have moved := offset_shiftLeft_of ends
    have finish := attached.finish entity there
    have inside := h.inside
    rw [h.rest]
    simp only [List.length_drop]
    omega
  · intro moved member
    obtain ⟨entity, there, ends, rfl⟩ := each moved member
    have moved := offset_shiftLeft_of ends
    have first := attached.start entity there
    have visits := attached.visits entity there
    rw [h.rest]
    by_cases before : entity.offset ≤ p
    · have zero : (entity.shiftLeft p).offset.toNat = 0 := by omega
      rw [zero]
      exact .refl
    · refine goes_drop h.visits ?_
      have same : p + (entity.shiftLeft p).offset.toNat = entity.offset.toNat := by omega
      rwa [same]

/-- What the parts of a text from a place on have: the pieces of the entities that are in them, with no link cut. -/
def Continued (find : Find) (text : TextWithEntities) : Nat → List TextWithEntities → Prop
  | _, [] => True
  | start, part :: rest =>
      Visits find text.text start ∧
        part.entities = (text.entities.filter (touches start (start + part.text.length))).map
          (·.cut (start + part.text.length : Nat) start) ∧
        (∀ entity ∈ text.entities, canBreak entity.type = false →
          touches start (start + part.text.length) entity = true →
          (start : Int) ≤ entity.offset ∧ entity.offset + entity.length ≤ (start + part.text.length : Nat)) ∧
        Continued find text (start + part.text.length) rest

theorem cut_eq {entity : EntityInText} {textEnd shift : Int} (before : entity.offset ≤ textEnd)
    (length : 0 ≤ entity.length) :
    entity.cut textEnd shift =
      ⟨entity.type, max (entity.offset - shift) 0,
        max (min (entity.offset + entity.length) textEnd - shift) 0 - max (entity.offset - shift) 0, entity.data⟩ := by
  rw [EntityInText.cut, EntityInText.updateTextEnd, if_neg (by omega)]
  split_ifs with longer
  · simp only [EntityInText.shiftLeft]
    split_ifs <;> simp only [EntityInText.mk.injEq, true_and, and_true] <;> omega
  · simp only [EntityInText.shiftLeft]
    split_ifs
    · simp only [EntityInText.mk.injEq, true_and, and_true]
      omega
    · obtain ⟨type, offset, size, data⟩ := entity
      simp only [EntityInText.mk.injEq, true_and, and_true] at *
      omega

theorem cut_shiftLeft {entity : EntityInText} (length : 0 < entity.length) {p early till : Nat}
    (some : early < till) (starts : entity.offset < (p + till : Nat))
    (ends : (p : Int) < entity.offset + entity.length) :
    (entity.shiftLeft p).cut (till : Int) early = entity.cut (p + till : Nat) (p + early : Nat) := by
  obtain ⟨offset, finish, type⟩ := offset_shiftLeft_of ends
  have data : (entity.shiftLeft p).data = entity.data := by
    rw [EntityInText.shiftLeft]
    split_ifs <;> rfl
  push_cast at starts ⊢
  rw [cut_eq (by omega) (by omega), cut_eq (by omega) (by omega), EntityInText.mk.injEq]
  refine ⟨type, ?_, ?_, data⟩
  · omega
  · omega

theorem Parted.continued {left sending rest : TextWithEntities} {p : Nat} (h : Parted find limit left sending rest p)
    (attached : Attached find left) {parts : List TextWithEntities} (some : ∀ part ∈ parts, part.text ≠ [])
    {start : Nat} (continued : Continued find rest start parts) : Continued find left (p + start) parts := by
  induction parts generalizing start with
  | nil => exact trivial
  | cons part more ih =>
      rw [List.forall_mem_cons] at some
      obtain ⟨visits, entities, whole, later⟩ := continued
      have size : 0 < part.text.length := List.length_pos_iff.mpr some.1
      have text : rest.text = left.text.drop p := by rw [h.rest]
      have same : ∀ entity ∈ left.entities,
          (touches start (start + part.text.length) (entity.shiftLeft p) && touches p left.text.length entity) =
            touches (p + start) (p + start + part.text.length) entity := by
        intro entity member
        have first := attached.start entity member
        have finish := attached.finish entity member
        have length := attached.length entity member
        by_cases ends : (p : Int) < entity.offset + entity.length
        · have moved := offset_shiftLeft_of ends
          rw [Bool.eq_iff_iff]
          simp only [touches, Bool.and_eq_true, decide_eq_true_eq]
          push_cast
          omega
        · rw [Bool.eq_iff_iff]
          simp only [touches, Bool.and_eq_true, decide_eq_true_eq]
          push_cast
          omega
      refine ⟨goes_back h.visits (text ▸ visits), ?_, ?_, ?_⟩
      · rw [entities, h.rest]
        simp only [List.filter_map, List.map_map, List.filter_filter, Function.comp_apply]
        rw [List.filter_congr same]
        refine List.map_congr_left fun entity member => ?_
        obtain ⟨inside, touched⟩ := List.mem_filter.mp member
        rw [← same entity inside, Bool.and_eq_true] at touched
        have ends := touched.2
        simp only [touches, Bool.and_eq_true, decide_eq_true_eq] at ends
        have first := attached.start entity inside
        have shifted := offset_shiftLeft_of ends.2
        have early := touched.1
        simp only [touches, Bool.and_eq_true, decide_eq_true_eq] at early
        have starts : entity.offset < (p + (start + part.text.length) : Nat) := by omega
        have moved := cut_shiftLeft (attached.length entity inside)
          (Nat.lt_add_of_pos_right size : start < start + part.text.length) starts ends.2
        rw [Function.comp_apply, moved, Nat.add_assoc]
      · intro entity member unbroken touched
        rw [← same entity member, Bool.and_eq_true] at touched
        have ends := touched.2
        simp only [touches, Bool.and_eq_true, decide_eq_true_eq] at ends
        have moved := offset_shiftLeft_of ends.2
        have there : entity.shiftLeft p ∈ rest.entities := by
          rw [h.rest]
          exact List.mem_map_of_mem (List.mem_filter.mpr ⟨member, touched.2⟩)
        have bounds := whole _ there (moved.2.2 ▸ unbroken) touched.1
        have uncut := h.whole entity member unbroken
        push_cast at bounds ⊢
        omega
      · have next := ih some.2 later
        rwa [← Nat.add_assoc] at next

/-- A text is sent in parts, each with its place in the text, short enough, and with what the entities cover in it. -/
theorem sends_parts (finds : Finds find longest) (long : longest ≤ limit - limit / 2) {left : TextWithEntities}
    (attached : Attached find left) (short : ShortLinks longest limit left.entities) :
    ∃ parts, Sends e find limit left parts ∧ (parts.map TextWithEntities.text).flatten = left.text ∧
      (∀ part ∈ parts, part.text ≠ [] ∧ codePoints part.text ≤ limit) ∧ Continued find left 0 parts := by
  have positive : limit ≠ 0 := by
    have one := finds.one
    omega
  generalize size : left.text.length = n
  induction n using Nat.strongRecOn generalizing left with
  | _ n ih =>
      cases cut : CutPart e find left limit with
      | none =>
          have empty : left.text = [] := by
            unfold CutPart at cut
            split_ifs at cut with nothing
            · exact nothing.resolve_right positive
            · split at cut
              · cases cut
              · split_ifs at cut
          exact ⟨[], .done cut, empty.symm, List.forall_mem_nil _, trivial⟩
      | some both =>
          obtain ⟨sending, rest⟩ := both
          rcases CutPart_spec finds long attached short cut with ⟨rfl, rfl, some, most⟩ | ⟨p, parted⟩
          · refine ⟨[sending], .more cut (.done (by simp [CutPart])), by simp, ?_, .refl, ?_, ?_, trivial⟩
            · rw [List.forall_mem_singleton]
              exact ⟨some, most⟩
            · rw [Nat.zero_add, List.filter_eq_self.mpr]
              · refine ((List.map_congr_left fun entity member => ?_).trans (List.map_id _)).symm
                have inside : entity.Inside sending.text.length :=
                  ⟨attached.start entity member, (attached.length entity member).le, attached.finish entity member⟩
                rw [EntityInText.cut, EntityInText.updateTextEnd_self inside]
                exact EntityInText.shiftLeft_zero inside
              · intro entity member
                have first := attached.start entity member
                have length := attached.length entity member
                have finish := attached.finish entity member
                simp only [touches, Bool.and_eq_true, decide_eq_true_eq]
                omega
            · intro entity member _ _
              have first := attached.start entity member
              have finish := attached.finish entity member
              rw [Nat.zero_add]
              exact ⟨first, finish⟩
          · have text : rest.text = left.text.drop p := by rw [parted.rest]
            have short' : ShortLinks longest limit rest.entities := by
              rw [parted.rest]
              intro moved member unbroken
              obtain ⟨entity, there, rfl⟩ := List.mem_map.mp member
              obtain ⟨inside, touched⟩ := List.mem_filter.mp there
              simp only [touches, Bool.and_eq_true, decide_eq_true_eq] at touched
              have moved := offset_shiftLeft_of touched.2
              have fits := short entity inside (moved.2.2 ▸ unbroken)
              have uncut := parted.whole entity inside (moved.2.2 ▸ unbroken)
              omega
            have smaller : rest.text.length < n := by
              have positive := parted.positive
              have inside := parted.inside
              rw [text, List.length_drop]
              omega
            obtain ⟨parts, sends, whole, each, continued⟩ := ih _ smaller (parted.attached attached) short' rfl
            have sent : sending.text = left.text.take p := by rw [parted.sending]
            have length : sending.text.length = p := by
              rw [sent, List.length_take, Nat.min_eq_left parted.inside.le]
            refine ⟨sending :: parts, .more cut sends, ?_, ?_, .refl, ?_, ?_, ?_⟩
            · rw [List.map_cons, List.flatten_cons, whole, sent, text, List.take_append_drop]
            · rw [List.forall_mem_cons]
              refine ⟨⟨?_, sent ▸ parted.most⟩, each⟩
              exact List.length_pos_iff.mp (length ▸ parted.positive)
            · rw [length, Nat.zero_add]
              conv_lhs => rw [parted.sending]
              refine List.map_congr_left fun entity member => ?_
              have inside : entity.Inside left.text.length :=
                ⟨attached.start entity (List.mem_of_mem_filter member),
                  (attached.length entity (List.mem_of_mem_filter member)).le,
                  attached.finish entity (List.mem_of_mem_filter member)⟩
              exact (EntityInText.shiftLeft_zero (inside.updateTextEnd p)).symm
            · intro entity member unbroken touched
              rw [length, Nat.zero_add] at touched ⊢
              have uncut := parted.whole entity member unbroken
              have first := attached.start entity member
              simp only [touches, Bool.and_eq_true, decide_eq_true_eq] at touched
              omega
            · rw [length, Nat.zero_add]
              exact parted.continued attached (fun part member => (each part member).1) continued

end Parts

/-- Code that is longer than a part. -/
def words : TextWithEntities :=
  ⟨latin1 ['a', 'b', ' ', 'c', 'd', ' ', 'e', 'f', 'g'], [⟨.bold, 0, 2, []⟩, ⟨.code, 3, 6, []⟩]⟩

def noEmoji : Find := fun _ => none

theorem noEmoji_finds : Finds noEmoji 1 := by
  refine ⟨Nat.le_refl 1, ?_, ?_, ?_, ?_⟩ <;> intro rest n found <;> cases found

theorem words_sent :
    ∃ parts, Sends Expressions.plain noEmoji 4 words parts ∧ (parts.map TextWithEntities.text).flatten = words.text ∧
      (∀ part ∈ parts, part.text ≠ [] ∧ codePoints part.text ≤ 4) ∧ Continued noEmoji words 0 parts := by
  have one : Visits noEmoji words.text 1 := Relation.ReflTransGen.refl.tail ⟨by decide, rfl⟩
  have two : Visits noEmoji words.text 2 := one.tail ⟨by decide, rfl⟩
  have three : Visits noEmoji words.text 3 := two.tail ⟨by decide, rfl⟩
  refine sends_parts noEmoji_finds (by decide) ⟨by decide, by decide, by decide, by decide, ?_⟩ ?_
  · intro entity member
    rcases List.mem_cons.mp member with rfl | member
    · exact .refl
    · cases List.mem_singleton.mp member
      exact three
  · unfold ShortLinks
    decide

/-- A link that does not fit is not sent, and what is behind it keeps its old place. -/
example : CutPart Expressions.plain noEmoji ⟨words.text, [⟨.customUrl, 0, 5, []⟩, ⟨.bold, 6, 3, []⟩]⟩ 4 =
    some (⟨words.text.take 4, []⟩, ⟨words.text.drop 4, [⟨.bold, 6, 3, []⟩]⟩) := by decide

end TextUtilities

end IMeDesktop.Ui
