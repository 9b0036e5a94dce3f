import IMeDesktop.Lib.Nesting
import IMeDesktop.Ui.TextTagsMeaning

/-! # The stack of entities nests

`ConvertTextTagsToEntities` keeps its entities in one list and the indices of those that
are not closed on a stack. This is a nesting of ranges: an entity that is closed is a
finished range, one on the stack a running range. Its steps begin and finish ranges.
-/

namespace IMeDesktop.Ui

open Lib Lib.Nesting TextUtilities

def EntityInText.mark (entity : EntityInText) : Mark := (entity.type, entity.data)

def EntityInText.piece (entity : EntityInText) : Piece Mark Int :=
  ⟨entity.mark, entity.offset, entity.offset + entity.length⟩

namespace TextUtilities.Converting

variable {c c' : Converting} {n n' : Nesting Mark Int} {stop : Int}

def running (c : Converting) (index : Nat) : Option (Mark × Int) :=
  c.result[index]?.map fun entity => (entity.mark, entity.offset)

/-- The entities and the stack, as ranges. -/
structure Holds (c : Converting) (n : Nesting Mark Int) : Prop where
  distinct : c.notClosedEntities.Nodup
  stack : c.notClosedEntities.map c.running = n.running.map some
  closed : ∀ piece, piece ∈ n.done ↔
    ∃ index entity, c.result[index]? = some entity ∧ index ∉ c.notClosedEntities ∧ entity.piece = piece

/-- Besides, the state knows what runs. -/
structure Follows (c : Converting) (n : Nesting Mark Int) : Prop extends Holds c n where
  types : (n.running.map fun r => r.1.1).Nodup
  marks : ∀ r ∈ n.running, (r.1.1 ∈ kInMaskTypes ∧ r.1.2 = []) ∨
    (r.1.1 = .customUrl ∧ r.1.2 = c.state.link ∧ r.1.2 ≠ [])
  formats : ∀ type ∈ kInMaskTypes, c.state.has type = true ↔ type ∈ n.running.map fun r => r.1.1
  noMention : IsMentionLink c.state.link = false

theorem follows_empty (offset : Int) : Follows { offset := offset } {} where
  distinct := .nil
  stack := rfl
  closed := fun piece => iff_of_false List.not_mem_nil (by rintro ⟨index, entity, found, -⟩; cases found)
  types := .nil
  marks := nofun
  formats := fun type _ => iff_of_false Bool.false_ne_true List.not_mem_nil
  noMention := rfl

/-- Only the order of the finished ranges may differ. -/
theorem Follows.congr (h : Follows c n) (running : n'.running = n.running)
    (done : ∀ piece, piece ∈ n'.done ↔ piece ∈ n.done) : Follows c n' where
  distinct := h.distinct
  stack := running ▸ h.stack
  closed := fun piece => (done piece).trans (h.closed piece)
  types := running ▸ h.types
  marks := running ▸ h.marks
  formats := running ▸ h.formats
  noMention := h.noMention

/-- The top of the stack is the range that began last. -/
theorem Follows.top (h : Follows c n) {r : Mark × Int} {rest : List (Mark × Int)} (running : n.running = r :: rest) :
    ∃ index stack entity, c.notClosedEntities = index :: stack ∧ c.result[index]? = some entity ∧
      (entity.mark, entity.offset) = r ∧ stack.map c.running = rest.map some := by
  have stack := h.stack
  rw [running, List.map_cons] at stack
  obtain ⟨index, others, split, first, below⟩ := List.map_eq_cons_iff.mp stack
  obtain ⟨entity, found, same⟩ := Option.map_eq_some_iff.mp first
  exact ⟨index, others, entity, split, found, same, below⟩

theorem follows_closeOne (h : Follows c n) {r : Mark × Int} {rest : List (Mark × Int)}
    (running : n.running = r :: rest) :
    Follows c.closeOne { done := ⟨r.1, r.2, c.offset⟩ :: n.done, running := rest } ∧
      c.closeOne.offset = c.offset := by
  obtain ⟨index, others, entity, split, found, same, below⟩ := h.top running
  obtain ⟨outside, distinct⟩ := List.nodup_cons.mp (split ▸ h.distinct)
  have types := h.types
  rw [running, List.map_cons] at types
  obtain ⟨single, types⟩ := List.nodup_cons.mp types
  have inside : index < c.result.length := (List.getElem?_eq_some_iff.mp found).1
  have marks := h.marks
  rw [running] at marks
  have top := marks r List.mem_cons_self
  have type : entity.type = r.1.1 := congrArg (fun e => e.1.1) same
  have closing : c.closeOne =
      { c with
        result := c.result.set index { entity with length := c.offset - entity.offset }
        state :=
          if entity.type ∈ kInMaskTypes then c.state.remove entity.type
          else { c.state with link := [] }
        notClosedEntities := others } := by
    simp only [closeOne, split, found]
  rw [closing]
  refine ⟨⟨⟨distinct, ?_, ?_⟩, types, ?_, ?_, ?_⟩, rfl⟩
  · rw [← below]
    refine List.map_congr_left fun i member => ?_
    have different : index ≠ i := fun equal => outside (equal ▸ member)
    simp only [Converting.running, List.getElem?_set_ne different]
  · intro piece
    rw [List.mem_cons, h.closed]
    constructor
    · rintro (rfl | ⟨i, e, located, outside', same'⟩)
      · refine ⟨index, _, List.getElem?_set_self inside, outside, ?_⟩
        obtain ⟨⟨type, data⟩, start⟩ := r
        obtain ⟨⟨rfl, rfl⟩, rfl⟩ := same
        simp only [EntityInText.piece, EntityInText.mark, Piece.mk.injEq, true_and]
        omega
      · rw [split, List.mem_cons, not_or] at outside'
        refine ⟨i, e, ?_, outside'.2, same'⟩
        rwa [List.getElem?_set_ne (Ne.symm outside'.1)]
    · rintro ⟨i, e, located, outside', rfl⟩
      by_cases equal : i = index
      · subst equal
        rw [List.getElem?_set_self inside, Option.some.injEq] at located
        subst located
        left
        obtain ⟨⟨type, data⟩, start⟩ := r
        obtain ⟨⟨rfl, rfl⟩, rfl⟩ := same
        simp only [EntityInText.piece, EntityInText.mark, Piece.mk.injEq, true_and]
        omega
      · rw [List.getElem?_set_ne (Ne.symm equal)] at located
        refine .inr ⟨i, e, located, ?_, rfl⟩
        rw [split, List.mem_cons, not_or]
        exact ⟨equal, outside'⟩
  · intro r' member
    obtain format | ⟨link, address, present⟩ := marks r' (List.mem_cons_of_mem _ member)
    · exact .inl format
    · -- a second link cannot run below the one that is closed
      obtain ⟨format, -⟩ | ⟨other, -⟩ := top
      · refine .inr ⟨link, ?_, present⟩
        rw [if_pos (type.symm ▸ format)]
        exact address
      · refine absurd (List.mem_map.mpr ⟨r', member, ?_⟩) single
        rw [link, other]
  · intro format inMask
    have before := h.formats format inMask
    rw [running, List.map_cons, List.mem_cons] at before
    split_ifs with typed
    · by_cases same' : format = entity.type
      · subst same'
        refine iff_of_false ?_ (type ▸ single)
        simp [State.has, State.remove]
      · simp only [State.has, State.remove, Function.update_of_ne same'] at before ⊢
        rw [before, type.symm]
        exact or_iff_right same'
    · have different : format ≠ r.1.1 := fun same' => typed (type ▸ same' ▸ inMask)
      exact before.trans (or_iff_right different)
  · split_ifs
    · exact h.noMention
    · rfl

/-- Closing the ranges above one and then it. -/
theorem follows_closeTimes (h : Follows c n) (count : Nat) (enough : count ≤ n.running.length) :
    Follows (c.closeTimes count)
        { done := ((n.running.take count).map fun r => ⟨r.1, r.2, c.offset⟩) ++ n.done
          running := n.running.drop count } ∧
      (c.closeTimes count).offset = c.offset := by
  induction count generalizing c n with
  | zero => exact ⟨h.congr rfl fun _ => Iff.rfl, rfl⟩
  | succ count ih =>
      cases running : n.running with
      | nil =>
          rw [running] at enough
          cases enough
      | cons r rest =>
          obtain ⟨first, offset⟩ := follows_closeOne h running
          rw [running] at enough
          obtain ⟨last, offset'⟩ := ih first (Nat.le_of_succ_le_succ enough)
          rw [closeTimes]
          refine ⟨last.congr rfl fun piece => ?_, offset'.trans offset⟩
          simp only [List.take_succ_cons, List.map_cons, List.cons_append, List.mem_cons, List.mem_append, offset]
          tauto

theorem findIdx?_stack (h : Follows c n) (type : EntityType) :
    c.notClosedEntities.findIdx? (c.hasType type) = n.running.findIdx? fun r => r.1.1 = type := by
  have same : c.hasType type =
      (fun r : Option (Mark × Int) => decide (r.map (fun r => r.1.1) = some type)) ∘ c.running := by
    funext index
    simp only [hasType, running, Function.comp_apply, Option.map_map]
    rfl
  rw [same, ← List.findIdx?_map, h.stack, List.findIdx?_map]
  congr 1
  funext r
  simp only [Function.comp_apply, Option.map_some, Option.some.injEq]

theorem finish_all (n : Nesting Mark Int) {keep : Mark → Bool} (all : ∀ r ∈ n.running, keep r.1 = true) :
    n.finish keep stop = n := by
  have kept : (n.running.rtakeWhile fun r => keep r.1) = n.running := List.rtakeWhile_eq_self_iff.mpr all
  have none : (n.running.rdropWhile fun r => keep r.1) = [] := List.rdropWhile_eq_nil_iff.mpr all
  rw [Nesting.finish, kept, none, List.map_nil, List.nil_append]

theorem follows_closeType (h : Follows c n) (type : EntityType) :
    Follows (c.closeType type) (n.finish (fun mark => mark.1 ≠ type) c.offset) ∧
      (c.closeType type).offset = c.offset := by
  rw [closeType, findIdx?_stack h type]
  cases found : n.running.findIdx? fun r => r.1.1 = type with
  | none =>
      have all := List.findIdx?_eq_none_iff.mp found
      rw [finish_all n fun r member => by simpa using all r member]
      exact ⟨h, rfl⟩
  | some closeCount =>
      obtain ⟨inside, here, -⟩ := List.findIdx?_eq_some_iff_getElem.mp found
      have split : n.running =
          n.running.take closeCount ++ n.running[closeCount] :: n.running.drop (closeCount + 1) := by
        rw [← List.drop_eq_getElem_cons inside, List.take_append_drop]
      have below : ∀ r ∈ n.running.drop (closeCount + 1), decide (r.1.1 ≠ type) = true := by
        intro r member
        have types := h.types
        rw [split, List.map_append, List.map_cons] at types
        have single := (List.nodup_cons.mp (List.nodup_append.mp types).2.1).1
        refine decide_eq_true fun same => single (List.mem_map.mpr ⟨r, member, ?_⟩)
        rw [same, of_decide_eq_true here]
      have out : decide (n.running[closeCount].1.1 ≠ type) = false := by simpa using here
      obtain ⟨kept, dropped⟩ := rtakeWhile_cut (n.running.take closeCount) out below
      rw [← split] at kept dropped
      obtain ⟨closed, offset⟩ := follows_closeTimes h (closeCount + 1) inside
      refine ⟨closed.congr kept fun piece => ?_, offset⟩
      rw [Nesting.finish, dropped, List.take_succ_eq_append_getElem inside]

/-! ## What a step closes -/

theorem follows_closeLink (h : Follows c n) (nextState : State) :
    ∃ n', Follows (c.closeLink nextState) n' ∧ (c.closeLink nextState).offset = c.offset ∧
      n.Turned n' c.offset ∧
      n'.running = n.running.rtakeWhile fun r => r.1.1 ≠ .customUrl || nextState.link = c.state.link := by
  unfold closeLink
  by_cases changed : nextState.link ≠ c.state.link
  · rw [if_pos changed, h.noMention, if_neg Bool.false_ne_true]
    obtain ⟨closed, offset⟩ := follows_closeType h .customUrl
    refine ⟨_, closed, offset, .of_finish n _ _, rtakeWhile_congr fun r _ => ?_⟩
    rw [decide_eq_false changed, Bool.or_false]
  · rw [if_neg changed]
    refine ⟨n, h, rfl, .refl n _, (List.rtakeWhile_eq_self_iff.mpr fun r _ => ?_).symm⟩
    rw [decide_eq_true (not_not.mp changed), Bool.or_true]

theorem follows_closeOneType (h : Follows c n) (nextState : State) {type : EntityType}
    (inMask : type ∈ kInMaskTypes) :
    ∃ n', Follows (if c.state.has type && !nextState.has type then c.closeType type else c) n' ∧
      (if c.state.has type && !nextState.has type then c.closeType type else c).offset = c.offset ∧
      n.Turned n' c.offset ∧
      n'.running = n.running.rtakeWhile fun r => r.1.1 ≠ type || nextState.has type := by
  by_cases closes : (c.state.has type && !nextState.has type) = true
  · rw [if_pos closes]
    obtain ⟨-, gone⟩ := Bool.and_eq_true_iff.mp closes
    obtain ⟨closed, offset⟩ := follows_closeType h type
    refine ⟨_, closed, offset, .of_finish n _ _, rtakeWhile_congr fun r _ => ?_⟩
    rw [(Bool.not_eq_true' _).mp gone, Bool.or_false]
  · rw [if_neg closes]
    refine ⟨n, h, rfl, .refl n _, (List.rtakeWhile_eq_self_iff.mpr fun r member => ?_).symm⟩
    by_cases same : r.1.1 = type
    · have runs : c.state.has type = true := (h.formats type inMask).mpr (List.mem_map.mpr ⟨r, member, same⟩)
      rw [runs, Bool.true_and, Bool.not_eq_true, Bool.not_eq_false'] at closes
      rw [closes, Bool.or_true]
    · rw [decide_eq_true same, Bool.true_or]

theorem follows_closeTypes (nextState : State) (h : Follows c n) (types : List EntityType)
    (inMask : ∀ type ∈ types, type ∈ kInMaskTypes) :
    let closed := types.foldl
      (fun c type => if c.state.has type && !nextState.has type then c.closeType type else c) c
    ∃ n', Follows closed n' ∧ closed.offset = c.offset ∧ n.Turned n' c.offset ∧
      n'.running = n.running.rtakeWhile fun r => types.all fun type => r.1.1 ≠ type || nextState.has type := by
  induction types generalizing c n with
  | nil => exact ⟨n, h, rfl, .refl n _, (List.rtakeWhile_eq_self_iff.mpr fun _ _ => rfl).symm⟩
  | cons type types ih =>
      obtain ⟨n₁, first, offset₁, turned₁, running₁⟩ :=
        follows_closeOneType h nextState (inMask type List.mem_cons_self)
      obtain ⟨n₂, rest, offset₂, turned₂, running₂⟩ := ih first fun t member => inMask t (List.mem_cons_of_mem _ member)
      rw [offset₁] at turned₂
      refine ⟨n₂, rest, offset₂.trans offset₁, turned₁.trans turned₂, ?_⟩
      rw [running₂, running₁, rtakeWhile_rtakeWhile]
      exact rtakeWhile_congr fun r _ => by rw [List.all_cons, Bool.and_comm]

/-- What is kept is what the next state wants, up to the first range that it does not want. -/
theorem follows_closing (h : Follows c n) (nextState : State) :
    ∃ n', Follows ((c.closeLink nextState).closeTypes nextState) n' ∧
      ((c.closeLink nextState).closeTypes nextState).offset = c.offset ∧ n.Turned n' c.offset ∧
      n'.running = n.running.rtakeWhile fun r => nextState.wants r.1 := by
  obtain ⟨n₁, first, offset₁, turned₁, running₁⟩ := follows_closeLink h nextState
  obtain ⟨n₂, rest, offset₂, turned₂, running₂⟩ := follows_closeTypes nextState first kInMaskTypes fun _ => id
  rw [offset₁] at turned₂
  refine ⟨n₂, rest, offset₂.trans offset₁, turned₁.trans turned₂, ?_⟩
  rw [running₂, running₁, rtakeWhile_rtakeWhile]
  refine rtakeWhile_congr fun r member => Bool.eq_iff_iff.mpr ?_
  obtain ⟨⟨type, data⟩, start⟩ := r
  obtain ⟨format, rfl⟩ | ⟨rfl, rfl, present⟩ := h.marks _ member
  · simp only at format
    have noLink : type ≠ .customUrl := fun same => customUrl_notInMask (same ▸ format)
    rw [nextState.wants_format format]
    simp only [Bool.and_eq_true, List.all_eq_true, Bool.or_eq_true, decide_eq_true_eq]
    constructor
    · rintro ⟨all, -⟩
      exact (all type format).resolve_left fun different => different rfl
    · intro wanted
      refine ⟨fun other _ => ?_, .inl noLink⟩
      by_cases same : type = other
      · exact .inr (same ▸ wanted)
      · exact .inl same
  · simp only at present
    rw [nextState.wants_link]
    simp only [Bool.and_eq_true, List.all_eq_true, Bool.or_eq_true, decide_eq_true_eq]
    constructor
    · rintro ⟨-, same⟩
      exact ⟨(same.resolve_left fun different => different rfl).symm, present⟩
    · rintro ⟨same, -⟩
      refine ⟨fun other inMask => .inl fun equal => ?_, .inr same.symm⟩
      exact customUrl_notInMask (equal ▸ inMask)

/-! ## What a step opens -/

/-- The new entity is a range that begins at the current position. -/
theorem holds_openType (h : Holds c n) (type : EntityType) (data : QString) :
    Holds (c.openType type data) (n.begin (type, data) c.offset) := by
  have fresh : c.result.length ∉ c.notClosedEntities := by
    intro member
    have located : c.running c.result.length ∈ n.running.map some := h.stack ▸ List.mem_map_of_mem member
    obtain ⟨r, -, same⟩ := List.mem_map.mp located
    simp [running] at same
  have before : ∀ {index}, index < c.result.length →
      (c.openType type data).result[index]? = c.result[index]? := fun inside =>
    List.getElem?_append_left inside
  have last : (c.openType type data).result[c.result.length]? =
      some { type := type, offset := c.offset, length := -1, data := data } := List.getElem?_concat_length
  refine ⟨List.nodup_cons.mpr ⟨fresh, h.distinct⟩, ?_, ?_⟩
  · have below : c.notClosedEntities.map (c.openType type data).running = c.notClosedEntities.map c.running := by
      refine List.map_congr_left fun index member => ?_
      have located : c.running index ∈ n.running.map some := h.stack ▸ List.mem_map_of_mem member
      obtain ⟨r, -, same⟩ := List.mem_map.mp located
      obtain ⟨entity, found, -⟩ := Option.map_eq_some_iff.mp same.symm
      simp only [running, before (List.getElem?_eq_some_iff.mp found).1]
    rw [openType, List.map_cons, ← openType, below, h.stack]
    simp only [running, last, Option.map_some, Nesting.begin, List.map_cons]
    rfl
  · intro piece
    refine (h.closed piece).trans ⟨?_, ?_⟩
    · rintro ⟨index, entity, found, outside, same⟩
      have inside := (List.getElem?_eq_some_iff.mp found).1
      refine ⟨index, entity, (before inside).trans found, ?_, same⟩
      exact fun member => (List.mem_cons.mp member).elim (Nat.ne_of_lt inside) outside
    · rintro ⟨index, entity, found, outside, same⟩
      obtain ⟨notLast, outside⟩ := not_or.mp (mt List.mem_cons.mpr outside)
      have inside := (List.getElem?_eq_some_iff.mp found).1
      rw [openType, List.length_append, List.length_singleton] at inside
      exact ⟨index, entity, (before (by omega)).symm.trans found, outside, same⟩

/-- The marks that are begun, in their order. -/
def opened (link : QString) (kept : List (Mark × Int)) (nextState : State) : List Mark :=
  (if nextState.link ≠ link ∧ nextState.link ≠ [] then [(.customUrl, nextState.link)] else []) ++
    (kInMaskTypes.filter fun type => nextState.has type && !(kept.map fun r => r.1.1).contains type).map
      fun type => (type, [])

theorem holds_openLink (h : Holds c n) (linkChanged : Bool) (nextState : State)
    (noMention : IsMentionLink nextState.link = false) :
    ∃ n', Holds (c.openLink linkChanged nextState) n' ∧
      (c.openLink linkChanged nextState).offset = c.offset ∧
      (c.openLink linkChanged nextState).state = c.state ∧ n.Turned n' c.offset ∧
      n'.running = ((if linkChanged = true ∧ nextState.link ≠ [] then [(.customUrl, nextState.link)] else []).map
        fun mark => (mark, c.offset)) ++ n.running := by
  unfold openLink
  by_cases opens : linkChanged = true ∧ nextState.link ≠ []
  · have guard : (linkChanged && nextState.link ≠ []) = true := by simpa using opens
    rw [if_pos guard, noMention, if_neg Bool.false_ne_true, if_pos opens]
    exact ⟨_, holds_openType h .customUrl nextState.link, rfl, rfl, .of_begin n _ _, rfl⟩
  · have guard : ¬ (linkChanged && nextState.link ≠ []) = true := by simpa using opens
    rw [if_neg guard, if_neg opens]
    exact ⟨n, h, rfl, rfl, .refl n _, rfl⟩

theorem holds_openTypes (nextState : State) (h : Holds c n) (types : List EntityType) :
    let result := types.foldl
      (fun c type => if nextState.has type && !c.state.has type then c.openType type [] else c) c
    ∃ n', Holds result n' ∧ result.offset = c.offset ∧ result.state = c.state ∧ n.Turned n' c.offset ∧
      n'.running = ((types.filter fun type => nextState.has type && !c.state.has type).map
        fun type => (((type, []) : Mark), c.offset)).reverse ++ n.running := by
  induction types generalizing c n with
  | nil => exact ⟨n, h, rfl, rfl, .refl n _, rfl⟩
  | cons type types ih =>
      by_cases opens : (nextState.has type && !c.state.has type) = true
      · obtain ⟨n', holds, offset, state, turned, running⟩ := ih (holds_openType h type [])
        simp only [List.foldl_cons, if_pos opens]
        refine ⟨n', holds, offset, state, (Turned.of_begin n _ _).trans turned, ?_⟩
        rw [running, List.filter_cons, if_pos opens, List.map_cons, List.reverse_cons, List.append_assoc]
        rfl
      · simp only [List.foldl_cons, if_neg opens]
        rw [List.filter_cons, if_neg opens]
        exact ih h

theorem mem_opened {link : QString} {kept : List (Mark × Int)} {nextState : State} {mark : Mark} :
    mark ∈ opened link kept nextState ↔
      (mark = (.customUrl, nextState.link) ∧ nextState.link ≠ link ∧ nextState.link ≠ []) ∨
        (mark.1 ∈ kInMaskTypes ∧ mark.2 = [] ∧ nextState.has mark.1 = true ∧
          mark.1 ∉ kept.map fun r => r.1.1) := by
  obtain ⟨type, data⟩ := mark
  rw [opened, List.mem_append, List.mem_map]
  refine or_congr ?_ ?_
  · split_ifs with opens
    · rw [List.mem_singleton]
      exact (and_iff_left opens).symm
    · exact iff_of_false List.not_mem_nil fun new => opens new.2
  · simp only [List.mem_filter, Bool.and_eq_true, Bool.not_eq_true', ← Bool.not_eq_true, List.contains_iff_mem]
    constructor
    · rintro ⟨format, ⟨inMask, has, missing⟩, same⟩
      obtain ⟨rfl, rfl⟩ := Prod.mk.inj same
      exact ⟨inMask, rfl, has, missing⟩
    · rintro ⟨inMask, rfl, has, missing⟩
      exact ⟨type, ⟨inMask, has, missing⟩, rfl⟩

theorem nodup_opened (link : QString) (kept : List (Mark × Int)) (nextState : State) :
    ((opened link kept nextState).map Prod.fst).Nodup := by
  have formats : (kInMaskTypes.filter fun type =>
      nextState.has type && !(kept.map fun r => r.1.1).contains type).Nodup := by
    have all : kInMaskTypes.Nodup := by decide
    exact all.filter _
  have same : ∀ types : List EntityType, (types.map fun type => ((type, []) : Mark)).map Prod.fst = types := by
    intro types
    rw [List.map_map]
    exact List.map_id _
  rw [opened, List.map_append, same]
  split_ifs
  · refine List.nodup_cons.mpr ⟨fun member => ?_, formats⟩
    exact customUrl_notInMask (List.mem_of_mem_filter member)
  · exact formats

theorem mem_begun {marks : List Mark} {kept : List (Mark × Int)} {r : Mark × Int} :
    r ∈ (marks.map fun mark => (mark, stop)).reverse ++ kept ↔ (r.1 ∈ marks ∧ r.2 = stop) ∨ r ∈ kept := by
  rw [List.mem_append, List.mem_reverse, List.mem_map]
  refine or_congr_left ⟨?_, fun ⟨member, same⟩ => ⟨r.1, member, Prod.ext rfl same.symm⟩⟩
  rintro ⟨mark, member, rfl⟩
  exact ⟨member, rfl⟩

/-- What runs in the end is known to the next state. -/
theorem follows_of_opened {link : QString} {kept : List (Mark × Int)} {nextState : State}
    (holds : Holds c n) (state : c.state = nextState) (noMention : IsMentionLink nextState.link = false)
    (wanted : ∀ r ∈ kept, nextState.wants r.1 = true) (types : (kept.map fun r => r.1.1).Nodup)
    (links : ∀ r ∈ kept, r.1.1 ∈ kInMaskTypes ∨ r.1.2 = link)
    (running : n.running =
      ((opened link kept nextState).map fun mark => (mark, stop)).reverse ++ kept) :
    Follows c n := by
  subst state
  have runs : ∀ r, r ∈ n.running ↔ (r.1 ∈ opened link kept c.state ∧ r.2 = stop) ∨ r ∈ kept := by
    intro r
    rw [running, mem_begun]
  refine ⟨holds, ?_, ?_, ?_, noMention⟩
  · have new : (((opened link kept c.state).map fun mark => (mark, stop)).reverse.map fun r => r.1.1) =
        ((opened link kept c.state).map Prod.fst).reverse := by
      rw [List.map_reverse, List.map_map]
      rfl
    rw [running, List.map_append, new]
    refine List.nodup_append.mpr ⟨List.nodup_reverse.mpr (nodup_opened _ _ _), types, ?_⟩
    intro type member type' member' same
    subst same
    obtain ⟨mark, new, rfl⟩ := List.mem_map.mp (List.mem_reverse.mp member)
    obtain ⟨rfl, changed, -⟩ | ⟨-, -, -, missing⟩ := mem_opened.mp new
    · -- a kept link is the old one and the wanted one
      obtain ⟨r, member', same⟩ := List.mem_map.mp member'
      have other : r.1.1 ∉ kInMaskTypes := by
        rw [same]
        exact customUrl_notInMask
      obtain ⟨inMask, -⟩ | ⟨-, wants, -⟩ := State.wants_iff.mp (wanted r member')
      · exact other inMask
      · exact changed (wants.symm.trans ((links r member').resolve_left other))
    · exact missing member'
  · intro r member
    cases (runs r).mp member with
    | inl new =>
        obtain ⟨same, -, present⟩ | ⟨inMask, empty, -⟩ := mem_opened.mp new.1
        · rw [same]
          exact .inr ⟨rfl, rfl, present⟩
        · exact .inl ⟨inMask, empty⟩
    | inr member =>
        obtain ⟨inMask, empty, -⟩ | link := State.wants_iff.mp (wanted r member)
        · exact .inl ⟨inMask, empty⟩
        · exact .inr link
  · intro type inMask
    rw [List.mem_map]
    constructor
    · intro has
      by_cases member : type ∈ kept.map fun r => r.1.1
      · obtain ⟨r, member, same⟩ := List.mem_map.mp member
        exact ⟨r, (runs r).mpr (.inr member), same⟩
      · exact ⟨((type, []), stop), (runs _).mpr (.inl ⟨mem_opened.mpr (.inr ⟨inMask, rfl, has, member⟩), rfl⟩), rfl⟩
    · rintro ⟨r, member, rfl⟩
      cases (runs r).mp member with
      | inl new =>
          obtain ⟨same, -⟩ | ⟨-, -, has, -⟩ := mem_opened.mp new.1
          · rw [same] at inMask
            exact absurd inMask customUrl_notInMask
          · exact has
      | inr member =>
          obtain ⟨-, -, has⟩ | ⟨link, -⟩ := State.wants_iff.mp (wanted r member)
          · exact has
          · rw [link] at inMask
            exact absurd inMask customUrl_notInMask

/-- One call of `processState`. -/
theorem follows_processState (h : Follows c n) (nextState : State)
    (noMention : IsMentionLink nextState.link = false) :
    ∃ n', Follows (c.processState nextState) n' ∧ (c.processState nextState).offset = c.offset ∧
      n.Turned n' c.offset ∧
      n'.running =
        ((opened c.state.link (n.running.rtakeWhile fun r => nextState.wants r.1) nextState).map
          fun mark => (mark, c.offset)).reverse ++ n.running.rtakeWhile fun r => nextState.wants r.1 := by
  obtain ⟨n₁, closed, offset₁, turned₁, running₁⟩ := follows_closing h nextState
  obtain ⟨n₂, linked, offset₂, state₂, turned₂, running₂⟩ :=
    holds_openLink closed.toHolds (nextState.link ≠ c.state.link) nextState noMention
  obtain ⟨n₃, holds, offset₃, -, turned₃, running₃⟩ := holds_openTypes nextState linked kInMaskTypes
  rw [offset₁] at turned₂ running₂
  rw [offset₂, offset₁] at turned₃ running₃
  have formats : (kInMaskTypes.filter fun type => nextState.has type &&
      !(((c.closeLink nextState).closeTypes nextState).openLink (nextState.link ≠ c.state.link) nextState).state.has
        type) =
      kInMaskTypes.filter fun type => nextState.has type && !(n₁.running.map fun r => r.1.1).contains type := by
    refine List.filter_congr fun type inMask => ?_
    have same := closed.formats type inMask
    rw [← List.contains_iff_mem, ← Bool.eq_iff_iff] at same
    rw [state₂, same]
  have running : n₃.running =
      ((opened c.state.link n₁.running nextState).map fun mark => (mark, c.offset)).reverse ++ n₁.running := by
    rw [running₃, running₂, formats, opened]
    simp only [decide_eq_true_eq]
    split_ifs
    · simp [List.map_map, Function.comp_def]
    · simp [List.map_map, Function.comp_def]
  rw [← running₁]
  refine ⟨n₃, ?_, ?_, turned₁.trans (turned₂.trans turned₃), running⟩
  · have result : Holds (c.processState nextState) n₃ := ⟨holds.distinct, holds.stack, holds.closed⟩
    refine follows_of_opened result rfl noMention ?_ closed.types ?_ running
    · intro r member
      rw [running₁] at member
      have wanted := List.mem_rtakeWhile_imp member
      exact wanted
    · intro r member
      rw [running₁] at member
      obtain ⟨format, -⟩ | ⟨-, same, -⟩ := h.marks r ((List.rtakeWhile_suffix _ _).subset member)
      · exact .inl format
      · exact .inr same
  · exact offset₃.trans (offset₂.trans offset₁)

end TextUtilities.Converting

end IMeDesktop.Ui
