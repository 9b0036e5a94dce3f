import IMeDesktop.Ui.EntitiesToTags
import IMeDesktop.Ui.TextTagsRanges

/-! # Entities keep their marks as tags

Over entities of one type that do not overlap, the tags have at each position the marks of
the entities there, for every crossing of the ranges. The id of the moment is joined from
what is pending, the entities that have begun and are not removed yet.

An address with the separator in it is taken apart again, and is then on no tag.
-/

namespace IMeDesktop.Ui.TextUtilities

open Lib

/-! ## Joined ids -/

variable {single tag added removed : QString} {list : List QString}

/-- One piece of an id, and it is kept whatever stands in front of it. -/
structure IsPiece (single : QString) : Prop where
  present : single ≠ []
  whole : kTagSeparator ∉ single
  joins : IsSeparateTag single = false

theorem joinTag_pieces (pieces : ∀ single ∈ list, IsPiece single) {first : QString} {rest : List QString}
    (split : list = first :: rest) :
    JoinTag list = first ++ (rest.map fun tag => kTagSeparator :: tag).flatten := by
  subst split
  rw [JoinTag, List.filter_eq_self.mpr]
  intro single member
  rw [(pieces single (List.mem_cons_of_mem _ member)).joins]
  rfl

theorem splitTags_joinTag (pieces : ∀ single ∈ list, IsPiece single) (present : list ≠ []) :
    SplitTags (JoinTag list) = list := by
  obtain ⟨first, rest, split⟩ := List.exists_cons_of_ne_nil present
  rw [joinTag_pieces pieces split, splitTags_join, split]
  exact fun single member => (pieces single (split ▸ member)).whole

theorem joinTag_eq_nil (pieces : ∀ single ∈ list, IsPiece single) : JoinTag list = [] ↔ list = [] := by
  constructor
  · intro empty
    by_contra present
    obtain ⟨first, rest, split⟩ := List.exists_cons_of_ne_nil present
    rw [joinTag_pieces pieces split, List.append_eq_nil_iff] at empty
    exact (pieces first (split ▸ List.mem_cons_self)).present empty.1
  · rintro rfl
    rfl

/-- An id that is one piece is joined from it alone. -/
theorem joinTag_eq_piece (pieces : ∀ single ∈ list, IsPiece single) (whole : IsPiece single) :
    JoinTag list = single ↔ list = [single] := by
  have alone : SplitTags single = [single] := List.splitOn_eq_singleton whole.whole
  constructor
  · intro same
    have present : list ≠ [] := by
      rintro rfl
      exact whole.present same.symm
    rw [← splitTags_joinTag pieces present, same, alone]
  · rintro rfl
    exact List.append_nil _

theorem joinTag_injective {other : List QString} (pieces : ∀ single ∈ list, IsPiece single)
    (otherPieces : ∀ single ∈ other, IsPiece single) (same : JoinTag list = JoinTag other) : list = other := by
  by_cases empty : list = []
  · rw [(joinTag_eq_nil pieces).mpr empty] at same
    rw [empty, (joinTag_eq_nil otherPieces).mp same.symm]
  · have present : other ≠ [] := by
      intro none
      rw [(joinTag_eq_nil otherPieces).mpr none] at same
      exact empty ((joinTag_eq_nil pieces).mp same)
    rw [← splitTags_joinTag pieces empty, same, splitTags_joinTag otherPieces present]

theorem tagWithRemoved_joinTag (pieces : ∀ single ∈ list, IsPiece single) (whole : IsPiece removed) :
    TagWithRemoved (JoinTag list) removed = JoinTag (list.filter fun single => single ≠ removed) := by
  rw [TagWithRemoved]
  by_cases only : JoinTag list = removed
  · rw [if_pos only, (joinTag_eq_piece pieces whole).mp only]
    simp [JoinTag]
  · rw [if_neg only]
    by_cases empty : list = []
    · subst empty
      simp [JoinTag, SplitTags, Ne.symm whole.present]
    · rw [splitTags_joinTag pieces empty]

theorem tagWithAdded_joinTag (pieces : ∀ single ∈ list, IsPiece single) (whole : IsPiece added)
    (fresh : added ∉ list) :
    ∃ more, TagWithAdded (JoinTag list) added = JoinTag more ∧ more.Perm (added :: list) := by
  rw [TagWithAdded]
  by_cases empty : list = []
  · subst empty
    exact ⟨[added], by simp [JoinTag], List.Perm.refl _⟩
  · have notAlone : ¬ (JoinTag list = [] ∨ JoinTag list = added) := by
      rw [joinTag_eq_nil pieces, joinTag_eq_piece pieces whole]
      rintro (none | only)
      · exact empty none
      · exact fresh (only ▸ List.mem_singleton_self added)
    rw [if_neg notAlone, splitTags_joinTag pieces empty]
    simp only [if_neg fresh]
    exact ⟨_, rfl, (List.perm_insertionSort _ _).trans List.perm_append_comm⟩

theorem mem_meaning_joinTag (pieces : ∀ single ∈ list, IsPiece single) {mark : Mark} :
    mark ∈ meaning (JoinTag list) ↔ ∃ single ∈ list, markOf single = some mark := by
  rw [mem_meaning]
  by_cases empty : list = []
  · subst empty
    have unmarked : markOf [] = none := rfl
    simp [JoinTag, SplitTags, unmarked]
  · rw [splitTags_joinTag pieces empty]

theorem not_mem_of_mem_splitTags (member : single ∈ SplitTags tag) : kTagSeparator ∉ single := by
  induction tag generalizing single with
  | nil =>
      rw [SplitTags, List.splitOn_nil, List.mem_singleton] at member
      rw [member]
      exact List.not_mem_nil
  | cons ch rest ih =>
      obtain ⟨first, others, split⟩ := List.exists_cons_of_ne_nil (List.splitOn_ne_nil kTagSeparator rest)
      have pieces : ∀ other ∈ first :: others, kTagSeparator ∉ other := fun other member =>
        ih (by rw [SplitTags, split]; exact member)
      obtain ⟨head, later⟩ := List.forall_mem_cons.mp pieces
      rw [SplitTags, List.splitOn_cons_eq_if_modifyHead, split] at member
      by_cases separates : (ch == kTagSeparator) = true
      · rw [if_pos separates] at member
        obtain rfl | rfl | member : single = [] ∨ single = first ∨ single ∈ others := by simpa using member
        · exact List.not_mem_nil
        · exact head
        · exact later single member
      · rw [if_neg separates, List.modifyHead_cons] at member
        cases List.mem_cons.mp member with
        | inl same =>
            rw [same, List.mem_cons, not_or]
            exact ⟨fun same => separates (beq_iff_eq.mpr same.symm), head⟩
        | inr member => exact later single member

/-! ## The entities of a message -/

/-- The format, or the link with its address. -/
def markOfEntity (entity : EntityInText) : Mark :=
  if entity.type = .customUrl then (.customUrl, entity.data) else (entity.type, [])

/-- Entities with formats and links, those of one kind apart. -/
structure FieldEntities (entities : List EntityInText) : Prop where
  sorted : entities.Pairwise fun first second => first.offset ≤ second.offset
  inText : ∀ entity ∈ entities, 0 ≤ entity.offset
  positive : ∀ entity ∈ entities, 0 < entity.length
  kinds : ∀ entity ∈ entities, entity.type ∈ [.bold, .italic, .underline, .strikeOut, .spoiler] ∨
    (entity.type = .customUrl ∧ IsValidMarkdownLink entity.data = true ∧ IsMentionLink entity.data = false)
  apart : entities.Pairwise fun first second => first.type = second.type →
    first.offset + first.length ≤ second.offset ∨ second.offset + second.length ≤ first.offset

/-- The tags do not overlap, and have the marks of the entities. -/
structure Keeps (entities : List EntityInText) (tags : List Tag) : Prop where
  sorted : tags.Pairwise fun before after => before.offset + before.length ≤ after.offset
  marks : ∀ position mark, (∃ tag ∈ tags, tag.Covers position ∧ mark ∈ meaning tag.id) ↔
    ∃ entity ∈ entities, entity.Covers position ∧ markOfEntity entity = mark

/-- An entity whose tag is one piece of an id. -/
structure Tagged (entity : EntityInText) (tag : QString) : Prop where
  pushed : tagOf entity = some tag
  piece : IsPiece tag
  mark : markOf tag = some (markOfEntity entity)

theorem lookup_link (valid : IsValidMarkdownLink single = true) : formatTags.lookup single = none := by
  cases found : formatTags.lookup single with
  | none => rfl
  | some type =>
      obtain ⟨before, after, split, -⟩ := List.lookup_eq_some_iff.mp found
      have all : ∀ e ∈ formatTags, IsValidMarkdownLink e.1 = false := by decide
      have here := all (single, type) (split ▸ List.mem_append_right _ List.mem_cons_self)
      rw [valid] at here
      cases here

theorem joins_of_lookup (other : formatTags.lookup single = none) : IsSeparateTag single = false := by
  refine Bool.eq_false_iff.mpr fun separate => ?_
  simp only [IsSeparateTag, Bool.or_eq_true, decide_eq_true_eq] at separate
  obtain rfl | rfl := separate
  · exact absurd other (by decide)
  · exact absurd other (by decide)

theorem tagged {entity : EntityInText}
    (kind : entity.type ∈ [.bold, .italic, .underline, .strikeOut, .spoiler] ∨
      (entity.type = .customUrl ∧ IsValidMarkdownLink entity.data = true ∧ IsMentionLink entity.data = false))
    (whole : entity.type = .customUrl → kTagSeparator ∉ entity.data) : ∃ tag, Tagged entity tag := by
  obtain ⟨type, offset, length, data⟩ := entity
  obtain format | ⟨rfl, valid, other⟩ := kind
  · simp only [List.mem_cons, List.not_mem_nil, or_false] at format
    obtain rfl | rfl | rfl | rfl | rfl := format
    · exact ⟨kTagBold, rfl, ⟨by decide, by decide, by decide⟩, rfl⟩
    · exact ⟨kTagItalic, rfl, ⟨by decide, by decide, by decide⟩, rfl⟩
    · exact ⟨kTagUnderline, rfl, ⟨by decide, by decide, by decide⟩, rfl⟩
    · exact ⟨kTagStrikeOut, rfl, ⟨by decide, by decide, by decide⟩, rfl⟩
    · exact ⟨kTagSpoiler, rfl, ⟨by decide, by decide, by decide⟩, rfl⟩
  · have present : data ≠ [] := by
      rintro rfl
      cases valid
    have none := lookup_link valid
    refine ⟨data, ?_, ⟨present, whole rfl, joins_of_lookup none⟩, ?_⟩
    · simp [tagOf, valid, other]
    · exact markOf_eq_some.mpr (.inr ⟨none, present, rfl⟩)

def pieceOf (entity : EntityInText) : QString := (tagOf entity).getD []

theorem Tagged.pieceOf {entity : EntityInText} (h : Tagged entity tag) : pieceOf entity = tag := by
  rw [TextUtilities.pieceOf, h.pushed, Option.getD_some]

def stopOf (entity : EntityInText) : Int := entity.offset + entity.length

/-! ## One change of the id -/

namespace Tagging

variable {t : Tagging} {position next : Int} {id : QString} {mark : Mark}

/-- The marks at a position, if the id stays as it is. -/
def Marks (t : Tagging) (position : Int) (mark : Mark) : Prop :=
  (∃ tag ∈ t.result, tag.Covers position ∧ mark ∈ meaning tag.id) ∨ (t.offset ≤ position ∧ mark ∈ meaning t.current)

/-- The tags so far do not overlap, and end where the id begins. -/
structure Sorted (t : Tagging) : Prop where
  sorted : t.result.Pairwise fun before after => before.offset + before.length ≤ after.offset
  behind : ∀ tag ∈ t.result, tag.offset + tag.length ≤ t.offset

theorem meaning_nil : meaning [] = [] := rfl

theorem updateCurrent_cases (t : Tagging) (next : Int) (id : QString) :
    (id = t.current ∧ t.updateCurrent next id = t) ∨
      (id ≠ t.current ∧ next ≤ t.offset ∧ t.updateCurrent next id = { t with current := id }) ∨
      (t.offset < next ∧ t.current = [] ∧
        t.updateCurrent next id = { t with offset := next, current := id }) ∨
      (t.offset < next ∧
        t.updateCurrent next id =
          { t with
            result := t.result ++ [⟨t.offset, next - t.offset, t.current⟩]
            offset := next
            current := id }) := by
  unfold updateCurrent
  by_cases same : id = t.current
  · exact .inl ⟨same, if_pos same⟩
  · rw [if_neg same]
    by_cases later : next > t.offset
    · rw [if_pos later]
      by_cases empty : t.current = []
      · exact .inr (.inr (.inl ⟨later, empty, by rw [if_neg (not_not.mpr empty)]⟩))
      · exact .inr (.inr (.inr ⟨later, by rw [if_pos empty]⟩))
    · exact .inr (.inl ⟨same, not_lt.mp later, if_neg later⟩)

@[simp]
theorem current_updateCurrent : (t.updateCurrent next id).current = id := by
  obtain ⟨same, eq⟩ | ⟨-, -, eq⟩ | ⟨-, -, eq⟩ | ⟨-, eq⟩ := updateCurrent_cases t next id
  · rw [eq, same]
  all_goals rw [eq]

@[simp]
theorem toRemove_updateCurrent : (t.updateCurrent next id).toRemove = t.toRemove := by
  obtain ⟨-, eq⟩ | ⟨-, -, eq⟩ | ⟨-, -, eq⟩ | ⟨-, eq⟩ := updateCurrent_cases t next id
  all_goals rw [eq]

theorem updateCurrent_with (toRemove : List (Int × QString)) :
    { t.updateCurrent next id with toRemove := toRemove } =
      ({ t with toRemove := toRemove } : Tagging).updateCurrent next id := by
  unfold updateCurrent
  split_ifs
  all_goals rfl

theorem offset_updateCurrent (before : t.offset ≤ next) : (t.updateCurrent next id).offset ≤ next := by
  obtain ⟨-, eq⟩ | ⟨-, -, eq⟩ | ⟨-, -, eq⟩ | ⟨-, eq⟩ := updateCurrent_cases t next id
  all_goals rw [eq]
  · exact before
  · exact before

/-- The offset is only behind when the id stays. -/
theorem offset_updateCurrent_of_ne (before : t.offset ≤ next) (changed : id ≠ t.current) :
    (t.updateCurrent next id).offset = next := by
  obtain ⟨same, -⟩ | ⟨-, reached, eq⟩ | ⟨-, -, eq⟩ | ⟨-, eq⟩ := updateCurrent_cases t next id
  · exact absurd same changed
  · rw [eq]
    exact le_antisymm before reached
  all_goals rw [eq]

theorem Sorted.updateCurrent (h : t.Sorted) : (t.updateCurrent next id).Sorted := by
  obtain ⟨-, eq⟩ | ⟨-, -, eq⟩ | ⟨later, -, eq⟩ | ⟨later, eq⟩ := updateCurrent_cases t next id
  all_goals rw [eq]
  · exact h
  · exact ⟨h.sorted, h.behind⟩
  · exact ⟨h.sorted, fun tag member => (h.behind tag member).trans (le_of_lt later)⟩
  · refine ⟨List.pairwise_append.mpr ⟨h.sorted, List.pairwise_singleton _ _, ?_⟩, ?_⟩
    · intro before member after last
      rw [List.mem_singleton.mp last]
      exact h.behind before member
    · intro tag member
      cases List.mem_append.mp member with
      | inl member => exact (h.behind tag member).trans (le_of_lt later)
      | inr last =>
          rw [List.mem_singleton.mp last]
          simp only
          omega

theorem Sorted.marks_behind (h : t.Sorted) (reached : t.offset ≤ position) :
    t.Marks position mark ↔ mark ∈ meaning t.current := by
  constructor
  · rintro (⟨tag, member, covers, -⟩ | ⟨-, marked⟩)
    · have := h.behind tag member
      have := covers.2
      omega
    · exact marked
  · exact fun marked => .inr ⟨reached, marked⟩

/-- A change holds from its position on. -/
theorem marks_updateCurrent (h : t.Sorted) (before : t.offset ≤ next) :
    (t.updateCurrent next id).Marks position mark ↔
      (position < next ∧ t.Marks position mark) ∨ (next ≤ position ∧ mark ∈ meaning id) := by
  by_cases reached : next ≤ position
  · have behind : (t.updateCurrent next id).offset ≤ position := (offset_updateCurrent before).trans reached
    rw [(h.updateCurrent).marks_behind behind, current_updateCurrent]
    constructor
    · exact fun marked => .inr ⟨reached, marked⟩
    · rintro (⟨early, -⟩ | ⟨-, marked⟩)
      · omega
      · exact marked
  · have early : position < next := not_le.mp reached
    have kept : (t.updateCurrent next id).Marks position mark ↔ t.Marks position mark := by
      obtain ⟨-, eq⟩ | ⟨-, past, eq⟩ | ⟨later, empty, eq⟩ | ⟨later, eq⟩ := updateCurrent_cases t next id
      all_goals rw [eq]
      · have unreached : ¬ t.offset ≤ position := by omega
        simp only [Marks, unreached, false_and]
      · have nothing : ¬ mark ∈ meaning t.current := by
          rw [empty, meaning_nil]
          exact List.not_mem_nil
        simp only [Marks, reached, nothing, false_and, and_false]
      · simp only [Marks, List.mem_append, List.mem_singleton, or_and_right, exists_or, exists_eq_left, Tag.Covers,
          reached, false_and, or_false]
        refine or_congr_right (and_congr_left' ?_)
        omega
    rw [kept]
    constructor
    · exact fun marked => .inl ⟨early, marked⟩
    · rintro (⟨-, marked⟩ | ⟨late, -⟩)
      · exact marked
      · exact absurd late reached

/-! ## The sweep -/

variable {entities pending : List EntityInText} {entity : EntityInText} {time : Int}

/-- What is known when the entities have been gone over up to a time: the pending ones are in the id and
are to be removed at their end. -/
structure Follows (t : Tagging) (entities pending : List EntityInText) (time : Int) : Prop extends t.Sorted where
  tagged : ∀ entity ∈ entities, Tagged entity (pieceOf entity)
  removal : t.toRemove.Perm (pending.map fun entity => (stopOf entity, pieceOf entity))
  ordered : t.toRemove.Pairwise fun a b => a.1 ≤ b.1
  known : ∀ entity ∈ pending, entity ∈ entities
  joined : ∃ list, t.current = JoinTag list ∧ list.Perm (pending.map pieceOf)
  distinct : (pending.map pieceOf).Nodup
  begun : ∀ entity ∈ entities, entity.offset ≤ time
  later : ∀ entity ∈ pending, time ≤ stopOf entity
  done : ∀ entity ∈ entities, entity ∉ pending → stopOf entity ≤ time
  reached : t.offset ≤ time
  marks : ∀ position mark, t.Marks position mark ↔
    ∃ entity ∈ entities, markOfEntity entity = mark ∧ entity.offset ≤ position ∧
      (position < stopOf entity ∨ entity ∈ pending)

theorem mem_meaning_pieces {list : List QString} (tagged : ∀ entity ∈ pending, Tagged entity (pieceOf entity))
    (joined : list.Perm (pending.map pieceOf)) {mark : Mark} :
    mark ∈ meaning (JoinTag list) ↔ ∃ entity ∈ pending, markOfEntity entity = mark := by
  have pieces : ∀ single ∈ list, IsPiece single := by
    intro single member
    obtain ⟨entity, inside, rfl⟩ := List.mem_map.mp (joined.subset member)
    exact (tagged entity inside).piece
  rw [mem_meaning_joinTag pieces]
  constructor
  · rintro ⟨single, member, marked⟩
    obtain ⟨entity, inside, rfl⟩ := List.mem_map.mp (joined.subset member)
    refine ⟨entity, inside, ?_⟩
    rw [(tagged entity inside).mark] at marked
    exact Option.some.inj marked
  · rintro ⟨entity, inside, rfl⟩
    exact ⟨pieceOf entity, joined.symm.subset (List.mem_map_of_mem inside), (tagged entity inside).mark⟩

namespace Follows

/-- Nothing ends and nothing begins till a later time. -/
theorem advance (h : Follows t entities pending time) {next : Int} (later : time ≤ next)
    (running : ∀ entity ∈ pending, next ≤ stopOf entity) : Follows t entities pending next :=
  { h with
    begun := fun entity member => (h.begun entity member).trans later
    later := running
    done := fun entity member gone => (h.done entity member gone).trans later
    reached := h.reached.trans later }

/-- The first removal. -/
theorem pop (h : Follows t entities pending time) {first : Int × QString} {rest : List (Int × QString)}
    (head : t.toRemove = first :: rest) : time ≤ first.1 ∧ ∃ pending',
      Follows (({ t with toRemove := rest } : Tagging).updateCurrent first.1 (TagWithRemoved t.current first.2))
        entities pending' first.1 := by
  have member : first ∈ pending.map fun entity => (stopOf entity, pieceOf entity) :=
    h.removal.subset (head ▸ List.mem_cons_self)
  obtain ⟨entity, inside, rfl⟩ := List.mem_map.mp member
  have ends : time ≤ stopOf entity := h.later entity inside
  obtain ⟨front, back, rfl⟩ := List.append_of_mem inside
  have moved : (front ++ entity :: back).Perm (entity :: (front ++ back)) := List.perm_middle
  have removal : rest.Perm ((front ++ back).map fun entity => (stopOf entity, pieceOf entity)) :=
    ((head ▸ h.removal).trans (moved.map _)).cons_inv
  have sub : ∀ other ∈ front ++ back, other ∈ front ++ entity :: back := fun other member =>
    moved.symm.subset (List.mem_cons_of_mem _ member)
  have distinct : (pieceOf entity :: (front ++ back).map pieceOf).Nodup := (moved.map pieceOf).nodup h.distinct
  obtain ⟨fresh, distinct⟩ := List.nodup_cons.mp distinct
  obtain ⟨list, current, joined⟩ := h.joined
  have pieces : ∀ single ∈ list, IsPiece single := by
    intro single member
    obtain ⟨other, inside, rfl⟩ := List.mem_map.mp (joined.subset member)
    exact (h.tagged other (h.known other inside)).piece
  have filtered : (list.filter fun single => single ≠ pieceOf entity).Perm ((front ++ back).map pieceOf) := by
    refine ((joined.trans (moved.map pieceOf)).filter _).trans ?_
    rw [List.map_cons, List.filter_cons_of_neg (by simp), List.filter_eq_self.mpr]
    intro single member
    exact decide_eq_true fun same => fresh (same ▸ member)
  have id : TagWithRemoved t.current (pieceOf entity) = JoinTag (list.filter fun single => single ≠ pieceOf entity) := by
    rw [current]
    exact tagWithRemoved_joinTag pieces (h.tagged entity (h.known entity inside)).piece
  have reached : t.offset ≤ stopOf entity := h.reached.trans ends
  have sorted : ({ t with toRemove := rest } : Tagging).Sorted := ⟨h.sorted, h.behind⟩
  have later : ∀ other ∈ front ++ back, stopOf entity ≤ stopOf other := by
    intro other member
    have behind := h.ordered
    rw [head] at behind
    exact (List.pairwise_cons.mp behind).1 _ (removal.symm.subset (List.mem_map_of_mem member))
  have done : ∀ other ∈ entities, other ∉ front ++ back → stopOf other ≤ stopOf entity := by
    intro other member gone
    by_cases same : other = entity
    · rw [same]
    · refine (h.done other member fun there => ?_).trans ends
      exact gone ((List.mem_cons.mp (moved.subset there)).resolve_left same)
  refine ⟨ends, front ++ back, {
    toSorted := sorted.updateCurrent
    tagged := h.tagged
    removal := by rwa [toRemove_updateCurrent]
    ordered := ?_
    known := fun other member => h.known other (sub other member)
    joined := ⟨_, by rw [current_updateCurrent, id], filtered⟩
    distinct := distinct
    begun := fun other member => (h.begun other member).trans ends
    later := later
    done := done
    reached := offset_updateCurrent reached
    marks := fun position mark => ?_ }⟩
  · have all := h.ordered
    rw [head] at all
    rw [toRemove_updateCurrent]
    exact (List.pairwise_cons.mp all).2
  · have before : ({ t with toRemove := rest } : Tagging).Marks position mark ↔ t.Marks position mark := Iff.rfl
    rw [marks_updateCurrent sorted reached, before, h.marks, id,
      mem_meaning_pieces (fun other member => h.tagged other (h.known other (sub other member))) filtered]
    constructor
    · rintro (⟨early, other, member, marked, begun, running⟩ | ⟨late, other, member, marked⟩)
      · refine ⟨other, member, marked, begun, ?_⟩
        obtain inside | there := running
        · exact .inl inside
        · obtain rfl | there := List.mem_cons.mp (moved.subset there)
          · exact .inl early
          · exact .inr there
      · exact ⟨other, h.known other (sub other member), marked,
          ((h.begun other (h.known other (sub other member))).trans ends).trans late, .inr member⟩
    · rintro ⟨other, member, marked, begun, running⟩
      by_cases early : position < stopOf entity
      · exact .inl ⟨early, other, member, marked, begun, running.imp_right (sub other)⟩
      · refine .inr ⟨not_lt.mp early, other, ?_, marked⟩
        by_contra gone
        have := done other member gone
        have := running.resolve_right gone
        omega

/-- All that ends till a position is removed. -/
theorem removeFrom {list : List (Int × QString)} {t : Tagging} {time next : Int} {pending : List EntityInText}
    (h : Follows { t with toRemove := list } entities pending time) (later : time ≤ next) :
    ∃ pending', Follows (Tagging.removeFrom next list t) entities pending' next ∧
      ∀ entity ∈ pending', next < stopOf entity := by
  induction list generalizing t time pending with
  | nil =>
      have none : pending = [] := List.map_eq_nil_iff.mp h.removal.nil_eq.symm
      subst none
      exact ⟨[], h.advance later nofun, nofun⟩
  | cons first rest ih =>
      rw [Tagging.removeFrom]
      by_cases ends : first.1 ≤ next
      · rw [if_pos ends]
        obtain ⟨-, pending', popped⟩ := h.pop rfl
        have next : Follows { t.updateCurrent first.1 (TagWithRemoved t.current first.2) with toRemove := rest }
            entities pending' first.1 := by
          rw [updateCurrent_with]
          exact popped
        exact ih next ends
      · rw [if_neg ends]
        have running : ∀ entity ∈ pending, next < stopOf entity := by
          intro entity member
          have there := h.removal.symm.subset (List.mem_map_of_mem member)
          have := (List.pairwise_cons.mp h.ordered).1
          cases List.mem_cons.mp there with
          | inl same =>
              rw [← same] at ends
              exact not_le.mp ends
          | inr there => exact (not_le.mp ends).trans_le (this _ there)
        exact ⟨pending, h.advance later fun entity member => (running entity member).le, running⟩

theorem removeTill (h : Follows t entities pending time) {next : Int} (later : time ≤ next) :
    ∃ pending', Follows (t.removeTill next) entities pending' next ∧ ∀ entity ∈ pending', next < stopOf entity :=
  removeFrom h later

/-- An entity of another kind than what is pending begins. -/
theorem push (h : Follows t entities pending time) (later : time ≤ entity.offset) (positive : 0 < entity.length)
    (tagged : Tagged entity tag) (apart : ∀ other ∈ entities, pieceOf other = tag → stopOf other ≤ entity.offset) :
    ∃ pending', Follows (t.push entity tag) (entities ++ [entity]) pending' entity.offset := by
  obtain ⟨pending', removed, running⟩ := h.removeTill later
  have piece := tagged.pieceOf
  have fresh : tag ∉ pending'.map pieceOf := by
    intro member
    obtain ⟨other, inside, same⟩ := List.mem_map.mp member
    have := running other inside
    have := apart other (removed.known other inside) same
    omega
  rw [Tagging.push]
  generalize t.removeTill entity.offset = t at removed
  obtain ⟨list, current, joined⟩ := removed.joined
  have pieces : ∀ single ∈ list, IsPiece single := by
    intro single member
    obtain ⟨other, inside, rfl⟩ := List.mem_map.mp (joined.subset member)
    exact (removed.tagged other (removed.known other inside)).piece
  obtain ⟨more, added, moreJoined⟩ := tagWithAdded_joinTag pieces tagged.piece fun member =>
    fresh (joined.subset member)
  rw [← current] at added
  have morePieces : ∀ single ∈ more, IsPiece single := fun single member =>
    List.forall_mem_cons.mpr ⟨tagged.piece, pieces⟩ single (moreJoined.subset member)
  have changed : TagWithAdded t.current tag ≠ t.current := by
    rw [added, current]
    intro same
    have length := moreJoined.length_eq
    rw [joinTag_injective morePieces pieces same, List.length_cons] at length
    omega
  have offset := Tagging.offset_updateCurrent_of_ne removed.reached changed
  rw [added] at offset
  have allTagged : ∀ other ∈ entities ++ [entity], Tagged other (pieceOf other) := by
    intro other member
    obtain old | last := List.mem_append.mp member
    · exact removed.tagged other old
    · rw [List.mem_singleton.mp last, piece]
      exact tagged
  have allJoined : more.Perm ((entity :: pending').map pieceOf) := by
    rw [List.map_cons, piece]
    exact moreJoined.trans (joined.cons tag)
  have known : ∀ other ∈ entity :: pending', other ∈ entities ++ [entity] := by
    intro other member
    obtain rfl | old := List.mem_cons.mp member
    · exact List.mem_append_right _ (List.mem_singleton_self _)
    · exact List.mem_append_left _ (removed.known other old)
  simp only [toRemove_updateCurrent, offset, added]
  have behind := (@Sorted.updateCurrent t entity.offset (JoinTag more) removed.toSorted).behind
  rw [offset] at behind
  refine ⟨entity :: pending', {
    sorted := (removed.toSorted.updateCurrent).sorted
    behind := behind
    tagged := allTagged
    removal := ?_
    ordered := ?_
    known := known
    joined := ⟨more, current_updateCurrent, allJoined⟩
    distinct := by
      rw [List.map_cons, piece]
      exact List.nodup_cons.mpr ⟨fresh, removed.distinct⟩
    begun := ?_
    later := ?_
    done := ?_
    reached := le_rfl
    marks := fun position mark => ?_ }⟩
  · refine (List.perm_insertionSort _ _).trans (List.perm_append_comm.trans ?_)
    rw [List.map_cons, piece]
    exact removed.removal.cons _
  · have total : Std.Total fun a b : Int × QString => place a ≤ place b := ⟨fun a b => le_total _ _⟩
    have trans : IsTrans (Int × QString) fun a b => place a ≤ place b := ⟨fun a b c => le_trans⟩
    refine (List.pairwise_insertionSort _ _).imp fun {a b} ordered => ?_
    obtain less | ⟨same, -⟩ := Prod.Lex.toLex_le_toLex.mp ordered
    · exact less.le
    · exact same.le
  · intro other member
    obtain old | last := List.mem_append.mp member
    · exact removed.begun other old
    · rw [List.mem_singleton.mp last]
  · intro other member
    obtain rfl | old := List.mem_cons.mp member
    · rw [stopOf]
      omega
    · exact removed.later other old
  · intro other member gone
    obtain old | last := List.mem_append.mp member
    · exact removed.done other old fun there => gone (List.mem_cons_of_mem _ there)
    · exact absurd (List.mem_singleton.mp last ▸ List.mem_cons_self) gone
  · have shown := @marks_updateCurrent t position entity.offset (JoinTag more) mark removed.toSorted removed.reached
    rw [Tagging.Marks, offset] at shown
    rw [Tagging.Marks, shown, removed.marks,
      mem_meaning_pieces (fun other member => allTagged other (known other member)) allJoined]
    constructor
    · rintro (⟨early, other, member, marked, begun, running⟩ | ⟨late, other, member, marked⟩)
      · exact ⟨other, List.mem_append_left _ member, marked, begun, running.imp_right (List.mem_cons_of_mem _)⟩
      · refine ⟨other, known other member, marked, ?_, .inr member⟩
        obtain rfl | old := List.mem_cons.mp member
        · exact late
        · exact (removed.begun other (removed.known other old)).trans late
    · rintro ⟨other, member, marked, begun, running⟩
      by_cases early : position < entity.offset
      · obtain old | last := List.mem_append.mp member
        · refine .inl ⟨early, other, old, marked, begun, running.imp_right fun there => ?_⟩
          obtain rfl | there := List.mem_cons.mp there
          · omega
          · exact there
        · rw [List.mem_singleton.mp last] at begun
          omega
      · refine .inr ⟨not_lt.mp early, other, ?_, marked⟩
        by_contra gone
        have inside := running.resolve_right gone
        obtain old | last := List.mem_append.mp member
        · have := removed.done other old fun there => gone (List.mem_cons_of_mem _ there)
          omega
        · exact gone (List.mem_singleton.mp last ▸ List.mem_cons_self)

/-- At the end all is removed, and the marks are those of the tags. -/
theorem finish (h : Follows t entities pending time) :
    Keeps entities (match t.toRemove.getLast? with
      | some last => (t.removeTill last.1).result
      | none => t.result) := by
  have ended : ∃ finished time', Follows finished entities [] time' ∧ finished.result =
      (match t.toRemove.getLast? with
        | some last => (t.removeTill last.1).result
        | none => t.result) := by
    cases found : t.toRemove.getLast? with
    | none =>
        have none : pending = [] := by
          have removal := h.removal
          rw [List.getLast?_eq_none_iff.mp found] at removal
          exact List.map_eq_nil_iff.mp removal.nil_eq.symm
        exact ⟨t, time, none ▸ h, rfl⟩
    | some last =>
        obtain ⟨front, split⟩ := List.getLast?_eq_some_iff.mp found
        have greatest : ∀ other ∈ pending, stopOf other ≤ last.1 := by
          intro other member
          have there := h.removal.symm.subset (List.mem_map_of_mem member)
          rw [split] at there
          have ordered := h.ordered
          rw [split] at ordered
          obtain before | same := List.mem_append.mp there
          · exact (List.pairwise_append.mp ordered).2.2 _ before last (List.mem_singleton_self _)
          · exact (congrArg Prod.fst (List.mem_singleton.mp same)).le
        have later : time ≤ last.1 := by
          have member : last ∈ pending.map fun entity => (stopOf entity, pieceOf entity) :=
            h.removal.subset (List.mem_of_getLast? found)
          obtain ⟨entity, inside, rfl⟩ := List.mem_map.mp member
          exact h.later entity inside
        obtain ⟨pending', removed, running⟩ := h.removeTill later
        have none : pending' = [] := by
          refine List.eq_nil_iff_forall_not_mem.mpr fun other member => ?_
          have := running other member
          by_cases there : other ∈ pending
          · have := greatest other there
            omega
          · have := h.done other (removed.known other member) there
            omega
        exact ⟨t.removeTill last.1, last.1, none ▸ removed, rfl⟩
  obtain ⟨finished, time', follows, result⟩ := ended
  rw [← result]
  refine ⟨follows.sorted, fun position mark => ?_⟩
  obtain ⟨list, current, joined⟩ := follows.joined
  have empty : meaning finished.current = [] := by
    rw [current, joined.eq_nil]
    rfl
  have marks := follows.marks position mark
  simp only [Tagging.Marks, empty, List.not_mem_nil, and_false, or_false] at marks
  rw [marks]
  refine exists_congr fun entity => and_congr_right fun _ => ?_
  rw [EntityInText.Covers, stopOf]
  tauto

/-- The sweep over the entities that are left. -/
theorem foldl (h : Follows t entities pending time) (rest : List EntityInText)
    (valid : FieldEntities (entities ++ rest))
    (tagged : ∀ entity ∈ rest, Tagged entity (pieceOf entity)) (lastOffset : ∀ entity ∈ rest, time ≤ entity.offset) :
    ∃ pending' time', Follows (rest.foldl pushEntity t) (entities ++ rest) pending' time' := by
  induction rest generalizing t entities pending time with
  | nil => exact ⟨pending, time, by rw [List.append_nil]; exact h⟩
  | cons entity rest ih =>
      have own := tagged entity List.mem_cons_self
      have member : entity ∈ entities ++ entity :: rest := List.mem_append_right _ List.mem_cons_self
      have apart : ∀ other ∈ entities, pieceOf other = pieceOf entity → stopOf other ≤ entity.offset := by
        intro other before same
        have marks := (h.tagged other before).mark
        rw [same, own.mark] at marks
        have types : other.type = entity.type := by
          have kinds := congrArg Prod.fst (Option.some.inj marks)
          simp only [markOfEntity] at kinds
          split_ifs at kinds with first second second
          · rw [first, second]
          · exact absurd kinds.symm second
          · exact absurd kinds first
          · exact kinds.symm
        have between := (List.pairwise_append.mp valid.apart).2.2 other before entity List.mem_cons_self types
        have ordered := (List.pairwise_append.mp valid.sorted).2.2 other before entity List.mem_cons_self
        have := valid.positive entity member
        rw [stopOf]
        omega
      obtain ⟨pending', pushed⟩ := h.push (lastOffset entity List.mem_cons_self) (valid.positive entity member) own apart
      have first : pushEntity t entity = t.push entity (pieceOf entity) := by
        rw [pushEntity, own.pushed]
      have split : entities ++ entity :: rest = (entities ++ [entity]) ++ rest := by
        rw [List.append_assoc]
        rfl
      rw [List.foldl_cons, first, split]
      refine ih pushed (split ▸ valid) (fun other inside => tagged other (List.mem_cons_of_mem _ inside)) ?_
      intro other inside
      have ordered := (List.pairwise_append.mp valid.sorted).2.1
      exact (List.pairwise_cons.mp ordered).1 other inside

end Follows

end Tagging

/-- The tags keep the marks of the entities exactly when no address has the separator in it. -/
theorem convertBack_keeps_iff {entities : List EntityInText} (valid : FieldEntities entities) :
    Keeps entities (ConvertEntitiesToTextTags entities) ↔
      ∀ entity ∈ entities, entity.type = .customUrl → kTagSeparator ∉ entity.data := by
  constructor
  · intro keeps entity member link
    have inside : entity.Covers entity.offset := by
      have := valid.positive entity member
      exact ⟨le_rfl, by omega⟩
    obtain ⟨tag, -, -, marked⟩ := (keeps.marks entity.offset (markOfEntity entity)).mpr ⟨entity, member, inside, rfl⟩
    rw [markOfEntity, if_pos link] at marked
    obtain ⟨single, piece, read⟩ := mem_meaning.mp marked
    obtain ⟨format, -⟩ | ⟨-, -, same⟩ := markOf_eq_some.mp read
    · exact absurd (formats_inMask format) customUrl_notInMask
    · rw [(Prod.mk.inj same).2]
      exact not_mem_of_mem_splitTags piece
  · intro whole
    have tagged : ∀ entity ∈ entities, Tagged entity (pieceOf entity) := by
      intro entity member
      obtain ⟨tag, own⟩ := tagged (valid.kinds entity member) (whole entity member)
      rw [own.pieceOf]
      exact own
    have start : Tagging.Follows {} [] [] 0 := {
      sorted := .nil
      behind := nofun
      tagged := nofun
      removal := .nil
      ordered := .nil
      known := nofun
      joined := ⟨[], rfl, .nil⟩
      distinct := .nil
      begun := nofun
      later := nofun
      done := nofun
      reached := le_rfl
      marks := fun position mark => by
        simp [Tagging.Marks, Tagging.meaning_nil] }
    obtain ⟨pending, time, follows⟩ := start.foldl entities valid tagged valid.inText
    exact follows.finish

/-- A bold link, whose end and begin cross with an italic word. -/
def crossing : List EntityInText :=
  [{ type := .bold, offset := 0, length := 6 }, { type := .customUrl, offset := 0, length := 6, data := address },
    { type := .italic, offset := 3, length := 6 }]

theorem crossing_kept : Keeps crossing (ConvertEntitiesToTextTags crossing) := by
  have valid : FieldEntities crossing := ⟨by decide, by decide, by decide, by decide, by decide⟩
  exact (convertBack_keeps_iff valid).mpr (by decide)

/-- A link to `a.b\c`. -/
def linkWithSeparator : List EntityInText :=
  [{ type := .customUrl, offset := 0, length := 3, data := latin1 ['a', '.', 'b', '\\', 'c'] }]

/-- The tag of the link is read as two links. -/
theorem linkWithSeparator_lost :
    FieldEntities linkWithSeparator ∧ ¬ Keeps linkWithSeparator (ConvertEntitiesToTextTags linkWithSeparator) := by
  refine ⟨⟨by decide, by decide, by decide, by decide, by decide⟩, fun keeps => ?_⟩
  have link : ∃ entity ∈ linkWithSeparator, entity.Covers 0 ∧
      markOfEntity entity = (.customUrl, latin1 ['a', '.', 'b', '\\', 'c']) :=
    ⟨_, List.mem_singleton_self _, ⟨by decide, by decide⟩, rfl⟩
  obtain ⟨tag, member, -, marked⟩ := (keeps.marks 0 _).mpr link
  have unmarked : ∀ tag ∈ ConvertEntitiesToTextTags linkWithSeparator,
      (EntityType.customUrl, latin1 ['a', '.', 'b', '\\', 'c']) ∉ meaning tag.id := by decide
  exact unmarked tag member marked

end IMeDesktop.Ui.TextUtilities
