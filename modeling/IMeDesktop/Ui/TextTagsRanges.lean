import IMeDesktop.Ui.TextTagsStack

/-! # Which marks the entities put on a text

Over a text with tags that do not overlap, the entities should have at each position the
marks of the tag there. They do, but for links: a link that goes on in a touching tag is
closed with a format below it on the stack, and nothing opens it again.

What is below is decided by where the ranges began. A range goes on from a tag into a
touching one that has its mark, unless an older one ends there; then it begins anew.
-/

namespace IMeDesktop.Ui

open Lib Lib.Nesting

def Tag.Covers (tag : Tag) (position : Int) : Prop :=
  tag.offset ≤ position ∧ position < tag.offset + tag.length

namespace TextUtilities

variable {tags earlier : List Tag} {tag last : Tag} {c : Converting} {n : Nesting Mark Int}

/-- Tags of an input field: in order, none empty, none over another, with joined ids. -/
structure FieldTags (tags : List Tag) : Prop where
  sorted : tags.Pairwise fun before after => before.offset + before.length ≤ after.offset
  positive : ∀ tag ∈ tags, 0 < tag.length
  joined : ∀ tag ∈ tags, IsJoined tag.id

/-- The entities have the marks of the tags, and nest. -/
structure Meets (tags : List Tag) (entities : List EntityInText) : Prop where
  marks : ∀ position mark, (∃ entity ∈ entities, entity.Covers position ∧ entity.mark = mark) ↔
    ∃ tag ∈ tags, tag.Covers position ∧ mark ∈ meaning tag.id
  positive : ∀ entity ∈ entities, 0 < entity.length
  nested : ∀ first ∈ entities, ∀ second ∈ entities, first.piece.Nested second.piece

/-! ## Where ranges begin -/

/-- Of the ranges that begin at one position, a link comes first. -/
def rank (mark : Mark) : Nat := if mark.1 ∈ kInMaskTypes then kInMaskTypes.idxOf mark.1 + 1 else 0

def age (range : Mark × Int) : Int ×ₗ Nat := toLex (range.2, rank range.1)

/-- The range of a mark goes on from a tag into the next one. -/
def GoesOn (began : Mark → Int) (last tag : Tag) (mark : Mark) : Prop :=
  last.offset + last.length = tag.offset ∧ mark ∈ meaning last.id ∧
    ∀ other ∈ meaning last.id, age (other, began other) ≤ age (mark, began mark) → other ∈ meaning tag.id

instance (began : Mark → Int) (last tag : Tag) (mark : Mark) : Decidable (GoesOn began last tag mark) :=
  inferInstanceAs (Decidable (_ ∧ _ ∧ _))

/-- Where the range of a mark began that is in the last tag; tags are the latest first. -/
def began : List Tag → Mark → Int
  | [], _ => 0
  | [tag], _ => tag.offset
  | tag :: last :: earlier, mark =>
      if GoesOn (began (last :: earlier)) last tag mark then began (last :: earlier) mark else tag.offset

/-- Where a link is in two tags that touch, its range goes on. -/
def LinksGoOn : List Tag → Prop
  | [] => True
  | [_] => True
  | tag :: last :: earlier =>
      LinksGoOn (last :: earlier) ∧
        (last.offset + last.length = tag.offset → ∀ mark ∈ meaning last.id, mark.1 = .customUrl →
          mark ∈ meaning tag.id → GoesOn (began (last :: earlier)) last tag mark)

instance decidableLinksGoOn : (tags : List Tag) → Decidable (LinksGoOn tags)
  | [] => inferInstanceAs (Decidable True)
  | [_] => inferInstanceAs (Decidable True)
  | _ :: last :: earlier =>
      have := decidableLinksGoOn (last :: earlier)
      inferInstanceAs (Decidable (_ ∧ _))

/-! ## One tag -/

/-- What every tag does to the ranges. -/
structure Stepped (c : Converting) (n : Nesting Mark Int) (tag : Tag) (n' : Nesting Mark Int) : Prop where
  follows : (processTag c tag).Follows n'
  offset : (processTag c tag).offset = tag.offset + tag.length
  state : (processTag c tag).state = stateForTag tag.id
  well : WellNested n' tag.offset
  paints : ∀ position < tag.offset, ∀ mark,
    n'.Paints position mark ↔ position < c.offset ∧ n.Paints position mark

theorem stepped_touching (h : c.Follows n) (well : WellNested n c.offset) (joined : IsJoined tag.id)
    (touching : c.offset = tag.offset) :
    ∃ n', Stepped c n tag n' ∧ n'.running =
      ((Converting.opened c.state.link (n.running.rtakeWhile fun r => (stateForTag tag.id).wants r.1)
        (stateForTag tag.id)).map fun mark => (mark, tag.offset)).reverse ++
        n.running.rtakeWhile fun r => (stateForTag tag.id).wants r.1 := by
  have step : processTag c tag =
      { c.processState (stateForTag tag.id) with
        offset := (c.processState (stateForTag tag.id)).offset + tag.length } := by
    have here : { c with offset := tag.offset } = c := by rw [← touching]
    rw [processTag, if_neg (by omega)]
    simp only [here]
  obtain ⟨n', follows, offset, turned, running⟩ :=
    Converting.follows_processState h (stateForTag tag.id) (noMention_stateForTag joined)
  rw [touching] at offset turned running well
  refine ⟨n', ⟨?_, ?_, ?_, turned.well well, fun position before mark => ?_⟩, running⟩
  · rw [step]
    exact { follows with }
  · rw [step]
    simp only [offset]
  · rw [step]
    rfl
  · rw [turned.paints position before mark, touching]
    exact (and_iff_right before).symm

theorem wants_nothing (mark : Mark) : ({} : State).wants mark = false := by
  apply Bool.eq_false_iff.mpr
  intro wanted
  obtain ⟨-, -, has⟩ | ⟨-, empty, present⟩ := State.wants_iff.mp wanted
  · cases has
  · exact present empty

/-- A state without marks closes all. -/
theorem follows_clear (h : c.Follows n) :
    ∃ n', (c.processState {}).Follows n' ∧ (c.processState {}).offset = c.offset ∧ n.Turned n' c.offset ∧
      n'.running = [] := by
  obtain ⟨n', follows, offset, turned, running⟩ := Converting.follows_processState h {} rfl
  refine ⟨n', follows, offset, turned, ?_⟩
  have kept : (n.running.rtakeWhile fun r => ({} : State).wants r.1) = [] := by
    refine List.eq_nil_iff_forall_not_mem.mpr fun r member => ?_
    have wanted := List.mem_rtakeWhile_imp member
    rw [wants_nothing] at wanted
    cases wanted
  have opened : ∀ link, Converting.opened link [] {} = [] := fun link => by
    simp [Converting.opened, State.has]
  rw [running, kept, opened]
  rfl

theorem stepped_gap (h : c.Follows n) (well : WellNested n c.offset) (joined : IsJoined tag.id)
    (gap : c.offset < tag.offset) :
    ∃ n', Stepped c n tag n' ∧ n'.running =
      ((Converting.opened [] [] (stateForTag tag.id)).map fun mark => (mark, tag.offset)).reverse := by
  obtain ⟨n₁, cleared, offset₁, turned₁, running₁⟩ := follows_clear h
  have well₁ := turned₁.well well
  have moved : Converting.Follows { c.processState {} with offset := tag.offset } n₁ := { cleared with }
  obtain ⟨n', follows, offset, turned, running⟩ :=
    Converting.follows_processState moved (stateForTag tag.id) (noMention_stateForTag joined)
  have step : processTag c tag =
      { ({ c.processState {} with offset := tag.offset }).processState (stateForTag tag.id) with
        offset := (({ c.processState {} with offset := tag.offset }).processState (stateForTag tag.id)).offset +
          tag.length } := by
    rw [processTag, if_pos gap]
  refine ⟨n', ⟨?_, ?_, ?_, turned.well (well₁.later (le_of_lt gap)), fun position before mark => ?_⟩, ?_⟩
  · rw [step]
    exact { follows with }
  · rw [step]
    simp only [offset]
  · rw [step]
    rfl
  · rw [turned.paints position before mark]
    by_cases reached : c.offset ≤ position
    · rw [well₁.paints reached, running₁]
      exact iff_of_false List.not_mem_nil fun both => absurd both.1 (not_lt_of_ge reached)
    · rw [turned₁.paints position (not_le.mp reached) mark]
      exact (and_iff_right (not_le.mp reached)).symm
  · rw [running, running₁]
    exact List.append_nil _

theorem stepped (h : c.Follows n) (well : WellNested n c.offset) (joined : IsJoined tag.id)
    (after : c.offset ≤ tag.offset) : ∃ n', Stepped c n tag n' := by
  by_cases gap : c.offset < tag.offset
  · obtain ⟨n', step, -⟩ := stepped_gap h well joined gap
    exact ⟨n', step⟩
  · obtain ⟨n', step, -⟩ := stepped_touching h well joined (le_antisymm after (not_lt.mp gap))
    exact ⟨n', step⟩

theorem Stepped.later {n' : Nesting Mark Int} (h : Stepped c n tag n') (positive : 0 < tag.length) :
    WellNested n' (processTag c tag).offset := by
  rw [h.offset]
  exact h.well.later (by omega)

/-! ## Tags so far -/

/-- After some tags, the latest first, the marks are all painted and the ranges began where they should. -/
structure Tracks (tag : Tag) (earlier : List Tag) (c : Converting) (n : Nesting Mark Int) : Prop where
  follows : c.Follows n
  offset : c.offset = tag.offset + tag.length
  state : c.state = stateForTag tag.id
  well : WellNested n c.offset
  paints : ∀ position < c.offset, ∀ mark,
    n.Paints position mark ↔ ∃ t ∈ tag :: earlier, t.Covers position ∧ mark ∈ meaning t.id
  running : ∀ r, r ∈ n.running ↔ r.1 ∈ meaning tag.id ∧ r.2 = began (tag :: earlier) r.1
  begun : ∀ r ∈ n.running, r.2 ≤ tag.offset
  sorted : n.running.Pairwise fun later earlier => age earlier < age later

/-- The ranges that are kept are those that go on. -/
theorem Tracks.mem_kept (h : Tracks last earlier c n) (joined : IsJoined tag.id)
    (touching : c.offset = tag.offset) (r : Mark × Int) :
    (r ∈ n.running.rtakeWhile fun r => (stateForTag tag.id).wants r.1) ↔
      r.2 = began (last :: earlier) r.1 ∧ GoesOn (began (last :: earlier)) last tag r.1 := by
  rw [mem_rtakeWhile h.sorted, h.running]
  constructor
  · rintro ⟨⟨member, start⟩, older⟩
    refine ⟨start, h.offset.symm.trans touching, member, fun other inside below => ?_⟩
    have runs := (h.running (other, began (last :: earlier) other)).mpr ⟨inside, rfl⟩
    rw [← start] at below
    exact (wants_stateForTag joined other).mp (older _ runs below)
  · rintro ⟨start, -, member, older⟩
    refine ⟨⟨member, start⟩, fun b runs below => ?_⟩
    obtain ⟨inside, start'⟩ := (h.running b).mp runs
    refine (wants_stateForTag joined b.1).mpr (older b.1 inside ?_)
    rw [← start, ← start']
    exact below

theorem GoesOn.mem {began : Mark → Int} {mark : Mark} (h : GoesOn began last tag mark) : mark ∈ meaning tag.id :=
  h.2.2 mark h.2.1 (le_refl _)

theorem sorted_opened (link : QString) (kept : List (Mark × Int)) (nextState : State) :
    (Converting.opened link kept nextState).Pairwise fun first second => rank first < rank second := by
  have formats : (kInMaskTypes.map fun type => ((type, []) : Mark)).Pairwise
      fun first second => rank first < rank second := by decide
  have some := (List.pairwise_map.mp formats).filter fun type =>
    nextState.has type && !(kept.map fun r => r.1.1).contains type
  have rest : ((kInMaskTypes.filter fun type =>
      nextState.has type && !(kept.map fun r => r.1.1).contains type).map fun type => ((type, []) : Mark)).Pairwise
      fun first second => rank first < rank second := List.pairwise_map.mpr some
  rw [Converting.opened]
  split_ifs
  · refine List.pairwise_cons.mpr ⟨fun mark member => ?_, rest⟩
    obtain ⟨type, inside, rfl⟩ := List.mem_map.mp member
    have inMask := List.mem_of_mem_filter inside
    simp only [rank, if_neg customUrl_notInMask, if_pos inMask]
    omega
  · exact rest

/-- New ranges are younger than the kept ones. -/
theorem sorted_running {link : QString} {kept : List (Mark × Int)} {nextState : State} {offset : Int}
    (sorted : kept.Pairwise fun later earlier => age earlier < age later) (before : ∀ r ∈ kept, r.2 < offset) :
    (((Converting.opened link kept nextState).map fun mark => (mark, offset)).reverse ++ kept).Pairwise
      fun later earlier => age earlier < age later := by
  refine List.pairwise_append.mpr ⟨List.pairwise_reverse.mpr (List.pairwise_map.mpr ?_), sorted, ?_⟩
  · refine (sorted_opened link kept nextState).imp fun less => ?_
    exact Prod.Lex.toLex_lt_toLex.mpr (.inr ⟨rfl, less⟩)
  · intro r member r' kept'
    obtain ⟨mark, -, rfl⟩ := List.mem_map.mp (List.mem_reverse.mp member)
    exact Prod.Lex.toLex_lt_toLex.mpr (.inl (before r' kept'))

/-- What a new tag opens, where the links so far go on. -/
theorem Tracks.mem_opened (h : Tracks last earlier c n) (joinedLast : IsJoined last.id) (joined : IsJoined tag.id)
    (touching : c.offset = tag.offset) (goOn : LinksGoOn (tag :: last :: earlier)) (mark : Mark) :
    mark ∈ Converting.opened c.state.link (n.running.rtakeWhile fun r => (stateForTag tag.id).wants r.1)
        (stateForTag tag.id) ↔
      mark ∈ meaning tag.id ∧ ¬ GoesOn (began (last :: earlier)) last tag mark := by
  obtain ⟨type, data⟩ := mark
  have kept := h.mem_kept joined touching
  rw [Converting.mem_opened]
  constructor
  · rintro (⟨same, changed, present⟩ | ⟨inMask, empty, has, missing⟩)
    · obtain ⟨rfl, rfl⟩ := Prod.mk.inj same
      refine ⟨(wants_stateForTag joined _).mp (State.wants_iff.mpr (.inr ⟨rfl, rfl, present⟩)), fun goes => ?_⟩
      obtain ⟨inMask, -⟩ | ⟨-, before, -⟩ := State.wants_iff.mp ((wants_stateForTag joinedLast _).mpr goes.2.1)
      · exact customUrl_notInMask inMask
      · exact changed (before.trans (congrArg State.link h.state.symm))
    · refine ⟨(wants_stateForTag joined _).mp (State.wants_iff.mpr (.inl ⟨inMask, empty, has⟩)), fun goes => ?_⟩
      exact missing (List.mem_map.mpr ⟨((type, data), began (last :: earlier) (type, data)), (kept _).mpr ⟨rfl, goes⟩, rfl⟩)
  · rintro ⟨member, stops⟩
    obtain ⟨inMask, rfl, has⟩ | ⟨rfl, rfl, present⟩ := State.wants_iff.mp ((wants_stateForTag joined _).mpr member)
    · refine .inr ⟨inMask, rfl, has, fun runs => ?_⟩
      obtain ⟨⟨⟨type', data'⟩, start⟩, inside, same⟩ := List.mem_map.mp runs
      obtain rfl : type' = type := same
      obtain ⟨-, goes⟩ := (kept _).mp inside
      obtain ⟨-, rfl, -⟩ | ⟨rfl, -⟩ := State.wants_iff.mp ((wants_stateForTag joined _).mpr goes.mem)
      · exact stops goes
      · exact customUrl_notInMask inMask
    · refine .inl ⟨rfl, fun same => stops ?_, present⟩
      refine goOn.2 (h.offset.symm.trans touching) _ ?_ rfl member
      refine (wants_stateForTag joinedLast _).mp (State.wants_iff.mpr (.inr ⟨rfl, ?_, present⟩))
      exact same.trans (congrArg State.link h.state)

theorem Tracks.mem_running (h : Tracks last earlier c n) (joinedLast : IsJoined last.id) (joined : IsJoined tag.id)
    (touching : c.offset = tag.offset) (goOn : LinksGoOn (tag :: last :: earlier)) (r : Mark × Int) :
    (r ∈ ((Converting.opened c.state.link (n.running.rtakeWhile fun r => (stateForTag tag.id).wants r.1)
        (stateForTag tag.id)).map fun mark => (mark, tag.offset)).reverse ++
        n.running.rtakeWhile fun r => (stateForTag tag.id).wants r.1) ↔
      r.1 ∈ meaning tag.id ∧ r.2 = began (tag :: last :: earlier) r.1 := by
  rw [Converting.mem_begun, h.mem_opened joinedLast joined touching goOn, h.mem_kept joined touching, began]
  split_ifs with goes
  · constructor
    · rintro (⟨⟨-, stops⟩, -⟩ | ⟨start, -⟩)
      · exact absurd goes stops
      · exact ⟨goes.mem, start⟩
    · rintro ⟨-, start⟩
      exact .inr ⟨start, goes⟩
  · constructor
    · rintro (⟨⟨member, -⟩, start⟩ | ⟨-, goes'⟩)
      · exact ⟨member, start⟩
      · exact absurd goes' goes
    · rintro ⟨member, start⟩
      exact .inl ⟨⟨member, goes⟩, start⟩

theorem Stepped.tracks {n' : Nesting Mark Int} (step : Stepped c n tag n') (positive : 0 < tag.length)
    (ends : ∀ t ∈ earlier, t.offset + t.length ≤ tag.offset)
    (paints : ∀ position < tag.offset, ∀ mark, (position < c.offset ∧ n.Paints position mark) ↔
      ∃ t ∈ earlier, t.Covers position ∧ mark ∈ meaning t.id)
    (running : ∀ r, r ∈ n'.running ↔ r.1 ∈ meaning tag.id ∧ r.2 = began (tag :: earlier) r.1)
    (sorted : n'.running.Pairwise fun later earlier => age earlier < age later) :
    Tracks tag earlier (processTag c tag) n' := by
  refine ⟨step.follows, step.offset, step.state, step.later positive, fun position before mark => ?_, running,
    step.well.begun, sorted⟩
  rw [List.exists_mem_cons_iff]
  by_cases reached : tag.offset ≤ position
  · have covers : tag.Covers position := ⟨reached, step.offset ▸ before⟩
    have others : ¬ ∃ t ∈ earlier, t.Covers position ∧ mark ∈ meaning t.id := by
      rintro ⟨t, member, inside, -⟩
      have := ends t member
      have := inside.2
      omega
    rw [step.well.paints reached, or_iff_left others, List.mem_map]
    constructor
    · rintro ⟨r, member, rfl⟩
      exact ⟨covers, ((running r).mp member).1⟩
    · rintro ⟨-, member⟩
      exact ⟨(mark, began (tag :: earlier) mark), (running _).mpr ⟨member, rfl⟩, rfl⟩
  · have outside : ¬ (tag.Covers position ∧ mark ∈ meaning tag.id) := fun inside => reached inside.1.1
    rw [step.paints position (not_le.mp reached) mark, paints position (not_le.mp reached) mark, or_iff_right outside]

/-- Where nothing runs, all the marks of a tag are begun. -/
theorem mem_opened_fresh (joined : IsJoined tag.id) (mark : Mark) :
    mark ∈ Converting.opened [] [] (stateForTag tag.id) ↔ mark ∈ meaning tag.id := by
  rw [Converting.mem_opened, ← wants_stateForTag joined, State.wants_iff]
  constructor
  · rintro (⟨rfl, -, present⟩ | ⟨inMask, empty, has, -⟩)
    · exact .inr ⟨rfl, rfl, present⟩
    · exact .inl ⟨inMask, empty, has⟩
  · rintro (⟨inMask, empty, has⟩ | ⟨type, address, present⟩)
    · exact .inr ⟨inMask, empty, has, List.not_mem_nil⟩
    · refine .inl ⟨Prod.ext type address, ?_, ?_⟩
      · exact fun empty => present (address.trans empty)
      · exact fun empty => present (address.trans empty)

theorem mem_running_fresh (joined : IsJoined tag.id) (start : ∀ mark, began (tag :: earlier) mark = tag.offset)
    (r : Mark × Int) :
    r ∈ ((Converting.opened [] [] (stateForTag tag.id)).map fun mark => (mark, tag.offset)).reverse ↔
      r.1 ∈ meaning tag.id ∧ r.2 = began (tag :: earlier) r.1 := by
  have begun := @Converting.mem_begun tag.offset (Converting.opened [] [] (stateForTag tag.id)) [] r
  rw [List.append_nil, mem_opened_fresh joined, or_iff_left List.not_mem_nil] at begun
  rw [begun, start]

theorem sorted_running_fresh (nextState : State) (offset : Int) :
    (((Converting.opened [] [] nextState).map fun mark => (mark, offset)).reverse).Pairwise
      fun later earlier => age earlier < age later := by
  have sorted := @sorted_running [] [] nextState offset .nil nofun
  rwa [List.append_nil] at sorted

/-- The first tag; what comes before it does not matter. -/
theorem tracks_first (joined : IsJoined tag.id) (positive : 0 < tag.length) :
    ∃ n, Tracks tag [] (processTag {} tag) n := by
  have same : processTag {} tag = processTag { offset := tag.offset } tag := by
    have idle : ({} : Converting).processState {} = {} := rfl
    simp only [processTag, idle, ite_self, gt_iff_lt, lt_self_iff_false, if_false]
  rw [same]
  obtain ⟨n, step, running⟩ :=
    stepped_touching (Converting.follows_empty tag.offset) (wellNested_empty _) joined rfl
  have running := running.trans (List.append_nil _)
  refine ⟨n, step.tracks positive nofun (fun position before mark => ?_) ?_ ?_⟩
  · refine iff_of_false ?_ (by rintro ⟨t, member, -⟩; cases member)
    rintro ⟨-, ⟨piece, member, -⟩ | ⟨r, member, -⟩⟩
    · cases member
    · cases member
  · rw [running]
    exact @mem_running_fresh [] tag joined fun mark => rfl
  · rw [running]
    exact sorted_running_fresh _ _

/-- The next tag, when the links go on. -/
theorem Tracks.next (h : Tracks last earlier c n) (joinedLast : IsJoined last.id) (joined : IsJoined tag.id)
    (positiveLast : 0 < last.length) (positive : 0 < tag.length)
    (ends : ∀ t ∈ last :: earlier, t.offset + t.length ≤ tag.offset)
    (inside : ∀ t ∈ last :: earlier, t.offset + t.length ≤ c.offset)
    (goOn : LinksGoOn (tag :: last :: earlier)) :
    ∃ n', Tracks tag (last :: earlier) (processTag c tag) n' := by
  have paints : ∀ position < tag.offset, ∀ mark, (position < c.offset ∧ n.Paints position mark) ↔
      ∃ t ∈ last :: earlier, t.Covers position ∧ mark ∈ meaning t.id := by
    intro position _ mark
    constructor
    · rintro ⟨before, painted⟩
      exact (h.paints position before mark).mp painted
    · rintro ⟨t, member, covers, marked⟩
      have before : position < c.offset := lt_of_lt_of_le covers.2 (inside t member)
      exact ⟨before, (h.paints position before mark).mpr ⟨t, member, covers, marked⟩⟩
  by_cases gap : c.offset < tag.offset
  · obtain ⟨n', step, running⟩ := stepped_gap h.follows h.well joined gap
    have anew : ∀ mark, began (tag :: last :: earlier) mark = tag.offset := fun mark => by
      rw [began, if_neg fun goes => absurd (h.offset.trans goes.1) (ne_of_lt gap)]
    refine ⟨n', step.tracks positive ends paints ?_ ?_⟩
    · rw [running]
      exact mem_running_fresh joined anew
    · rw [running]
      exact sorted_running_fresh _ _
  · have touching : c.offset = tag.offset :=
      le_antisymm (h.offset ▸ ends last List.mem_cons_self) (not_lt.mp gap)
    obtain ⟨n', step, running⟩ := stepped_touching h.follows h.well joined touching
    refine ⟨n', step.tracks positive ends paints ?_ ?_⟩
    · rw [running]
      exact h.mem_running joinedLast joined touching goOn
    · rw [running]
      refine sorted_running (h.sorted.sublist (List.rtakeWhile_suffix _ _).sublist) fun r member => ?_
      have begun := h.begun r ((List.rtakeWhile_suffix _ _).subset member)
      have := h.offset
      omega

/-- A link that does not go on is not there at the start of the tag. -/
theorem Tracks.lost (h : Tracks last earlier c n) (joinedLast : IsJoined last.id) (joined : IsJoined tag.id)
    (touching : c.offset = tag.offset) {url : QString} (before : (.customUrl, url) ∈ meaning last.id)
    (wanted : (.customUrl, url) ∈ meaning tag.id)
    (stops : ¬ GoesOn (began (last :: earlier)) last tag (.customUrl, url)) :
    ∃ n', Stepped c n tag n' ∧ ¬ n'.Paints tag.offset (.customUrl, url) := by
  obtain ⟨n', step, running⟩ := stepped_touching h.follows h.well joined touching
  refine ⟨n', step, ?_⟩
  rw [step.well.paints (le_refl _), running, List.mem_map]
  rintro ⟨⟨mark, start⟩, member, rfl⟩
  cases Converting.mem_begun.mp member with
  | inl new =>
      obtain ⟨-, changed, -⟩ | ⟨inMask, -⟩ := Converting.mem_opened.mp new.1
      · have now := ((State.wants_link _ _).mp ((wants_stateForTag joined _).mpr wanted)).1
        have past := ((State.wants_link _ _).mp ((wants_stateForTag joinedLast _).mpr before)).1
        exact changed (now.symm.trans (past.trans (congrArg State.link h.state.symm)))
      · exact customUrl_notInMask inMask
  | inr kept => exact stops ((h.mem_kept joined touching _).mp kept).2

/-! ## All tags -/

/-- What `FieldTags` says, for the tags the latest first. -/
structure LatestFirst (tags : List Tag) : Prop where
  sorted : tags.Pairwise fun after before => before.offset + before.length ≤ after.offset
  positive : ∀ tag ∈ tags, 0 < tag.length
  joined : ∀ tag ∈ tags, IsJoined tag.id

namespace LatestFirst

theorem tail (h : LatestFirst (tag :: earlier)) : LatestFirst earlier :=
  ⟨(List.pairwise_cons.mp h.sorted).2, fun t member => h.positive t (List.mem_cons_of_mem _ member),
    fun t member => h.joined t (List.mem_cons_of_mem _ member)⟩

theorem ends (h : LatestFirst (tag :: earlier)) : ∀ t ∈ earlier, t.offset + t.length ≤ tag.offset :=
  (List.pairwise_cons.mp h.sorted).1

/-- No tag ends behind the latest. -/
theorem inside (h : LatestFirst (tag :: earlier)) :
    ∀ t ∈ tag :: earlier, t.offset + t.length ≤ tag.offset + tag.length := by
  intro t member
  have positive := h.positive tag List.mem_cons_self
  cases List.mem_cons.mp member with
  | inl same => exact same ▸ le_refl _
  | inr member =>
      have := h.ends t member
      omega

end LatestFirst

def convert (tags : List Tag) : Converting := tags.foldr (fun tag c => processTag c tag) {}

theorem tracks_convert (h : LatestFirst (tag :: earlier)) (goOn : LinksGoOn (tag :: earlier)) :
    ∃ n, Tracks tag earlier (convert (tag :: earlier)) n := by
  have joined := h.joined tag List.mem_cons_self
  have positive := h.positive tag List.mem_cons_self
  induction earlier generalizing tag with
  | nil => exact tracks_first joined positive
  | cons last earlier ih =>
      have joinedLast := h.tail.joined last List.mem_cons_self
      have positiveLast := h.tail.positive last List.mem_cons_self
      obtain ⟨n, tracks⟩ := ih h.tail goOn.1 joinedLast positiveLast
      have inside : ∀ t ∈ last :: earlier, t.offset + t.length ≤ (convert (last :: earlier)).offset := by
        rw [tracks.offset]
        exact h.tail.inside
      exact tracks.next joinedLast joined positiveLast positive h.ends inside goOn

/-- A position is without one of its marks. -/
structure Lost (tags : List Tag) (c : Converting) (position : Int) (mark : Mark) : Prop where
  wanted : ∃ t ∈ tags, t.Covers position ∧ mark ∈ meaning t.id
  passed : position < c.offset
  missing : ∃ n, c.Follows n ∧ WellNested n c.offset ∧ ¬ n.Paints position mark

theorem lost_convert (h : LatestFirst (tag :: earlier)) (stops : ¬ LinksGoOn (tag :: earlier)) :
    (convert (tag :: earlier)).offset = tag.offset + tag.length ∧
      ∃ position mark, Lost (tag :: earlier) (convert (tag :: earlier)) position mark := by
  have joined := h.joined tag List.mem_cons_self
  have positive := h.positive tag List.mem_cons_self
  induction earlier generalizing tag with
  | nil => exact absurd trivial stops
  | cons last earlier ih =>
      have joinedLast := h.tail.joined last List.mem_cons_self
      have positiveLast := h.tail.positive last List.mem_cons_self
      by_cases before : LinksGoOn (last :: earlier)
      · obtain ⟨n, tracks⟩ := tracks_convert h.tail before
        obtain ⟨touching, fails⟩ := Classical.not_imp.mp (not_and.mp stops before)
        simp only [not_forall] at fails
        obtain ⟨⟨type, url⟩, past, rfl, now, fails⟩ := fails
        obtain ⟨n', step, missing⟩ := tracks.lost joinedLast joined (tracks.offset.trans touching) past now fails
        have covers : tag.Covers tag.offset := ⟨le_refl _, by omega⟩
        refine ⟨step.offset, tag.offset, (.customUrl, url), ⟨tag, List.mem_cons_self, covers, now⟩, ?_, n',
          step.follows, step.later positive, missing⟩
        rw [convert, List.foldr_cons, ← convert, step.offset]
        exact covers.2
      · obtain ⟨offset, position, mark, wanted, passed, n, follows, well, missing⟩ :=
          ih h.tail before joinedLast positiveLast
        have after : (convert (last :: earlier)).offset ≤ tag.offset := offset ▸ h.ends last List.mem_cons_self
        obtain ⟨n', step⟩ := stepped follows well joined after
        obtain ⟨t, member, inside⟩ := wanted
        refine ⟨step.offset, position, mark, ⟨t, List.mem_cons_of_mem _ member, inside⟩, ?_, n', step.follows,
          step.later positive, ?_⟩
        · rw [convert, List.foldr_cons, ← convert, step.offset]
          omega
        · rw [step.paints position (lt_of_lt_of_le passed after)]
          exact fun painted => missing painted.2

/-! ## The entities -/

/-- In the end all entities are closed, and they are the finished ranges. -/
theorem convert_result (h : c.Follows n) (well : WellNested n c.offset) :
    ∃ n', n.Turned n' c.offset ∧ WellNested n' c.offset ∧ n'.running = [] ∧
      ∀ piece, piece ∈ n'.done ↔ ∃ entity ∈ (c.processState {}).result, entity.piece = piece := by
  obtain ⟨n', follows, -, turned, running⟩ := follows_clear h
  have closed : (c.processState {}).notClosedEntities = [] := by
    have stack := follows.stack
    rw [running, List.map_nil] at stack
    exact List.map_eq_nil_iff.mp stack
  refine ⟨n', turned, turned.well well, running, fun piece => ?_⟩
  rw [follows.closed piece, closed]
  constructor
  · rintro ⟨index, entity, found, -, same⟩
    exact ⟨entity, List.mem_of_getElem? found, same⟩
  · rintro ⟨entity, member, same⟩
    obtain ⟨index, found⟩ := List.mem_iff_getElem?.mp member
    exact ⟨index, entity, found, List.not_mem_nil, same⟩

theorem covered_iff {entities : List EntityInText} {n : Nesting Mark Int} (stopped : n.running = [])
    (done : ∀ piece, piece ∈ n.done ↔ ∃ entity ∈ entities, entity.piece = piece) (position : Int) (mark : Mark) :
    (∃ entity ∈ entities.filter fun entity => 0 < entity.length, entity.Covers position ∧ entity.mark = mark) ↔
      n.Paints position mark := by
  have none : ¬ ∃ r ∈ n.running, r.1 = mark ∧ r.2 ≤ position := by
    rw [stopped]
    rintro ⟨r, member, -⟩
    cases member
  rw [Paints, or_iff_left none]
  constructor
  · rintro ⟨entity, member, covers, same⟩
    exact ⟨entity.piece, (done _).mpr ⟨entity, List.mem_of_mem_filter member, rfl⟩, same, covers⟩
  · rintro ⟨piece, member, same, covers⟩
    obtain ⟨entity, inside, rfl⟩ := (done piece).mp member
    have covers : entity.Covers position := covers
    refine ⟨entity, List.mem_filter.mpr ⟨inside, decide_eq_true ?_⟩, covers, same⟩
    have := covers.1.trans_lt covers.2
    omega

theorem ConvertTextTagsToEntities_eq (tags : List Tag) :
    ConvertTextTagsToEntities tags =
      ((convert tags.reverse).processState {}).result.filter fun entity => 0 < entity.length := by
  rw [convert, List.foldr_reverse]
  rfl

theorem FieldTags.latestFirst (h : FieldTags tags) : LatestFirst tags.reverse :=
  ⟨List.pairwise_reverse.mpr h.sorted, fun tag member => h.positive tag (List.mem_reverse.mp member),
    fun tag member => h.joined tag (List.mem_reverse.mp member)⟩

/-- The entities have the marks of the tags exactly when every link that is in two tags that touch
goes on from one into the other. -/
theorem convert_meets_iff (valid : FieldTags tags) :
    Meets tags (ConvertTextTagsToEntities tags) ↔ LinksGoOn tags.reverse := by
  have latest := valid.latestFirst
  have reversed : ∀ tag, tag ∈ tags ↔ tag ∈ tags.reverse := fun tag => List.mem_reverse.symm
  rw [ConvertTextTagsToEntities_eq]
  generalize tags.reverse = history at latest reversed
  cases history with
  | nil =>
      have empty : tags = [] := List.eq_nil_iff_forall_not_mem.mpr fun tag member => by
        cases (reversed tag).mp member
      subst empty
      refine iff_of_true ⟨fun position mark => ?_, nofun, nofun⟩ trivial
      exact iff_of_false (by rintro ⟨entity, member, -⟩; cases member) (by rintro ⟨tag, member, -⟩; cases member)
  | cons tag earlier =>
      constructor
      · intro meets
        apply Classical.byContradiction
        intro stops
        obtain ⟨-, position, mark, ⟨t, member, inside⟩, passed, n, follows, well, missing⟩ := lost_convert latest stops
        obtain ⟨n', turned, -, stopped, done⟩ := convert_result follows well
        have painted := (covered_iff stopped done position mark).mp
          ((meets.marks position mark).mpr ⟨t, (reversed t).mpr member, inside⟩)
        exact missing ((turned.paints position passed mark).mp painted)
      · intro goOn
        obtain ⟨n, tracks⟩ := tracks_convert latest goOn
        obtain ⟨n', turned, well, stopped, done⟩ := convert_result tracks.follows tracks.well
        refine ⟨fun position mark => ?_, ?_, ?_⟩
        · rw [covered_iff stopped done position mark]
          have members : (∃ t ∈ tags, t.Covers position ∧ mark ∈ meaning t.id) ↔
              ∃ t ∈ tag :: earlier, t.Covers position ∧ mark ∈ meaning t.id :=
            exists_congr fun t => and_congr_left' (reversed t)
          rw [members]
          by_cases reached : (convert (tag :: earlier)).offset ≤ position
          · rw [well.paints reached, stopped]
            refine iff_of_false List.not_mem_nil ?_
            rintro ⟨t, member, covers, -⟩
            have := latest.inside t member
            have := covers.2
            rw [tracks.offset] at reached
            omega
          · rw [turned.paints position (not_le.mp reached) mark]
            exact tracks.paints position (not_le.mp reached) mark
        · intro entity member
          exact of_decide_eq_true (List.mem_filter.mp member).2
        · intro first member second member'
          exact well.nested _ ((done _).mpr ⟨first, List.mem_of_mem_filter member, rfl⟩) _
            ((done _).mpr ⟨second, List.mem_of_mem_filter member', rfl⟩)

/-- The address of a link. -/
def address : QString := latin1 ['a', '.', 'b']

theorem isLink_address : IsLink address := ⟨by decide, by decide, by decide, by decide⟩

/-- Words of three letters: in bold, as a bold link, and as a link. -/
theorem joined_words :
    IsJoined (JoinTag [kTagBold]) ∧ IsJoined (JoinTag [kTagBold, address]) ∧ IsJoined (JoinTag [address]) := by
  have bold : ∀ single ∈ [kTagBold], IsFormatTag single := fun single member =>
    List.mem_singleton.mp member ▸ rfl
  exact ⟨joined_formats bold (List.nodup_singleton _), joined_link bold (List.nodup_singleton _) isLink_address,
    @joined_link [] nofun .nil _ isLink_address⟩

/-- A link with a bold word in it. -/
def boldInLink : List Tag :=
  [⟨0, 3, JoinTag [address]⟩, ⟨3, 3, JoinTag [kTagBold, address]⟩, ⟨6, 3, JoinTag [address]⟩]

theorem fieldTags_boldInLink : FieldTags boldInLink := by
  obtain ⟨-, both, link⟩ := joined_words
  refine ⟨by decide, by decide, fun tag member => ?_⟩
  simp only [boldInLink, List.mem_cons, List.not_mem_nil, or_false] at member
  obtain rfl | rfl | rfl := member
  · exact link
  · exact both
  · exact link

theorem boldInLink_meets : Meets boldInLink (ConvertTextTagsToEntities boldInLink) :=
  (convert_meets_iff fieldTags_boldInLink).mpr (by decide)

/-- Bold begins before the link and ends in it. -/
def boldIntoLink : List Tag :=
  [⟨0, 3, JoinTag [kTagBold]⟩, ⟨3, 3, JoinTag [kTagBold, address]⟩, ⟨6, 3, JoinTag [address]⟩]

theorem fieldTags_boldIntoLink : FieldTags boldIntoLink := by
  obtain ⟨bold, both, link⟩ := joined_words
  refine ⟨by decide, by decide, fun tag member => ?_⟩
  simp only [boldIntoLink, List.mem_cons, List.not_mem_nil, or_false] at member
  obtain rfl | rfl | rfl := member
  · exact bold
  · exact both
  · exact link

/-- The last word is no link any more. -/
theorem boldIntoLink_loses_link :
    FieldTags boldIntoLink ∧ ¬ Meets boldIntoLink (ConvertTextTagsToEntities boldIntoLink) := by
  refine ⟨fieldTags_boldIntoLink, fun meets => ?_⟩
  have result : ConvertTextTagsToEntities boldIntoLink =
      [{ type := .bold, offset := 0, length := 6 },
        { type := .customUrl, offset := 3, length := 3, data := address }] := by decide
  have last : ∃ tag ∈ boldIntoLink, tag.Covers 6 ∧ ((.customUrl, address) : Mark) ∈ meaning tag.id :=
    ⟨⟨6, 3, JoinTag [address]⟩, by decide, ⟨by decide, by decide⟩, by decide⟩
  obtain ⟨entity, member, ⟨-, covers⟩, -⟩ := (meets.marks 6 (.customUrl, address)).mpr last
  rw [result] at member
  simp only [List.mem_cons, List.not_mem_nil, or_false] at member
  obtain rfl | rfl := member
  · exact absurd covers (by decide)
  · exact absurd covers (by decide)

end TextUtilities

end IMeDesktop.Ui
