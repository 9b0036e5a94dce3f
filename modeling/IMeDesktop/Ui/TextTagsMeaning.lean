import IMeDesktop.Ui.TextTags

/-! # What the id of a tag means

A joined id stands for some marks: formats, and a link. `stateForTag` reads them from the
id one after the other, and a joined id gives it nothing to choose from.
-/

namespace IMeDesktop.Ui.TextUtilities

/-- A format, or a link with its address. -/
abbrev Mark := EntityType × QString

def formatTags : List (QString × EntityType) :=
  [(kTagBold, .bold), (kTagItalic, .italic), (kTagUnderline, .underline), (kTagStrikeOut, .strikeOut),
    (kTagCode, .code), (kTagPre, .pre), (kTagSpoiler, .spoiler)]

def markOf (single : QString) : Option Mark :=
  match formatTags.lookup single with
  | some type => some (type, [])
  | none => if single = [] then none else some (.customUrl, single)

/-- The marks in an id. -/
def meaning (id : QString) : List Mark := (SplitTags id).filterMap markOf

def IsFormatTag (single : QString) : Prop := (formatTags.lookup single).isSome = true

/-- A link that is not a mention. -/
structure IsLink (single : QString) : Prop where
  present : single ≠ []
  whole : kTagSeparator ∉ single
  other : IsMentionLink single = false
  noFormat : formatTags.lookup single = none

/-- An id joined from distinct formats and at most one link. -/
def IsJoined (id : QString) : Prop :=
  ∃ list : List QString, id = JoinTag list ∧ list.Nodup ∧
    (∀ single ∈ list, IsFormatTag single ∨ IsLink single) ∧
    ∀ first ∈ list, ∀ second ∈ list, IsLink first → IsLink second → first = second

theorem joined_formats {formats : List QString} (all : ∀ single ∈ formats, IsFormatTag single)
    (distinct : formats.Nodup) : IsJoined (JoinTag formats) := by
  refine ⟨formats, rfl, distinct, fun single member => .inl (all single member), ?_⟩
  intro first member second _ link
  have format := all first member
  rw [IsFormatTag, link.noFormat] at format
  cases format

theorem joined_link {formats : List QString} (all : ∀ single ∈ formats, IsFormatTag single)
    (distinct : formats.Nodup) {url : QString} (link : IsLink url) : IsJoined (JoinTag (formats ++ [url])) := by
  have only : ∀ single ∈ formats ++ [url], IsLink single → single = url := by
    intro single member other
    cases List.mem_append.mp member with
    | inl member =>
        have format := all single member
        rw [IsFormatTag, other.noFormat] at format
        cases format
    | inr member => exact List.mem_singleton.mp member
  refine ⟨formats ++ [url], rfl, ?_, ?_, ?_⟩
  · refine List.nodup_append.mpr ⟨distinct, List.nodup_singleton url, fun single member other last same => ?_⟩
    have format := all single member
    rw [same, List.mem_singleton.mp last, IsFormatTag, link.noFormat] at format
    cases format
  · intro single member
    cases List.mem_append.mp member with
    | inl member => exact .inl (all single member)
    | inr member => exact .inr (List.mem_singleton.mp member ▸ link)
  · intro first member second member' isLink isLink'
    exact (only first member isLink).trans (only second member' isLink').symm

/-! ## The pieces of a joined id -/

theorem whole_of_format {single : QString} (h : IsFormatTag single) : kTagSeparator ∉ single := by
  obtain ⟨type, found⟩ := Option.isSome_iff_exists.mp h
  obtain ⟨before, after, split, -⟩ := List.lookup_eq_some_iff.mp found
  have all : ∀ e ∈ formatTags, kTagSeparator ∉ e.1 := by decide
  refine all (single, type) ?_
  rw [split]
  exact List.mem_append_right _ List.mem_cons_self

theorem splitTags_join (first : QString) (rest : List QString)
    (whole : ∀ single ∈ first :: rest, kTagSeparator ∉ single) :
    SplitTags (first ++ (rest.map fun tag => kTagSeparator :: tag).flatten) = first :: rest := by
  induction rest generalizing first with
  | nil =>
      rw [List.map_nil, List.flatten_nil, List.append_nil]
      exact List.splitOn_eq_singleton (whole first List.mem_cons_self)
  | cons second rest ih =>
      rw [List.map_cons, List.flatten_cons, List.cons_append, SplitTags,
        List.splitOn_append_cons_self_of_not_mem (whole first List.mem_cons_self)]
      congr 1
      exact ih second fun single member => whole single (List.mem_cons_of_mem _ member)

/-- The pieces are formats and one link, or there is one piece and it is empty. -/
theorem pieces_joined {id : QString} (h : IsJoined id) :
    SplitTags id = [[]] ∨
      (∀ single ∈ SplitTags id, IsFormatTag single ∨ IsLink single) ∧
        ∀ first ∈ SplitTags id, ∀ second ∈ SplitTags id, IsLink first → IsLink second → first = second := by
  obtain ⟨list, rfl, -, kinds, one⟩ := h
  cases list with
  | nil => exact .inl rfl
  | cons first rest =>
      have sub : ∀ single ∈ first :: rest.filter fun tag => !IsSeparateTag tag, single ∈ first :: rest := by
        intro single member
        cases List.mem_cons.mp member with
        | inl same => exact same ▸ List.mem_cons_self
        | inr member => exact List.mem_cons_of_mem _ (List.mem_of_mem_filter member)
      have whole : ∀ single ∈ first :: rest.filter fun tag => !IsSeparateTag tag, kTagSeparator ∉ single := by
        intro single member
        cases kinds single (sub single member) with
        | inl format => exact whole_of_format format
        | inr link => exact link.whole
      rw [JoinTag, splitTags_join first _ whole]
      exact .inr ⟨fun single member => kinds single (sub single member),
        fun a memberA b memberB => one a (sub a memberA) b (sub b memberB)⟩

/-! ## Reading an id -/

theorem lookup_cons (single tag : QString) (type : EntityType) (rest : List (QString × EntityType)) :
    ((tag, type) :: rest).lookup single = if single = tag then some type else rest.lookup single := by
  by_cases same : single = tag
  · rw [if_pos same, same, List.lookup_cons_self]
  · rw [if_neg same, List.lookup_cons, beq_false_of_ne same]

theorem addTag_eq (state : State) (single : QString) :
    addTag state single =
      match formatTags.lookup single with
      | some type => state.set type
      | none => { state with link := single } := by
  simp only [addTag, formatTags, lookup_cons, List.lookup_nil]
  split_ifs <;> rfl

theorem has_addTags (pieces : List QString) (state : State) (type : EntityType) :
    (pieces.foldl addTag state).has type = true ↔
      state.has type = true ∨ ∃ single ∈ pieces, formatTags.lookup single = some type := by
  induction pieces generalizing state with
  | nil => simp
  | cons single pieces ih =>
      have first : (addTag state single).has type = true ↔
          state.has type = true ∨ formatTags.lookup single = some type := by
        rw [addTag_eq]
        cases found : formatTags.lookup single with
        | none => simp [State.has]
        | some other =>
            by_cases same : type = other
            · subst same
              simp [State.has, State.set]
            · simp [State.has, State.set, same, Ne.symm same]
      rw [List.foldl_cons, ih, first, List.exists_mem_cons_iff, or_assoc]

/-- The link is the last piece that is no format. -/
theorem link_addTags (pieces : List QString) (state : State) :
    ((∀ single ∈ pieces, IsFormatTag single) ∧ (pieces.foldl addTag state).link = state.link) ∨
      ((pieces.foldl addTag state).link ∈ pieces ∧ formatTags.lookup (pieces.foldl addTag state).link = none) := by
  induction pieces generalizing state with
  | nil => exact .inl ⟨nofun, rfl⟩
  | cons single pieces ih =>
      rw [List.foldl_cons]
      obtain ⟨formats, same⟩ | ⟨member, other⟩ := ih (addTag state single)
      · rw [same, addTag_eq]
        cases found : formatTags.lookup single with
        | none => exact .inr ⟨List.mem_cons_self, found⟩
        | some type =>
            refine .inl ⟨fun other member => ?_, rfl⟩
            cases List.mem_cons.mp member with
            | inl same =>
                subst same
                rw [IsFormatTag, found]
                rfl
            | inr member => exact formats other member
      · exact .inr ⟨List.mem_cons_of_mem _ member, other⟩

/-! ## The marks of a state -/

theorem customUrl_notInMask : EntityType.customUrl ∉ kInMaskTypes := by decide

namespace State

def wants (state : State) (mark : Mark) : Bool :=
  if mark.1 ∈ kInMaskTypes then state.has mark.1 && mark.2 = []
  else mark.1 = .customUrl && mark.2 = state.link && mark.2 ≠ []

theorem wants_iff {state : State} {mark : Mark} :
    state.wants mark = true ↔ (mark.1 ∈ kInMaskTypes ∧ mark.2 = [] ∧ state.has mark.1 = true) ∨
      (mark.1 = .customUrl ∧ mark.2 = state.link ∧ mark.2 ≠ []) := by
  obtain ⟨type, data⟩ := mark
  rw [wants]
  split_ifs with format
  · have other : type ≠ .customUrl := fun same => customUrl_notInMask (same ▸ format)
    simp [format, other, and_comm]
  · simp [format, and_assoc]

theorem wants_format {type : EntityType} (format : type ∈ kInMaskTypes) (state : State) :
    state.wants (type, []) = state.has type := by
  rw [wants, if_pos format]
  exact Bool.and_true _

theorem wants_link (state : State) (url : QString) :
    state.wants (.customUrl, url) = true ↔ url = state.link ∧ url ≠ [] := by
  rw [wants, if_neg customUrl_notInMask]
  simp only [decide_true, Bool.true_and, Bool.and_eq_true, decide_eq_true_eq]

end State

theorem mem_meaning {id : QString} {mark : Mark} :
    mark ∈ meaning id ↔ ∃ single ∈ SplitTags id, markOf single = some mark := List.mem_filterMap

theorem formats_inMask {single : QString} {type : EntityType} (found : formatTags.lookup single = some type) :
    type ∈ kInMaskTypes := by
  obtain ⟨before, after, split, -⟩ := List.lookup_eq_some_iff.mp found
  have all : ∀ e ∈ formatTags, e.2 ∈ kInMaskTypes := by decide
  refine all (single, type) ?_
  rw [split]
  exact List.mem_append_right _ List.mem_cons_self

theorem markOf_eq_some {single : QString} {mark : Mark} :
    markOf single = some mark ↔
      (formatTags.lookup single = some mark.1 ∧ mark.2 = []) ∨
        (formatTags.lookup single = none ∧ single ≠ [] ∧ mark = (.customUrl, single)) := by
  obtain ⟨type, data⟩ := mark
  rw [markOf]
  cases found : formatTags.lookup single with
  | some other => simp [Prod.ext_iff, eq_comm]
  | none =>
      by_cases empty : single = []
      · simp [empty]
      · simp [empty, Prod.ext_iff, eq_comm]

/-- In a joined id, no piece but the link is no format. -/
theorem link_of_joined {id url : QString} (h : IsJoined id) (member : url ∈ SplitTags id)
    (other : formatTags.lookup url = none) : (stateForTag id).link = url := by
  obtain ⟨formats, -⟩ | ⟨found, otherLink⟩ := link_addTags (SplitTags id) {}
  · have format := formats url member
    rw [IsFormatTag, other] at format
    cases format
  · have noFormat : ∀ {single : QString}, formatTags.lookup single = none → ¬ IsFormatTag single := by
      intro single none format
      rw [IsFormatTag, none] at format
      cases format
    obtain single | ⟨kinds, one⟩ := pieces_joined h
    · rw [single, List.mem_singleton] at member
      have only : (stateForTag id).link ∈ [[]] := single ▸ found
      rw [member]
      exact List.mem_singleton.mp only
    · exact one _ found url member ((kinds _ found).resolve_left (noFormat otherLink))
        ((kinds url member).resolve_left (noFormat other))

/-- A joined id is read right. -/
theorem wants_stateForTag {id : QString} (h : IsJoined id) (mark : Mark) :
    (stateForTag id).wants mark = true ↔ mark ∈ meaning id := by
  obtain ⟨type, data⟩ := mark
  rw [mem_meaning]
  by_cases format : type ∈ kInMaskTypes
  · have reads := has_addTags (SplitTags id) {} type
    have nothing : ¬ ({} : State).has type = true := Bool.false_ne_true
    rw [State.wants, if_pos format, Bool.and_eq_true, stateForTag, reads, decide_eq_true_eq]
    constructor
    · rintro ⟨set | ⟨single, member, found⟩, rfl⟩
      · exact absurd set nothing
      · exact ⟨single, member, markOf_eq_some.mpr (.inl ⟨found, rfl⟩)⟩
    · rintro ⟨single, member, marked⟩
      obtain ⟨found, empty⟩ | ⟨-, -, same⟩ := markOf_eq_some.mp marked
      · exact ⟨.inr ⟨single, member, found⟩, empty⟩
      · obtain ⟨rfl, -⟩ := Prod.mk.inj same
        exact absurd format customUrl_notInMask
  · have reads := link_addTags (SplitTags id) {}
    rw [State.wants, if_neg format]
    simp only [Bool.and_eq_true, decide_eq_true_eq]
    constructor
    · rintro ⟨⟨rfl, rfl⟩, present⟩
      obtain ⟨-, empty⟩ | ⟨member, other⟩ := reads
      · exact absurd empty present
      · exact ⟨_, member, markOf_eq_some.mpr (.inr ⟨other, present, rfl⟩)⟩
    · rintro ⟨single, member, marked⟩
      obtain ⟨found, -⟩ | ⟨other, present, same⟩ := markOf_eq_some.mp marked
      · exact absurd (formats_inMask found) format
      · obtain ⟨rfl, rfl⟩ := Prod.mk.inj same
        exact ⟨⟨rfl, (link_of_joined h member other).symm⟩, present⟩

theorem noMention_stateForTag {id : QString} (h : IsJoined id) :
    IsMentionLink (stateForTag id).link = false := by
  obtain ⟨-, empty⟩ | ⟨member, other⟩ := link_addTags (SplitTags id) {}
  · rw [stateForTag, empty]
    rfl
  · obtain single | ⟨kinds, -⟩ := pieces_joined h
    · have only : (stateForTag id).link ∈ [[]] := single ▸ member
      rw [List.mem_singleton.mp only]
      rfl
    · cases kinds _ member with
      | inl format =>
          rw [IsFormatTag, other] at format
          cases format
      | inr link => exact link.other

end IMeDesktop.Ui.TextUtilities
