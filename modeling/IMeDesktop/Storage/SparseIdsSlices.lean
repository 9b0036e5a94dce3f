import IMeDesktop.Storage.SparseIdsList

/-! # The slices stay apart

Slices are in order, have room between them and hold ids of their range only. Adding a
range finds the slices it touches by two binary searches, which need this order, and
leaves one slice in their place. What is said once about it here is enough for all that
follows: the ids of that slice, its range, and the slices around it.
-/

namespace IMeDesktop.Storage

open Lib

def MsgRange.Holds (range : MsgRange) (id : Int) : Prop := range.start ≤ id ∧ id ≤ range.till

instance (range : MsgRange) (id : Int) : Decidable (range.Holds id) := inferInstanceAs (Decidable (_ ∧ _))

/-- Server ids. -/
def IsServerMsgId (id : Int) : Prop := 0 < id ∧ id < ServerMaxMsgId

instance (id : Int) : Decidable (IsServerMsgId id) := inferInstanceAs (Decidable (_ ∧ _))

structure Slice.WellFormed (s : Slice) : Prop where
  ordered : s.range.start ≤ s.range.till
  inside : ∀ id ∈ s.messages, s.range.Holds id
  server : ∀ id ∈ s.messages, IsServerMsgId id

/-- The slices of a list. -/
structure Separated (slices : List Slice) : Prop where
  wellFormed : ∀ s ∈ slices, s.WellFormed
  apart : slices.Pairwise fun a b => a.range.till < b.range.start

namespace SparseIdsList

/-! ## Uniting -/

/-- A slice in the place of some others and of a range that touches them. -/
structure United (middle : List Slice) (messages : List Int) (range : MsgRange) (u : Slice) : Prop where
  ordered : u.range.start ≤ u.range.till
  mem : ∀ id, id ∈ u.messages ↔ id ∈ messages ∨ ∃ s ∈ middle, id ∈ s.messages
  holds : ∀ id, u.range.Holds id ↔ range.Holds id ∨ ∃ s ∈ middle, s.range.Holds id

/-- The range that is added reaches the slice. -/
def Touches (range : MsgRange) (s : Slice) : Prop := range.start ≤ s.range.till ∧ s.range.start ≤ range.till

variable {slices before middle done todo after : List Slice} {messages : List Int} {range : MsgRange} {s u : Slice}

/-- The hull of two ranges that touch is their union. -/
theorem holds_hull {a b : MsgRange} (left : b.start ≤ a.till) (right : a.start ≤ b.till) (id : Int) :
    (MsgRange.mk (min a.start b.start) (max a.till b.till)).Holds id ↔ a.Holds id ∨ b.Holds id := by
  simp only [MsgRange.Holds]
  omega

theorem United.first (ordered : range.start ≤ range.till) (wellFormed : s.WellFormed) (touches : Touches range s) :
    ∃ u, s.merge messages range = some u ∧ u.range.start = min s.range.start range.start ∧
      United [s] messages range u := by
  refine ⟨_, if_pos touches, rfl, ?_, fun id => ?_, fun id => ?_⟩
  · have := wellFormed.ordered
    simp only
    omega
  · simp only [FlatSet.mem_merge, List.mem_singleton, exists_eq_left]
    exact or_comm
  · simp only [holds_hull touches.1 touches.2, List.mem_singleton, exists_eq_left]
    exact or_comm

theorem United.next (united : United middle messages range u) (ordered : range.start ≤ range.till)
    (touches : Touches range s) :
    ∃ u', u.merge s.messages.items s.range = some u' ∧ u'.range.start = min u.range.start s.range.start ∧
      United (middle ++ [s]) messages range u' := by
  have least := ((united.holds range.start).mpr (.inl ⟨Int.le_refl _, ordered⟩)).1
  have most := ((united.holds range.till).mpr (.inl ⟨ordered, Int.le_refl _⟩)).2
  have reaches : s.range.start ≤ u.range.till ∧ u.range.start ≤ s.range.till :=
    ⟨touches.2.trans most, least.trans touches.1⟩
  refine ⟨_, if_pos reaches, rfl, ?_, fun id => ?_, fun id => ?_⟩
  · have := united.ordered
    simp only
    omega
  · simp only [FlatSet.mem_merge, united.mem, FlatSet.mem_items]
    grind
  · simp only [holds_hull reaches.1 reaches.2, united.holds]
    grind

/-- The slice that grows stays where it is. -/
theorem modify_stays (below : ∀ b ∈ before, b.range.start < u.range.start)
    (above : ∀ b ∈ after, u.range.start < b.range.start) (old : Slice) :
    modify Slice.less (before ++ old :: after) before.length u = before ++ u :: after := by
  refine modify_between (fun b member => ?_) fun b member => ?_
  · have := below b member
    simp only [Slice.less, decide_eq_true_eq, decide_eq_false_iff_not]
    omega
  · have := above b member
    simp only [Slice.less, decide_eq_true_eq, decide_eq_false_iff_not]
    omega

theorem uniteRest_spec (ordered : range.start ≤ range.till) (united : United middle messages range u)
    (below : ∀ b ∈ before, b.range.start < u.range.start)
    (above : ∀ b ∈ done ++ (todo ++ after), u.range.start < b.range.start)
    (touches : ∀ b ∈ todo, Touches range b) :
    ∃ u', uniteRest before.length todo.length (before.length + 1 + done.length)
        (before ++ u :: (done ++ (todo ++ after))) = some (before ++ u' :: (done ++ (todo ++ after))) ∧
      United (middle ++ todo) messages range u' := by
  induction todo generalizing u done middle with
  | nil => exact ⟨u, rfl, by rwa [List.append_nil]⟩
  | cons s todo ih =>
      obtain ⟨touch, touching⟩ := List.forall_mem_cons.mp touches
      obtain ⟨u', merged, start, more⟩ := united.next ordered touch
      have same : u'.range.start = u.range.start := by
        have := above s (by simp)
        omega
      have read : (before ++ u :: (done ++ (s :: todo ++ after)))[before.length + 1 + done.length]? = some s := by
        have position : before.length + 1 + done.length - before.length = done.length + 1 := by omega
        rw [List.getElem?_append_right (by omega), position, List.getElem?_cons_succ,
          List.getElem?_append_right (Nat.le_refl _), Nat.sub_self]
        rfl
      have here : (before ++ u :: (done ++ (s :: todo ++ after)))[before.length]? = some u := by simp
      have modified := @modify_stays before (done ++ (s :: todo ++ after)) u' (by rwa [same]) (by rwa [same]) u
      obtain ⟨u'', rest, all⟩ := @ih (middle ++ [s]) (done ++ [s]) u' more (by rwa [same]) (by simpa [same] using above)
        touching
      refine ⟨u'', ?_, by simpa using all⟩
      rw [List.length_cons, uniteRest]
      simp only [read, here, merged, modified, Option.bind_eq_bind, Option.bind_some]
      simpa [Nat.add_assoc] using rest

theorem uniteAndAdd_spec (separated : Separated (before ++ (s :: todo ++ after))) (ordered : range.start ≤ range.till)
    (low : ∀ b ∈ before, b.range.till < range.start) (touches : ∀ b ∈ s :: todo, Touches range b) :
    ∃ u, United (s :: todo) messages range u ∧
      uniteAndAdd (before ++ (s :: todo ++ after)) before.length (before.length + (s :: todo).length) messages range =
        some
          { slices := before ++ u :: after, messages := some u.messages, range := u.range
            added := u.messages.size - s.messages.size } := by
  obtain ⟨wellFormed, apart⟩ := separated
  obtain ⟨-, inOrder, lower⟩ := List.pairwise_append.mp apart
  obtain ⟨higher, -⟩ := List.pairwise_cons.mp inOrder
  have good : s.WellFormed := wellFormed s (by simp)
  obtain ⟨touch, touching⟩ := List.forall_mem_cons.mp touches
  obtain ⟨u, merged, start, united⟩ := @United.first messages range s ordered good touch
  have below : ∀ b ∈ before, b.range.start < u.range.start := by
    intro b member
    have first := lower b member s (by simp)
    have second := low b member
    have third := (wellFormed b (by simp [member])).ordered
    omega
  have above : ∀ b ∈ todo ++ after, u.range.start < b.range.start := by
    intro b member
    have first := higher b member
    have second := good.ordered
    omega
  have here : (before ++ s :: (todo ++ after))[before.length]? = some s := by simp
  have modified := @modify_stays before (todo ++ after) u below above s
  obtain ⟨u', rest, all⟩ := @uniteRest_spec before [s] [] todo after messages range u ordered united below above
    touching
  rw [List.nil_append] at rest
  have left : before.length + (s :: todo).length - (before.length + 1) = todo.length := by
    rw [List.length_cons]
    omega
  have kept : (before ++ u' :: (todo ++ after)).take (before.length + 1) ++
      (before ++ u' :: (todo ++ after)).drop (before.length + (s :: todo).length) = before ++ u' :: after := by
    have front : before ++ u' :: (todo ++ after) = (before ++ [u']) ++ (todo ++ after) := by simp
    have first : (before ++ [u']).length = before.length + 1 := by simp
    have second : before.length + (s :: todo).length = (before ++ [u'] ++ todo).length := by simp
    rw [front, List.take_left' first, second, ← List.append_assoc, List.drop_left]
    simp
  have result : (before ++ u' :: after)[before.length]? = some u' := by simp
  refine ⟨u', all, ?_⟩
  unfold uniteAndAdd
  simp only [List.cons_append, here, merged, modified, left, Option.bind_eq_bind, Option.bind_some]
  simp only [List.length_nil, Nat.add_zero] at rest
  simp only [rest, Option.bind_some, kept, result]

/-- The three parts of the slices around a range, as the searches find them. -/
theorem split_slices (separated : Separated slices) (ordered : range.start ≤ range.till) :
    ∃ before middle after, slices = before ++ (middle ++ after) ∧ (∀ b ∈ before, b.range.till < range.start) ∧
      (∀ b ∈ middle, Touches range b) ∧ (∀ b ∈ after, range.till < b.range.start) ∧
      partitionPoint (fun slice => decide (slice.range.till < range.start)) slices = before.length ∧
      partitionPoint (fun slice => !decide (range.till < slice.range.start)) slices =
        before.length + middle.length := by
  obtain ⟨wellFormed, apart⟩ := separated
  have byTill : slices.Pairwise fun a b =>
      decide (b.range.till < range.start) = true → decide (a.range.till < range.start) = true := by
    refine apart.imp_of_mem fun {a b} _ member less => ?_
    have := (wellFormed b member).ordered
    simp only [decide_eq_true_eq]
    omega
  obtain ⟨before, rest, split, low, high⟩ := split_of_pairwise byTill
  have inRest : ∀ b ∈ rest, b ∈ slices := fun b member => by rw [split]; exact List.mem_append_right _ member
  have byStart : rest.Pairwise fun a b =>
      (!decide (range.till < b.range.start)) = true → (!decide (range.till < a.range.start)) = true := by
    have apart' : rest.Pairwise fun a b => a.range.till < b.range.start := by
      rw [split] at apart
      exact (List.pairwise_append.mp apart).2.1
    refine apart'.imp_of_mem fun {a b} member _ less => ?_
    have := (wellFormed a (inRest a member)).ordered
    simp only [Bool.not_eq_true', decide_eq_false_iff_not]
    omega
  obtain ⟨middle, after, split', near, far⟩ := split_of_pairwise byStart
  subst split'
  refine ⟨before, middle, after, split, ?_, ?_, ?_, ?_, ?_⟩
  · exact fun b member => by simpa using low b member
  · intro b member
    have first := high b (List.mem_append_left _ member)
    have second := near b member
    simp only [Bool.not_eq_true', decide_eq_false_iff_not] at first second
    exact ⟨by omega, by omega⟩
  · exact fun b member => by simpa using far b member
  · rw [split]
    exact partitionPoint_split low high
  · rw [split, ← List.append_assoc, ← List.length_append]
    refine partitionPoint_split (fun b member => ?_) far
    rcases List.mem_append.mp member with member | member
    · have first := low b member
      have second := (wellFormed b (by rw [split]; exact List.mem_append_left _ member)).ordered
      simp only [decide_eq_true_eq] at first
      simp only [Bool.not_eq_true', decide_eq_false_iff_not]
      omega
    · exact near b member

/-- What adding a range comes to. -/
inductive Adds (slices : List Slice) (messages : List Int) (range : MsgRange) : AddResult → Prop where
  | nothing (empty : messages = []) (point : range.start = range.till) : Adds slices messages range { slices := slices }
  | unites {before middle after : List Slice} {u : Slice} (split : slices = before ++ (middle ++ after))
      (low : ∀ b ∈ before, b.range.till < range.start) (touches : ∀ b ∈ middle, Touches range b)
      (high : ∀ b ∈ after, range.till < b.range.start) (united : United middle messages range u) :
      Adds slices messages range
        { slices := before ++ u :: after, messages := some u.messages, range := u.range
          added := u.messages.size - (middle.head?.map fun s => s.messages.size).getD 0 }

theorem addRangeItemsAndCountNew_adds (separated : Separated slices) (ordered : range.start ≤ range.till)
    (messages : List Int) :
    ∃ result, addRangeItemsAndCountNew slices messages range = some result ∧ Adds slices messages range result := by
  unfold addRangeItemsAndCountNew
  rw [if_neg (Int.not_lt.mpr ordered)]
  by_cases none : range.start = range.till ∧ messages = []
  · rw [if_pos none]
    exact ⟨_, rfl, .nothing none.2 none.1⟩
  · obtain ⟨before, middle, after, split, low, touches, high, uniteFrom, uniteTill⟩ := split_slices separated ordered
    rw [if_neg none]
    simp only [uniteFrom, uniteTill]
    cases middle with
    | nil =>
        have wellFormed := separated.wellFormed
        rw [List.nil_append] at split
        have placed := @emplace_between _ Slice.less before after { messages := .ofList messages, range := range }
          (fun b member => by
            have first := low b member
            have second := (wellFormed b (by rw [split]; exact List.mem_append_left _ member)).ordered
            simp only [Slice.less, decide_eq_true_eq]
            omega)
          (fun b member => by
            have first := high b member
            simp only [Slice.less, decide_eq_true_eq, decide_eq_false_iff_not]
            omega)
        have here : (before ++ { messages := FlatSet.ofList messages, range := range } :: after)[before.length]? =
            some { messages := FlatSet.ofList messages, range := range } := by simp
        rw [if_neg (by simp), split, placed]
        simp only [here, Option.bind_eq_bind, Option.bind_some]
        refine ⟨_, rfl, ?_⟩
        have united : United [] messages range { messages := FlatSet.ofList messages, range := range } :=
          ⟨ordered, fun id => by simp [FlatSet.mem_ofList], fun id => by simp⟩
        have adds := @Adds.unites (before ++ after) messages range before [] after _ rfl low touches high united
        simpa using adds
    | cons s todo =>
        rw [split] at separated
        obtain ⟨u, united, result⟩ := @uniteAndAdd_spec before todo after messages range s separated ordered low touches
        rw [if_pos (by simp), split, result]
        exact ⟨_, rfl, .unites rfl low touches high united⟩

/-! ## Every operation -/

theorem Adds.separated {result : AddResult} (adds : Adds slices messages range result) (separated : Separated slices)
    (inside : ∀ id ∈ messages, range.Holds id) (server : ∀ id ∈ messages, IsServerMsgId id) :
    Separated result.slices := by
  cases adds with
  | nothing => exact separated
  | @unites before middle after u split low touches high united =>
      obtain ⟨wellFormed, apart⟩ := separated
      rw [split] at wellFormed apart
      obtain ⟨apartBefore, apartRest, apartLow⟩ := List.pairwise_append.mp apart
      obtain ⟨-, apartAfter, apartHigh⟩ := List.pairwise_append.mp apartRest
      have good : u.WellFormed := by
        refine ⟨united.ordered, fun id member => ?_, fun id member => ?_⟩
        · refine (united.holds id).mpr ?_
          rcases (united.mem id).mp member with given | ⟨s, inMiddle, held⟩
          · exact .inl (inside id given)
          · exact .inr ⟨s, inMiddle, (wellFormed s (by simp [inMiddle])).inside id held⟩
        · rcases (united.mem id).mp member with given | ⟨s, inMiddle, held⟩
          · exact server id given
          · exact (wellFormed s (by simp [inMiddle])).server id held
      have above : ∀ b ∈ after, u.range.till < b.range.start := by
        intro b member
        rcases (united.holds u.range.till).mp ⟨united.ordered, Int.le_refl _⟩ with own | ⟨s, inMiddle, held⟩
        · exact Int.lt_of_le_of_lt own.2 (high b member)
        · exact Int.lt_of_le_of_lt held.2 (apartHigh s inMiddle b member)
      have below : ∀ b ∈ before, b.range.till < u.range.start := by
        intro b member
        rcases (united.holds u.range.start).mp ⟨Int.le_refl _, united.ordered⟩ with own | ⟨s, inMiddle, held⟩
        · exact Int.lt_of_lt_of_le (low b member) own.1
        · exact Int.lt_of_lt_of_le (apartLow b member s (List.mem_append_left _ inMiddle)) held.1
      refine ⟨fun b member => ?_, List.pairwise_append.mpr ⟨apartBefore, ?_, ?_⟩⟩
      · rcases List.mem_append.mp member with member | member
        · exact wellFormed b (by simp [member])
        · rcases List.mem_cons.mp member with rfl | member
          · exact good
          · exact wellFormed b (by simp [member])
      · exact List.pairwise_cons.mpr ⟨above, apartAfter⟩
      · intro b member c other
        rcases List.mem_cons.mp other with rfl | other
        · exact below b member
        · exact apartLow b member c (List.mem_append_right _ other)

variable {l : SparseIdsList}

theorem fillSlice_separated (separated : Separated l.slices) : Separated l.fillSlice.slices := by
  unfold fillSlice
  split
  · rename_i slice one
    rw [one] at separated
    obtain ⟨ordered, inside, server⟩ := separated.wellFormed slice List.mem_cons_self
    refine ⟨fun s member => ?_, List.pairwise_singleton _ _⟩
    rw [List.mem_singleton] at member
    subst member
    split_ifs
    · have ordered : MsgRange.full.start ≤ MsgRange.full.till := by decide
      refine ⟨ordered, fun id held => ?_, server⟩
      exact ⟨(server id held).1.le, (server id held).2.le⟩
    · exact ⟨ordered, inside, server⟩
  · exact separated

/-- Adding a range never fails. -/
theorem addRange_separated (separated : Separated l.slices) (ordered : range.start ≤ range.till)
    (inside : ∀ id ∈ messages, range.Holds id) (server : ∀ id ∈ messages, IsServerMsgId id) {count : Option Int}
    {incrementCount : Bool} (known : ¬ (count.isSome = true ∧ incrementCount = true)) :
    ∃ l' update, l.addRange messages range count incrementCount = some (l', update) ∧ Separated l'.slices := by
  obtain ⟨result, done, adds⟩ := addRangeItemsAndCountNew_adds separated ordered messages
  unfold addRange
  rw [if_neg known, done]
  simp only [Option.bind_eq_bind, Option.bind_some]
  refine ⟨_, _, rfl, ?_⟩
  exact @fillSlice_separated { count := _, slices := result.slices } (adds.separated separated inside server)

/-- An element is changed without moving. -/
theorem separated_modify {before after : List Slice} {s s' : Slice} (separated : Separated (before ++ s :: after))
    (wellFormed : s'.WellFormed) (start : s'.range.start = s.range.start) (till : s'.range.till ≤ s.range.till) :
    Separated (modify Slice.less (before ++ s :: after) before.length s') := by
  obtain ⟨good, apart⟩ := separated
  obtain ⟨apartBefore, apartRest, apartLow⟩ := List.pairwise_append.mp apart
  obtain ⟨higher, apartAfter⟩ := List.pairwise_cons.mp apartRest
  have below : ∀ b ∈ before, b.range.till < s'.range.start := by
    intro b member
    rw [start]
    exact apartLow b member s List.mem_cons_self
  have above : ∀ b ∈ after, s'.range.till < b.range.start := fun b member => Int.lt_of_le_of_lt till (higher b member)
  rw [modify_stays (fun b member => ?_) (fun b member => ?_)]
  · refine ⟨fun b member => ?_, List.pairwise_append.mpr ⟨apartBefore, ?_, ?_⟩⟩
    · rcases List.mem_append.mp member with member | member
      · exact good b (by simp [member])
      · rcases List.mem_cons.mp member with rfl | member
        · exact wellFormed
        · exact good b (by simp [member])
    · exact List.pairwise_cons.mpr ⟨above, apartAfter⟩
    · intro b member c other
      rcases List.mem_cons.mp other with rfl | other
      · exact below b member
      · exact apartLow b member c (List.mem_cons_of_mem _ other)
  · exact Int.lt_of_le_of_lt (good b (by simp [member])).ordered (below b member)
  · exact Int.lt_of_le_of_lt wellFormed.ordered (above b member)

theorem removeOne_separated (separated : Separated l.slices) (messageId : Int) :
    Separated (l.removeOne messageId).slices := by
  unfold removeOne
  simp only
  split
  · exact separated
  · rename_i slice found
    split_ifs with reached
    · obtain ⟨before, after, split, position⟩ := split_at found
      rw [split] at separated
      obtain ⟨ordered, inside, server⟩ := separated.wellFormed slice (by simp)
      have kept : ∀ id ∈ slice.messages.remove messageId, id ∈ slice.messages :=
        fun id member => (FlatSet.mem_remove.mp member).1
      rw [← position, split]
      exact separated_modify separated
        ⟨ordered, fun id member => inside id (kept id member), fun id member => server id (kept id member)⟩ rfl
        (Int.le_refl _)
    · exact separated

theorem removeAll_separated : Separated removeAll.slices := by
  refine ⟨fun s member => ?_, List.pairwise_singleton _ _⟩
  rw [List.mem_singleton.mp member]
  have ordered : MsgRange.full.start ≤ MsgRange.full.till := by decide
  exact ⟨ordered, fun id held => absurd held (FlatSet.not_mem_empty id), fun id held => absurd held (FlatSet.not_mem_empty id)⟩

theorem invalidateBottom_separated (separated : Separated l.slices) : Separated l.invalidateBottom.slices := by
  unfold invalidateBottom
  simp only
  split
  · exact ⟨nofun, .nil⟩
  · rename_i last found
    split_ifs with bottom
    · obtain ⟨before, split⟩ := List.getLast?_eq_some_iff.mp found
      have position : l.slices.length - 1 = before.length := by rw [split]; simp
      rw [split] at separated
      obtain ⟨ordered, inside, server⟩ := separated.wellFormed last (by simp)
      rw [position, split]
      cases final : last.messages.items.getLast? with
      | none =>
          have empty : last.messages.items = [] := List.getLast?_eq_none_iff.mp final
          have nothing : ∀ id, id ∉ last.messages := fun id held => by
            rw [← FlatSet.mem_items, empty] at held
            cases held
          exact separated_modify separated
            ⟨Int.le_refl _, fun id held => absurd held (nothing id), fun id held => absurd held (nothing id)⟩ rfl ordered
      | some greatest =>
          obtain ⟨member, most⟩ := FlatSet.le_getLast final
          have held := inside greatest member
          exact separated_modify separated
            ⟨held.1, fun id member => ⟨(inside id member).1, most id member⟩, server⟩ rfl held.2
    · exact separated

/-! ## Runs -/

/-- What the callers of an operation see to. -/
def Operation.Valid : Operation → Prop
  | .addNew messageId => IsServerMsgId messageId
  | .addExisting messageId range =>
      range.start ≤ range.till ∧ range.Holds messageId ∧ IsServerMsgId messageId
  | .addSlice messageIds range _ =>
      range.start ≤ range.till ∧ (∀ id ∈ messageIds, range.Holds id) ∧ ∀ id ∈ messageIds, IsServerMsgId id
  | .removeOne messageId => IsServerMsgId messageId
  | .removeAll => True
  | .invalidateBottom => True

instance : DecidablePred Operation.Valid
  | .addNew messageId => inferInstanceAs (Decidable (IsServerMsgId messageId))
  | .addExisting _ _ => inferInstanceAs (Decidable (_ ∧ _ ∧ _))
  | .addSlice _ _ _ => inferInstanceAs (Decidable (_ ∧ _ ∧ _))
  | .removeOne messageId => inferInstanceAs (Decidable (IsServerMsgId messageId))
  | .removeAll => inferInstanceAs (Decidable True)
  | .invalidateBottom => inferInstanceAs (Decidable True)

theorem step_separated {operation : Operation} (valid : operation.Valid) (separated : Separated l.slices) :
    ∃ l', l.step operation = some l' ∧ Separated l'.slices := by
  cases operation with
  | addNew messageId =>
      obtain ⟨l', update, done, after⟩ := @addRange_separated [messageId] ⟨messageId, ServerMaxMsgId⟩ l separated
        valid.2.le (by simpa [MsgRange.Holds] using valid.2.le) (fun id member => List.mem_singleton.mp member ▸ valid) none true
        (by simp)
      exact ⟨l', by rw [step, addNew, done]; rfl, after⟩
  | addExisting messageId range =>
      obtain ⟨ordered, inside, server⟩ := valid
      obtain ⟨l', update, done, after⟩ := @addRange_separated [messageId] range l separated ordered (by simpa using inside)
        (by simpa using server) none false (by simp)
      exact ⟨l', by rw [step, addExisting, done]; rfl, after⟩
  | addSlice messageIds range count =>
      obtain ⟨ordered, inside, server⟩ := valid
      obtain ⟨l', update, done, after⟩ := @addRange_separated messageIds range l separated ordered inside server count
        false (by simp)
      exact ⟨l', by rw [step, addSlice, done]; rfl, after⟩
  | removeOne messageId => exact ⟨_, rfl, removeOne_separated separated messageId⟩
  | removeAll => exact ⟨_, rfl, removeAll_separated⟩
  | invalidateBottom => exact ⟨_, rfl, invalidateBottom_separated separated⟩

theorem run_separated {operations : List Operation} (valid : ∀ operation ∈ operations, operation.Valid)
    (separated : Separated l.slices) : ∃ l', l.run operations = some l' ∧ Separated l'.slices := by
  induction operations generalizing l with
  | nil => exact ⟨l, rfl, separated⟩
  | cons operation operations ih =>
      obtain ⟨first, others⟩ := List.forall_mem_cons.mp valid
      obtain ⟨l', done, after⟩ := step_separated first separated
      obtain ⟨l'', rest, last⟩ := ih others after
      refine ⟨l'', ?_, last⟩
      rw [run, List.foldlM_cons, done]
      exact rest

/-- The slices of a list, as they are kept: in order, with room between them, and with ids of their own range. -/
structure KeptApart (slices : List Slice) : Prop where
  sorted : slices.Pairwise fun a b => a.range.start < b.range.start
  apart : slices.Pairwise fun a b => a.range.till < b.range.start
  inside : ∀ s ∈ slices, ∀ id ∈ s.messages, s.range.start ≤ id ∧ id ≤ s.range.till

/-- No expectation fails in any run, and the slices stay apart. -/
theorem run_kept_apart (operations : List Operation) (valid : ∀ operation ∈ operations, operation.Valid) :
    ∃ l, run {} operations = some l ∧ KeptApart l.slices := by
  obtain ⟨l, done, wellFormed, apart⟩ := @run_separated {} operations valid ⟨nofun, .nil⟩
  refine ⟨l, done, ?_, apart, fun s member => (wellFormed s member).inside⟩
  refine apart.imp_of_mem fun {a b} member _ less => ?_
  exact Int.lt_of_le_of_lt (wellFormed a member).ordered less

theorem united_kept_apart : ∃ l,
    run {} [.addSlice [10, 20] ⟨5, 25⟩ none, .addSlice [60] ⟨50, 70⟩ none, .addExisting 40 ⟨25, 50⟩, .invalidateBottom,
      .addNew 80, .removeOne 10] = some l ∧ KeptApart l.slices :=
  run_kept_apart _ (by decide)

end SparseIdsList

end IMeDesktop.Storage
