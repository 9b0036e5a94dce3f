import IMeDesktop.Storage.SparseIdsSlices
import Mathlib.Order.Interval.Finset.Nat
import Mathlib.Data.Int.Interval

/-! # A list with gaps answers exactly

There is a true set of ids behind the list. It changes as messages are sent and removed,
and everything the list is told about it is true when it is told. Then every slice has
exactly the true ids of its range, the count is their number, and what is answered to a
query is a run of the true ids, with the numbers of those before and behind it.
-/

namespace IMeDesktop.Storage.SparseIdsList

open Lib

/-- Slices that have exactly the true ids. -/
def ExactSlices (truth : Finset Int) (slices : List Slice) : Prop :=
  ∀ s ∈ slices, ∀ id, id ∈ s.messages ↔ id ∈ truth ∧ s.range.Holds id

structure Exact (l : SparseIdsList) (truth : Finset Int) : Prop where
  separated : Separated l.slices
  slices : ExactSlices truth l.slices
  count : ∀ n, l.count = some n → n = truth.card

variable {l : SparseIdsList} {truth truth' : Finset Int} {slices : List Slice} {messages : List Int} {range : MsgRange}

/-! ## Adding -/

theorem size_le_card {s : Slice} (exactly : ∀ id, id ∈ s.messages ↔ id ∈ truth ∧ s.range.Holds id) :
    s.messages.size ≤ truth.card := by
  rw [← FlatSet.card_toFinset]
  refine Finset.card_le_card fun id member => ?_
  exact ((exactly id).mp (FlatSet.mem_toFinset.mp member)).1

theorem Adds.exactSlices {result : AddResult} (adds : Adds slices messages range result)
    (before : ExactSlices truth slices) (subset : truth ⊆ truth')
    (outside : ∀ id, id ∈ truth' → ¬ range.Holds id → id ∈ truth)
    (told : ∀ id, id ∈ messages ↔ id ∈ truth' ∧ range.Holds id) : ExactSlices truth' result.slices := by
  -- a slice that the range does not touch has the same true ids as before
  have kept : ∀ s ∈ slices, (∀ id, s.range.Holds id → ¬ range.Holds id) →
      ∀ id, id ∈ s.messages ↔ id ∈ truth' ∧ s.range.Holds id := by
    intro s member apart id
    rw [before s member id]
    constructor
    · exact fun held => ⟨subset held.1, held.2⟩
    · exact fun held => ⟨outside id held.1 (apart id held.2), held.2⟩
  cases adds with
  | nothing empty point =>
      intro s member id
      rw [before s member id]
      constructor
      · exact fun held => ⟨subset held.1, held.2⟩
      · rintro ⟨true', held⟩
        refine ⟨outside id true' fun inRange => ?_, held⟩
        have := (told id).mpr ⟨true', inRange⟩
        rw [empty] at this
        cases this
  | @unites front middle back u split low touches high united =>
      intro s member id
      rcases List.mem_append.mp member with member | member
      · refine kept s (by rw [split]; exact List.mem_append_left _ member) (fun id held inRange => ?_) id
        have := low s member
        simp only [MsgRange.Holds] at held inRange
        omega
      · rcases List.mem_cons.mp member with rfl | member
        · rw [united.mem, united.holds]
          constructor
          · rintro (given | ⟨s, inMiddle, held⟩)
            · exact ⟨((told id).mp given).1, .inl ((told id).mp given).2⟩
            · have own := (before s (by simp [split, inMiddle]) id).mp held
              exact ⟨subset own.1, .inr ⟨s, inMiddle, own.2⟩⟩
          · rintro ⟨true', inRange | ⟨s, inMiddle, held⟩⟩
            · exact .inl ((told id).mpr ⟨true', inRange⟩)
            · by_cases inRange : range.Holds id
              · exact .inl ((told id).mpr ⟨true', inRange⟩)
              · exact .inr ⟨s, inMiddle, (before s (by simp [split, inMiddle]) id).mpr ⟨outside id true' inRange, held⟩⟩
        · refine kept s (by rw [split]; simp [member]) (fun id held inRange => ?_) id
          have := high s member
          simp only [MsgRange.Holds] at held inRange
          omega

/-- The messages of the update are some of the true ids. -/
theorem Adds.messages_le {result : AddResult} (adds : Adds slices messages range result)
    (exactly : ExactSlices truth result.slices) :
    ∀ messages, result.messages = some messages → messages.size ≤ truth.card := by
  intro given found
  cases adds with
  | nothing => cases found
  | @unites front middle back u split low touches high united =>
      cases found
      exact size_le_card (exactly u (by simp))

/-- A new id, greater than all others, is one more. -/
theorem Adds.added_new {result : AddResult} {id : Int} {till : Int} (adds : Adds slices [id] ⟨id, till⟩ result)
    (separated : Separated slices) (exactly : ExactSlices truth slices) (greatest : ∀ other ∈ truth, other < id) :
    result.added = 1 := by
  cases adds with
  | nothing empty => cases empty
  | @unites front middle back u split low touches high united =>
      rw [split] at separated
      have apart := (List.pairwise_append.mp (List.pairwise_append.mp separated.apart).2.1).1
      have inMiddle : ∀ s ∈ middle, s ∈ slices := fun s member => by rw [split]; simp [member]
      have small : ∀ s ∈ middle, ∀ other ∈ s.messages, other < id := fun s member other held =>
        greatest other ((exactly s (inMiddle s member) other).mp held).1
      cases middle with
      | nil =>
          have all : u.messages.toFinset = {id} := by
            ext other
            simp [FlatSet.mem_toFinset, united.mem]
          have size := FlatSet.card_toFinset u.messages
          rw [all, Finset.card_singleton] at size
          simp [← size]
      | cons s others =>
          obtain ⟨higher, -⟩ := List.pairwise_cons.mp apart
          have reached : id ≤ s.range.till := (touches s List.mem_cons_self).1
          -- the other slices are behind the new id
          have none : ∀ b ∈ others, ∀ other, other ∉ b.messages := by
            intro b member other held
            have first := small b (List.mem_cons_of_mem _ member) other held
            have second := ((exactly b (inMiddle b (List.mem_cons_of_mem _ member)) other).mp held).2.1
            have third := higher b member
            omega
          have all : u.messages.toFinset = insert id s.messages.toFinset := by
            ext other
            simp only [FlatSet.mem_toFinset, united.mem, Finset.mem_insert, List.mem_singleton]
            constructor
            · rintro (same | ⟨b, member, held⟩)
              · exact .inl same
              · rcases List.mem_cons.mp member with rfl | member
                · exact .inr held
                · exact absurd held (none b member other)
            · rintro (same | held)
              · exact .inl same
              · exact .inr ⟨s, List.mem_cons_self, held⟩
          have missing : id ∉ s.messages.toFinset := fun held =>
            absurd (small s List.mem_cons_self id (FlatSet.mem_toFinset.mp held)) (Int.lt_irrefl id)
          have size := FlatSet.card_toFinset u.messages
          rw [all, Finset.card_insert_of_notMem missing, FlatSet.card_toFinset] at size
          simp [← size]

/-- There are fewer ids than a size can count. -/
theorem toSize_card (server : ∀ id ∈ truth, IsServerMsgId id) : toSize truth.card = truth.card := by
  have inside : truth ⊆ Finset.Ioo 0 ServerMaxMsgId := fun id member => Finset.mem_Ioo.mpr (server id member)
  have few := Finset.card_le_card inside
  rw [Int.card_Ioo] at few
  have small : truth.card < 2 ^ 64 := Nat.lt_of_le_of_lt few (by decide)
  unfold toSize
  omega

/-- A slice with as many ids as there are has them all. -/
theorem whole_slice {s : Slice} (exactly : ∀ id, id ∈ s.messages ↔ id ∈ truth ∧ s.range.Holds id)
    (whole : truth.card ≤ s.messages.size) (id : Int) : id ∈ s.messages ↔ id ∈ truth := by
  have subset : s.messages.toFinset ⊆ truth := fun id member => ((exactly id).mp (FlatSet.mem_toFinset.mp member)).1
  have same := Finset.eq_of_subset_of_card_le subset (by rwa [FlatSet.card_toFinset])
  rw [← same, FlatSet.mem_toFinset]

theorem full_holds (server : ∀ id ∈ truth, IsServerMsgId id) : ∀ id ∈ truth, MsgRange.full.Holds id := fun id member =>
  ⟨(server id member).1.le, (server id member).2.le⟩

theorem fillSlice_exact (server : ∀ id ∈ truth, IsServerMsgId id) (exactly : Exact l truth) : Exact l.fillSlice truth := by
  have separated := fillSlice_separated exactly.separated
  unfold fillSlice at separated ⊢
  split
  · rename_i slice one
    rw [one] at separated
    have own := exactly.slices slice (by simp [one])
    simp only at separated ⊢
    generalize filled : (if l.count.any fun count => decide (toSize count ≤ slice.messages.size) then
      { slice with range := .full } else slice) = s at separated ⊢
    have still : ∀ id, id ∈ s.messages ↔ id ∈ truth ∧ s.range.Holds id := by
      rw [← filled]
      split_ifs with whole
      · obtain ⟨n, known, enough⟩ := (Option.any_eq_true _ _).mp whole
        have card := exactly.count n known
        rw [card, toSize_card server, decide_eq_true_eq] at enough
        intro id
        rw [whole_slice own enough id]
        exact ⟨fun member => ⟨member, full_holds server id member⟩, And.left⟩
      · exact own
    refine ⟨separated, ?_, ?_⟩
    · intro s' member
      rw [List.mem_singleton.mp member]
      exact still
    · intro n known
      split_ifs at known with full
      · have all : s.messages.toFinset = truth := by
          ext id
          rw [FlatSet.mem_toFinset, still id, full]
          exact ⟨And.left, fun member => ⟨member, full_holds server id member⟩⟩
        rw [← all, FlatSet.card_toFinset]
        exact (Option.some.inj known).symm
      · exact exactly.count n known
  · exact exactly

/-- A range is added that is told truly. -/
theorem addRange_exact (exactly : Exact l truth) (server : ∀ id ∈ truth', IsServerMsgId id)
    (ordered : range.start ≤ range.till) (subset : truth ⊆ truth')
    (outside : ∀ id, id ∈ truth' → ¬ range.Holds id → id ∈ truth)
    (told : ∀ id, id ∈ messages ↔ id ∈ truth' ∧ range.Holds id) {count : Option Int} {incrementCount : Bool}
    (known : ¬ (count.isSome = true ∧ incrementCount = true)) (given : ∀ n, count = some n → n = truth'.card)
    (counted : ∀ result, Adds l.slices messages range result → count = none →
      (truth.card : Int) + (if incrementCount ∧ result.added > 0 then result.added else 0) = truth'.card) :
    ∃ l' update, l.addRange messages range count incrementCount = some (l', update) ∧ Exact l' truth' := by
  obtain ⟨result, done, adds⟩ := addRangeItemsAndCountNew_adds exactly.separated ordered messages
  have slices := adds.exactSlices exactly.slices subset outside told
  have separated := adds.separated exactly.separated (fun id member => ((told id).mp member).2)
    fun id member => server id ((told id).mp member).1
  have few := adds.messages_le slices
  have sum := counted result adds
  unfold addRange
  rw [if_neg known, done]
  simp only [Option.bind_eq_bind, Option.bind_some]
  refine ⟨_, _, rfl, ?_⟩
  generalize counts : l.updatedCount count incrementCount result.added = total
  have totals : ∀ n, total = some n → n = truth'.card := by
    intro n same
    rw [← counts] at same
    cases count with
    | some m => exact given n same
    | none =>
        have sum := sum rfl
        rw [updatedCount] at same
        split_ifs at same sum with grows
        · obtain ⟨m, before, rfl⟩ := Option.map_eq_some_iff.mp same
          rw [exactly.count m before]
          exact sum
        · rw [exactly.count n same]
          omega
  have filled := @fillSlice_exact { count := total, slices := result.slices } truth' server ⟨separated, slices, totals⟩
  refine ⟨filled.separated, filled.slices, fun n same => ?_⟩
  cases messages : result.messages with
  | none =>
      rw [messages] at same
      exact filled.count n same
  | some ids =>
      rw [messages] at same
      obtain ⟨m, before, rfl⟩ := Option.map_eq_some_iff.mp same
      have size := few ids messages
      rw [filled.count m before]
      omega

/-! ## Removing -/

/-- The search for an id finds the slice whose range holds it, or there is none. -/
theorem find_slice (separated : Separated slices) (id : Int) :
    (∃ before s after, slices = before ++ s :: after ∧
        partitionPoint (fun slice => decide (slice.range.till < id)) slices = before.length ∧ s.range.Holds id ∧
        (∀ b ∈ before, ¬ b.range.Holds id) ∧ ∀ b ∈ after, ¬ b.range.Holds id) ∨
      (∀ b ∈ slices, ¬ b.range.Holds id) ∧
        ∀ s, slices[partitionPoint (fun slice => decide (slice.range.till < id)) slices]? = some s →
          ¬ s.range.start ≤ id := by
  obtain ⟨wellFormed, apart⟩ := separated
  have byTill : slices.Pairwise fun a b => decide (b.range.till < id) = true → decide (a.range.till < id) = true := by
    refine apart.imp_of_mem fun {a b} _ member less => ?_
    have := (wellFormed b member).ordered
    simp only [decide_eq_true_eq]
    omega
  obtain ⟨before, rest, split, low, high⟩ := split_of_pairwise byTill
  have position : partitionPoint (fun slice => decide (slice.range.till < id)) slices = before.length := by
    rw [split]
    exact partitionPoint_split low high
  have lower : ∀ b ∈ before, ¬ b.range.Holds id := by
    intro b member held
    have := low b member
    simp only [decide_eq_true_eq] at this
    exact absurd held.2 (Int.not_le.mpr this)
  cases rest with
  | nil =>
      rw [List.append_nil] at split
      refine .inr ⟨by rwa [split], fun s found => ?_⟩
      rw [position, split] at found
      simp at found
  | cons s after =>
      have reached : id ≤ s.range.till := by
        have := high s List.mem_cons_self
        simp only [decide_eq_false_iff_not] at this
        omega
      rw [split] at apart
      obtain ⟨-, inOrder, -⟩ := List.pairwise_append.mp apart
      obtain ⟨higher, -⟩ := List.pairwise_cons.mp inOrder
      have upper : ∀ b ∈ after, ¬ b.range.Holds id := by
        intro b member held
        have first := higher b member
        have second := held.1
        omega
      by_cases holds : s.range.start ≤ id
      · exact .inl ⟨before, s, after, split, position, ⟨holds, reached⟩, lower, upper⟩
      · refine .inr ⟨?_, fun s' found => ?_⟩
        · rw [split]
          refine List.forall_mem_append.mpr ⟨lower, List.forall_mem_cons.mpr ⟨fun held => holds held.1, upper⟩⟩
        · rw [position, split] at found
          simp only [List.getElem?_append_right (Nat.le_refl _), Nat.sub_self, List.getElem?_cons_zero,
            Option.some.injEq] at found
          rwa [← found]

theorem removeOne_exact (exactly : Exact l truth) {messageId : Int} (present : messageId ∈ truth) :
    Exact (l.removeOne messageId) (truth.erase messageId) := by
  have still : ∀ s ∈ l.slices, ¬ s.range.Holds messageId →
      ∀ id, id ∈ s.messages ↔ id ∈ truth.erase messageId ∧ s.range.Holds id := by
    intro s member apart id
    rw [exactly.slices s member id, Finset.mem_erase]
    constructor
    · exact fun held => ⟨⟨fun same => apart (same ▸ held.2), held.1⟩, held.2⟩
    · exact fun held => ⟨held.1.2, held.2⟩
  refine ⟨removeOne_separated exactly.separated messageId, ?_, ?_⟩
  · unfold removeOne
    rcases find_slice exactly.separated messageId with ⟨before, s, after, split, position, holds, lower, upper⟩ | none
    · have here : l.slices[before.length]? = some s := by rw [split]; simp
      have separated := exactly.separated
      rw [split] at separated
      obtain ⟨-, apart⟩ := separated
      obtain ⟨-, inOrder, apartLow⟩ := List.pairwise_append.mp apart
      obtain ⟨higher, -⟩ := List.pairwise_cons.mp inOrder
      have wellFormed := exactly.separated.wellFormed
      have modified := @modify_stays before after { s with messages := s.messages.remove messageId }
        (fun b member => Int.lt_of_le_of_lt (wellFormed b (by simp [split, member])).ordered
          (apartLow b member s List.mem_cons_self))
        (fun b member => Int.lt_of_le_of_lt (wellFormed s (by simp [split])).ordered (higher b member)) s
      simp only [position, here, holds.1, if_true]
      rw [split, modified]
      intro b member
      rcases List.mem_append.mp member with member | member
      · exact still b (by simp [split, member]) (lower b member)
      · rcases List.mem_cons.mp member with rfl | member
        · intro id
          rw [FlatSet.mem_remove, exactly.slices s (by simp [split]) id, Finset.mem_erase]
          tauto
        · exact still b (by simp [split, member]) (upper b member)
    · obtain ⟨apart, missing⟩ := none
      have same : ∀ s ∈ l.slices, ∀ id, id ∈ s.messages ↔ id ∈ truth.erase messageId ∧ s.range.Holds id :=
        fun s member => still s member (apart s member)
      simp only
      split
      · exact same
      · rename_i s found
        rw [if_neg (missing s found)]
        exact same
  · intro n known
    obtain ⟨m, before, rfl⟩ := Option.map_eq_some_iff.mp known
    have card := Finset.card_erase_of_mem present
    have some := Finset.card_pos.mpr ⟨messageId, present⟩
    rw [exactly.count m before]
    omega

theorem removeAll_exact : Exact removeAll ∅ := by
  refine ⟨removeAll_separated, fun s member id => ?_, fun n known => ?_⟩
  · rw [List.mem_singleton.mp member]
    simp [FlatSet.not_mem_empty]
  · rw [← Option.some.inj known]
    rfl

theorem invalidateBottom_exact (exactly : Exact l truth) : Exact l.invalidateBottom truth := by
  refine ⟨invalidateBottom_separated exactly.separated, ?_, nofun⟩
  unfold invalidateBottom
  simp only
  split
  · nofun
  · rename_i last found
    split_ifs with bottom
    · obtain ⟨before, split⟩ := List.getLast?_eq_some_iff.mp found
      have position : l.slices.length - 1 = before.length := by rw [split]; simp
      have wellFormed := exactly.separated.wellFormed
      have apart := exactly.separated.apart
      rw [split] at apart
      have lower := (List.pairwise_append.mp apart).2.2
      have modified := @modify_stays before []
        { last with range := ⟨last.range.start, last.messages.items.getLast?.getD last.range.start⟩ }
        (fun b member => Int.lt_of_le_of_lt (wellFormed b (by simp [split, member])).ordered
          (lower b member last (by simp))) nofun last
      have own := exactly.slices last (by simp [split])
      rw [position, split, modified]
      intro s member
      rcases List.mem_append.mp member with member | member
      · exact exactly.slices s (by simp [split, member])
      · rw [List.mem_singleton.mp member]
        intro id
        simp only [own id]
        have ordered := (wellFormed last (by simp [split])).ordered
        cases final : last.messages.items.getLast? with
        | none =>
            have empty : last.messages.items = [] := List.getLast?_eq_none_iff.mp final
            have missing : id ∉ last.messages := fun held => by
              rw [← FlatSet.mem_items, empty] at held
              cases held
            rw [own id] at missing
            simp only [MsgRange.Holds, Option.getD_none] at missing ⊢
            constructor
            · exact fun held => absurd held missing
            · exact fun held => absurd ⟨held.1, held.2.1, by omega⟩ missing
        | some greatest =>
            obtain ⟨present, most⟩ := FlatSet.le_getLast final
            have below := ((own greatest).mp present).2.2
            simp only [MsgRange.Holds, Option.getD_some]
            constructor
            · exact fun held => ⟨held.1, held.2.1, most id ((own id).mpr held)⟩
            · exact fun held => ⟨held.1, held.2.1, held.2.2.trans below⟩
    · exact exactly.slices

/-! ## Asking -/

/-- The true ids, with those of a slice in their middle. -/
theorem sort_split {s : Slice} (ordered : s.range.start ≤ s.range.till)
    (exactly : ∀ id, id ∈ s.messages ↔ id ∈ truth ∧ s.range.Holds id) :
    ∃ low high, truth.sort (· ≤ ·) = low ++ s.messages.items ++ high ∧ (∀ id ∈ low, id ∈ truth ∧ id < s.range.start) ∧
      ∀ id ∈ high, id ∈ truth ∧ s.range.till < id := by
  let low := (truth.filter (· < s.range.start)).sort (· ≤ ·)
  let high := (truth.filter (s.range.till < ·)).sort (· ≤ ·)
  have inLow : ∀ id, id ∈ low ↔ id ∈ truth ∧ id < s.range.start := by simp [low]
  have inHigh : ∀ id, id ∈ high ↔ id ∈ truth ∧ s.range.till < id := by simp [high]
  have sorted : (low ++ s.messages.items ++ high).Pairwise (· < ·) := by
    refine List.pairwise_append.mpr ⟨List.pairwise_append.mpr ⟨?_, s.messages.sorted, ?_⟩, ?_, ?_⟩
    · exact (Finset.sortedLT_sort _).pairwise
    · intro a first b second
      have := ((inLow a).mp first).2
      have := ((exactly b).mp second).2.1
      omega
    · exact (Finset.sortedLT_sort _).pairwise
    · intro a first b second
      have := ((inHigh b).mp second).2
      rcases List.mem_append.mp first with first | first
      · have := ((inLow a).mp first).2
        omega
      · have := ((exactly a).mp first).2.2
        omega
  refine ⟨low, high, ?_, fun id member => (inLow id).mp member, fun id member => (inHigh id).mp member⟩
  have same := @FlatSet.items_eq_sort _ _ ⟨_, sorted⟩ truth fun id => by
    rw [← FlatSet.mem_items, List.mem_append, List.mem_append, inLow, inHigh, FlatSet.mem_items, exactly]
    simp only [MsgRange.Holds]
    constructor
    · rintro ((h | h) | h)
      all_goals exact h.1
    · intro member
      by_cases first : id < s.range.start
      · exact .inl (.inl ⟨member, first⟩)
      · by_cases second : s.range.till < id
        · exact .inr ⟨member, second⟩
        · exact .inl (.inr ⟨member, by omega, by omega⟩)
  exact same.symm

/-- A run of the true ids around an id, with the numbers of those before and behind it, as far as they are given. An id
of the slice is left out only where there are as many as the query asks for. -/
structure AnswersExactly (truth : Finset Int) (slice : Slice) (query : SparseIdsListQuery)
    (result : SparseIdsListResult) (before after : List Int) : Prop where
  run : truth.sort (· ≤ ·) = before ++ result.messageIds.items ++ after
  below : ∀ id ∈ before, id < query.aroundId
  above : ∀ id ∈ after, query.aroundId ≤ id
  skippedBefore : ∀ n, result.skippedBefore = some n → n = before.length
  skippedAfter : ∀ n, result.skippedAfter = some n → n = after.length
  filledBefore : query.aroundId ≠ 0 → ∀ id ∈ slice.messages, id ∉ result.messageIds → id < query.aroundId →
    result.messageIds.items.countP (· < query.aroundId) = query.limitBefore
  filledAfter : query.aroundId ≠ 0 → ∀ id ∈ slice.messages, id ∉ result.messageIds → query.aroundId ≤ id →
    result.messageIds.items.countP (query.aroundId ≤ ·) = query.limitAfter + 1

section Query

variable {s : Slice} {query : SparseIdsListQuery} {front back : List Int}

/-- The result of a query, from the ids of the slice before the one asked for and from the others. -/
theorem queryFromSlice_parts (items : s.messages.items = front ++ back)
    (position : s.messages.lowerBound query.aroundId = front.length) :
    let before := min front.length query.limitBefore
    let after := min back.length (query.limitAfter + 1)
    let ids := front.drop (front.length - before) ++ back.take after
    let result := l.queryFromSlice query s
    result.messageIds.items = ids ∧
      result.skippedBefore =
        (if s.range.start = 0 then some ((front.length - before : Nat) : Int)
        else if s.range.till = ServerMaxMsgId then
          l.count.map fun count => count - (back.length - after : Nat) - ids.length
        else none) ∧
      result.skippedAfter =
        if s.range.till = ServerMaxMsgId then some ((back.length - after : Nat) : Int)
        else if s.range.start = 0 then l.count.map fun count => count - (front.length - before : Nat) - ids.length
        else none := by
  intro before after ids result
  have size : s.messages.size - front.length = back.length := by
    rw [FlatSet.size, items, List.length_append, Nat.add_sub_cancel_left]
  have run : (s.messages.items.drop (front.length - before)).take (before + after) = ids := by
    have length : (front.drop (front.length - before)).length = before := by
      rw [List.length_drop]
      omega
    rw [items, List.drop_append_of_le_length (by omega), List.take_append, length, Nat.add_sub_cancel_left,
      List.take_of_length_le (by omega)]
  have sorted : ids.Pairwise (· < ·) := by
    rw [← run]
    exact s.messages.sorted.sublist ((List.take_sublist _ _).trans (List.drop_sublist _ _))
  have given := FlatSet.items_ofList sorted
  have length : (FlatSet.ofList ids).size = ids.length := congrArg List.length given
  have first : ((front.length - before : Nat) : Int) = front.length - before := by omega
  have second : ((back.length - after : Nat) : Int) = back.length - after := by omega
  have messageIds : result.messageIds = FlatSet.ofList ids := by
    simp only [result, queryFromSlice, position, size]
    exact congrArg FlatSet.ofList run
  refine ⟨by rw [messageIds, given], ?_, ?_⟩
  all_goals
    rw [← length, ← messageIds, first, second]
    simp only [result, queryFromSlice, position, size]
    split_ifs
    all_goals
      cases l.count with
      | none => rfl
      | some count => rfl

/-- The ids of a slice are a run of the true ids. -/
theorem sort_run (ordered : s.range.start ≤ s.range.till)
    (exactly : ∀ id, id ∈ s.messages ↔ id ∈ truth ∧ s.range.Holds id) (items : s.messages.items = front ++ back)
    (before after : Nat) :
    ∃ low high, truth.sort (· ≤ ·) =
        (low ++ front.take (front.length - before)) ++ (front.drop (front.length - before) ++ back.take after) ++
          (back.drop after ++ high) ∧
      (∀ id ∈ low, id ∈ truth ∧ id < s.range.start) ∧ ∀ id ∈ high, id ∈ truth ∧ s.range.till < id := by
  obtain ⟨low, high, split, inLow, inHigh⟩ := sort_split ordered exactly
  refine ⟨low, high, ?_, inLow, inHigh⟩
  have first := List.take_append_drop (front.length - before) front
  have second := List.take_append_drop after back
  simp only [split, items, List.append_assoc]
  rw [← List.append_assoc (front.take _), first, ← List.append_assoc (back.take _), second]

end Query

theorem queryFromSlice_exact (server : ∀ id ∈ truth, IsServerMsgId id) (exactly : Exact l truth) {s : Slice}
    (member : s ∈ l.slices) {query : SparseIdsListQuery} (holds : s.range.Holds query.aroundId) :
    ∃ before after, AnswersExactly truth s query (l.queryFromSlice query s) before after := by
  obtain ⟨ordered, -, -⟩ := exactly.separated.wellFormed s member
  obtain ⟨front, back, items, below, above, position⟩ := s.messages.split_lowerBound query.aroundId
  obtain ⟨messageIds, skippedBefore, skippedAfter⟩ := @queryFromSlice_parts l s query front back items position
  generalize l.queryFromSlice query s = result at messageIds skippedBefore skippedAfter
  generalize taken : min front.length query.limitBefore = before at messageIds skippedBefore skippedAfter
  generalize wanted : min back.length (query.limitAfter + 1) = after at messageIds skippedBefore skippedAfter
  obtain ⟨low, high, run, inLow, inHigh⟩ := sort_run ordered (exactly.slices s member) items before after
  rw [← messageIds] at run skippedBefore skippedAfter
  have total : (truth.card : Int) =
      low.length + (front.length - before : Nat) + result.messageIds.items.length +
        ((back.length - after : Nat) + high.length) := by
    have lengths := congrArg List.length run
    simp only [Finset.length_sort, List.length_append, List.length_take, List.length_drop] at lengths
    omega
  have noneLow : s.range.start = 0 → low = [] := by
    intro zero
    refine List.eq_nil_iff_forall_not_mem.mpr fun id member => ?_
    have first := (inLow id member).2
    have second := (server id (inLow id member).1).1
    omega
  have noneHigh : s.range.till = ServerMaxMsgId → high = [] := by
    intro bottom
    refine List.eq_nil_iff_forall_not_mem.mpr fun id member => ?_
    have first := (inHigh id member).2
    have second := (server id (inHigh id member).1).2
    omega
  refine ⟨low ++ front.take (front.length - before), back.drop after ++ high, run, ?_, ?_, ?_, ?_, ?_, ?_⟩
  · intro id inBefore
    rcases List.mem_append.mp inBefore with inBefore | inBefore
    · exact Int.lt_of_lt_of_le (inLow id inBefore).2 holds.1
    · exact below id (List.mem_of_mem_take inBefore)
  · intro id inAfter
    rcases List.mem_append.mp inAfter with inAfter | inAfter
    · exact above id (List.mem_of_mem_drop inAfter)
    · exact (Int.lt_of_le_of_lt holds.2 (inHigh id inAfter).2).le
  · intro n known
    rw [skippedBefore] at known
    simp only [List.length_append, List.length_take]
    split_ifs at known with zero bottom
    · have nothing := congrArg List.length (noneLow zero)
      have := Option.some.inj known
      simp only [List.length_nil] at nothing
      omega
    · obtain ⟨count, counted, rfl⟩ := Option.map_eq_some_iff.mp known
      have nothing := congrArg List.length (noneHigh bottom)
      have card := exactly.count count counted
      simp only [List.length_nil] at nothing
      omega
  · intro n known
    rw [skippedAfter] at known
    simp only [List.length_append, List.length_drop]
    split_ifs at known with bottom zero
    · have nothing := congrArg List.length (noneHigh bottom)
      have := Option.some.inj known
      simp only [List.length_nil] at nothing
      omega
    · obtain ⟨count, counted, rfl⟩ := Option.map_eq_some_iff.mp known
      have nothing := congrArg List.length (noneLow zero)
      have card := exactly.count count counted
      simp only [List.length_nil] at nothing
      omega
  · intro _ id held left less
    have inFront : id ∈ front := by
      rw [← FlatSet.mem_items, items] at held
      exact (List.mem_append.mp held).resolve_right fun inBack => absurd (above id inBack) (Int.not_le.mpr less)
    have cut : front.length - before ≠ 0 := by
      intro none
      rw [← FlatSet.mem_items, messageIds, none, List.drop_zero] at left
      exact left (List.mem_append_left _ inFront)
    have noneAbove : (back.take after).countP (· < query.aroundId) = 0 :=
      List.countP_eq_zero.mpr fun b inBack => by simpa using above b (List.mem_of_mem_take inBack)
    have allBelow : (front.drop (front.length - before)).countP (· < query.aroundId) = before := by
      rw [List.countP_eq_length.mpr fun b inFront => by simpa using below b (List.mem_of_mem_drop inFront),
        List.length_drop]
      omega
    rw [messageIds, List.countP_append, noneAbove, allBelow]
    omega
  · intro _ id held left reached
    have inBack : id ∈ back := by
      rw [← FlatSet.mem_items, items] at held
      exact (List.mem_append.mp held).resolve_left fun inFront => absurd (below id inFront) (Int.not_lt.mpr reached)
    have cut : after < back.length := by
      by_contra all
      rw [← FlatSet.mem_items, messageIds, List.take_of_length_le (Nat.le_of_not_lt all)] at left
      exact left (List.mem_append_right _ inBack)
    have noneBelow : (front.drop (front.length - before)).countP (query.aroundId ≤ ·) = 0 :=
      List.countP_eq_zero.mpr fun b inFront => by simpa using below b (List.mem_of_mem_drop inFront)
    have allAbove : (back.take after).countP (query.aroundId ≤ ·) = after := by
      rw [List.countP_eq_length.mpr fun b inBack => by simpa using above b (List.mem_of_mem_take inBack),
        List.length_take]
      omega
    rw [messageIds, List.countP_append, noneBelow, allAbove]
    omega

/-- An id that no slice is asked for by gives no run. -/
theorem snapshot_exact (server : ∀ id ∈ truth, IsServerMsgId id) (exactly : Exact l truth) {s : Slice}
    (member : s ∈ l.slices) {query : SparseIdsListQuery} (holds : s.range.Holds query.aroundId) :
    ∃ before after, AnswersExactly truth s query (l.snapshot query) before after := by
  unfold snapshot
  rcases find_slice exactly.separated query.aroundId with ⟨front, found, back, split, position, held, lower, upper⟩ | none
  · have same : s = found := by
      rw [split] at member
      rcases List.mem_append.mp member with member | member
      · exact absurd holds (lower s member)
      · rcases List.mem_cons.mp member with same | member
        · exact same
        · exact absurd holds (upper s member)
    subst same
    have here : l.slices[front.length]? = some s := by rw [split]; simp
    simp only [position, here]
    by_cases zero : query.aroundId = 0
    · simp only [zero, if_true]
      refine ⟨[], truth.sort (· ≤ ·), rfl, nofun, fun id inTruth => ?_, nofun, nofun, ?_, ?_⟩
      · have := (server id ((Finset.mem_sort _).mp inTruth)).1
        omega
      · exact fun nonzero => absurd zero nonzero
      · exact fun nonzero => absurd zero nonzero
    · simp only [zero, if_false, held.1, if_true]
      exact queryFromSlice_exact server exactly member held
  · exact absurd holds (none.1 s member)

/-! ## Runs -/

/-- What the true ids are after an operation. -/
def truthAfter (truth : Finset Int) : Operation → Finset Int
  | .addNew messageId => insert messageId truth
  | .removeOne messageId => truth.erase messageId
  | .removeAll => ∅
  | _ => truth

/-- An operation that tells the truth. -/
def Truthful (truth : Finset Int) : Operation → Prop
  | .addNew messageId => IsServerMsgId messageId ∧ ∀ id ∈ truth, id < messageId
  | .addExisting messageId range =>
      range.start ≤ range.till ∧ ∀ id, id = messageId ↔ id ∈ truth ∧ range.Holds id
  | .addSlice messageIds range count =>
      range.start ≤ range.till ∧ (∀ id, id ∈ messageIds ↔ id ∈ truth ∧ range.Holds id) ∧
        (count = none ∨ count = some (truth.card : Int))
  | .removeOne messageId => messageId ∈ truth
  | .removeAll => True
  | .invalidateBottom => True

/-- Every operation tells the truth at its time. -/
def TruthfulRun : Finset Int → List Operation → Prop
  | _, [] => True
  | truth, operation :: operations => Truthful truth operation ∧ TruthfulRun (truthAfter truth operation) operations

theorem step_exact {operation : Operation} (server : ∀ id ∈ truth, IsServerMsgId id)
    (truthful : Truthful truth operation) (exactly : Exact l truth) :
    (∀ id ∈ truthAfter truth operation, IsServerMsgId id) ∧
      ∃ l', l.step operation = some l' ∧ Exact l' (truthAfter truth operation) := by
  cases operation with
  | addNew messageId =>
      obtain ⟨valid, greatest⟩ := truthful
      have missing : messageId ∉ truth := fun member => absurd (greatest messageId member) (Int.lt_irrefl _)
      have all : ∀ id ∈ insert messageId truth, IsServerMsgId id := by
        intro id member
        rcases Finset.mem_insert.mp member with rfl | member
        · exact valid
        · exact server id member
      obtain ⟨l', update, done, after⟩ := @addRange_exact l truth (insert messageId truth) [messageId]
        ⟨messageId, ServerMaxMsgId⟩ exactly all valid.2.le (Finset.subset_insert _ _)
        (fun id member outside => by
          refine (Finset.mem_insert.mp member).resolve_left fun same => outside ?_
          rw [same]
          exact ⟨Int.le_refl _, valid.2.le⟩)
        (fun id => by
          rw [List.mem_singleton, Finset.mem_insert]
          constructor
          · rintro rfl
            exact ⟨.inl rfl, Int.le_refl _, valid.2.le⟩
          · rintro ⟨same | member, held⟩
            · exact same
            · exact absurd held.1 (Int.not_le.mpr (greatest id member)))
        none true (by simp) (fun _ known => by cases known)
        (fun result adds _ => by
          rw [adds.added_new exactly.separated exactly.slices greatest, Finset.card_insert_of_notMem missing]
          simp)
      exact ⟨all, l', by rw [step, addNew, done]; rfl, after⟩
  | addExisting messageId range =>
      obtain ⟨ordered, told⟩ := truthful
      obtain ⟨l', update, done, after⟩ := @addRange_exact l truth truth [messageId] range exactly server ordered
        (Finset.Subset.refl _) (fun id member _ => member) (fun id => by rw [List.mem_singleton]; exact told id) none false
        (by simp) (fun _ known => by cases known) (by simp)
      exact ⟨server, l', by rw [step, addExisting, done]; rfl, after⟩
  | addSlice messageIds range count =>
      obtain ⟨ordered, told, counted⟩ := truthful
      obtain ⟨l', update, done, after⟩ := @addRange_exact l truth truth messageIds range exactly server ordered
        (Finset.Subset.refl _) (fun id member _ => member) told count false (by simp)
        (fun n known => by
          rcases counted with none | given
          · rw [none] at known
            cases known
          · rw [given] at known
            exact (Option.some.inj known).symm)
        (by simp)
      exact ⟨server, l', by rw [step, addSlice, done]; rfl, after⟩
  | removeOne messageId =>
      exact ⟨fun id member => server id (Finset.mem_of_mem_erase member), _, rfl, removeOne_exact exactly truthful⟩
  | removeAll => exact ⟨fun _ member => absurd member (Finset.notMem_empty _), _, rfl, removeAll_exact⟩
  | invalidateBottom => exact ⟨server, _, rfl, invalidateBottom_exact exactly⟩

theorem run_exact {operations : List Operation} (server : ∀ id ∈ truth, IsServerMsgId id)
    (truthful : TruthfulRun truth operations) (exactly : Exact l truth) :
    (∀ id ∈ operations.foldl truthAfter truth, IsServerMsgId id) ∧
      ∃ l', l.run operations = some l' ∧ Exact l' (operations.foldl truthAfter truth) := by
  induction operations generalizing l truth with
  | nil => exact ⟨server, l, rfl, exactly⟩
  | cons operation operations ih =>
      obtain ⟨first, others⟩ := truthful
      obtain ⟨server', l', done, after⟩ := step_exact server first exactly
      obtain ⟨server'', l'', rest, last⟩ := ih server' others after
      refine ⟨server'', l'', ?_, last⟩
      rw [run, List.foldlM_cons, done]
      exact rest

/-- Whatever is told truly, the count, the slices and the answers are those of the true ids. -/
theorem run_answers_exactly (truth : Finset Int) (server : ∀ id ∈ truth, IsServerMsgId id) (operations : List Operation)
    (truthful : TruthfulRun truth operations) :
    let truth' := operations.foldl truthAfter truth
    ∃ l, run {} operations = some l ∧ (∀ n, l.count = some n → n = truth'.card) ∧
      (∀ s ∈ l.slices, ∀ id, id ∈ s.messages ↔ id ∈ truth' ∧ s.range.start ≤ id ∧ id ≤ s.range.till) ∧
      ∀ (query : SparseIdsListQuery) (s : Slice), s ∈ l.slices → s.range.Holds query.aroundId →
        ∃ before after, AnswersExactly truth' s query (l.snapshot query) before after := by
  intro truth'
  obtain ⟨server', l, done, exactly⟩ := @run_exact {} truth operations server truthful ⟨⟨nofun, .nil⟩, nofun, nofun⟩
  refine ⟨l, done, exactly.count, exactly.slices, fun query s member holds => ?_⟩
  exact snapshot_exact server' exactly member holds

/-- Two ids are told, one is sent and one is removed. -/
theorem two_ids_answered : ∃ l,
    run {} [.addSlice [10, 20] ⟨5, 25⟩ (some 2), .addNew 40, .removeOne 10] = some l ∧
      ∀ n, l.count = some n → n = ({20, 40} : Finset Int).card := by
  have told : ∀ id, id ∈ [10, 20] ↔ id ∈ ({10, 20} : Finset Int) ∧ (MsgRange.mk 5 25).Holds id := by
    intro id
    simp only [List.mem_cons, List.not_mem_nil, or_false, Finset.mem_insert, Finset.mem_singleton, MsgRange.Holds]
    omega
  obtain ⟨l, done, count, -⟩ := run_answers_exactly {10, 20} (by decide)
    [.addSlice [10, 20] ⟨5, 25⟩ (some 2), .addNew 40, .removeOne 10]
    ⟨⟨by decide, told, .inr rfl⟩, ⟨by decide, by decide⟩,
      show (10 : Int) ∈ insert 40 ({10, 20} : Finset Int) by decide, trivial⟩
  exact ⟨l, done, count⟩

end IMeDesktop.Storage.SparseIdsList
