import IMeDesktop.Data.RepliesList

/-! # What a comment thread keeps

The list of a thread stays strictly decreasing, the numbers of what is skipped and of all
stay non-negative, and no expectation fails, whatever the server answers. An answer adds
those of its ids that lie outside of the list; an id in a gap between two ids of the list is
not added.
-/

namespace IMeDesktop.Data

open Lib

namespace RepliesList

variable {rootId : MsgId}

/-! ## Merging an answer -/

section Merging

variable {toFront : Bool} {list : List MsgId} {messages : List ServerMessage}

/-- The ids of an answer that belong to the thread. -/
def threadIds (rootId : MsgId) (messages : List ServerMessage) : List MsgId :=
  (messages.filter fun message => message.replyToTop = some rootId).map ServerMessage.id

theorem mem_threadIds {id : MsgId} :
    id ∈ threadIds rootId messages ↔ ∃ message ∈ messages, message.replyToTop = some rootId ∧ message.id = id := by
  simp [threadIds, and_assoc]

def Decreasing (messages : List ServerMessage) : Prop := messages.Pairwise fun a b => b.id < a.id

theorem threadIds_decreasing (decreasing : Decreasing messages) :
    (threadIds rootId messages).Pairwise (· > ·) := by
  rw [threadIds, List.pairwise_map]
  exact decreasing.filter _

/-- Whether the loop puts an id behind the list. -/
def Behind (list : List MsgId) (id : MsgId) : Prop := ∀ back ∈ list.getLast?, id < back

instance (list : List MsgId) (id : MsgId) : Decidable (Behind list id) :=
  inferInstanceAs (Decidable (∀ back ∈ list.getLast?, id < back))

def InFront (toFront : Bool) (list : List MsgId) (id : MsgId) : Prop := toFront ∧ ∃ front ∈ list.head?, front < id

instance (toFront : Bool) (list : List MsgId) (id : MsgId) : Decidable (InFront toFront list id) :=
  inferInstanceAs (Decidable (toFront ∧ ∃ front ∈ list.head?, front < id))

theorem add_thread {m : Merge} {message : ServerMessage} (ours : message.replyToTop = some rootId) :
    m.add rootId toFront message =
      if InFront toFront m.list message.id then { m with refreshed := m.refreshed ++ [message.id] }
      else if Behind m.list message.id then { m with list := m.list ++ [message.id] }
      else m := by
  have front : (toFront ∧ m.list.head?.any (· < message.id)) ↔ InFront toFront m.list message.id := by
    cases first : m.list.head? <;> simp [InFront, first]
  have behind : m.list.getLast?.all (message.id < ·) ↔ Behind m.list message.id := by
    cases last : m.list.getLast? <;> simp [Behind, last]
  simp only [Merge.add, if_pos ours, front, behind]

theorem add_other {m : Merge} {message : ServerMessage} (other : message.replyToTop ≠ some rootId) :
    m.add rootId toFront message = { m with skipped := m.skipped + 1 } := by
  rw [Merge.add, if_neg other]

/-- In a decreasing answer all that follows an id behind the list is behind the longer list too. -/
theorem foldl_add (decreasing : Decreasing messages) (m : Merge) (known : toFront → m.list ≠ []) :
    messages.foldl (Merge.add rootId toFront) m = {
      list := m.list ++ (threadIds rootId messages).filter fun id => ¬ InFront toFront m.list id ∧ Behind m.list id
      refreshed := m.refreshed ++ (threadIds rootId messages).filter fun id => InFront toFront m.list id
      skipped := m.skipped + (messages.countP fun message => message.replyToTop ≠ some rootId) } := by
  induction messages generalizing m with
  | nil => simp [threadIds]
  | cons message rest ih =>
      obtain ⟨first, others⟩ := List.pairwise_cons.mp decreasing
      have smaller : ∀ id ∈ threadIds rootId rest, id < message.id := by
        intro id member
        obtain ⟨other, inside, -, rfl⟩ := mem_threadIds.mp member
        exact first other inside
      rw [List.foldl_cons]
      by_cases ours : message.replyToTop = some rootId
      · have split : threadIds rootId (message :: rest) = message.id :: threadIds rootId rest := by
          simp [threadIds, ours]
        rw [add_thread ours, split]
        by_cases front : InFront toFront m.list message.id
        · rw [if_pos front, ih others { m with refreshed := m.refreshed ++ [message.id] } known]
          simp [front, ours]
        · rw [if_neg front]
          by_cases behind : Behind m.list message.id
          · rw [if_pos behind, ih others { m with list := m.list ++ [message.id] } (by simp)]
            have apart : ∀ id ∈ threadIds rootId rest, ¬ InFront toFront m.list id ∧
                ¬ InFront toFront (m.list ++ [message.id]) id := by
              intro id member
              have less := smaller id member
              have notFront : ¬ InFront toFront m.list id := by
                rintro ⟨atFront, first, head, inFront⟩
                exact front ⟨atFront, first, head, inFront.trans less⟩
              refine ⟨notFront, ?_⟩
              rintro ⟨atFront, first, head, inFront⟩
              rw [List.head?_append_of_ne_nil _ (known atFront)] at head
              exact notFront ⟨atFront, first, head, inFront⟩
            have further : ∀ id ∈ threadIds rootId rest, Behind m.list id ∧ Behind (m.list ++ [message.id]) id := by
              intro id member
              have less := smaller id member
              constructor
              · intro back last
                exact less.trans (behind back last)
              · simpa [Behind] using less
            have filtered : ∀ id ∈ threadIds rootId rest,
                (decide (¬ InFront toFront (m.list ++ [message.id]) id ∧ Behind (m.list ++ [message.id]) id) =
                  decide (¬ InFront toFront m.list id ∧ Behind m.list id)) ∧
                decide (InFront toFront (m.list ++ [message.id]) id) = decide (InFront toFront m.list id) := by
              intro id member
              simp [apart id member, further id member]
            simp only [List.filter_congr fun id member => (filtered id member).1,
              List.filter_congr fun id member => (filtered id member).2]
            simp [front, behind, ours]
          · rw [if_neg behind, ih others m known]
            simp [front, behind, ours]
      · have split : threadIds rootId (message :: rest) = threadIds rootId rest := by
          simp [threadIds, ours]
        rw [add_other ours, split, ih others { m with skipped := m.skipped + 1 } known]
        simp [ours]
        omega

/-- Newer or older than all of a list. -/
def Outside (list : List MsgId) (id : MsgId) : Prop := (∀ other ∈ list, other < id) ∨ ∀ other ∈ list, id < other

theorem le_front (sorted : list.Pairwise (· > ·)) {front id : MsgId} (head : list.head? = some front)
    (member : id ∈ list) : id ≤ front := by
  cases list with
  | nil => cases member
  | cons first rest =>
      obtain rfl : first = front := by simpa using head
      cases member with
      | head => exact le_rfl
      | tail _ inside => exact le_of_lt ((List.pairwise_cons.mp sorted).1 id inside)

theorem back_le (sorted : list.Pairwise (· > ·)) {back id : MsgId} (last : list.getLast? = some back)
    (member : id ∈ list) : back ≤ id := by
  obtain ⟨rest, rfl⟩ := List.getLast?_eq_some_iff.mp last
  obtain inside | here := List.mem_append.mp member
  · exact le_of_lt ((List.pairwise_append.mp sorted).2.2 id inside back (List.mem_singleton_self back))
  · exact le_of_eq (List.mem_singleton.mp here).symm

theorem inFront_iff (sorted : list.Pairwise (· > ·)) {id : MsgId} :
    InFront toFront list id ↔ toFront ∧ list ≠ [] ∧ ∀ other ∈ list, other < id := by
  constructor
  · rintro ⟨atFront, front, head, newer⟩
    exact ⟨atFront, List.ne_nil_of_mem (List.mem_of_head? head),
      fun other member => (le_front sorted head member).trans_lt newer⟩
  · rintro ⟨atFront, filled, newer⟩
    obtain ⟨front, rest, rfl⟩ := List.exists_cons_of_ne_nil filled
    exact ⟨atFront, front, rfl, newer front List.mem_cons_self⟩

theorem behind_iff (sorted : list.Pairwise (· > ·)) {id : MsgId} :
    Behind list id ↔ ∀ other ∈ list, id < other := by
  constructor
  · intro behind other member
    obtain ⟨back, last⟩ := List.getLast?_isSome.mpr (List.ne_nil_of_mem member) |> Option.isSome_iff_exists.mp
    exact (behind back last).trans_le (back_le sorted last member)
  · intro older back last
    exact older back (List.mem_of_getLast? last)

/-- The list after an answer was merged in. -/
def merged (rootId : MsgId) (toFront : Bool) (list : List MsgId) (messages : List ServerMessage) : List MsgId :=
  ((threadIds rootId messages).filter fun id => InFront toFront list id) ++
    (list ++ (threadIds rootId messages).filter fun id => ¬ InFront toFront list id ∧ Behind list id)

theorem merged_decreasing (sorted : list.Pairwise (· > ·)) (decreasing : Decreasing messages) :
    (merged rootId toFront list messages).Pairwise (· > ·) := by
  have ids := @threadIds_decreasing rootId messages decreasing
  refine List.pairwise_append.mpr ⟨ids.filter _, List.pairwise_append.mpr ⟨sorted, ids.filter _, ?_⟩, ?_⟩
  · intro other member id behind
    simp only [List.mem_filter, decide_eq_true_eq, behind_iff sorted] at behind
    exact behind.2.2 other member
  · intro id front other member
    simp only [List.mem_filter, decide_eq_true_eq, inFront_iff sorted] at front
    obtain ⟨-, -, filled, newer⟩ := front
    obtain inside | behind := List.mem_append.mp member
    · exact newer other inside
    · simp only [List.mem_filter, decide_eq_true_eq, behind_iff sorted] at behind
      obtain ⟨first, rest, rfl⟩ := List.exists_cons_of_ne_nil filled
      exact (behind.2.2 first List.mem_cons_self).trans (newer first List.mem_cons_self)

theorem mem_merged (sorted : list.Pairwise (· > ·)) (decreasing : Decreasing messages) {first : ServerMessage}
    (head : messages.head? = some first) (atFront : toFront = list.head?.any (· < first.id)) {id : MsgId} :
    id ∈ merged rootId toFront list messages ↔
      id ∈ list ∨ id ∈ threadIds rootId messages ∧ Outside list id := by
  have newerInFront : id ∈ threadIds rootId messages → list ≠ [] → (∀ other ∈ list, other < id) → toFront := by
    intro member filled newer
    obtain ⟨message, inside, -, rfl⟩ := mem_threadIds.mp member
    obtain ⟨front, rest, rfl⟩ := List.exists_cons_of_ne_nil filled
    have greatest : message.id ≤ first.id := by
      obtain ⟨others, rfl⟩ : ∃ others, messages = first :: others := by
        cases messages with
        | nil => cases head
        | cons m ms => exact ⟨ms, by simpa using head⟩
      cases inside with
      | head => exact le_rfl
      | tail _ inside => exact le_of_lt ((List.pairwise_cons.mp decreasing).1 message inside)
    rw [atFront]
    simpa using (newer front List.mem_cons_self).trans_le greatest
  simp only [merged, List.mem_append, List.mem_filter, decide_eq_true_eq, inFront_iff sorted, behind_iff sorted]
  constructor
  · rintro (⟨member, -, -, newer⟩ | inside | ⟨member, -, older⟩)
    · exact .inr ⟨member, .inl newer⟩
    · exact .inl inside
    · exact .inr ⟨member, .inr older⟩
  · rintro (inside | ⟨member, newer | older⟩)
    · exact .inr (.inl inside)
    · by_cases none : list = []
      · exact .inr (.inr ⟨member, by simp [none], by simp [none]⟩)
      · exact .inl ⟨member, newerInFront member none newer, none, newer⟩
    · refine .inr (.inr ⟨member, ?_, older⟩)
      rintro ⟨-, filled, newer⟩
      obtain ⟨front, rest, rfl⟩ := List.exists_cons_of_ne_nil filled
      exact absurd (newer front List.mem_cons_self) (older front List.mem_cons_self).asymm

theorem foldl_add_merged (decreasing : Decreasing messages) (known : toFront → list ≠ []) :
    let merge := messages.foldl (Merge.add rootId toFront) { list }
    (if toFront then merge.refreshed ++ merge.list else merge.list) = merged rootId toFront list messages ∧
      merge.skipped = messages.countP fun message => message.replyToTop ≠ some rootId := by
  intro merge
  have whole : merge = _ := foldl_add decreasing { list } known
  rw [whole]
  cases toFront with
  | true => simp [merged]
  | false => simp [merged, InFront]

theorem countP_other_le : ((messages.countP fun message => message.replyToTop ≠ some rootId : Nat) : Int) ≤
    messages.length := by
  exact_mod_cast List.countP_le_length

theorem all_skipped_iff :
    (messages.length : Int) = (messages.countP fun message => message.replyToTop ≠ some rootId : Nat) ↔
      threadIds rootId messages = [] := by
  rw [Int.natCast_inj, eq_comm, List.countP_eq_length, threadIds, List.map_eq_nil_iff, List.filter_eq_nil_iff]
  simp

theorem correctSkipped_ok {checkedCount nowSize : Int} (enough : nowSize ≤ checkedCount) {before after : Option Int}
    (left : ∀ n ∈ before, 0 ≤ n) (right : ∀ n ∈ after, 0 ≤ n) :
    ∃ before' after', correctSkipped toFront checkedCount nowSize before after = some (before', after') ∧
      (∀ n ∈ before', 0 ≤ n) ∧ ∀ n ∈ after', 0 ≤ n := by
  cases before with
  | none =>
      cases after with
      | none => exact ⟨none, none, rfl, nofun, nofun⟩
      | some after =>
          have known := right after rfl
          refine ⟨_, _, rfl, ?_, ?_⟩ <;> simp only [Option.mem_some, forall_eq'] <;> omega
  | some before =>
      have known := left before rfl
      cases after with
      | none => refine ⟨_, _, rfl, ?_, ?_⟩ <;> simp only [Option.mem_some, forall_eq'] <;> omega
      | some after =>
          have unknown := right after rfl
          cases toFront <;>
            simp only [correctSkipped, Bool.false_eq_true, ↓reduceIte] <;> rw [if_pos (by omega)] <;>
            refine ⟨_, _, rfl, ?_, ?_⟩ <;> simp only [Option.mem_some, forall_eq'] <;> omega

end Merging

/-- What every state of a run keeps. -/
structure Kept (r : RepliesList) : Prop where
  sorted : r.list.Pairwise (· > ·)
  before : ∀ n ∈ r.skippedBefore, 0 ≤ n
  after : ∀ n ∈ r.skippedAfter, 0 ≤ n
  fullCount : ∀ n ∈ r.fullCount, 0 ≤ n

theorem decrement_nonneg {skipped : Option Int} {added : Int} : ∀ n ∈ decrement skipped added, 0 ≤ n := by
  cases skipped with
  | none => nofun
  | some skipped => simp [decrement]

theorem processMessagesIsEmpty_ok {r : RepliesList} (kept : Kept r) {result : Messages}
    (decreasing : Decreasing result.list) :
    ∃ empty r', processMessagesIsEmpty rootId r result = some (empty, r') ∧ Kept r' ∧
      (∀ id, id ∈ r'.list ↔ id ∈ r.list ∨ id ∈ threadIds rootId result.list ∧ Outside r.list id) ∧
      (empty = true ↔ threadIds rootId result.list = []) := by
  cases head : result.list.head? with
  | none =>
      have nothing : result.list = [] := List.head?_eq_none_iff.mp head
      refine ⟨true, r, by rw [processMessagesIsEmpty, head], kept, ?_, ?_⟩ <;> simp [nothing, threadIds]
  | some first =>
      generalize front : (r.list.head?.any (· < first.id) : Bool) = toFront
      have known : toFront → r.list ≠ [] := by
        rintro rfl none
        simp [none] at front
      obtain ⟨list, skipped⟩ := @foldl_add_merged rootId toFront r.list result.list decreasing known
      have left : ∀ added, ∀ n ∈ (if toFront then r.skippedBefore else decrement r.skippedBefore added), 0 ≤ n := by
        intro added
        cases toFront with
        | true => exact kept.before
        | false => exact decrement_nonneg
      have right : ∀ added, ∀ n ∈ (if toFront then decrement r.skippedAfter added else r.skippedAfter), 0 ≤ n := by
        intro added
        cases toFront with
        | true => exact decrement_nonneg
        | false => exact kept.after
      simp only [processMessagesIsEmpty, head, front, list, skipped]
      obtain ⟨before, after, corrected, leftKept, rightKept⟩ := @correctSkipped_ok toFront _ _
        (Int.le_max_right (result.fullCount - (result.list.countP fun message => message.replyToTop ≠ some rootId : Nat))
          (merged rootId toFront r.list result.list).length) _ _ (left _) (right _)
      rw [corrected]
      dsimp only
      rw [if_pos countP_other_le]
      refine ⟨_, _, rfl, ?_, fun id => mem_merged kept.sorted decreasing head front.symm, ?_⟩
      · exact {
          sorted := merged_decreasing kept.sorted decreasing
          before := leftKept
          after := rightKept
          fullCount := by
            simp only [Option.mem_some, forall_eq']
            omega }
      · rw [decide_eq_true_eq, all_skipped_iff]

/-! ## What one step keeps -/

namespace Kept

variable {r : RepliesList}

/-- The open requests are no part of what is kept. -/
theorem requests (kept : Kept r) (loadingAround : Option MsgId) (beforeId : Option BeforeRequest)
    (afterId : Option MsgId) : Kept { r with loadingAround, beforeId, afterId } :=
  ⟨kept.sorted, kept.before, kept.after, kept.fullCount⟩

theorem cleared (kept : Kept r) (id : MsgId) : Kept (r.cleared id) := by
  refine ⟨.nil, nofun, ?_, kept.fullCount⟩
  intro n known
  simp only [RepliesList.cleared] at known
  split at known
  · obtain rfl : 0 = n := by simpa using known
    exact le_rfl
  · cases known

theorem loadAround (kept : Kept r) (id : MsgId) : Kept (r.loadAround id) := by
  rw [RepliesList.loadAround]
  split
  · exact kept
  · exact kept.requests _ _ _

theorem loadBefore (kept : Kept r) (filled : r.list ≠ []) : ∃ r', r.loadBefore = some r' ∧ Kept r' ∧ r'.list = r.list := by
  obtain ⟨back, last⟩ := Option.isSome_iff_exists.mp (List.getLast?_isSome.mpr filled)
  rw [RepliesList.loadBefore, last]
  dsimp only
  split
  · exact ⟨r, rfl, kept, rfl⟩
  · exact ⟨_, rfl, kept.requests _ _ _, rfl⟩

theorem loadAfter (kept : Kept r) (filled : r.list ≠ []) : ∃ r', r.loadAfter = some r' ∧ Kept r' := by
  obtain ⟨front, first⟩ := Option.isSome_iff_exists.mp (List.isSome_head?.mpr filled)
  rw [RepliesList.loadAfter, first]
  dsimp only
  split
  · exact ⟨r, rfl, kept⟩
  · exact ⟨_, rfl, kept.requests _ _ _⟩

theorem aroundDone (kept : Kept r) (id : MsgId) {result : Messages} (decreasing : Decreasing result.list) :
    ∃ r', aroundDone rootId r id result = some r' ∧ Kept r' ∧
      ∀ other, other ∈ r'.list ↔ other ∈ threadIds rootId result.list := by
  obtain ⟨empty, next, processed, nextKept, members, nothing⟩ :=
    @processMessagesIsEmpty_ok rootId _ (kept.cleared id) result decreasing
  have members : ∀ other, other ∈ next.list ↔ other ∈ threadIds rootId result.list := by
    intro other
    rw [members other]
    simp [RepliesList.cleared, Outside]
  have zero : ∀ n ∈ some (0 : Int), 0 ≤ n := by simp
  rw [RepliesList.aroundDone, processed]
  cases empty with
  | true => exact ⟨_, rfl, ⟨nextKept.sorted, zero, zero, zero⟩, members⟩
  | false =>
      dsimp only
      split_ifs with latest
      · exact ⟨next, rfl, nextKept, members⟩
      · have filled : next.list ≠ [] := by
          intro none
          have : threadIds rootId result.list = [] :=
            List.eq_nil_iff_forall_not_mem.mpr fun other => by simp [← members other, none]
          simpa using nothing.mpr this
        obtain ⟨front, first⟩ := Option.isSome_iff_exists.mp (List.isSome_head?.mpr filled)
        obtain ⟨back, last⟩ := Option.isSome_iff_exists.mp (List.getLast?_isSome.mpr filled)
        rw [first, last]
        dsimp only
        split_ifs
        · exact ⟨_, rfl, ⟨nextKept.sorted, nextKept.before, zero, nextKept.fullCount⟩, members⟩
        · exact ⟨_, rfl, ⟨nextKept.sorted, zero, nextKept.after, nextKept.fullCount⟩, members⟩
        · exact ⟨_, rfl, nextKept, members⟩

theorem recounted (kept : Kept r) (list : List MsgId) {known : Int → Int} (nonneg : ∀ n, 0 ≤ n → 0 ≤ known n) :
    ∀ n ∈ r.recounted list known, 0 ≤ n := by
  intro n member
  rw [RepliesList.recounted] at member
  split at member
  case h_1 before after left right =>
    have := kept.before before left
    have := kept.after after right
    simp only [Option.mem_some] at member
    omega
  case h_2 =>
    obtain ⟨was, counted, rfl⟩ := Option.map_eq_some_iff.mp member
    exact nonneg was (kept.fullCount was counted)

end Kept

/-- An open list is split by an id where a new one is put. -/
theorem lowerBound_split {list : List MsgId} (sorted : list.Pairwise (· > ·)) (id : MsgId) :
    ∃ newer older, list = newer ++ older ∧ lowerBound list id = newer.length ∧ (∀ other ∈ newer, id < other) ∧
      ∀ other ∈ older, other ≤ id := by
  obtain ⟨newer, older, split, below, above⟩ := @split_of_pairwise _ (fun other => decide (id < other)) list
    (sorted.imp fun {a b} greater => by simpa using fun newer => lt_trans newer greater)
  refine ⟨newer, older, split, ?_, by simpa using below, by simpa using above⟩
  rw [lowerBound, split]
  exact partitionPoint_split below above

theorem insertIdx_append (newer older : List MsgId) (id : MsgId) :
    (newer ++ older).insertIdx newer.length id = newer ++ id :: older := by
  induction newer with
  | nil => rfl
  | cons other rest ih => rw [List.length_cons, List.cons_append, List.insertIdx_succ_cons, ih, List.cons_append]

theorem insert_decreasing {list : List MsgId} (sorted : list.Pairwise (· > ·)) {id : MsgId}
    (new : list[lowerBound list id]? ≠ some id) : (list.insertIdx (lowerBound list id) id).Pairwise (· > ·) := by
  obtain ⟨newer, older, rfl, place, greater, less⟩ := lowerBound_split sorted id
  obtain ⟨first, second, across⟩ := List.pairwise_append.mp sorted
  rw [place] at new ⊢
  have smaller : ∀ other ∈ older, other < id := by
    cases older with
    | nil => nofun
    | cons next rest =>
        have notSame : next ≠ id := by
          rintro rfl
          exact new (by simp)
        have below : next < id := lt_of_le_of_ne (less next List.mem_cons_self) notSame
        intro other member
        cases member with
        | head => exact below
        | tail _ inside => exact ((List.pairwise_cons.mp second).1 other inside).trans below
  rw [insertIdx_append]
  refine List.pairwise_append.mpr ⟨first, List.pairwise_cons.mpr ⟨smaller, second⟩, ?_⟩
  intro a member b inside
  cases inside with
  | head => exact greater a member
  | tail _ older => exact across a member b older

theorem applyUpdate_kept {r : RepliesList} (kept : Kept r) (injected : List MsgId) (update : MessageUpdate) :
    Kept (applyUpdate rootId r injected update).2 := by
  simp only [applyUpdate]
  split_ifs with other root thread destroyed missing front known
  · exact kept
  · exact kept
  · exact kept
  · exact kept
  · exact {
      sorted := kept.sorted.sublist (List.eraseIdx_sublist _ _)
      before := kept.before
      after := kept.after
      fullCount := kept.recounted _ fun n nonneg => by split <;> omega }
  · exact kept
  · exact kept
  · exact {
      sorted := insert_decreasing kept.sorted known
      before := kept.before
      after := kept.after
      fullCount := kept.recounted _ fun n nonneg => by omega }

theorem buildFromData_kept {r : RepliesList} (kept : Kept r) (was : MessagesSlice) (around : MsgId)
    (limitBefore limitAfter : Nat) :
    ∃ slice r', r.buildFromData was around limitBefore limitAfter = some (slice, r') ∧ Kept r' := by
  by_cases empty : r.list = [] ∧ r.skippedBefore = some 0 ∧ r.skippedAfter = some 0
  · rw [buildFromData, if_pos empty]
    exact ⟨_, r, rfl, kept⟩
  · rw [buildFromData, if_neg empty]
    split
    · exact ⟨_, _, rfl, kept.loadAround around⟩
    · rename_i ready
      have filled : r.list ≠ [] := fun none => ready (.inl none)
      dsimp only
      generalize (if around ≠ 0 then lowerBound r.list around else r.list.length) = i
      have before : ∃ next, (if r.skippedBefore ≠ some 0 ∧
          min (r.list.length - i) (limitBefore + 1) < limitBefore + 1 then r.loadBefore else some r) =
          some next ∧ Kept next ∧ next.list = r.list := by
        split
        · exact kept.loadBefore filled
        · exact ⟨r, rfl, kept, rfl⟩
      obtain ⟨next, loaded, nextKept, same⟩ := before
      rw [loaded]
      dsimp only
      split
      · obtain ⟨last, loaded, lastKept⟩ := nextKept.loadAfter (same ▸ filled)
        rw [loaded]
        exact ⟨_, last, rfl, lastKept⟩
      · exact ⟨_, next, rfl, nextKept⟩

theorem Kept.beforeDone {r : RepliesList} (kept : Kept r) (last : MsgId) {result : Messages}
    (decreasing : Decreasing result.list) : ∃ r', beforeDone rootId r last result = some r' ∧ Kept r' := by
  have answered : Kept { r with beforeId := none } := kept.requests _ _ _
  rw [RepliesList.beforeDone]
  dsimp only
  split
  · exact ⟨_, rfl, answered⟩
  · rename_i back found
    split
    · obtain ⟨next, loaded, nextKept, -⟩ := answered.loadBefore (List.ne_nil_of_mem (List.mem_of_getLast? found))
      exact ⟨next, loaded, nextKept⟩
    · obtain ⟨empty, next, processed, nextKept, -⟩ := @processMessagesIsEmpty_ok rootId _ answered result decreasing
      rw [processed]
      cases empty with
      | false => exact ⟨next, rfl, nextKept⟩
      | true =>
          refine ⟨_, rfl, nextKept.sorted, by simp, nextKept.after, ?_⟩
          dsimp only
          split
          · simp
          · exact nextKept.fullCount

theorem Kept.afterDone {r : RepliesList} (kept : Kept r) (first : MsgId) {result : Messages}
    (decreasing : Decreasing result.list) : ∃ r', afterDone rootId r first result = some r' ∧ Kept r' := by
  have answered : Kept { r with afterId := none } := kept.requests _ _ _
  rw [RepliesList.afterDone]
  dsimp only
  split
  · exact ⟨_, rfl, answered⟩
  · rename_i front found
    split
    · exact answered.loadAfter (List.ne_nil_of_mem (List.mem_of_head? found))
    · obtain ⟨empty, next, processed, nextKept, -⟩ := @processMessagesIsEmpty_ok rootId _ answered result decreasing
      rw [processed]
      cases empty with
      | false => exact ⟨next, rfl, nextKept⟩
      | true =>
          refine ⟨_, rfl, nextKept.sorted, nextKept.before, by simp, ?_⟩
          dsimp only
          split
          · simp
          · exact nextKept.fullCount

/-- The answers of the server are from the newest message to the oldest. -/
def Event.Decreasing : Event → Prop
  | .beforeDone result | .afterDone result => RepliesList.Decreasing result.list
  | _ => True

theorem step_kept {r : RepliesList} (kept : Kept r) {event : Event} (decreasing : event.Decreasing) :
    ∃ r', step rootId r event = some r' ∧ Kept r' := by
  cases event with
  | build was around limitBefore limitAfter =>
      obtain ⟨slice, next, built, nextKept⟩ := buildFromData_kept kept was around limitBefore limitAfter
      exact ⟨next, by rw [step, built, Option.map_some], nextKept⟩
  | beforeDone result =>
      rw [step]
      split
      · exact ⟨r, rfl, kept⟩
      · obtain ⟨next, done, nextKept, -⟩ := kept.aroundDone _ decreasing
        exact ⟨next, done, nextKept⟩
      · exact kept.beforeDone _ decreasing
  | beforeFail =>
      rw [step]
      split
      · exact ⟨r, rfl, kept⟩
      · exact ⟨_, rfl, kept.requests _ _ _⟩
      · exact ⟨_, rfl, kept.requests _ _ _⟩
  | afterDone result =>
      rw [step]
      split
      · exact ⟨r, rfl, kept⟩
      · exact kept.afterDone _ decreasing
  | afterFail => exact ⟨_, rfl, kept.requests _ _ _⟩
  | update injected update => exact ⟨_, rfl, applyUpdate_kept kept injected update⟩
  | differenceTooLong => exact ⟨_, rfl, kept.sorted, kept.before, nofun, kept.fullCount⟩

theorem run_kept {r : RepliesList} (kept : Kept r) {events : List Event}
    (decreasing : ∀ event ∈ events, event.Decreasing) : ∃ r', run rootId r events = some r' ∧ Kept r' := by
  induction events generalizing r with
  | nil => exact ⟨r, rfl, kept⟩
  | cons event rest ih =>
      obtain ⟨next, stepped, nextKept⟩ := @step_kept rootId r kept event (decreasing event List.mem_cons_self)
      rw [run, stepped]
      exact ih nextKept fun event member => decreasing event (List.mem_cons_of_mem _ member)

theorem fullUnreadCountAfter_nonneg {out : MsgId → Bool} {r : RepliesList} {readTillId wasReadTillId : MsgId}
    (ordered : wasReadTillId ≤ readTillId) {wasUnreadCountAfter : Option Int}
    (was : ∀ n ∈ wasUnreadCountAfter, 0 ≤ n) :
    ∃ unread, fullUnreadCountAfter rootId out r readTillId wasReadTillId wasUnreadCountAfter = some unread ∧
      ∀ n ∈ unread, 0 ≤ n := by
  have counted : ∀ ids, 0 ≤ countIncoming out ids := fun ids => Int.natCast_nonneg _
  rw [fullUnreadCountAfter, if_neg (not_lt.mpr ordered)]
  dsimp only
  split
  · exact ⟨_, rfl, by simpa using counted _⟩
  · split
    · exact ⟨_, rfl, by simp⟩
    · split
      · exact ⟨_, rfl, was⟩
      · split
        · exact ⟨_, rfl, by simpa using counted _⟩
        · split
          · split
            · exact ⟨_, rfl, by simp⟩
            · exact ⟨none, rfl, nofun⟩
          · exact ⟨none, rfl, nofun⟩

/-- The messages of the thread of the post 1. -/
def comments (ids : List MsgId) : List ServerMessage := ids.map fun id => ⟨id, some 1⟩

/-- A comment is destroyed while an answer with it and with newer ones is on its way. -/
def gapMet : List Event :=
  [.build {} 9 10 10, .beforeDone (.messagesSlice 20 (comments [10, 9, 8])), .build {} 9 10 10,
    .update [] ⟨true, true, 1, 9, true⟩]

theorem gapMet_decreasing : ∀ event ∈ gapMet, event.Decreasing := by
  simp [gapMet, Event.Decreasing, Decreasing, comments, Messages.list]

end RepliesList

end IMeDesktop.Data
