import IMeDesktop.Data.RepliesListRuns

/-! # The unread comments of a post

What is loaded of a thread is a run of its messages, the newest first. The number of unread
ones is counted in the run alone, or taken from the number before by what was read since;
both are right where the run reaches far enough.
-/

namespace IMeDesktop.Data

namespace RepliesList

/-- The messages of a thread around the ones that are loaded, with the numbers of the others where these are known. -/
structure RunOf (thread newer older : List MsgId) (r : RepliesList) : Prop where
  split : thread = newer ++ r.list ++ older
  sorted : thread.Pairwise (· > ·)
  skippedAfter : ∀ n ∈ r.skippedAfter, n = newer.length
  skippedBefore : ∀ n ∈ r.skippedBefore, n = older.length

/-- The messages of others above an id. -/
def unreadAfter (out : MsgId → Bool) (thread : List MsgId) (till : MsgId) : Int :=
  countIncoming out (thread.filter fun id => till < id)

section Counting

variable {out : MsgId → Bool} {list : List MsgId} {till was : MsgId}

theorem countIncoming_append (first second : List MsgId) :
    countIncoming out (first ++ second) = countIncoming out first + countIncoming out second := by
  simp [countIncoming]

theorem unreadAfter_append (first second : List MsgId) :
    unreadAfter out (first ++ second) till = unreadAfter out first till + unreadAfter out second till := by
  simp [unreadAfter, countIncoming_append]

theorem unreadAfter_all (above : ∀ id ∈ list, till < id) : unreadAfter out list till = countIncoming out list := by
  rw [unreadAfter, List.filter_eq_self.mpr]
  simpa using above

theorem unreadAfter_none (below : ∀ id ∈ list, id ≤ till) : unreadAfter out list till = 0 := by
  rw [unreadAfter, List.filter_eq_nil_iff.mpr]
  · rfl
  · simpa using below

/-- Ids below those of a thread do not tell anything apart. -/
theorem unreadAfter_max {rootId : MsgId} (comments : ∀ id ∈ list, rootId < id) :
    unreadAfter out list (max till rootId) = unreadAfter out list till := by
  unfold unreadAfter
  congr 1
  apply List.filter_congr
  intro id member
  have after := comments id member
  grind

/-- The search finds where the unread ones end. -/
theorem countIncoming_take (sorted : list.Pairwise (· > ·)) :
    countIncoming out (list.take (lowerBound list till)) = unreadAfter out list till := by
  obtain ⟨newer, older, rfl, place, greater, less⟩ := lowerBound_split sorted till
  rw [place, List.take_left, unreadAfter_append, unreadAfter_all greater, unreadAfter_none less]
  omega

/-- Those between two positions are those that were read. -/
theorem countIncoming_between (sorted : list.Pairwise (· > ·)) (ordered : was ≤ till) :
    countIncoming out ((list.drop (lowerBound list till)).take (lowerBound (list.drop (lowerBound list till)) was)) =
      unreadAfter out list was - unreadAfter out list till := by
  obtain ⟨newer, older, rfl, place, greater, less⟩ := lowerBound_split sorted till
  have rest : older.Pairwise (· > ·) := (List.pairwise_append.mp sorted).2.1
  have above : ∀ id ∈ newer, was < id := fun id member => lt_of_le_of_lt ordered (greater id member)
  rw [place, List.drop_left, countIncoming_take rest, unreadAfter_append, unreadAfter_append, unreadAfter_all above,
    unreadAfter_all greater, unreadAfter_none less]
  omega

end Counting

section Run

variable {thread newer older : List MsgId} {r : RepliesList} {out : MsgId → Bool} {till was : MsgId}

namespace RunOf

theorem unreadAfter_eq (run : RunOf thread newer older r) :
    unreadAfter out thread till = unreadAfter out newer till + unreadAfter out r.list till + unreadAfter out older till := by
  rw [run.split, unreadAfter_append, unreadAfter_append]

theorem list_sorted (run : RunOf thread newer older r) : r.list.Pairwise (· > ·) := by
  have sorted := run.sorted
  rw [run.split] at sorted
  exact (List.pairwise_append.mp (List.pairwise_append.mp sorted).1).2.1

theorem newer_above (run : RunOf thread newer older r) : ∀ id ∈ newer, ∀ other ∈ r.list, other < id := by
  have sorted := run.sorted
  rw [run.split] at sorted
  exact (List.pairwise_append.mp (List.pairwise_append.mp sorted).1).2.2

theorem older_below (run : RunOf thread newer older r) : ∀ other ∈ r.list, ∀ id ∈ older, id < other := by
  have sorted := run.sorted
  rw [run.split] at sorted
  intro other member id behind
  exact (List.pairwise_append.mp sorted).2.2 other (List.mem_append_right _ member) id behind

theorem frontLoaded (run : RunOf thread newer older r) (loaded : r.skippedAfter = some 0) : newer = [] := by
  have none := run.skippedAfter 0 loaded
  exact List.eq_nil_of_length_eq_zero (by omega)

theorem backLoaded (run : RunOf thread newer older r) (loaded : r.skippedBefore = some 0) : older = [] := by
  have none := run.skippedBefore 0 loaded
  exact List.eq_nil_of_length_eq_zero (by omega)

/-- All is loaded that is newer than what was read. -/
theorem unreadAfter_take (run : RunOf thread newer older r) (loaded : r.skippedAfter = some 0) {back : MsgId}
    (last : r.list.getLast? = some back) (reached : back ≤ till) :
    countIncoming out (r.list.take (lowerBound r.list till)) = unreadAfter out thread till := by
  have member := List.mem_of_getLast? last
  have behind : ∀ id ∈ older, id ≤ till := fun id old => ((run.older_below back member id old).trans_le reached).le
  rw [countIncoming_take run.list_sorted, run.unreadAfter_eq, run.frontLoaded loaded, unreadAfter_none behind]
  simp [unreadAfter, countIncoming]

/-- All that was read since is loaded. -/
theorem unreadAfter_between (run : RunOf thread newer older r) {front back : MsgId} (head : r.list.head? = some front)
    (last : r.list.getLast? = some back) (ordered : was ≤ till) (newest : r.skippedAfter = some 0 ∨ till ≤ front)
    (oldest : r.skippedBefore = some 0 ∨ back ≤ was) :
    unreadAfter out thread was - countIncoming out
        ((r.list.drop (lowerBound r.list till)).take (lowerBound (r.list.drop (lowerBound r.list till)) was)) =
      unreadAfter out thread till := by
  have unseen : ∀ id ∈ newer, till < id := by
    intro id member
    cases newest with
    | inl loaded =>
        rw [run.frontLoaded loaded] at member
        cases member
    | inr before => exact before.trans_lt (run.newer_above id member front (List.mem_of_mem_head? head))
  have seen : ∀ id ∈ older, id ≤ was := by
    intro id member
    cases oldest with
    | inl loaded =>
        rw [run.backLoaded loaded] at member
        cases member
    | inr before => exact ((run.older_below back (List.mem_of_getLast? last) id member).trans_le before).le
  rw [countIncoming_between run.list_sorted ordered, run.unreadAfter_eq, run.unreadAfter_eq,
    unreadAfter_all unseen, unreadAfter_all fun id member => ordered.trans_lt (unseen id member),
    unreadAfter_none seen, unreadAfter_none fun id member => (seen id member).trans ordered]
  omega

end RunOf

/-- The number of unread comments is right whenever it is known. -/
theorem fullUnreadCountAfter_exact {rootId readTillId wasReadTillId : MsgId} {wasUnreadCountAfter : Option Int}
    (run : RunOf thread newer older r) (comments : ∀ id ∈ thread, rootId < id) (ordered : wasReadTillId ≤ readTillId)
    (was : ∀ n ∈ wasUnreadCountAfter, n = unreadAfter out thread wasReadTillId) :
    ∃ unread, fullUnreadCountAfter rootId out r readTillId wasReadTillId wasUnreadCountAfter = some unread ∧
      ∀ n ∈ unread, n = unreadAfter out thread readTillId := by
  have wasMax := @unreadAfter_max out thread wasReadTillId rootId comments
  rw [fullUnreadCountAfter, if_neg (not_lt.mpr ordered), ← @unreadAfter_max out thread readTillId rootId comments]
  rw [← wasMax] at was
  have ordered' : max wasReadTillId rootId ≤ max readTillId rootId := max_le_max_right rootId ordered
  have reached : rootId ≤ max readTillId rootId := le_max_right _ _
  dsimp only
  generalize max readTillId rootId = till at ordered' reached
  generalize max wasReadTillId rootId = wasTill at was ordered'
  split
  · rename_i all
    simp only [Bool.and_eq_true, Bool.or_eq_true, decide_eq_true_eq] at all
    obtain ⟨unread, back, front⟩ := all
    have whole : thread = r.list := by
      rw [run.split, run.frontLoaded front, run.backLoaded back, List.nil_append, List.append_nil]
    refine ⟨_, rfl, ?_⟩
    rintro n ⟨⟩
    cases unread with
    | inl start =>
        rw [whole, start]
        exact (unreadAfter_all (whole ▸ comments)).symm
    | inr none =>
        rw [whole, none.2]
        rfl
  · split
    · rename_i read
      simp only [Bool.and_eq_true, decide_eq_true_eq, Option.any_eq_true] at read
      obtain ⟨loaded, front, head, before⟩ := read
      refine ⟨_, rfl, ?_⟩
      rintro n ⟨⟩
      have all : ∀ id ∈ thread, id ≤ till := by
        intro id member
        rw [run.split, run.frontLoaded loaded, List.nil_append] at member
        cases List.mem_append.mp member with
        | inl here => exact (le_front run.list_sorted head here).trans before
        | inr old => exact ((run.older_below front (List.mem_of_mem_head? head) id old).trans_le before).le
      exact (unreadAfter_none all).symm
    · split
      · rename_i same
        exact ⟨_, rfl, same ▸ was⟩
      · split
        · rename_i counted
          simp only [Bool.and_eq_true, decide_eq_true_eq, Option.any_eq_true] at counted
          obtain ⟨loaded, back, last, before⟩ := counted
          refine ⟨_, rfl, ?_⟩
          rintro n ⟨⟩
          exact run.unreadAfter_take loaded last before
        · split
          · rename_i front back wasUnread head last
            split
            · rename_i known
              simp only [Bool.and_eq_true, Bool.or_eq_true, decide_eq_true_eq] at known
              refine ⟨_, rfl, ?_⟩
              rintro n ⟨⟩
              rw [was wasUnread rfl, run.unreadAfter_between head last ordered' known.1 known.2]
              exact max_eq_left (Int.natCast_nonneg _)
            · exact ⟨none, rfl, fun _ same => by cases same⟩
          · exact ⟨none, rfl, fun _ same => by cases same⟩

end Run

/-- Two of four comments were read when two are loaded, and then a third one. -/
theorem fullUnreadCountAfter_subtracts :
    let r : RepliesList := { list := [7, 5], skippedAfter := some 1 }
    let out : MsgId → Bool := fun _ => false
    unreadAfter out [9, 7, 5, 3] 7 = 1 ∧
      ∃ unread, fullUnreadCountAfter 1 out r 7 5 (some 2) = some unread ∧
        ∀ n ∈ unread, n = unreadAfter out [9, 7, 5, 3] 7 := by
  intro r out
  have run : RunOf [9, 7, 5, 3] [9] [3] r := ⟨rfl, by decide, by simp [r], by simp [r]⟩
  refine ⟨by decide, fullUnreadCountAfter_exact run (by decide) (by decide) ?_⟩
  rintro n ⟨⟩
  decide

end RepliesList

end IMeDesktop.Data
