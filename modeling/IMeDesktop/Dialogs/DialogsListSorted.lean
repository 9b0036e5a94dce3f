import IMeDesktop.Dialogs.DialogsList

/-! # Lists of chats are sorted

Every row knows its place, and the rows are sorted by non-increasing sort key. After a change of one chat's sort key
all the others are still sorted, and the row is moved to where it belongs.
-/

namespace IMeDesktop.Dialogs

open Lib

/-! ## Where a chat belongs -/

section Descending

variable {sortKey : Key → SortKey} {front back high low : List Key} {key : Key}

/-- By non-increasing sort key. -/
def Descending (sortKey : Key → SortKey) (rows : List Key) : Prop := rows.Pairwise fun a b => sortKey b ≤ sortKey a

theorem Descending.insert (sorted : Descending sortKey (high ++ low)) (above : ∀ a ∈ high, sortKey key ≤ sortKey a)
    (below : ∀ b ∈ low, sortKey b ≤ sortKey key) : Descending sortKey (high ++ key :: low) := by
  obtain ⟨first, second, between⟩ := List.pairwise_append.mp sorted
  apply List.pairwise_append.mpr
  refine ⟨first, List.pairwise_cons.mpr ⟨below, second⟩, fun a member b other => ?_⟩
  cases other with
  | head => exact above a member
  | tail _ other => exact between a member b other

/-- What is not greater than the first is not greater than any, and the other way round. -/
theorem Descending.all_of_head (sorted : Descending sortKey low) {bound : SortKey}
    (first : ∀ a ∈ low.head?, sortKey a ≤ bound) : ∀ a ∈ low, sortKey a ≤ bound := by
  cases low with
  | nil => nofun
  | cons b low =>
      have others := (List.pairwise_cons.mp sorted).1
      exact List.forall_mem_cons.mpr ⟨first b rfl, fun a member => (others a member).trans (first b rfl)⟩

theorem Descending.all_of_last (sorted : Descending sortKey high) {bound : SortKey}
    (last : ∀ a ∈ high.reverse.head?, bound ≤ sortKey a) : ∀ a ∈ high, bound ≤ sortKey a := by
  intro a member
  rw [List.head?_reverse] at last
  cases ends : high.getLast? with
  | none =>
      rw [List.getLast?_eq_none_iff.mp ends] at member
      cases member
  | some b =>
      obtain ⟨front, rfl⟩ := List.getLast?_eq_some_iff.mp ends
      rcases List.mem_append.mp member with member | member
      · exact (last b ends).trans ((List.pairwise_append.mp sorted).2.2 a member b List.mem_cons_self)
      · rw [List.mem_singleton.mp member]
        exact last b ends

theorem Descending.congr {sortKey' : Key → SortKey} {rows : List Key} (sorted : Descending sortKey rows)
    (same : ∀ key ∈ rows, sortKey' key = sortKey key) : Descending sortKey' rows := by
  refine List.Pairwise.imp_of_mem (fun {a b} first second less => ?_) sorted
  rw [same a first, same b second]
  exact less

end Descending

namespace DialogsList

variable {list : DialogsList} {sortKey : Key → SortKey} {key : Key} {front back : List Key}

/-! ## Rows and their places -/

/-- `pos()` of the row of a chat. -/
def pos (list : DialogsList) (key : Key) : Nat := (list.rowByKey key).getD 0

/-- The list has the rows of its chats, and they know their places. -/
structure Rowed (list : DialogsList) : Prop where
  placed : Placed 0 list.rows list.pos
  listed : ∀ key, list.contains key = true ↔ key ∈ list.rows

theorem Rowed.rowByKey_eq (rowed : list.Rowed) (split : list.rows = front ++ key :: back) :
    list.rowByKey key = some front.length := by
  have member : key ∈ list.rows := by rw [split]; simp
  obtain ⟨index, found⟩ := Option.isSome_iff_exists.mp ((rowed.listed key).mpr member)
  have place := rowed.placed front.length key (by rw [split]; simp)
  rw [pos, found, Option.getD_some, Nat.zero_add] at place
  rw [found, place]

/-- No chat has two rows. -/
theorem Rowed.nodup (rowed : list.Rowed) : list.rows.Nodup := rowed.placed.nodup

theorem rowByKey_eq_none (absent : list.contains key ≠ true) : list.rowByKey key = none :=
  Option.not_isSome_iff_eq_none.mp absent

theorem renumberRows_getD (rowByKey : Key → Option Nat) (n : Nat) (keys : List Key) :
    (fun key => (renumberRows rowByKey n keys key).getD 0) = renumber (fun key => (rowByKey key).getD 0) n keys := by
  induction keys generalizing rowByKey n with
  | nil => rfl
  | cons key rest ih =>
      rw [renumberRows, renumber, ih]
      congr 1
      funext other
      by_cases same : other = key
      · rw [same, Function.update_self, Function.update_self]
        rfl
      · rw [Function.update_of_ne same, Function.update_of_ne same]

theorem pos_renumber (list : DialogsList) (rows : List Key) (n : Nat) (keys : List Key) :
    pos ⟨rows, renumberRows list.rowByKey n keys⟩ = renumber list.pos n keys := renumberRows_getD list.rowByKey n keys

theorem isSome_renumberRows (rowByKey : Key → Option Nat) (n : Nat) (keys : List Key) (key : Key) :
    (renumberRows rowByKey n keys key).isSome = true ↔ (rowByKey key).isSome = true ∨ key ∈ keys := by
  induction keys generalizing rowByKey n with
  | nil => simp [renumberRows]
  | cons first rest ih =>
      rw [renumberRows, ih, List.mem_cons]
      by_cases same : key = first
      · simp [same]
      · simp [same]

/-! ## Operations -/

theorem rotate_rowed {left right : List Key} (rowed : list.Rowed) (split : list.rows = front ++ left ++ right ++ back) :
    (list.rotate front.length (front.length + left.length) (front.length + left.length + right.length)).Rowed ∧
      (list.rotate front.length (front.length + left.length) (front.length + left.length + right.length)).rows =
        front ++ right ++ left ++ back := by
  have rows : rotated list.rows front.length (front.length + left.length)
      (front.length + left.length + right.length) = front ++ (right ++ left) ++ back := by
    rw [split, rotated_split, List.append_assoc front]
  have middle : ((front ++ (right ++ left) ++ back).take (front.length + left.length + right.length)).drop front.length =
      right ++ left := by
    rw [List.take_left' (by simp; omega), List.drop_left]
  have whole := rowed.placed
  have nodup := whole.nodup
  rw [split, List.append_assoc front, placed_append, placed_append] at whole
  rw [split] at nodup
  have moved : (front ++ (right ++ left) ++ back).Perm (front ++ left ++ right ++ back) := by
    rw [List.append_assoc front left]
    exact (List.perm_append_comm.append_left front).append_right back
  rw [rotate, rows, middle, List.append_assoc front right]
  refine ⟨⟨?_, fun key => ?_⟩, rfl⟩
  · have behind : Placed (0 + front.length + (right ++ left).length) back list.pos := by
      have same : 0 + (front ++ (left ++ right)).length = 0 + front.length + (right ++ left).length := by
        simp only [List.length_append]
        omega
      exact same ▸ whole.2
    have placed := placed_renumber_between (moved.nodup_iff.mpr nodup) whole.1.1 behind
    rw [Nat.zero_add] at placed
    rw [pos_renumber]
    exact placed
  · rw [contains, isSome_renumberRows]
    dsimp only
    rw [moved.mem_iff, ← split, ← contains, rowed.listed, split]
    simp only [List.mem_append]
    tauto

structure Sorted (sortKey : Key → SortKey) (list : DialogsList) : Prop extends Rowed list where
  sorted : Descending sortKey list.rows

/-- Two parts change places, after which all is sorted. -/
theorem rotate_sorted {left right : List Key} {first middle last : Nat} (rowed : list.Rowed)
    (split : list.rows = front ++ left ++ right ++ back) (at_first : front.length = first)
    (at_middle : front.length + left.length = middle) (at_last : front.length + left.length + right.length = last)
    (sorted : Descending sortKey (front ++ right ++ left ++ back)) :
    (list.rotate first middle last).Sorted sortKey ∧ (list.rotate first middle last).rows.Perm list.rows := by
  subst at_first at_middle at_last
  obtain ⟨rowed', rows⟩ := rotate_rowed rowed split
  refine ⟨⟨rowed', ?_⟩, ?_⟩
  · rw [rows]
    exact sorted
  · rw [rows, split, List.append_assoc front right, List.append_assoc front left]
    exact (List.perm_append_comm.append_left front).append_right back

/-- The row of a chat is moved to where it belongs among the others. -/
theorem adjustByDate_spec (rowed : list.Rowed) (split : list.rows = front ++ key :: back)
    (sorted : Descending sortKey (front ++ back)) :
    ∃ list', adjustByDate sortKey list key = some list' ∧ list'.Sorted sortKey ∧ list'.rows.Perm list.rows := by
  have behind : list.rows.drop (front.length + 1) = back := by
    rw [split, List.append_cons, List.drop_left' (by simp)]
  have before : list.rows.take front.length = front := by rw [split, List.take_left]
  obtain ⟨ahead, after, _⟩ := List.pairwise_append.mp sorted
  obtain ⟨bigger, rest, back_eq, index, greater, next⟩ := findIdx_split (fun row => sortKey row ≤ sortKey key) back
  subst back_eq
  have below : ∀ a ∈ rest, sortKey a ≤ sortKey key :=
    Descending.all_of_head (List.pairwise_append.mp after).2.1 fun a head => of_decide_eq_true (next a head)
  unfold adjustByDate
  simp only [rowed.rowByKey_eq split, behind, before, index]
  by_cases none : bigger = []
  · subst none
    rw [if_neg (by simp)]
    obtain ⟨smaller, larger, front_eq, index', less, last⟩ :=
      findIdx_split (fun row => sortKey row ≥ sortKey key) front.reverse
    obtain rfl : front = larger.reverse ++ smaller.reverse := by
      rw [← List.reverse_append, ← front_eq, List.reverse_reverse]
    have above : ∀ a ∈ larger.reverse, sortKey key ≤ sortKey a := by
      refine Descending.all_of_last (List.pairwise_append.mp ahead).1 fun a head => ?_
      rw [List.reverse_reverse] at head
      exact of_decide_eq_true (last a head)
    rw [List.nil_append] at sorted split
    have place : (larger.reverse ++ smaller.reverse).length - smaller.length = larger.reverse.length := by simp
    rw [index', place]
    by_cases none : smaller = []
    · subst none
      rw [if_neg (by simp)]
      rw [List.reverse_nil, List.append_nil] at sorted split
      refine ⟨list, rfl, ⟨rowed, ?_⟩, .refl _⟩
      rw [split]
      exact sorted.insert above below
    · have positive := List.length_pos_iff.mpr none
      rw [if_pos (by simp only [List.length_append, List.length_reverse]; omega)]
      have moved : Descending sortKey (larger.reverse ++ [key] ++ smaller.reverse ++ rest) := by
        rw [List.append_assoc, List.append_assoc, List.singleton_append]
        rw [List.append_assoc] at sorted
        refine sorted.insert above fun b member => ?_
        rcases List.mem_append.mp member with small | small
        · exact (lt_of_not_ge (of_decide_eq_false (less b (List.mem_reverse.mp small)))).le
        · exact below b small
      refine ⟨_, rfl, rotate_sorted rowed (split.trans (List.append_cons _ _ _)) rfl List.length_append.symm ?_ moved⟩
      rw [List.length_append, List.length_singleton]
  · have positive := List.length_pos_iff.mpr none
    rw [if_pos (by omega)]
    have moved : Descending sortKey (front ++ bigger ++ [key] ++ rest) := by
      rw [List.append_assoc, List.singleton_append]
      rw [← List.append_assoc] at sorted
      have large : ∀ b ∈ bigger, sortKey key ≤ sortKey b := fun b member =>
        (lt_of_not_ge (of_decide_eq_false (greater b member))).le
      refine sorted.insert (fun a member => ?_) below
      rcases List.mem_append.mp member with first | first
      · obtain ⟨b, other⟩ := List.exists_mem_of_ne_nil bigger none
        have order := (List.pairwise_append.mp (List.pairwise_append.mp sorted).1).2.2 a first b other
        exact (large b other).trans order
      · exact large a first
    have parts : list.rows = front ++ [key] ++ bigger ++ rest := by rw [split]; simp
    exact ⟨_, rfl, rotate_sorted rowed parts rfl rfl rfl moved⟩

/-- A chat that the list has not gets a row. -/
theorem addToEnd_spec (sorted : list.Sorted sortKey) (absent : key ∉ list.rows) :
    ∃ list', addToEnd sortKey list key = some list' ∧ list'.Sorted sortKey ∧
      ∀ other, other ∈ list'.rows ↔ other = key ∨ other ∈ list.rows := by
  have missing : ¬list.contains key = true := mt (sorted.listed key).mp absent
  have rowed : Rowed ⟨list.rows ++ [key], Function.update list.rowByKey key (some list.rows.length)⟩ := by
    constructor
    · dsimp only
      rw [placed_append, Nat.zero_add, placed_cons]
      refine ⟨sorted.placed.congr fun other member => ?_, ?_, placed_nil _ _⟩
      · have different : other ≠ key := ne_of_mem_of_not_mem member absent
        simp [pos, different]
      · simp [pos]
    · intro other
      by_cases same : other = key
      · simp [contains, same]
      · simp only [contains, Function.update_of_ne same, List.mem_append, List.mem_singleton, same, or_false]
        exact sorted.listed other
  have others : Descending sortKey (list.rows ++ []) := by
    rw [List.append_nil]
    exact sorted.sorted
  obtain ⟨list', adjusted, sorted', perm⟩ := adjustByDate_spec rowed rfl others
  refine ⟨list', ?_, sorted', fun other => ?_⟩
  · rw [addToEnd, if_neg missing]
    exact adjusted
  · rw [perm.mem_iff, List.mem_append, List.mem_singleton, or_comm]

theorem del_of_not_mem (rowed : list.Rowed) (absent : key ∉ list.rows) : list.del key = list := by
  rw [del, rowByKey_eq_none (mt (rowed.listed key).mp absent)]

theorem del_spec (sorted : list.Sorted sortKey) :
    (list.del key).Sorted sortKey ∧ ∀ other, other ∈ (list.del key).rows ↔ other ∈ list.rows ∧ other ≠ key := by
  by_cases member : key ∈ list.rows
  · obtain ⟨front, back, split⟩ := List.append_of_mem member
    have erased : list.rows.eraseIdx front.length = front ++ back := by
      rw [split, List.eraseIdx_append_of_length_le (Nat.le_refl _), Nat.sub_self, List.eraseIdx_zero, List.tail_cons]
    have placed := sorted.placed
    have order := sorted.sorted
    have listed := sorted.listed
    rw [split] at placed order listed
    have nodup := placed.nodup
    have others : (front ++ back).Nodup := nodup.sublist ((List.sublist_cons_self key back).append_left front)
    have apart : key ∉ front ++ back := by
      have moved := List.perm_middle.nodup_iff.mp nodup
      exact (List.nodup_cons.mp moved).1
    have deleted : list.del key =
        ⟨front ++ back, Function.update (renumberRows list.rowByKey front.length back) key none⟩ := by
      rw [del, sorted.rowByKey_eq split]
      simp only [erased, List.drop_left]
    rw [deleted, split]
    refine ⟨⟨⟨?_, fun other => ?_⟩, ?_⟩, fun other => ?_⟩
    · have again : Placed 0 (front ++ back ++ []) (renumber list.pos (0 + front.length) back) :=
        placed_renumber_between (by rwa [List.append_nil]) (placed_append.mp placed).1 (placed_nil _ _)
      rw [List.append_nil, Nat.zero_add] at again
      refine again.congr fun other known => ?_
      rw [← pos_renumber list []]
      simp [pos, ne_of_mem_of_not_mem known apart]
    · by_cases same : other = key
      · subst same
        simp only [contains, Function.update_self]
        exact iff_of_false (by simp) apart
      · simp only [contains, Function.update_of_ne same, isSome_renumberRows]
        change list.contains other = true ∨ _ ↔ _
        rw [listed]
        simp [same]
    · exact order.sublist ((List.sublist_cons_self key back).append_left front)
    · dsimp only
      constructor
      · intro known
        refine ⟨?_, ne_of_mem_of_not_mem known apart⟩
        exact ((List.sublist_cons_self key back).append_left front).subset known
      · intro ⟨known, different⟩
        simpa [different] using known
  · rw [del_of_not_mem sorted.toRowed member]
    exact ⟨sorted, fun other => (and_iff_left_of_imp fun known => ne_of_mem_of_not_mem known member).symm⟩

theorem Sorted.congr (sorted : list.Sorted sortKey) {value : SortKey} (absent : key ∉ list.rows) :
    list.Sorted (Function.update sortKey key value) :=
  ⟨sorted.toRowed, sorted.sorted.congr fun _ member => Function.update_of_ne (ne_of_mem_of_not_mem member absent) _ _⟩

/-- The sort key of one chat has changed. -/
theorem adjustByDate_changed (sorted : list.Sorted sortKey) (value : SortKey) (member : key ∈ list.rows) :
    ∃ list', adjustByDate (Function.update sortKey key value) list key = some list' ∧
      list'.Sorted (Function.update sortKey key value) ∧ list'.rows.Perm list.rows := by
  obtain ⟨front, back, split⟩ := List.append_of_mem member
  have nodup := sorted.nodup
  have order := sorted.sorted
  rw [split] at nodup order
  have apart : key ∉ front ++ back := (List.nodup_cons.mp (List.perm_middle.nodup_iff.mp nodup)).1
  have others : Descending sortKey (front ++ back) :=
    order.sublist ((List.sublist_cons_self key back).append_left front)
  apply adjustByDate_spec sorted.toRowed split
  exact others.congr fun _ known => Function.update_of_ne (ne_of_mem_of_not_mem known apart) _ _

end DialogsList

end IMeDesktop.Dialogs
