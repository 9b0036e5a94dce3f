import Mathlib

/-! # Sets kept as a sorted list

`base::flat_set` is one contiguous run of elements. Elements are found by binary search,
so what an operation does to a list that is not sorted is not what it does to a set. The
operations on lists follow the code and take the comparison as a parameter; they say what
happens to any list. `FlatSet` is for elements that are compared by their own order: there
the list is always sorted.
-/

namespace IMeDesktop.Lib

variable {α : Type}

/-! ## Binary search -/

/-- One halving of `count` elements from `first` on. -/
def searchFrom (before : α → Bool) (l : List α) : Nat → Nat → Nat → Nat
  | 0, first, _ => first
  | fuel + 1, first, count =>
      if count = 0 then first
      else
        let half := count / 2
        match l[first + half]? with
        | none => first
        | some a =>
            if before a then searchFrom before l fuel (first + half + 1) (count - (half + 1))
            else searchFrom before l fuel first half

/-- `lower_bound` and `upper_bound`, with what lies before the position. -/
def partitionPoint (before : α → Bool) (l : List α) : Nat := searchFrom before l l.length 0 l.length

theorem searchFrom_eq {before : α → Bool} {front back : List α} (below : ∀ a ∈ front, before a = true)
    (above : ∀ a ∈ back, before a = false) {fuel first count : Nat} (enough : count ≤ fuel)
    (least : first ≤ front.length) (most : front.length ≤ first + count)
    (inside : first + count ≤ (front ++ back).length) :
    searchFrom before (front ++ back) fuel first count = front.length := by
  induction fuel generalizing first count with
  | zero =>
      rw [searchFrom]
      omega
  | succ fuel ih =>
      rw [searchFrom]
      split_ifs with none
      · omega
      · have found : first + count / 2 < (front ++ back).length := by omega
        simp only [List.getElem?_eq_getElem found]
        by_cases left : first + count / 2 < front.length
        · have taken : before (front ++ back)[first + count / 2] = true := by
            rw [List.getElem_append_left left]
            exact below _ (List.getElem_mem left)
          rw [if_pos taken]
          exact ih (by omega) (by omega) (by omega) (by omega)
        · have taken : before (front ++ back)[first + count / 2] = false := by
            rw [List.getElem_append_right (by omega)]
            exact above _ (List.getElem_mem _)
          rw [if_neg (by simp [taken])]
          exact ih (by omega) (by omega) (by omega) (by omega)

/-- In a list that is split by the condition, the search finds the place where it is split. -/
theorem partitionPoint_split {before : α → Bool} {front back : List α} (below : ∀ a ∈ front, before a = true)
    (above : ∀ a ∈ back, before a = false) : partitionPoint before (front ++ back) = front.length := by
  apply searchFrom_eq below above (Nat.le_refl _) (Nat.zero_le _)
  · rw [List.length_append]
    omega
  · rw [Nat.zero_add]

/-- A list splits where a condition that holds towards its front ends. -/
theorem split_of_pairwise {before : α → Bool} {l : List α}
    (towards : l.Pairwise fun a b => before b = true → before a = true) :
    ∃ front back, l = front ++ back ∧ (∀ a ∈ front, before a = true) ∧ ∀ a ∈ back, before a = false := by
  induction l with
  | nil => exact ⟨[], [], rfl, nofun, nofun⟩
  | cons a l ih =>
      obtain ⟨first, others⟩ := List.pairwise_cons.mp towards
      cases taken : before a with
      | false =>
          refine ⟨[], a :: l, rfl, nofun, List.forall_mem_cons.mpr ⟨taken, fun b member => ?_⟩⟩
          cases other : before b with
          | false => rfl
          | true => exact absurd (first b member other) (by simp [taken])
      | true =>
          obtain ⟨front, back, split, below, above⟩ := ih others
          exact ⟨a :: front, back, by rw [split, List.cons_append], List.forall_mem_cons.mpr ⟨taken, below⟩, above⟩

theorem split_at {l : List α} {i : Nat} {a : α} (here : l[i]? = some a) :
    ∃ front back, l = front ++ a :: back ∧ front.length = i := by
  obtain ⟨inside, rfl⟩ := List.getElem?_eq_some_iff.mp here
  refine ⟨l.take i, l.drop (i + 1), ?_, ?_⟩
  · rw [← List.drop_eq_getElem_cons inside, List.take_append_drop]
  · rw [List.length_take]
    omega

/-! ## Lists under a comparison -/

section Comparison

variable (less : α → α → Bool)

/-- The position of the element, and the list: an element that is there already stays. -/
def emplace (l : List α) (a : α) : Nat × List α :=
  if l.getLast?.all fun last => less last a then (l.length, l ++ [a])
  else
    let position := partitionPoint (fun b => less b a) l
    if l[position]?.all fun b => less a b then (position, l.take position ++ a :: l.drop position)
    else (position, l)

/-- Towards the end, while the next element is less than the one at `which`. -/
def settleForward (l : List α) (which : Nat) : Nat → Nat → List α × Bool
  | 0, _ => (l, false)
  | fuel + 1, i =>
      match l[which]?, l[i]? with
      | some a, some b =>
          if less b a then settleForward ((l.set which b).set i a) which fuel (i + 1)
          else if less a b then (l, false)
          else (l.eraseIdx which, true)
      | _, _ => (l, false)

/-- Towards the beginning. -/
def settleBackward (l : List α) (which : Nat) : Nat → List α
  | 0 => l
  | i + 1 =>
      match l[which]?, l[i]? with
      | some a, some b =>
          if less a b then settleBackward ((l.set which b).set i a) which i
          else if less b a then l
          else l.eraseIdx which
      | _, _ => l

/-- `modify`: the element at `which` became `a`, and is moved to where it belongs, or erased when it is there twice. -/
def modify (l : List α) (which : Nat) (a : α) : List α :=
  match settleForward less (l.set which a) which l.length (which + 1) with
  | (l, true) => l
  | (l, false) => settleBackward less l which which

variable {less}

/-- An element that belongs between two parts of a list is put there. -/
theorem emplace_between {front back : List α} {a : α} (below : ∀ b ∈ front, less b a = true)
    (above : ∀ b ∈ back, less b a = false ∧ less a b = true) :
    emplace less (front ++ back) a = (front.length, front ++ a :: back) := by
  have position : partitionPoint (fun b => less b a) (front ++ back) = front.length :=
    partitionPoint_split below fun b member => (above b member).1
  unfold emplace
  cases back with
  | nil =>
      rw [List.append_nil]
      refine if_pos ?_
      cases last : front.getLast? with
      | none => rfl
      | some b => exact below b (List.mem_of_getLast? last)
  | cons b back =>
      have notLast : ¬ ((front ++ b :: back).getLast?.all fun last => less last a) = true := by
        rw [List.getLast?_append_of_ne_nil _ (List.cons_ne_nil b back), List.getLast?_cons]
        have last := (above (back.getLast?.getD b) (by
          cases tail : back.getLast? with
          | none => exact List.mem_cons_self
          | some c => exact List.mem_cons_of_mem b (List.mem_of_getLast? tail))).1
        simp [last]
      rw [if_neg notLast]
      simp only [position]
      have next := (above b List.mem_cons_self).2
      simp only [List.getElem?_append_right (Nat.le_refl _), Nat.sub_self, List.getElem?_cons_zero, Option.all_some,
        next, if_true]
      rw [List.take_left, List.drop_left]

/-- An element that still belongs where it is stays there. -/
theorem modify_between {front back : List α} {old a : α} (below : ∀ b ∈ front, less a b = false ∧ less b a = true)
    (above : ∀ b ∈ back, less b a = false ∧ less a b = true) :
    modify less (front ++ old :: back) front.length a = front ++ a :: back := by
  have set : (front ++ old :: back).set front.length a = front ++ a :: back := by simp
  have here : (front ++ a :: back)[front.length]? = some a := by simp
  have forward : settleForward less (front ++ a :: back) front.length (front ++ old :: back).length
      (front.length + 1) = (front ++ a :: back, false) := by
    cases length : (front ++ old :: back).length with
    | zero => rfl
    | succ fuel =>
        rw [settleForward, here]
        cases back with
        | nil => simp
        | cons b back =>
            obtain ⟨first, second⟩ := above b List.mem_cons_self
            have next : (front ++ a :: b :: back)[front.length + 1]? = some b := by simp
            simp only [next, first, second, Bool.false_eq_true, if_false, if_true]
  have backward : settleBackward less (front ++ a :: back) front.length front.length = front ++ a :: back := by
    cases length : front.length with
    | zero => rfl
    | succ i =>
        have inside : i < front.length := by omega
        have previous : (front ++ a :: back)[i]? = some front[i] := by
          rw [List.getElem?_append_left inside, List.getElem?_eq_getElem inside]
        obtain ⟨first, second⟩ := below front[i] (List.getElem_mem inside)
        rw [settleBackward, ← length, here, previous]
        simp only [first, second, Bool.false_eq_true, if_false, if_true]
  rw [modify, set, forward]
  exact backward

end Comparison

/-! ## Sets of ordered elements -/

structure FlatSet (α : Type) [LinearOrder α] where
  items : List α
  sorted : items.Pairwise (· < ·)

namespace FlatSet

variable [LinearOrder α]

@[ext]
theorem ext {s t : FlatSet α} (h : s.items = t.items) : s = t := by
  cases s
  cases t
  simp_all

instance : DecidableEq (FlatSet α) := fun s t =>
  decidable_of_iff (s.items = t.items) ⟨ext, fun same => same ▸ rfl⟩

instance : Membership α (FlatSet α) := ⟨fun s a => a ∈ s.items⟩

instance (a : α) (s : FlatSet α) : Decidable (a ∈ s) := inferInstanceAs (Decidable (a ∈ s.items))

theorem mem_items {a : α} {s : FlatSet α} : a ∈ s.items ↔ a ∈ s := Iff.rfl

theorem nodup (s : FlatSet α) : s.items.Nodup := s.sorted.imp ne_of_lt

def empty : FlatSet α := ⟨[], .nil⟩

theorem not_mem_empty (a : α) : a ∉ (empty : FlatSet α) := List.not_mem_nil

def size (s : FlatSet α) : Nat := s.items.length

def insert (s : FlatSet α) (a : α) : FlatSet α :=
  if missing : a ∈ s then s
  else
    { items := s.items.orderedInsert (· ≤ ·) a
      sorted := by
        have ordered := (s.sorted.imp le_of_lt).orderedInsert a
        have distinct := (List.perm_orderedInsert (· ≤ ·) a s.items).nodup_iff.mpr
          (List.nodup_cons.mpr ⟨missing, s.nodup⟩)
        exact (ordered.and distinct).imp fun h => lt_of_le_of_ne h.1 h.2 }

theorem mem_insert {s : FlatSet α} {a b : α} : b ∈ s.insert a ↔ b = a ∨ b ∈ s := by
  unfold insert
  split_ifs with present
  · constructor
    · exact .inr
    · rintro (rfl | member)
      · exact present
      · exact member
  · exact List.mem_orderedInsert (· ≤ ·)

def merge (s : FlatSet α) (more : List α) : FlatSet α := more.foldl insert s

theorem mem_merge {s : FlatSet α} {more : List α} {a : α} : a ∈ s.merge more ↔ a ∈ s ∨ a ∈ more := by
  unfold merge
  induction more generalizing s with
  | nil => simp
  | cons b more ih =>
      rw [List.foldl_cons, ih, mem_insert, List.mem_cons]
      tauto

def ofList (l : List α) : FlatSet α := empty.merge l

theorem mem_ofList {l : List α} {a : α} : a ∈ ofList l ↔ a ∈ l := by
  rw [ofList, mem_merge]
  simp [not_mem_empty]

def remove (s : FlatSet α) (a : α) : FlatSet α := ⟨s.items.filter (· ≠ a), s.sorted.filter _⟩

theorem mem_remove {s : FlatSet α} {a b : α} : b ∈ s.remove a ↔ b ∈ s ∧ b ≠ a := by
  rw [← mem_items, remove, List.mem_filter, decide_eq_true_eq]
  rfl

/-- `erase(begin(), begin() + n)`. -/
def eraseFirst (s : FlatSet α) (n : Nat) : FlatSet α := ⟨s.items.drop n, s.sorted.sublist (List.drop_sublist _ _)⟩

/-- `erase(end() - n, end())`. -/
def eraseLast (s : FlatSet α) (n : Nat) : FlatSet α :=
  ⟨s.items.take (s.size - n), s.sorted.sublist (List.take_sublist _ _)⟩

/-- The position of the first element that is not less. -/
def lowerBound (s : FlatSet α) (a : α) : Nat := partitionPoint (fun b => decide (b < a)) s.items

def toFinset (s : FlatSet α) : Finset α := s.items.toFinset

theorem mem_toFinset {s : FlatSet α} {a : α} : a ∈ s.toFinset ↔ a ∈ s := List.mem_toFinset

theorem card_toFinset (s : FlatSet α) : s.toFinset.card = s.size := List.toFinset_card_of_nodup s.nodup

/-- The elements less than some value come first. -/
theorem split_lowerBound (s : FlatSet α) (a : α) :
    ∃ front back, s.items = front ++ back ∧ (∀ b ∈ front, b < a) ∧ (∀ b ∈ back, a ≤ b) ∧
      s.lowerBound a = front.length := by
  have towards : s.items.Pairwise fun b c => decide (c < a) = true → decide (b < a) = true :=
    s.sorted.imp fun less below => by simpa using less.trans (by simpa using below)
  obtain ⟨front, back, split, below, above⟩ := split_of_pairwise towards
  refine ⟨front, back, split, fun b member => by simpa using below b member,
    fun b member => by simpa using above b member, ?_⟩
  rw [lowerBound, split]
  exact partitionPoint_split below above

/-- A set has one list. -/
theorem items_eq_sort {s : FlatSet α} {t : Finset α} (same : ∀ a, a ∈ s ↔ a ∈ t) : s.items = t.sort (· ≤ ·) := by
  have members : ∀ a, a ∈ s.items ↔ a ∈ t.sort (· ≤ ·) := fun a => by rw [Finset.mem_sort]; exact same a
  have perm := (List.perm_ext_iff_of_nodup s.nodup (t.sort_nodup (· ≤ ·))).mpr members
  exact perm.eq_of_pairwise' (s.sorted.imp le_of_lt) (t.pairwise_sort (· ≤ ·))

theorem items_ofList {l : List α} (sorted : l.Pairwise (· < ·)) : (ofList l).items = l := by
  have perm := (List.perm_ext_iff_of_nodup (ofList l).nodup (sorted.imp ne_of_lt)).mpr fun a => mem_ofList
  exact perm.eq_of_pairwise' ((ofList l).sorted.imp le_of_lt) (sorted.imp le_of_lt)

/-- The greatest element is the last one. -/
theorem le_getLast {s : FlatSet α} {greatest : α} (last : s.items.getLast? = some greatest) :
    greatest ∈ s ∧ ∀ a ∈ s, a ≤ greatest := by
  obtain ⟨others, items⟩ := List.getLast?_eq_some_iff.mp last
  refine ⟨List.mem_of_getLast? last, fun a member => ?_⟩
  have sorted := s.sorted
  rw [items] at sorted
  rw [← mem_items, items] at member
  rcases List.mem_append.mp member with member | member
  · exact ((List.pairwise_append.mp sorted).2.2 a member greatest (by simp)).le
  · rw [List.mem_singleton.mp member]

/-- The least element is the first one. -/
theorem head_le {s : FlatSet α} {least : α} (first : s.items.head? = some least) :
    least ∈ s ∧ ∀ a ∈ s, least ≤ a := by
  obtain ⟨others, items⟩ := List.head?_eq_some_iff.mp first
  refine ⟨List.mem_of_mem_head? first, fun a member => ?_⟩
  have sorted := s.sorted
  rw [items] at sorted
  rw [← mem_items, items] at member
  rcases List.mem_cons.mp member with rfl | member
  · exact le_refl a
  · exact ((List.pairwise_cons.mp sorted).1 a member).le

/-! ## Counting -/

/-- How many elements are less than some value. -/
def countBelow (s : FlatSet α) (a : α) : Nat := s.items.countP (· < a)

def countAbove (s : FlatSet α) (a : α) : Nat := s.items.countP (a < ·)

theorem countP_congr {s t : FlatSet α} {p : α → Bool} (same : ∀ a, p a = true → (a ∈ s ↔ a ∈ t)) :
    s.items.countP p = t.items.countP p := by
  rw [List.countP_eq_length_filter, List.countP_eq_length_filter]
  refine ((List.perm_ext_iff_of_nodup (s.nodup.filter p) (t.nodup.filter p)).mpr fun a => ?_).length_eq
  rw [List.mem_filter, List.mem_filter, mem_items, mem_items]
  exact and_congr_left (same a)

/-- An element stands behind those that are less and before those that are greater. -/
theorem idxOf_eq {s : FlatSet α} {a : α} (member : a ∈ s) :
    s.items.idxOf a = s.countBelow a ∧ s.size = s.countBelow a + 1 + s.countAbove a := by
  obtain ⟨front, back, items⟩ := List.append_of_mem member
  have sorted := s.sorted
  rw [items] at sorted
  obtain ⟨-, behind, between⟩ := List.pairwise_append.mp sorted
  have less : ∀ b ∈ front, b < a := fun b first => between b first a List.mem_cons_self
  have greater : ∀ b ∈ back, a < b := (List.pairwise_cons.mp behind).1
  have missing : a ∉ front := fun first => lt_irrefl a (less a first)
  have below : s.countBelow a = front.length := by
    have all : front.countP (· < a) = front.length := List.countP_eq_length.mpr (by simpa using less)
    have none : back.countP (· < a) = 0 := List.countP_eq_zero.mpr (by simpa using fun b last => (greater b last).le)
    rw [countBelow, items, List.countP_append, List.countP_cons_of_neg (by simp), all, none, Nat.add_zero]
  have above : s.countAbove a = back.length := by
    have all : back.countP (a < ·) = back.length := List.countP_eq_length.mpr (by simpa using greater)
    have none : front.countP (a < ·) = 0 := List.countP_eq_zero.mpr (by simpa using fun b first => (less b first).le)
    rw [countAbove, items, List.countP_append, List.countP_cons_of_neg (by simp), all, none, Nat.zero_add]
  refine ⟨?_, ?_⟩
  · rw [below, items, List.idxOf_append_of_notMem missing, List.idxOf_cons_self, Nat.add_zero]
  · rw [below, above, size, items, List.length_append, List.length_cons]
    omega

end FlatSet

end IMeDesktop.Lib
