import IMeDesktop.Lib.FlatSet

/-! # Changing an element of a set in place

After the change `modify` moves the element by swaps, and compares with the one that is at its old place.
When this is a neighbour that took the place, the element stops behind it.
-/

namespace IMeDesktop.Base

open Lib

variable {α : Type} {less : α → α → Bool} {front back : List α} {old a b p : α}

/-- `Compare` is a strict weak order. -/
structure StrictWeak (less : α → α → Bool) : Prop where
  irrefl : ∀ a, less a a = false
  trans : ∀ {a b c}, less a b = true → less b c = true → less a c = true
  between : ∀ {a b} c, less a b = true → less a c = true ∨ less c b = true

theorem StrictWeak.asymm (order : StrictWeak less) (first : less a b = true) : less b a = false := by
  by_contra second
  have circle := order.trans first (Bool.not_eq_false _ |>.mp second)
  rw [order.irrefl] at circle
  cases circle

/-- Neither is less. -/
def Equal (less : α → α → Bool) (a b : α) : Prop := less a b = false ∧ less b a = false

theorem StrictWeak.less_of_equal (order : StrictWeak less) {c : α} (equal : Equal less a b) :
    (less c b = true → less c a = true) ∧ (less b c = true → less a c = true) := by
  constructor
  · intro below
    rcases order.between a below with found | wrong
    · exact found
    · rw [equal.1] at wrong
      cases wrong
  · intro above
    rcases order.between a above with wrong | found
    · rw [equal.2] at wrong
      cases wrong
    · exact found

/-! ## Where the element stops -/

theorem settleForward_stops {l : List α} {which i : Nat} (here : l[which]? = some a)
    (next : ∀ b, l[i]? = some b → less b a = false ∧ less a b = true) (fuel : Nat) :
    settleForward less l which fuel i = (l, false) := by
  cases fuel with
  | zero => rfl
  | succ fuel =>
      rw [settleForward, here]
      cases found : l[i]? with
      | none => rfl
      | some b =>
          obtain ⟨not_below, above⟩ := next b found
          simp only [not_below, above, Bool.false_eq_true, if_false, if_true]

theorem settleBackward_stops {l : List α} {which i : Nat} (here : l[which]? = some a)
    (previous : ∀ j b, i = j + 1 → l[j]? = some b → less a b = false ∧ less b a = true) :
    settleBackward less l which i = l := by
  cases i with
  | zero => rfl
  | succ j =>
      rw [settleBackward, here]
      cases found : l[j]? with
      | none => rfl
      | some b =>
          obtain ⟨not_below, above⟩ := previous j b rfl found
          simp only [not_below, above, Bool.false_eq_true, if_false, if_true]

theorem here_at (front back : List α) (a : α) : (front ++ a :: back)[front.length]? = some a := by simp

theorem next_at (front rest : List α) (a b : α) : (front ++ a :: b :: rest)[front.length + 1]? = some b := by simp

theorem previous_at (front back : List α) (p a : α) : ((front ++ [p]) ++ a :: back)[front.length]? = some p := by simp

/-- What is changed is compared at its place. -/
theorem modify_eq (less : α → α → Bool) (front back : List α) (old a : α) :
    Lib.modify less (front ++ old :: back) front.length a =
      match settleForward less (front ++ a :: back) front.length (front.length + back.length + 1) (front.length + 1) with
      | (l, true) => l
      | (l, false) => settleBackward less l front.length front.length := by
  have set : (front ++ old :: back).set front.length a = front ++ a :: back := by simp
  have length : (front ++ old :: back).length = front.length + back.length + 1 := by
    rw [List.length_append, List.length_cons, Nat.add_assoc]
  have unfolded : Lib.modify less (front ++ old :: back) front.length a =
      match settleForward less ((front ++ old :: back).set front.length a) front.length (front ++ old :: back).length
          (front.length + 1) with
      | (l, true) => l
      | (l, false) => settleBackward less l front.length front.length := rfl
  rw [set, length] at unfolded
  exact unfolded

/-- One that is equal to the next goes. -/
theorem modify_equal_next {rest : List α} (equal : Equal less a b) :
    Lib.modify less (front ++ old :: b :: rest) front.length a = front ++ b :: rest := by
  have erased : (front ++ a :: b :: rest).eraseIdx front.length = front ++ b :: rest := by
    rw [List.eraseIdx_append_of_length_le le_rfl]
    simp
  have forward (fuel : Nat) : settleForward less (front ++ a :: b :: rest) front.length (fuel + 1) (front.length + 1) =
      (front ++ b :: rest, true) := by
    rw [settleForward, here_at, next_at]
    dsimp only
    rw [equal.1, equal.2, erased]
    rfl
  rw [modify_eq, forward]

section Sorted

variable (order : StrictWeak less)

include order

/-- The next element takes the place of the changed one, which is not compared any more. -/
theorem modify_next {rest : List α} (sorted : (front ++ b :: rest).Pairwise fun b c => less b c = true)
    (passes : less b a = true) :
    Lib.modify less (front ++ old :: b :: rest) front.length a = front ++ b :: a :: rest := by
  obtain ⟨-, behind, across⟩ := List.pairwise_append.mp sorted
  have swapped : ((front ++ a :: b :: rest).set front.length b).set (front.length + 1) a = front ++ b :: a :: rest := by
    simp
  have forward (fuel : Nat) : settleForward less (front ++ a :: b :: rest) front.length (fuel + 1) (front.length + 1) =
      (front ++ b :: a :: rest, false) := by
    rw [settleForward, here_at, next_at]
    dsimp only
    rw [if_pos passes, swapped]
    apply settleForward_stops (here_at front (a :: rest) b)
    intro c found
    have after : (front ++ b :: a :: rest)[front.length + 1 + 1]? = rest[0]? := by
      rw [List.getElem?_append_right (by omega), show front.length + 1 + 1 - front.length = 2 by omega]
      rfl
    rw [after] at found
    have above := (List.pairwise_cons.mp behind).1 c (List.mem_of_getElem? found)
    exact ⟨order.asymm above, above⟩
  have backward : settleBackward less (front ++ b :: a :: rest) front.length front.length = front ++ b :: a :: rest := by
    apply settleBackward_stops (here_at front (a :: rest) b)
    intro j c size found
    rw [List.getElem?_append_left (by omega)] at found
    have below := across c (List.mem_of_getElem? found) b List.mem_cons_self
    exact ⟨order.asymm below, below⟩
  rw [modify_eq, forward]
  exact backward

/-- Where the element does not go forward, the one before it decides. -/
theorem modify_back (before : ∀ b ∈ back.head?, less a b = true) :
    Lib.modify less (front ++ old :: back) front.length a =
      settleBackward less (front ++ a :: back) front.length front.length := by
  have forward (fuel : Nat) : settleForward less (front ++ a :: back) front.length fuel (front.length + 1) =
      (front ++ a :: back, false) := by
    apply settleForward_stops (here_at front back a)
    intro b found
    have first : back.head? = some b := by
      rw [List.getElem?_append_right (by omega)] at found
      rw [List.head?_eq_getElem?]
      simpa using found
    have above := before b first
    exact ⟨order.asymm above, above⟩
  rw [modify_eq, forward]

/-- The element before takes the place of the changed one. -/
theorem modify_previous (sorted : ((front ++ [p]) ++ back).Pairwise fun b c => less b c = true)
    (before : ∀ b ∈ back.head?, less a b = true) (passes : less a p = true) :
    Lib.modify less ((front ++ [p]) ++ old :: back) (front ++ [p]).length a = front ++ a :: p :: back := by
  have lower := (List.pairwise_append.mp (List.pairwise_append.mp sorted).1).2.2
  have swapped : (((front ++ [p]) ++ a :: back).set (front ++ [p]).length p).set front.length a =
      (front ++ [a]) ++ p :: back := by
    simp
  rw [modify_back order before, List.length_append, List.length_singleton, settleBackward, ← List.length_singleton (a := p),
    ← List.length_append, here_at, previous_at]
  dsimp only
  rw [if_pos passes, swapped]
  have same : (front ++ [p]).length = (front ++ [a]).length := by simp
  rw [same, settleBackward_stops (here_at (front ++ [a]) back p)]
  · simp
  · intro j c size found
    have inside : j < front.length := by omega
    rw [List.append_assoc, List.getElem?_append_left inside] at found
    have below := lower c (List.mem_of_getElem? found) p List.mem_cons_self
    exact ⟨order.asymm below, below⟩

theorem modify_equal_previous (before : ∀ b ∈ back.head?, less a b = true) (equal : Equal less a p) :
    Lib.modify less ((front ++ [p]) ++ old :: back) (front ++ [p]).length a = (front ++ [p]) ++ back := by
  have erased : ((front ++ [p]) ++ a :: back).eraseIdx (front ++ [p]).length = (front ++ [p]) ++ back := by
    rw [List.eraseIdx_append_of_length_le le_rfl]
    simp
  rw [modify_back order before, List.length_append, List.length_singleton, settleBackward, ← List.length_singleton (a := p),
    ← List.length_append, here_at, previous_at]
  dsimp only
  rw [equal.1, equal.2, erased]
  rfl

theorem modify_stays (before : ∀ b ∈ back.head?, less a b = true) (behind : ∀ p ∈ front.getLast?, less p a = true) :
    Lib.modify less (front ++ old :: back) front.length a = front ++ a :: back := by
  rw [modify_back order before]
  apply settleBackward_stops (here_at front back a)
  intro j p size found
  have last : front.getLast? = some p := by
    rw [List.getElem?_append_left (by omega)] at found
    rw [List.getLast?_eq_getElem?, size]
    exact found
  have below := behind p last
  exact ⟨order.asymm below, below⟩

end Sorted

/-! ## The result -/

/-- A set with the changed element, or with an equal one that was in it. -/
def Merged (less : α → α → Bool) (others : List α) (a : α) (result : List α) : Prop :=
  result.Pairwise (fun b c => less b c = true) ∧
    ((∃ b ∈ others, Equal less a b) ∧ result.Perm others ∨
      (∀ b ∈ others, ¬Equal less a b) ∧ result.Perm (a :: others))

/-- The changed element belongs behind the next one at most, or before the one before it at most. -/
def NextPlace (less : α → α → Bool) (front back : List α) (a : α) : Prop :=
  (∀ b c rest, back = b :: c :: rest → less b a = true → less a c = true) ∧
    ∀ b c rest, front = (rest ++ [c]) ++ [b] → less a b = true → less c a = true

/-- An element that was placed between others that are less and greater. -/
theorem merged_between (order : StrictWeak less) {low high others : List α}
    (sorted : (low ++ high).Pairwise fun b c => less b c = true) (same : (low ++ high).Perm others) :
    Merged less others a (low ++ a :: high) ↔
      (∀ b ∈ low.getLast?, less b a = true) ∧ ∀ b ∈ high.head?, less a b = true := by
  obtain ⟨lower, higher, across⟩ := List.pairwise_append.mp sorted
  constructor
  · rintro ⟨result, -⟩
    obtain ⟨-, tail, between⟩ := List.pairwise_append.mp result
    constructor
    · exact fun b last => between b (List.mem_of_getLast? last) a List.mem_cons_self
    · exact fun b first => (List.pairwise_cons.mp tail).1 b (List.mem_of_head? first)
  · rintro ⟨below, above⟩
    have less_a (b) (member : b ∈ low) : less b a = true := by
      rcases List.eq_nil_or_concat low with rfl | ⟨rest, last, rfl⟩
      · cases member
      · rw [List.concat_eq_append] at *
        have last_less := below last (by simp)
        rcases List.mem_append.mp member with earlier | same
        · exact order.trans ((List.pairwise_append.mp lower).2.2 b earlier last List.mem_cons_self) last_less
        · rwa [List.mem_singleton.mp same]
    have a_less (b) (member : b ∈ high) : less a b = true := by
      cases high with
      | nil => cases member
      | cons first rest =>
          have first_greater := above first rfl
          rcases List.mem_cons.mp member with rfl | later
          · exact first_greater
          · exact order.trans first_greater ((List.pairwise_cons.mp higher).1 b later)
    refine ⟨?_, .inr ⟨?_, ?_⟩⟩
    · refine List.pairwise_append.mpr ⟨lower, List.pairwise_cons.mpr ⟨a_less, higher⟩, ?_⟩
      intro b member c other
      rcases List.mem_cons.mp other with rfl | later
      · exact less_a b member
      · exact across b member c later
    · rintro b member ⟨not_less, not_greater⟩
      rcases List.mem_append.mp (same.mem_iff.mpr member) with inLow | inHigh
      · rw [less_a b inLow] at not_greater
        cases not_greater
      · rw [a_less b inHigh] at not_less
        cases not_less
    · exact List.perm_middle.trans (same.cons a)

/-- One that is equal to another goes. -/
theorem merged_equal {others : List α} (sorted : others.Pairwise fun b c => less b c = true) (member : b ∈ others)
    (equal : Equal less a b) : Merged less others a others :=
  ⟨sorted, .inl ⟨⟨b, member, equal⟩, .refl _⟩⟩

/-- Between its neighbours the element is at its place. -/
theorem nextPlace_between (order : StrictWeak less) (before : ∀ b ∈ back.head?, less a b = true)
    (behind : ∀ p ∈ front.getLast?, less a p = false) : NextPlace less front back a := by
  constructor
  · rintro b c rest rfl passes
    rw [order.asymm (before b rfl)] at passes
    cases passes
  · rintro b c rest rfl passes
    rw [behind b (by simp)] at passes
    cases passes

theorem modify_merged_of_back (order : StrictWeak less) (sorted : (front ++ back).Pairwise fun b c => less b c = true)
    (before : ∀ b ∈ back.head?, less a b = true) :
    Merged less (front ++ back) a (Lib.modify less (front ++ old :: back) front.length a) ↔ NextPlace less front back a := by
  rcases List.eq_nil_or_concat front with rfl | ⟨rest, p, rfl⟩
  · have none (less' : Bool) : ∀ p ∈ ([] : List α).getLast?, less p a = less' := fun p last => by cases last
    rw [modify_stays order before (none true), merged_between order sorted (.refl _)]
    exact iff_of_true ⟨none true, before⟩ (nextPlace_between order before fun p last => by cases last)
  · rw [List.concat_eq_append] at sorted ⊢
    cases passes : less a p with
    | true =>
        have sorted' : (rest ++ p :: back).Pairwise fun b c => less b c = true := by rwa [List.append_cons]
        rw [modify_previous order sorted before passes,
          merged_between order sorted' (.of_eq (List.append_cons rest p back))]
        constructor
        · rintro ⟨below, -⟩
          constructor
          · rintro b c tail rfl other
            rw [order.asymm (before b rfl)] at other
            cases other
          · intro b c tail split _
            have parts := List.append_inj_left' split rfl
            exact below c (by rw [parts]; simp)
        · rintro ⟨-, below⟩
          refine ⟨?_, by simpa using passes⟩
          intro c last
          obtain ⟨tail, rfl⟩ := List.getLast?_eq_some_iff.mp last
          exact below p c tail rfl passes
    | false =>
        have place : NextPlace less (rest ++ [p]) back a :=
          nextPlace_between order before fun q last => by simp_all
        apply iff_of_true ?_ place
        cases behind : less p a with
        | true =>
            have below : ∀ q ∈ (rest ++ [p]).getLast?, less q a = true := fun q last => by simp_all
            rw [modify_stays order before below]
            exact (merged_between order sorted (.refl _)).mpr ⟨below, before⟩
        | false =>
            rw [modify_equal_previous order before ⟨passes, behind⟩]
            exact merged_equal sorted (by simp) ⟨passes, behind⟩

/-- `modify` keeps a set if and only if the changed element passes one neighbour at most. -/
theorem modify_merged_iff (order : StrictWeak less)
    (sorted : (front ++ old :: back).Pairwise fun b c => less b c = true) (a : α) :
    Merged less (front ++ back) a (Lib.modify less (front ++ old :: back) front.length a) ↔ NextPlace less front back a := by
  have others : (front ++ back).Pairwise fun b c => less b c = true :=
    sorted.sublist (List.Sublist.append_left (List.sublist_cons_self old back) front)
  cases back with
  | nil => exact modify_merged_of_back order others fun _ first => by cases first
  | cons b rest =>
      have behind : ∀ p ∈ front, less p b = true := fun p member =>
        (List.pairwise_append.mp others).2.2 p member b List.mem_cons_self
      cases passes : less b a with
      | true =>
          have others' : ((front ++ [b]) ++ rest).Pairwise fun b c => less b c = true := by rwa [← List.append_cons]
          rw [modify_next order others passes, List.append_cons front b (a :: rest), List.append_cons front b rest,
            merged_between order others' (.refl _)]
          constructor
          · rintro ⟨-, above⟩
            constructor
            · rintro b' c tail split -
              obtain ⟨rfl, rfl⟩ := List.cons.inj split
              exact above c rfl
            · rintro p q tail rfl other
              -- the one before is less than the next one, which the element passes
              have below := order.trans (behind p (by simp)) passes
              rw [order.asymm below] at other
              cases other
          · rintro ⟨above, -⟩
            refine ⟨by simpa using passes, ?_⟩
            intro c first
            obtain ⟨tail, rfl⟩ := List.head?_eq_some_iff.mp first
            exact above b c tail rfl passes
      | false =>
          cases above : less a b with
          | true => exact modify_merged_of_back order others (by simpa using above)
          | false =>
              have equal : Equal less a b := ⟨above, passes⟩
              rw [modify_equal_next equal]
              apply iff_of_true (merged_equal others (by simp) equal)
              constructor
              · rintro b' c tail split other
                obtain ⟨rfl, -⟩ := List.cons.inj split
                rw [passes] at other
                cases other
              · rintro p q tail rfl other
                have below := (order.less_of_equal equal).1 (behind p (by simp))
                rw [order.asymm below] at other
                cases other

def natLess (a b : Nat) : Bool := decide (a < b)

theorem strictWeak_natLess : StrictWeak natLess := by
  constructor
  · exact fun a => decide_eq_false (Nat.lt_irrefl a)
  · intro a b c first second
    exact decide_eq_true ((of_decide_eq_true first).trans (of_decide_eq_true second))
  · intro a b c less
    have below : a < b := of_decide_eq_true less
    rcases Nat.lt_or_ge a c with above | under
    · exact .inl (decide_eq_true above)
    · exact .inr (decide_eq_true (Nat.lt_of_le_of_lt under below))

theorem modify_merged_next : Merged natLess [1, 5, 9] 7 (Lib.modify natLess ([1] ++ 3 :: [5, 9]) 1 7) := by
  refine (@modify_merged_iff _ _ [1] [5, 9] _ strictWeak_natLess (by decide) 7).mpr ⟨?_, ?_⟩
  · rintro b c rest split -
    cases split
    rfl
  · intro b c rest split
    have length := congrArg List.length split
    simp at length

/-- An element that passes two others stays between them. -/
theorem modify_three_unsorted :
    [1, 2, 3].Pairwise (fun b c => natLess b c = true) ∧ Lib.modify natLess [1, 2, 3] 0 7 = [2, 7, 3] ∧
      ¬Merged natLess [2, 3] 7 (Lib.modify natLess [1, 2, 3] 0 7) := by
  have result : Lib.modify natLess [1, 2, 3] 0 7 = [2, 7, 3] := by decide
  refine ⟨by decide, result, ?_⟩
  rintro ⟨sorted, -⟩
  rw [result] at sorted
  exact absurd sorted (by decide)

end IMeDesktop.Base
