import Mathlib.Data.List.Basic

/-! # Places of elements in an image

Each element of a list is replaced by some others. Where its own begin is the length of what is in front.
-/

namespace IMeDesktop.Lib

variable {α β γ : Type} {f : α → List β} {g : β → List γ} {l : List α} {x : α} {i j first last : Nat}

def place (f : α → List β) (l : List α) (i : Nat) : Nat := ((l.take i).flatMap f).length

@[simp]
theorem place_zero (f : α → List β) (l : List α) : place f l 0 = 0 := by
  rw [place, List.take_zero]
  rfl

theorem place_succ (at_i : l[i]? = some x) : place f l (i + 1) = place f l i + (f x).length := by
  rw [place, place, List.take_add_one, at_i, List.flatMap_append, List.length_append]
  simp

/-- Only the lengths of the images count. -/
theorem place_congr {f' : α → List γ} (same : ∀ x ∈ l, (f x).length = (f' x).length) (i : Nat) :
    place f l i = place f' l i := by
  have lengths : (l.take i).map (fun x => (f x).length) = (l.take i).map fun x => (f' x).length :=
    List.map_congr_left fun x known => same x (List.mem_of_mem_take known)
  rw [place, place, List.length_flatMap, List.length_flatMap, lengths]

theorem place_length (f : α → List β) (l : List α) : place f l l.length = (l.flatMap f).length := by
  rw [place, List.take_length]

theorem place_mono (f : α → List β) (l : List α) (le : i ≤ j) : place f l i ≤ place f l j := by
  obtain ⟨n, rfl⟩ := Nat.exists_eq_add_of_le le
  rw [place, place, List.take_add, List.flatMap_append, List.length_append]
  omega

theorem length_flatMap_take (f : α → List β) (l : List α) (i : Nat) :
    ((l.take i).flatMap f).length = place f l i := rfl

theorem flatMap_split (f : α → List β) (l : List α) (i : Nat) :
    l.flatMap f = (l.take i).flatMap f ++ (l.drop i).flatMap f := by
  rw [← List.flatMap_append, List.take_append_drop]

theorem place_le (f : α → List β) (l : List α) (i : Nat) : place f l i ≤ (l.flatMap f).length := by
  rw [place, flatMap_split f l i, List.length_append]
  omega

theorem take_place (f : α → List β) (l : List α) (i : Nat) :
    (l.flatMap f).take (place f l i) = (l.take i).flatMap f := by
  rw [flatMap_split f l i, List.take_left' (length_flatMap_take f l i)]

/-- The image of an element begins at its place. -/
theorem drop_place (at_i : l[i]? = some x) :
    (l.flatMap f).drop (place f l i) = f x ++ (l.drop (i + 1)).flatMap f := by
  obtain ⟨below, rfl⟩ := List.getElem?_eq_some_iff.mp at_i
  rw [flatMap_split f l i, List.drop_left' (length_flatMap_take f l i), List.drop_eq_getElem_cons below, List.flatMap_cons]

theorem getElem?_place (at_i : l[i]? = some x) (below : j < (f x).length) :
    (l.flatMap f)[place f l i + j]? = (f x)[j]? := by
  rw [← List.getElem?_drop, drop_place at_i, List.getElem?_append_left below]

/-- Nothing disappears. -/
theorem le_place (some : ∀ x ∈ l, f x ≠ []) (inside : i ≤ l.length) : i ≤ place f l i := by
  induction i with
  | zero => exact Nat.zero_le _
  | succ i ih =>
      have at_i : l[i]? = .some l[i] := List.getElem?_eq_getElem inside
      have long := List.length_pos_iff.mpr (some l[i] (List.getElem_mem inside))
      have below := ih (Nat.le_of_lt inside)
      rw [place_succ at_i]
      omega

/-- Nothing is added. -/
theorem place_le_self (few : ∀ x ∈ l, (f x).length ≤ 1) (i : Nat) : place f l i ≤ i := by
  induction i with
  | zero => exact Nat.le_of_eq (place_zero f l)
  | succ i ih =>
      cases at_i : l[i]? with
      | none =>
          have same : l.take (i + 1) = l.take i := by
            rw [List.take_add_one, at_i, Option.toList_none, List.append_nil]
          rw [place, same, ← place]
          omega
      | some x =>
          have short := few x (List.mem_of_getElem? at_i)
          rw [place_succ at_i]
          omega

/-- Elements that stay single keep their distance. -/
theorem place_of_single (single : ∀ i x, first ≤ i → i < last → l[i]? = some x → (f x).length = 1)
    (ordered : first ≤ last) (inside : last ≤ l.length) : place f l last = place f l first + (last - first) := by
  induction ordered with
  | refl => omega
  | @step last ordered ih =>
      have at_last : l[last]? = some l[last] := List.getElem?_eq_getElem inside
      have low : first ≤ last := ordered
      have one := single last _ low (Nat.lt_succ_self _) at_last
      have before := ih (fun i x low high => single i x low (Nat.lt_succ_of_lt high)) (Nat.le_of_lt inside)
      rw [place_succ at_last]
      omega

theorem place_eq_self (single : ∀ x ∈ l, (f x).length = 1) (inside : i ≤ l.length) : place f l i = i := by
  have alone := @place_of_single _ _ f l 0 i (fun j x _ _ known => single x (List.mem_of_getElem? known))
    (Nat.zero_le i) inside
  rw [alone, place_zero, Nat.zero_add, Nat.sub_zero]

/-- Elements are replaced twice. -/
theorem place_place (f : α → List β) (g : β → List γ) (l : List α) (i : Nat) :
    place g (l.flatMap f) (place f l i) = place (fun x => (f x).flatMap g) l i := by
  rw [place, take_place, place, List.flatMap_assoc]

/-- What is between two places belongs to an element between the two. -/
theorem exists_place_iff (f : α → List β) (l : List α) (ordered : first ≤ last) :
    place f l first ≤ j ∧ j < place f l last ↔
      ∃ i, first ≤ i ∧ i < last ∧ place f l i ≤ j ∧ j < place f l (i + 1) := by
  constructor
  · intro ⟨low, high⟩
    induction ordered with
    | refl => omega
    | @step last ordered ih =>
        by_cases before : j < place f l last
        · obtain ⟨i, from_first, to_last, at_i⟩ := ih before
          exact ⟨i, from_first, Nat.lt_succ_of_lt to_last, at_i⟩
        · exact ⟨last, ordered, Nat.lt_succ_self _, by omega, high⟩
  · rintro ⟨i, from_first, to_last, low, high⟩
    have begins := place_mono f l from_first
    have ends := place_mono f l (show i + 1 ≤ last by omega)
    omega

end IMeDesktop.Lib
