import Mathlib.Data.List.DropRight
import Mathlib.Data.List.TakeWhile

/-! # Lists that are trimmed at both ends -/

namespace IMeDesktop.Lib

variable {α : Type} {p : α → Bool} {l before middle after : List α}

def trim (p : α → Bool) (l : List α) : List α := (l.dropWhile p).rdropWhile p

/-- The ends are dropped and the middle is not, as its own ends show. -/
structure Ends (p : α → Bool) (l before middle after : List α) : Prop where
  whole : l = before ++ (middle ++ after)
  before : ∀ x ∈ before, p x = true
  after : ∀ x ∈ after, p x = true
  first : ∀ {x rest}, middle = x :: rest → ¬ p x
  last : ∀ {x rest}, middle = rest ++ [x] → ¬ p x

theorem not_of_dropWhile_eq_cons {x : α} {rest : List α} (left : l.dropWhile p = x :: rest) : ¬ p x := by
  have first := List.head?_dropWhile_not p l
  rw [left] at first
  exact Bool.eq_false_iff.mp first

theorem not_of_rdropWhile_eq_append {x : α} {rest : List α} (left : l.rdropWhile p = rest ++ [x]) : ¬ p x := by
  rw [List.rdropWhile, List.reverse_eq_append_iff, List.reverse_singleton, List.singleton_append] at left
  exact not_of_dropWhile_eq_cons left

theorem exists_ends (p : α → Bool) (l : List α) : ∃ before middle after, Ends p l before middle after := by
  refine ⟨l.takeWhile p, trim p l, (l.dropWhile p).rtakeWhile p, ?_, ?_, ?_, ?_, ?_⟩
  · rw [trim, List.rdropWhile_append_rtakeWhile, List.takeWhile_append_dropWhile]
  · exact fun x known => List.mem_takeWhile_imp known
  · intro x known
    rw [List.rtakeWhile, List.mem_reverse] at known
    exact List.mem_takeWhile_imp known
  · intro x rest starts
    obtain ⟨later, whole⟩ := List.rdropWhile_prefix p (l.dropWhile p)
    rw [← trim, starts, List.cons_append] at whole
    exact not_of_dropWhile_eq_cons whole.symm
  · exact fun ends => not_of_rdropWhile_eq_append ends

namespace Ends

theorem dropWhile (ends : Ends p l before middle after) (some : middle ≠ []) : l.dropWhile p = middle ++ after := by
  rw [ends.whole, List.dropWhile_append_of_pos ends.before]
  cases starts : middle with
  | nil => exact absurd starts some
  | cons x rest => rw [List.cons_append, List.dropWhile_cons_of_neg (ends.first starts)]

theorem takeWhile (ends : Ends p l before middle after) (some : middle ≠ []) : l.takeWhile p = before := by
  rw [ends.whole, List.takeWhile_append_of_pos ends.before]
  cases starts : middle with
  | nil => exact absurd starts some
  | cons x rest => rw [List.cons_append, List.takeWhile_cons_of_neg (ends.first starts), List.append_nil]

theorem rdropWhile_behind (ends : Ends p l before middle after) (some : middle ≠ []) (front : List α) :
    (front ++ (middle ++ after)).rdropWhile p = front ++ middle := by
  obtain ⟨rest, x, finish⟩ := (List.eq_nil_or_concat' middle).resolve_left some
  have dropped : ∀ y ∈ after.reverse, p y = true := fun y known => ends.after y (List.mem_reverse.mp known)
  rw [List.rdropWhile, ← List.append_assoc, List.reverse_append, List.dropWhile_append_of_pos dropped,
    ← List.rdropWhile, finish, ← List.append_assoc]
  exact List.rdropWhile_concat_neg p _ x (ends.last finish)

theorem rdropWhile (ends : Ends p l before middle after) (some : middle ≠ []) :
    l.rdropWhile p = before ++ middle := by
  rw [ends.whole, ends.rdropWhile_behind some]

theorem middle_eq_nil_iff (ends : Ends p l before middle after) : middle = [] ↔ ∀ x ∈ l, p x = true := by
  rw [ends.whole]
  constructor
  · rintro rfl x known
    exact (List.mem_append.mp known).elim (ends.before x) (ends.after x)
  · intro all
    cases middle with
    | nil => rfl
    | cons x rest => exact absurd (all x (by simp)) (ends.first rfl)

theorem trim_eq (ends : Ends p l before middle after) : trim p l = middle := by
  cases middle with
  | nil =>
      have all := ends.middle_eq_nil_iff.mp rfl
      rw [trim, List.dropWhile_eq_nil_iff.mpr all, List.rdropWhile_nil]
  | cons x rest =>
      have some : x :: rest ≠ [] := List.cons_ne_nil x rest
      rw [trim, ends.dropWhile some]
      exact ends.rdropWhile_behind some []

/-- Some of the first elements and all of the last ones may be missing. -/
theorem drop (ends : Ends p l before middle after) {n : Nat} (few : n ≤ before.length) :
    Ends p ((before ++ middle).drop n) (before.drop n) middle [] := by
  refine ⟨?_, fun x known => ends.before x (List.mem_of_mem_drop known), nofun, ends.first, ends.last⟩
  rw [List.drop_append_of_le_length few, List.append_nil]

end Ends

end IMeDesktop.Lib
