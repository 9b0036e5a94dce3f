import Mathlib.Data.List.Nodup
import Mathlib.Logic.Function.Basic

/-! # Positions kept beside a list

The elements of a list know their positions. When a part of the list is put in another order, the positions of
that part are written again, and those of the rest are still right.
-/

namespace IMeDesktop.Lib

variable {α : Type} {p q : α → Nat} {n : Nat} {l m front middle back : List α} {a : α}

/-- The elements are numbered, from a number on. -/
def Placed (n : Nat) (l : List α) (p : α → Nat) : Prop := ∀ i a, l[i]? = some a → p a = n + i

theorem placed_nil (n : Nat) (p : α → Nat) : Placed n [] p := fun _ _ known => by simp at known

theorem placed_cons : Placed n (a :: l) p ↔ p a = n ∧ Placed (n + 1) l p := by
  constructor
  · intro placed
    refine ⟨placed 0 a rfl, fun i b known => ?_⟩
    rw [placed (i + 1) b known]
    omega
  · intro ⟨first, rest⟩ i b known
    cases i with
    | zero =>
        cases known
        exact first
    | succ i =>
        rw [rest i b known]
        omega

theorem placed_append : Placed n (l ++ m) p ↔ Placed n l p ∧ Placed (n + l.length) m p := by
  induction l generalizing n with
  | nil =>
      rw [List.nil_append, List.length_nil, Nat.add_zero]
      exact (and_iff_right (placed_nil n p)).symm
  | cons a l ih =>
      rw [List.cons_append, placed_cons, placed_cons, ih, and_assoc, List.length_cons,
        show n + 1 + l.length = n + (l.length + 1) by omega]

theorem Placed.congr (placed : Placed n l p) (same : ∀ a ∈ l, q a = p a) : Placed n l q := by
  intro i a known
  rw [same a (List.mem_of_getElem? known), placed i a known]

theorem Placed.nodup (placed : Placed n l p) : l.Nodup := by
  induction l generalizing n with
  | nil => exact List.nodup_nil
  | cons a l ih =>
      obtain ⟨first, rest⟩ := placed_cons.mp placed
      refine List.nodup_cons.mpr ⟨fun member => ?_, ih rest⟩
      obtain ⟨i, at_i⟩ := List.getElem?_of_mem member
      have again := rest i a at_i
      omega

theorem Placed.getElem? (placed : Placed n l p) (known : a ∈ l) : l[p a - n]? = some a := by
  obtain ⟨i, at_i⟩ := List.getElem?_of_mem known
  rw [placed i a at_i, Nat.add_sub_cancel_left, at_i]

theorem idxOf?_append_cons [BEq α] [LawfulBEq α] (other : a ∉ front) :
    (front ++ a :: back).idxOf? a = some front.length := by
  induction front with
  | nil => simp [List.idxOf?_cons]
  | cons b front ih =>
      rw [List.mem_cons, not_or] at other
      rw [List.cons_append, List.idxOf?_cons, ih other.2, if_neg (by simpa using Ne.symm other.1)]
      rfl

/-! ## Parts that change places -/

/-- `std::rotate`. -/
def rotated (l : List α) (first middle last : Nat) : List α :=
  l.take first ++ (l.take last).drop middle ++ (l.take middle).drop first ++ l.drop last

theorem rotated_split (front left right back : List α) :
    rotated (front ++ left ++ right ++ back) front.length (front.length + left.length)
      (front.length + left.length + right.length) = front ++ right ++ left ++ back := by
  have whole : (front ++ left ++ right ++ back).take (front.length + left.length + right.length) =
      front ++ left ++ right := List.take_left' (by simp [Nat.add_assoc])
  have half : (front ++ left ++ right ++ back).take (front.length + left.length) = front ++ left := by
    rw [List.append_assoc (front ++ left)]
    exact List.take_left' (by simp)
  have first : (front ++ left ++ right ++ back).take front.length = front := by
    rw [List.append_assoc, List.append_assoc]
    exact List.take_left
  have last : (front ++ left ++ right ++ back).drop (front.length + left.length + right.length) = back :=
    List.drop_left' (by simp [Nat.add_assoc])
  rw [rotated, whole, half, first, last, List.drop_left, List.drop_left' (by simp)]

/-- A search splits a list at what it finds. -/
theorem findIdx_split (found : α → Bool) (l : List α) :
    ∃ before rest, l = before ++ rest ∧ l.findIdx found = before.length ∧ (∀ a ∈ before, found a = false) ∧
      ∀ a ∈ rest.head?, found a = true := by
  induction l with
  | nil => exact ⟨[], [], rfl, rfl, nofun, nofun⟩
  | cons a l ih =>
      cases first : found a with
      | true =>
          refine ⟨[], a :: l, rfl, ?_, nofun, fun b head => ?_⟩
          · simp [List.findIdx_cons, first]
          · cases head
            exact first
      | false =>
          obtain ⟨before, rest, split, index, not_found, head⟩ := ih
          refine ⟨a :: before, rest, by rw [split, List.cons_append], ?_,
            List.forall_mem_cons.mpr ⟨first, not_found⟩, head⟩
          simp [List.findIdx_cons, first, index]

section Renumber

variable [DecidableEq α]

/-- The elements are given numbers one after another. -/
def renumber (p : α → Nat) (n : Nat) : List α → α → Nat
  | [] => p
  | a :: l => renumber (Function.update p a n) (n + 1) l

theorem renumber_of_not_mem (other : a ∉ l) : renumber p n l a = p a := by
  induction l generalizing p n with
  | nil => rfl
  | cons b l ih =>
      rw [List.mem_cons, not_or] at other
      rw [renumber, ih other.2, Function.update_of_ne other.1]

theorem placed_renumber (nodup : l.Nodup) : Placed n l (renumber p n l) := by
  induction l generalizing p n with
  | nil => exact placed_nil n _
  | cons a l ih =>
      obtain ⟨other, rest⟩ := List.nodup_cons.mp nodup
      rw [placed_cons, renumber, renumber_of_not_mem other, Function.update_self]
      exact ⟨rfl, ih rest⟩

/-- A part is numbered again, and what is around it was numbered before. -/
theorem placed_renumber_between (nodup : (front ++ middle ++ back).Nodup) (before : Placed n front p)
    (behind : Placed (n + front.length + middle.length) back p) :
    Placed n (front ++ middle ++ back) (renumber p (n + front.length) middle) := by
  obtain ⟨inner, _, apart⟩ := List.nodup_append'.mp nodup
  obtain ⟨_, own, apart'⟩ := List.nodup_append'.mp inner
  rw [placed_append, placed_append, List.length_append, ← Nat.add_assoc]
  refine ⟨⟨before.congr fun a known => ?_, placed_renumber own⟩, behind.congr fun a known => ?_⟩
  · exact renumber_of_not_mem fun member => apart' known member
  · exact renumber_of_not_mem fun member => apart (List.mem_append_right _ member) known

end Renumber

end IMeDesktop.Lib
