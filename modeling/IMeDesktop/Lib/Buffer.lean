import IMeDesktop.Lib.Span

/-! # Vectors that are resized and filled in place

Writes name a position, as `memcpy` into a vector does, and fail outside of it. What
they do is said by the pieces of the vector in front of and behind the position, so that
a sequence of writes is followed by rewriting.
-/

namespace IMeDesktop.Lib

variable {α : Type}

/-- `resize`: new elements are filled in, elements behind the size are dropped. -/
def resize (fill : α) (data : List α) (size : Nat) : List α :=
  data.take size ++ List.replicate (size - data.length) fill

/-- Copy a part of another vector. -/
def copyInto (data : List α) (position : Nat) (source : List α) (start count : Nat) : Option (List α) :=
  (subspan source start count).bind (overwrite data position)

/-- Change one element. -/
def changeAt (data : List α) (position : Nat) (change : α → α) : Option (List α) :=
  match data.drop position with
  | [] => none
  | a :: back => some (data.take position ++ change a :: back)

theorem resize_add (fill : α) (data : List α) (count : Nat) :
    resize fill data (data.length + count) = data ++ List.replicate count fill := by
  rw [resize, List.take_of_length_le (Nat.le_add_right _ _), Nat.add_sub_cancel_left]

section Pieces

variable {front old new back source before part after : List α} {position start count : Nat}

/-- Writing over as many elements. -/
theorem overwrite_pieces (at_ : position = front.length) (same : new.length = old.length) :
    overwrite (front ++ (old ++ back)) position new = some (front ++ (new ++ back)) := by
  subst at_
  have inside : front.length + new.length ≤ (front ++ (old ++ back)).length := by
    simp only [List.length_append]
    omega
  have rest : (front ++ (old ++ back)).drop (front.length + new.length) = back := by
    rw [List.drop_append, List.drop_eq_nil_of_le (by omega), List.nil_append, Nat.add_sub_cancel_left,
      List.drop_left' same.symm]
  rw [overwrite, if_pos inside, List.take_left, rest, List.append_assoc]

theorem subspan_pieces (from_ : start = before.length) (size : count = part.length) :
    subspan (before ++ (part ++ after)) start count = some part := by
  subst from_ size
  rw [subspan_inside (by simp only [List.length_append]; omega), List.drop_left, List.take_left]

theorem copyInto_pieces (at_ : position = front.length) (same : part.length = old.length)
    (from_ : start = before.length) (size : count = part.length) :
    copyInto (front ++ (old ++ back)) position (before ++ (part ++ after)) start count =
      some (front ++ (part ++ back)) := by
  rw [copyInto, subspan_pieces from_ size, Option.bind_some, overwrite_pieces at_ same]

theorem changeAt_pieces {change : α → α} {a : α} (at_ : position = front.length) :
    changeAt (front ++ a :: back) position change = some (front ++ change a :: back) := by
  subst at_
  rw [changeAt, List.drop_left, List.take_left]

end Pieces

end IMeDesktop.Lib
