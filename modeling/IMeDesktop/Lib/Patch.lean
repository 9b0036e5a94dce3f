import IMeDesktop.Lib.Buffer

/-! # A whole put together from its parts

Parts of a whole are written to their places in any order. A vector is made longer where a part lies
behind its end, and what is between is filled with anything.
-/

namespace IMeDesktop.Lib

variable {α : Type}

/-- Write at a place, which may be behind the end. -/
def patch (fill : α) (data : List α) (offset : Nat) (bytes : List α) : List α :=
  (resize fill data (max data.length offset)).take offset ++ bytes ++ data.drop (offset + bytes.length)

/-- The vector has this range, and in it what the whole has. -/
structure Agrees (data whole : List α) (first last : Nat) : Prop where
  inside : last ≤ data.length
  same : ∀ i, first ≤ i → i < last → data[i]? = whole[i]?

variable {fill : α} {data whole bytes : List α} {offset first last i : Nat}

theorem length_resize (fill : α) (data : List α) (size : Nat) : (resize fill data size).length = size := by
  simp only [resize, List.length_append, List.length_take, List.length_replicate]
  omega

theorem resize_of_le {size : Nat} (longer : data.length ≤ size) :
    resize fill data size = data ++ List.replicate (size - data.length) fill := by
  rw [resize, List.take_of_length_le longer]

theorem resize_length (fill : α) (data : List α) : resize fill data data.length = data := by
  rw [resize_of_le (Nat.le_refl _), Nat.sub_self, List.replicate_zero, List.append_nil]

theorem length_front (fill : α) (data : List α) (offset : Nat) :
    ((resize fill data (max data.length offset)).take offset).length = offset := by
  rw [List.length_take, length_resize]
  omega

/-- Behind the end, the vector is made longer first. -/
theorem patch_behind (behind : data.length ≤ offset) : patch fill data offset bytes = resize fill data offset ++ bytes := by
  have length := length_resize fill data offset
  rw [patch, Nat.max_eq_right behind, List.take_of_length_le (by omega), List.drop_eq_nil_of_le (by omega),
    List.append_nil]

/-- In front of the end, the vector is made longer where the bytes do not fit. -/
theorem patch_inside (inside : offset ≤ data.length) {longer : List α}
    (longer_eq : longer = if offset + bytes.length > data.length then resize fill data (offset + bytes.length) else data) :
    patch fill data offset bytes = longer.take offset ++ bytes ++ longer.drop (offset + bytes.length) := by
  have front : (resize fill data (max data.length offset)).take offset = data.take offset := by
    rw [Nat.max_eq_left inside, resize_length]
  subst longer_eq
  rw [patch, front]
  split
  · rename_i past
    have length := length_resize fill data (offset + bytes.length)
    have same : (resize fill data (offset + bytes.length)).take offset = data.take offset := by
      rw [resize_of_le (by omega), List.take_append_of_le_length inside]
    rw [same, List.drop_eq_nil_of_le (by omega), List.drop_eq_nil_of_le (by omega)]
  · rfl

theorem length_patch (fill : α) (data : List α) (offset : Nat) (bytes : List α) :
    (patch fill data offset bytes).length = max data.length (offset + bytes.length) := by
  rw [patch, List.length_append, List.length_append, length_front, List.length_drop]
  omega

theorem getElem?_patch_inside (below : i < bytes.length) : (patch fill data offset bytes)[offset + i]? = bytes[i]? := by
  have front := length_front fill data offset
  rw [patch, List.append_assoc, List.getElem?_append_right (by omega), front, Nat.add_sub_cancel_left,
    List.getElem?_append_left below]

theorem getElem?_patch_outside (below : i < data.length) (outside : i < offset ∨ offset + bytes.length ≤ i) :
    (patch fill data offset bytes)[i]? = data[i]? := by
  have front := length_front fill data offset
  rw [patch, List.append_assoc]
  rcases outside with before | behind
  · rw [List.getElem?_append_left (by omega), List.getElem?_take, if_pos before, resize_of_le (Nat.le_max_left _ _),
      List.getElem?_append_left below]
  · rw [List.getElem?_append_right (by omega), front, List.getElem?_append_right (by omega), List.getElem?_drop]
    congr 1
    omega

/-- A part of the whole is there when it is written to its place. -/
theorem agrees_patch {count : Nat} :
    Agrees (patch fill data offset ((whole.drop offset).take count)) whole offset (min (offset + count) whole.length) := by
  constructor
  · rw [length_patch, List.length_take, List.length_drop]
    omega
  · intro i after before
    obtain ⟨j, rfl⟩ := Nat.exists_eq_add_of_le after
    have below : j < ((whole.drop offset).take count).length := by
      rw [List.length_take, List.length_drop]
      omega
    rw [getElem?_patch_inside below, List.getElem?_take, if_pos (by omega), List.getElem?_drop]

/-- What is outside of the place stays. -/
theorem Agrees.patch (agrees : Agrees data whole first last)
    (apart : last ≤ offset ∨ offset + bytes.length ≤ first) :
    Agrees (Lib.patch fill data offset bytes) whole first last := by
  constructor
  · have inside := agrees.inside
    rw [length_patch]
    omega
  · intro i after before
    rw [getElem?_patch_outside (Nat.lt_of_lt_of_le before agrees.inside) (by omega)]
    exact agrees.same i after before

theorem Agrees.eq_take (agrees : Agrees data whole 0 last) (length : data.length = last) : data = whole.take last := by
  apply List.ext_getElem?
  intro i
  rw [List.getElem?_take]
  split
  · rename_i below
    exact agrees.same i (Nat.zero_le i) below
  · rename_i above
    exact List.getElem?_eq_none (by omega)

end IMeDesktop.Lib
