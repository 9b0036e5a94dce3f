import Mathlib.Logic.Function.Basic
import Mathlib.Logic.ExistsUnique

/-! # Flags that say which slots are taken

Holders take at most one slot each, and a flag per slot says whether somebody
holds it. A holder changes its own slot and the flags; `Local` is what it has to
keep, given what the others hold, for the table as a whole to stay right. How a
slot is taken or given back is left to the instance.
-/

namespace IMeDesktop.Lib

variable {ι σ : Type} {flags flags' : σ → Prop} {held : ι → Option σ}

/-- A slot is flagged when it is held, and held by one holder only. -/
structure Exclusive (flags : σ → Prop) (held : ι → Option σ) : Prop where
  flagged : ∀ slot, flags slot ↔ ∃ i, held i = some slot
  unique : ∀ slot i j, held i = some slot → held j = some slot → i = j

/-- What one holder sees: the flags cover the others' slots and its own. -/
structure Exclusive.Local (others : σ → Prop) (flags : σ → Prop) (mine : Option σ) : Prop where
  flagged : ∀ slot, flags slot ↔ others slot ∨ mine = some slot
  apart : ∀ slot, mine = some slot → ¬ others slot

namespace Exclusive

/-- Slots held by somebody else. -/
def others (held : ι → Option σ) (i : ι) (slot : σ) : Prop := ∃ j, j ≠ i ∧ held j = some slot

theorem flag_iff_existsUnique (h : Exclusive flags held) (slot : σ) :
    flags slot ↔ ∃! i, held i = some slot := by
  rw [h.flagged]
  constructor
  · rintro ⟨i, holds⟩
    exact ⟨i, holds, fun j also => h.unique slot j i also holds⟩
  · rintro ⟨i, holds, -⟩
    exact ⟨i, holds⟩

theorem toLocal (h : Exclusive flags held) (i : ι) : Local (others held i) flags (held i) := by
  constructor
  · intro slot
    rw [h.flagged]
    constructor
    · rintro ⟨j, holds⟩
      by_cases same : j = i
      · exact .inr (same ▸ holds)
      · exact .inl ⟨j, same, holds⟩
    · rintro (⟨j, -, holds⟩ | holds)
      · exact ⟨j, holds⟩
      · exact ⟨i, holds⟩
  · rintro slot mine ⟨j, other, holds⟩
    exact other (h.unique slot j i holds mine)

/-- A holder that kept its local view kept the whole table. -/
theorem update [DecidableEq ι] (h : Exclusive flags held) {i : ι} {mine : Option σ}
    (kept : Local (others held i) flags' mine) :
    Exclusive flags' (Function.update held i mine) := by
  have elsewhere : ∀ j, j ≠ i → Function.update held i mine j = held j :=
    fun j other => Function.update_of_ne other _ _
  have here : Function.update held i mine i = mine := Function.update_self _ _ _
  constructor
  · intro slot
    rw [kept.flagged]
    constructor
    · rintro (⟨j, other, holds⟩ | holds)
      · exact ⟨j, (elsewhere j other).trans holds⟩
      · exact ⟨i, here.trans holds⟩
    · rintro ⟨j, holds⟩
      by_cases same : j = i
      · subst same
        exact .inr (here ▸ holds)
      · exact .inl ⟨j, same, (elsewhere j same) ▸ holds⟩
  · intro slot j k first second
    by_cases j_here : j = i
    · by_cases k_here : k = i
      · exact j_here.trans k_here.symm
      · subst j_here
        exact absurd ⟨k, k_here, (elsewhere k k_here) ▸ second⟩ (kept.apart slot (here ▸ first))
    · by_cases k_here : k = i
      · subst k_here
        exact absurd ⟨j, j_here, (elsewhere j j_here) ▸ first⟩ (kept.apart slot (here ▸ second))
      · exact h.unique slot j k ((elsewhere j j_here) ▸ first) ((elsewhere k k_here) ▸ second)

namespace Local

variable {others : σ → Prop} {slot : σ}

/-- Taking a free slot. -/
theorem take (h : Local others flags none) (free : ¬ flags slot)
    (raised : ∀ s, flags' s ↔ flags s ∨ s = slot) : Local others flags' (some slot) := by
  constructor
  · intro s
    rw [raised, h.flagged]
    simp only [reduceCtorEq, or_false, Option.some.injEq, eq_comm (a := s)]
  · rintro s same other
    obtain rfl := Option.some.inj same
    exact free ((h.flagged slot).mpr (.inl other))

/-- Giving back the slot one holds. -/
theorem give (h : Local others flags (some slot)) (lowered : ∀ s, flags' s ↔ flags s ∧ s ≠ slot) :
    Local others flags' none := by
  constructor
  · intro s
    rw [lowered, h.flagged]
    constructor
    · rintro ⟨other | same, differs⟩
      · exact .inl other
      · exact absurd (Option.some.inj same).symm differs
    · rintro (other | none)
      · exact ⟨.inl other, fun same => h.apart slot rfl (same ▸ other)⟩
      · cases none
  · intro s none
    cases none

end Local

end Exclusive

end IMeDesktop.Lib
