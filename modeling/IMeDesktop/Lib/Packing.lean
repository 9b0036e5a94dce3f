import Mathlib

/-! # Disjoint finite sets inside a finite set

Pairwise disjoint parts of a finite set have room for at most its size, and parts
that use all of the room leave no element out. Nothing is said about how many
parts there are or how they are ordered.
-/

namespace IMeDesktop.Lib.Packing

variable {α : Type} [DecidableEq α] {parts : List (Finset α)} {whole : Finset α}

/-- What is left for the other parts once the first one is placed. -/
theorem inside_rest {part : Finset α} (disjoint : ∀ p ∈ parts, Disjoint part p)
    (inside : ∀ p ∈ parts, p ⊆ whole) : ∀ p ∈ parts, p ⊆ whole \ part :=
  fun p member => Finset.subset_sdiff.mpr ⟨inside p member, (disjoint p member).symm⟩

theorem sum_card_le (disjoint : parts.Pairwise Disjoint) (inside : ∀ p ∈ parts, p ⊆ whole) :
    (parts.map Finset.card).sum ≤ whole.card := by
  induction parts generalizing whole with
  | nil => exact Nat.zero_le _
  | cons part rest ih =>
      obtain ⟨apart, disjoint⟩ := List.pairwise_cons.mp disjoint
      have placed := inside part List.mem_cons_self
      have room := ih disjoint (inside_rest apart fun p member => inside p (List.mem_cons_of_mem _ member))
      have left := Finset.card_sdiff_add_card_eq_card placed
      rw [List.map_cons, List.sum_cons]
      omega

theorem covers_of_sum_card (disjoint : parts.Pairwise Disjoint) (inside : ∀ p ∈ parts, p ⊆ whole)
    (full : whole.card ≤ (parts.map Finset.card).sum) : ∀ x ∈ whole, ∃ p ∈ parts, x ∈ p := by
  induction parts generalizing whole with
  | nil =>
      intro x member
      have none : whole = ∅ := Finset.card_eq_zero.mp (Nat.le_zero.mp full)
      exact absurd (none ▸ member) (Finset.notMem_empty x)
  | cons part rest ih =>
      intro x member
      obtain ⟨apart, disjoint⟩ := List.pairwise_cons.mp disjoint
      have placed := inside part List.mem_cons_self
      have left := Finset.card_sdiff_add_card_eq_card placed
      rw [List.map_cons, List.sum_cons] at full
      by_cases here : x ∈ part
      · exact ⟨part, List.mem_cons_self, here⟩
      · obtain ⟨p, later, found⟩ := ih disjoint
          (inside_rest apart fun p member => inside p (List.mem_cons_of_mem _ member)) (by omega) x
          (Finset.mem_sdiff.mpr ⟨member, here⟩)
        exact ⟨p, List.mem_cons_of_mem _ later, found⟩

end IMeDesktop.Lib.Packing
