import Mathlib.Tactic.Common

/-! # Loops that end

A loop makes rounds: a round gives the next state or the result. The body is a relation, so that it may have
loops of its own, and so that a round which must not be made has no outcome.
-/

namespace IMeDesktop.Lib

universe u v

inductive Round (σ : Type u) (ρ : Type v) where
  | next (s : σ)
  | done (r : ρ)

namespace Loop

variable {σ : Type u} {ρ : Type v} {body : σ → Round σ ρ → Prop}

/-- From a state, the loop ends with a result. -/
inductive Ends (body : σ → Round σ ρ → Prop) : σ → ρ → Prop
  | done {s : σ} {r : ρ} : body s (.done r) → Ends body s r
  | next {s s' : σ} {r : ρ} : body s (.next s') → Ends body s' r → Ends body s r

/-- One outcome of each round makes one result. -/
theorem Ends.unique (functional : ∀ s one other, body s one → body s other → one = other) {s : σ} {r r' : ρ}
    (ends : Ends body s r) (ends' : Ends body s r') : r = r' := by
  induction ends with
  | done result =>
      cases ends' with
      | done result' =>
          cases functional _ _ _ result result'
          rfl
      | next goes' _ => cases functional _ _ _ result goes'
  | next goes _ ih =>
      cases ends' with
      | done result' => cases functional _ _ _ goes result'
      | next goes' rest' =>
          cases functional _ _ _ goes goes'
          exact ih rest'

/-- A loop ends if every round makes something smaller, and with what its rounds preserve. -/
theorem ends_of_variant {kept : σ → Prop} {result : σ → ρ → Prop} (variant : σ → Nat)
    (round : ∀ s, kept s → (∃ r, body s (.done r) ∧ result s r) ∨
      ∃ s', body s (.next s') ∧ kept s' ∧ variant s' < variant s ∧ ∀ r, result s' r → result s r) {s : σ}
    (start : kept s) : ∃ r, Ends body s r ∧ result s r := by
  generalize size : variant s = n
  induction n using Nat.strongRecOn generalizing s with
  | _ n ih =>
      rcases round s start with ⟨r, ends, right⟩ | ⟨s', goes, again, smaller, carries⟩
      · exact ⟨r, .done ends, right⟩
      · obtain ⟨r, ends, right⟩ := ih _ (size ▸ smaller) again rfl
        exact ⟨r, .next goes ends, carries r right⟩

end Loop

end IMeDesktop.Lib
