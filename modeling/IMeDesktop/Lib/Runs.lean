import Mathlib.Data.List.Basic

/-! # Runs of a deterministic machine

A machine is a step function; a run makes its steps one after another. What is asked of the events may
depend on the state each of them finds.
-/

namespace IMeDesktop.Lib

universe u v

variable {State : Type u} {Event : Type v} {step : State → Event → State}

/-- Every step of a run is allowed in the state it is made in. -/
def EveryStep (step : State → Event → State) (allowed : State → Event → Prop) : State → List Event → Prop
  | _, [] => True
  | s, e :: rest => allowed s e ∧ EveryStep step allowed (step s e) rest

instance EveryStep.decidable {allowed : State → Event → Prop} [∀ s e, Decidable (allowed s e)] :
    (s : State) → (events : List Event) → Decidable (EveryStep step allowed s events)
  | _, [] => .isTrue trivial
  | s, e :: rest => @instDecidableAnd (allowed s e) _ _ (EveryStep.decidable (step s e) rest)

theorem EveryStep.append {allowed : State → Event → Prop} {s : State} {first second : List Event} :
    EveryStep step allowed s (first ++ second) ↔
      EveryStep step allowed s first ∧ EveryStep step allowed (first.foldl step s) second := by
  induction first generalizing s with
  | nil => exact (iff_of_eq (true_and _)).symm
  | cons e rest ih =>
      change allowed s e ∧ EveryStep step allowed (step s e) (rest ++ second) ↔ _
      rw [ih, ← and_assoc]
      rfl

/-- What every allowed step keeps holds after a run. -/
theorem EveryStep.preserve {allowed : State → Event → Prop} {kept : State → Prop}
    (keeps : ∀ s e, kept s → allowed s e → kept (step s e)) {s : State} {events : List Event}
    (every : EveryStep step allowed s events) (start : kept s) : kept (events.foldl step s) := by
  induction events generalizing s with
  | nil => exact start
  | cons e rest ih => exact ih every.2 (keeps s e start every.1)

/-- What every allowed step gives while something is kept. -/
theorem EveryStep.imp_of_kept {allowed wanted : State → Event → Prop} {kept : State → Prop}
    (gives : ∀ s e, kept s → allowed s e → wanted s e ∧ kept (step s e)) {s : State} {events : List Event}
    (every : EveryStep step allowed s events) (start : kept s) : EveryStep step wanted s events := by
  induction events generalizing s with
  | nil => exact trivial
  | cons e rest ih =>
      obtain ⟨given, still⟩ := gives s e start every.1
      exact ⟨given, ih every.2 still⟩

theorem everyStep_true (s : State) (events : List Event) : EveryStep step (fun _ _ => True) s events := by
  induction events generalizing s with
  | nil => exact trivial
  | cons e rest ih => exact ⟨trivial, ih (step s e)⟩

/-- Two conditions that are the same while something is kept, which each of them keeps. -/
theorem EveryStep.iff_of_kept {allowed one other : State → Event → Prop} {kept : State → Prop}
    (same : ∀ s e, kept s → allowed s e → (one s e ↔ other s e))
    (keeps : ∀ s e, kept s → allowed s e → one s e → kept (step s e)) {s : State} {events : List Event}
    (every : EveryStep step allowed s events) (start : kept s) :
    EveryStep step one s events ↔ EveryStep step other s events := by
  induction events generalizing s with
  | nil => exact Iff.rfl
  | cons e rest ih =>
      have first := every.1
      rw [EveryStep, EveryStep, ← same s e start first]
      exact and_congr_right fun holds => ih every.2 (keeps s e start first holds)

end IMeDesktop.Lib
