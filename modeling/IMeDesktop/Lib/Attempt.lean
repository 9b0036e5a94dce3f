import Mathlib.Data.List.Basic

/-! # Computations that may fail

`Yields` says of a computation what its value is like, and which failures are let through.
The rules follow a program from one step to the next, so that a loop needs one lemma about
its body.
-/

namespace IMeDesktop.Lib

variable {ε α β σ : Type} {allowed : ε → Prop}

def Yields (allowed : ε → Prop) (post : α → Prop) : Except ε α → Prop
  | .ok value => post value
  | .error failure => allowed failure

/-- With what a computation fails, if it does. -/
def failure : Except ε α → Option ε
  | .ok _ => none
  | .error failure => some failure

theorem eq_error {attempt : Except ε α} {e : ε} (fails : failure attempt = some e) : attempt = .error e := by
  cases attempt with
  | ok value => cases fails
  | error other =>
      cases fails
      rfl

namespace Yields

theorem imp {post weaker : α → Prop} {attempt : Except ε α} (yields : Yields allowed post attempt)
    (weaken : ∀ value, post value → weaker value) : Yields allowed weaker attempt := by
  cases attempt with
  | ok value => exact weaken value yields
  | error failure => exact yields

theorem and {post other : α → Prop} {attempt : Except ε α} (first : Yields allowed post attempt)
    (second : Yields allowed other attempt) : Yields allowed (fun value => post value ∧ other value) attempt := by
  cases attempt with
  | ok value => exact ⟨first, second⟩
  | error failure => exact first

theorem bind {middle : α → Prop} {post : β → Prop} {attempt : Except ε α} {next : α → Except ε β}
    (first : Yields allowed middle attempt) (second : ∀ value, middle value → Yields allowed post (next value)) :
    Yields allowed post (attempt >>= next) := by
  cases attempt with
  | ok value => exact second value first
  | error failure => exact first

theorem map {post : β → Prop} {attempt : Except ε α} {f : α → β}
    (yields : Yields allowed (fun value => post (f value)) attempt) : Yields allowed post (attempt.map f) := by
  cases attempt with
  | ok value => exact yields
  | error failure => exact yields

/-- A loop keeps what its body keeps; `left` is what is still to be done. -/
theorem foldlM {kept : List α → σ → Prop} {body : σ → α → Except ε σ}
    (step : ∀ a left state, kept (a :: left) state → Yields allowed (kept left) (body state a)) (todo : List α)
    {state : σ} (start : kept todo state) : Yields allowed (kept []) (todo.foldlM body state) := by
  induction todo generalizing state with
  | nil => exact start
  | cons a left ih =>
      rw [List.foldlM_cons]
      exact (step a left state start).bind fun next holds => ih holds

end Yields

end IMeDesktop.Lib
