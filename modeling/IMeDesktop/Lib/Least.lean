import Mathlib.Data.List.Basic

/-! # The least number, kept aside

The least of some numbers is kept with a count of how many of them are the least, so that it does
not have to be searched for when numbers come and go. When the count runs out the least number is
not known, and zero stands for it, until all numbers are met again.
-/

namespace IMeDesktop.Lib

structure Least where
  value : UInt64 := 0
  count : Nat := 0
  deriving DecidableEq, Repr

namespace Least

/-- One of the least numbers is gone. -/
def drop (m : Least) : Least where
  value := if m.count - 1 = 0 then 0 else m.value
  count := m.count - 1

/-- A number comes in place of another one. -/
def exchange (m : Least) (was now : UInt64) : Least :=
  if now ≠ 0 ∧ (now < m.value ∨ m.value = 0) then ⟨now, 1⟩
  else if m.value ≠ 0 ∧ was ≠ now then
    if now = m.value then { m with count := m.count + 1 }
    else if was = m.value then m.drop
    else m
  else m

def leave (m : Least) (number : UInt64) : Least :=
  if m.value ≠ 0 ∧ number = m.value then m.drop else m

/-- One number of a search, which leaves out all numbers up to some bound. -/
def meet (before : UInt64) (m : Least) (number : UInt64) : Least :=
  if number ≤ before then m
  else if m.value = 0 ∨ m.value > number then ⟨number, 1⟩
  else if m.value = number then { m with count := m.count + 1 }
  else m

/-- The least number is known, and is right for this one. -/
def Covers (m : Least) (number : UInt64) : Prop := m.value ≠ 0 ∧ m.value ≤ number

instance (m : Least) (number : UInt64) : Decidable (m.Covers number) := inferInstanceAs (Decidable (_ ∧ _))

/-- No other number is counted as the least. -/
def RunsOut (m : Least) (number : UInt64) : Prop := m.value ≠ 0 ∧ number = m.value ∧ m.count ≤ 1

instance (m : Least) (number : UInt64) : Decidable (m.RunsOut number) := inferInstanceAs (Decidable (_ ∧ _ ∧ _))

variable {m : Least} {was now number before : UInt64}

theorem drop_value (m : Least) : m.drop.value = if m.count ≤ 1 then 0 else m.value := by
  unfold drop
  grind

theorem exchange_covers_iff : (m.exchange was now).Covers now ↔ now ≠ 0 ∧ (m.RunsOut was → now ≤ m.value) := by
  unfold exchange Covers RunsOut
  have dropped := drop_value m
  split_ifs with less counted same leaves
  all_goals grind

/-- What was covered still is, where the number that came is. -/
theorem Covers.exchange (covers : m.Covers number) (fine : (m.exchange was now).Covers now) :
    (m.exchange was now).Covers number := by
  unfold Least.exchange Covers at *
  have dropped := drop_value m
  split_ifs at fine ⊢ with less counted same leaves
  all_goals grind

theorem Covers.leave_iff (covers : m.Covers number) : (m.leave was).Covers number ↔ ¬m.RunsOut was := by
  unfold leave Covers RunsOut at *
  have dropped := drop_value m
  split_ifs with least
  · grind
  · grind

theorem Covers.meet (covers : m.Covers number) (now : UInt64) : (m.meet before now).Covers number := by
  unfold Least.meet Covers at *
  grind

theorem meet_covers (later : before < number) : (m.meet before number).Covers number := by
  unfold Least.meet Covers
  grind

/-- A search covers every number above its bound. -/
theorem foldl_meet_covers {numbers : List UInt64} (member : number ∈ numbers) (later : before < number) (m : Least) :
    (numbers.foldl (meet before) m).Covers number := by
  have kept : ∀ (numbers : List UInt64) (m : Least), m.Covers number →
      (numbers.foldl (Least.meet before) m).Covers number := by
    intro numbers
    induction numbers with
    | nil => exact fun m covers => covers
    | cons first rest ih => exact fun m covers => ih _ (covers.meet first)
  induction numbers generalizing m with
  | nil => cases member
  | cons first rest ih =>
      cases member with
      | head => exact kept rest _ (meet_covers later)
      | tail _ member => exact ih member _

end Least

end IMeDesktop.Lib
