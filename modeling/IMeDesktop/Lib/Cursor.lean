import Mathlib

/-! # Readers that are given an end

A reader moves through data up to an end. It may fail, and it may take an element
without looking whether one is left; the latter is a fault, a read behind the end. What
is left when it is done is a suffix of what it was given.
-/

namespace IMeDesktop.Lib

inductive Reading (α β : Type) where
  | fault
  | failed
  | done (value : β) (rest : List α)
  deriving DecidableEq, Repr

def Reader (α β : Type) : Type := List α → Reading α β

namespace Reader

variable {α β γ : Type}

instance : Monad (Reader α) where
  pure value data := .done value data
  bind reader next data :=
    match reader data with
    | .fault => .fault
    | .failed => .failed
    | .done value rest => next value rest

/-- Take an element. -/
def get : Reader α α
  | [] => .fault
  | a :: rest => .done a rest

def fail : Reader α β := fun _ => .failed

/-- Take all that is left. -/
def all : Reader α (List α) := fun data => .done data []

/-- Fail unless so many elements are left. -/
def require (count : Nat) : Reader α Unit := fun data => if count ≤ data.length then .done () data else .failed

def check (holds : Bool) : Reader α Unit := if holds then pure () else fail

def times (reader : Reader α β) : Nat → Reader α (List β)
  | 0 => pure []
  | count + 1 => do
      let value ← reader
      let values ← times reader count
      pure (value :: values)

/-- Also what was read. -/
def consumed (reader : Reader α β) : Reader α (β × List α) := fun data =>
  match reader data with
  | .fault => .fault
  | .failed => .failed
  | .done value rest => .done (value, data.take (data.length - rest.length)) rest

/-- Read ahead: it does not matter what is found. -/
def ahead (reader : Reader α β) : Reader α Unit := fun data =>
  match reader data with
  | .fault => .fault
  | _ => .done () data

/-- The reader stays inside of data with at least so many elements. -/
def Safe (count : Nat) (reader : Reader α β) : Prop :=
  ∀ data, count ≤ data.length →
    reader data ≠ .fault ∧ ∀ value rest, reader data = .done value rest → rest <:+ data

variable {reader : Reader α β} {next : β → Reader α γ} {count : Nat}

theorem Safe.mono {more : Nat} (safe : Safe count reader) (enough : count ≤ more) : Safe more reader :=
  fun data long => safe data (enough.trans long)

theorem Safe.ne_fault (safe : Safe 0 reader) (data : List α) : reader data ≠ .fault := (safe data (Nat.zero_le _)).1

theorem safe_pure (value : β) : Safe 0 (pure value : Reader α β) := by
  intro data _
  refine ⟨nofun, ?_⟩
  rintro _ _ ⟨⟩
  exact List.suffix_refl data

theorem safe_fail : Safe 0 (fail : Reader α β) := fun _ _ => ⟨nofun, nofun⟩

theorem safe_all : Safe 0 (all : Reader α (List α)) := by
  intro data _
  refine ⟨nofun, ?_⟩
  rintro _ _ ⟨⟩
  exact List.nil_suffix

theorem safe_check (holds : Bool) : Safe 0 (check holds : Reader α Unit) := by
  cases holds with
  | false => exact safe_fail
  | true => exact safe_pure ()

theorem Safe.bind (first : Safe count reader) (second : ∀ value, Safe 0 (next value)) :
    Safe count (reader >>= next) := by
  intro data long
  obtain ⟨inside, suffix⟩ := first data long
  simp only [Bind.bind]
  cases step : reader data with
  | fault => exact absurd step inside
  | failed => exact ⟨nofun, nofun⟩
  | done value rest =>
      obtain ⟨inside', suffix'⟩ := second value rest (Nat.zero_le _)
      exact ⟨inside', fun value' rest' finished => (suffix' value' rest' finished).trans (suffix value rest step)⟩

theorem Safe.get_bind {next : α → Reader α γ} (second : ∀ a, Safe count (next a)) :
    Safe (count + 1) (get >>= next) := by
  intro data long
  cases data with
  | nil => cases long
  | cons a rest =>
      obtain ⟨inside, suffix⟩ := second a rest (Nat.le_of_succ_le_succ long)
      exact ⟨inside, fun value rest' finished => (suffix value rest' finished).trans (List.suffix_cons a rest)⟩

theorem safe_get : Safe 1 (get : Reader α α) := by
  intro data long
  cases data with
  | nil => cases long
  | cons a rest =>
      refine ⟨nofun, ?_⟩
      rintro _ _ ⟨⟩
      exact List.suffix_cons a rest

/-- What is required is there for what follows. -/
theorem Safe.require_bind {next : Unit → Reader α γ} (second : Safe count (next ())) :
    Safe 0 (require count >>= next) := by
  intro data _
  simp only [Bind.bind, require]
  by_cases enough : count ≤ data.length
  · rw [if_pos enough]
    exact second data enough
  · rw [if_neg enough]
    exact ⟨nofun, nofun⟩

theorem Safe.times (safe : Safe 0 reader) (count : Nat) : Safe 0 (reader.times count) := by
  induction count with
  | zero => exact safe_pure []
  | succ count ih => exact safe.bind fun value => ih.bind fun values => safe_pure _

theorem safe_times_get (count : Nat) : Safe count ((get : Reader α α).times count) := by
  induction count with
  | zero => exact safe_pure []
  | succ count ih => exact Safe.get_bind fun a => ih.bind fun values => safe_pure _

theorem Safe.consumed (safe : Safe count reader) : Safe count reader.consumed := by
  intro data long
  obtain ⟨inside, suffix⟩ := safe data long
  simp only [Reader.consumed]
  cases step : reader data with
  | fault => exact absurd step inside
  | failed => exact ⟨nofun, nofun⟩
  | done value rest =>
      refine ⟨nofun, ?_⟩
      rintro _ _ ⟨⟩
      exact suffix value rest step

theorem Safe.ahead (safe : Safe count reader) : Safe count reader.ahead := by
  intro data long
  simp only [Reader.ahead]
  cases step : reader data with
  | fault => exact absurd step (safe data long).1
  | failed =>
      refine ⟨nofun, ?_⟩
      rintro _ _ ⟨⟩
      exact List.suffix_refl data
  | done value rest =>
      refine ⟨nofun, ?_⟩
      rintro _ _ ⟨⟩
      exact List.suffix_refl data

/-! ## What follows does not matter -/

/-- A reader that is done does the same when more follows. -/
def Steady (reader : Reader α β) : Prop :=
  ∀ data value rest, reader data = .done value rest → ∀ more, reader (data ++ more) = .done value (rest ++ more)

theorem steady_pure (value : β) : Steady (pure value : Reader α β) := by
  rintro data _ _ ⟨⟩ more
  rfl

theorem steady_fail : Steady (fail : Reader α β) := by
  rintro data _ _ ⟨⟩

theorem steady_get : Steady (get : Reader α α) := by
  intro data value rest read more
  cases data with
  | nil => cases read
  | cons a data =>
      cases read
      rfl

theorem steady_require (count : Nat) : Steady (require count : Reader α Unit) := by
  intro data value rest read more
  unfold require at read ⊢
  split_ifs at read with enough
  cases read
  rw [if_pos (by rw [List.length_append]; omega)]

theorem Steady.bind (first : Steady reader) (second : ∀ value, Steady (next value)) : Steady (reader >>= next) := by
  intro data value rest read more
  simp only [Bind.bind] at read ⊢
  cases step : reader data with
  | fault =>
      rw [step] at read
      cases read
  | failed =>
      rw [step] at read
      cases read
  | done between rest' =>
      rw [step] at read
      rw [first data between rest' step more]
      exact second between rest' value rest read more

theorem Steady.times (steady : Steady reader) (count : Nat) : Steady (reader.times count) := by
  induction count with
  | zero => exact steady_pure []
  | succ count ih => exact steady.bind fun value => ih.bind fun values => steady_pure _

/-- Data that end inside of what is read are not enough. -/
theorem Steady.truncated (steady : Steady reader) (safe : Safe 0 reader) {data more rest : List α} {value : β}
    (read : reader (data ++ more) = .done value rest) (inside : rest.length < more.length) :
    reader data = .failed := by
  cases step : reader data with
  | fault => exact absurd step (safe.ne_fault data)
  | failed => rfl
  | done value' rest' =>
      have same := steady data value' rest' step more
      rw [read] at same
      cases same
      rw [List.length_append] at inside
      omega

/-! ## What is taken -/

/-- A reader that is done took so many elements at least. -/
def Takes (count : Nat) (reader : Reader α β) : Prop :=
  ∀ data value rest, reader data = .done value rest → rest.length + count ≤ data.length

theorem takes_pure (value : β) : Takes 0 (pure value : Reader α β) := by
  rintro data _ _ ⟨⟩
  exact Nat.le_refl _

theorem takes_fail (count : Nat) : Takes count (fail : Reader α β) := by
  rintro data _ _ ⟨⟩

theorem takes_get : Takes 1 (get : Reader α α) := by
  intro data value rest read
  cases data with
  | nil => cases read
  | cons a data =>
      cases read
      exact Nat.le_refl _

theorem takes_require (count : Nat) : Takes 0 (require count : Reader α Unit) := by
  intro data value rest read
  unfold require at read
  split_ifs at read
  cases read
  exact Nat.le_refl _

theorem Takes.mono {more : Nat} (takes : Takes more reader) (fewer : count ≤ more) : Takes count reader :=
  fun data value rest read => (Nat.add_le_add_left fewer _).trans (takes data value rest read)

theorem Takes.bind {more : Nat} (first : Takes count reader) (second : ∀ value, Takes more (next value)) :
    Takes (count + more) (reader >>= next) := by
  intro data value rest read
  simp only [Bind.bind] at read
  cases step : reader data with
  | fault =>
      rw [step] at read
      cases read
  | failed =>
      rw [step] at read
      cases read
  | done between rest' =>
      rw [step] at read
      have := first data between rest' step
      have := second between rest' value rest read
      omega

theorem Takes.times (takes : Takes 1 reader) (count : Nat) : Takes count (reader.times count) := by
  induction count with
  | zero => exact takes_pure []
  | succ count ih =>
      refine (takes.bind fun value => ih.bind fun values => takes_pure (value :: values)).mono ?_
      omega

/-- More values than there are elements left are not read. -/
theorem Takes.times_failed (takes : Takes 1 reader) (safe : Safe 0 reader) {data : List α} {count : Nat}
    (less : data.length < count) : reader.times count data = .failed := by
  cases read : reader.times count data with
  | fault => exact absurd read ((safe.times count).ne_fault data)
  | failed => rfl
  | done values rest =>
      have := takes.times count data values rest read
      omega

end Reader

end IMeDesktop.Lib
