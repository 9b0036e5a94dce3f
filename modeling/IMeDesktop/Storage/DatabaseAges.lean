import IMeDesktop.Lib.Least
import IMeDesktop.Lib.Runs
import IMeDesktop.Storage.DatabaseObject

/-! # The ages of entries

Of the database, this is what decides which entries are too old: the index, the least time of use
with its count, and the entries that are listed to be removed already. It changes in a few ways only.
An entry that is not listed has to be covered by the least time, or pruning does not look for it. Each
change keeps that exactly under a condition on the state it finds.
-/

namespace IMeDesktop.Storage.Cache

open Lib

@[ext]
structure Ages where
  map : SortedMap Key Entry := .empty
  minimal : Least := {}
  listed : Key → Bool := fun _ => false

namespace Ages

inductive Change where
  | set (key : Key) (entry : Entry)
  | erase (key : Key)
  | touch (relative : UInt64) (key : Key)
  /-- The entry is not going to be removed any more. -/
  | spare (key : Key)
  /-- Entries are going to be removed. -/
  | list (keys : List Key)
  /-- All entries are looked at, and the old ones are listed. -/
  | collect (walk : Iteration) (before : UInt64)

/-- The time of the entry that a change of this key replaces. -/
def already (a : Ages) (key : Key) : UInt64 := ((a.map.find? key).getD {}).useTime

def unlist (listed : Key → Bool) (key : Key) : Key → Bool := fun k => decide (k ≠ key) && listed k

def isOld (map : SortedMap Key Entry) (before : UInt64) (k : Key) : Bool :=
  (map.find? k).any fun entry => entry.useTime ≤ before

def apply (a : Ages) : Change → Ages
  | .set key entry =>
      { map := a.map.set key entry
        minimal := a.minimal.exchange (a.already key) entry.useTime
        listed := unlist a.listed key }
  | .erase key =>
      match a.map.find? key with
      | none => a
      | some entry =>
          { map := a.map.erase key
            minimal := a.minimal.leave entry.useTime
            listed := unlist a.listed key }
  | .touch relative key =>
      match a.map.find? key with
      | none => a
      | some entry => { a with map := a.map.set key { entry with useTime := relative } }
  | .spare key => { a with listed := unlist a.listed key }
  | .list keys => { a with listed := fun k => a.listed k || (a.map.contains k && decide (k ∈ keys)) }
  | .collect walk before =>
      { a with
        minimal := ((walk.order a.map.entries).map fun e => e.2.useTime).foldl (Least.meet before) {}
        listed := fun k => a.listed k || isOld a.map before k }

/-- Every entry that stays is covered by the least time. -/
def Guards (a : Ages) : Prop := ∀ e ∈ a.map.entries, a.listed e.1 = false → a.minimal.Covers e.2.useTime

/-- What a change asks of the state it finds. Nothing is stored at time zero, nor later in place of the last entry that
counts as the oldest. The last one that counts is only erased when no other is left. Times are not set to before the
least one, and an entry that is older than that is not taken off the list. -/
def Meets (a : Ages) : Change → Prop
  | .set key entry => entry.useTime ≠ 0 ∧ (a.minimal.RunsOut (a.already key) → entry.useTime ≤ a.minimal.value)
  | .erase key =>
      ∀ entry ∈ a.map.find? key, a.minimal.RunsOut entry.useTime →
        ∀ e ∈ a.map.entries, e.1 ≠ key → a.listed e.1 = true
  | .touch relative key => ∀ _entry ∈ a.map.find? key, a.listed key = true ∨ a.minimal.value ≤ relative
  | .spare key => ∀ entry ∈ a.map.find? key, a.minimal.Covers entry.useTime
  | .list _ => True
  | .collect _ _ => True

instance (a : Ages) : (c : Change) → Decidable (a.Meets c)
  | .set _ _ => inferInstanceAs (Decidable (_ ∧ _))
  | .erase key =>
      inferInstanceAs (Decidable (∀ entry ∈ a.map.find? key, a.minimal.RunsOut entry.useTime →
        ∀ e ∈ a.map.entries, e.1 ≠ key → a.listed e.1 = true))
  | .touch relative key =>
      inferInstanceAs (Decidable (∀ _entry ∈ a.map.find? key, a.listed key = true ∨ a.minimal.value ≤ relative))
  | .spare key => inferInstanceAs (Decidable (∀ entry ∈ a.map.find? key, a.minimal.Covers entry.useTime))
  | .list _ => .isTrue trivial
  | .collect _ _ => .isTrue trivial

/-! ## Single changes -/

variable {a : Ages} {key : Key} {entry : Entry}

theorem unlist_eq_false {listed : Key → Bool} {k : Key} :
    unlist listed key k = false ↔ k = key ∨ listed k = false := by
  unfold unlist
  grind

theorem apply_erase_missing (missing : a.map.find? key = none) : a.apply (.erase key) = a := by
  simp only [apply, missing]

theorem apply_erase_found (found : a.map.find? key = some entry) :
    a.apply (.erase key) =
      { map := a.map.erase key, minimal := a.minimal.leave entry.useTime, listed := unlist a.listed key } := by
  simp only [apply, found]

theorem apply_touch_missing (relative : UInt64) (missing : a.map.find? key = none) :
    a.apply (.touch relative key) = a := by
  simp only [apply, missing]

theorem apply_touch_found (relative : UInt64) (found : a.map.find? key = some entry) :
    a.apply (.touch relative key) = { a with map := a.map.set key { entry with useTime := relative } } := by
  simp only [apply, found]

theorem isOld_iff {map : SortedMap Key Entry} {before : UInt64} {k : Key} :
    isOld map before k = true ↔ ∃ entry, (k, entry) ∈ map.entries ∧ entry.useTime ≤ before := by
  unfold isOld
  simp only [Option.any_eq_true, decide_eq_true_eq, SortedMap.find?_eq_some]

theorem guards_set_iff (guards : a.Guards) : (a.apply (.set key entry)).Guards ↔ a.Meets (.set key entry) := by
  have covered := @Least.exchange_covers_iff a.minimal (a.already key) entry.useTime
  constructor
  · intro after
    exact covered.mp (after (key, entry) (SortedMap.mem_set.mpr (.inl rfl)) (unlist_eq_false.mpr (.inl rfl)))
  · intro meets e member stays
    have fine := covered.mpr meets
    cases SortedMap.mem_set.mp member with
    | inl new =>
        subst new
        exact fine
    | inr old =>
        cases unlist_eq_false.mp stays with
        | inl same => exact absurd same old.2
        | inr stays => exact (guards e old.1 stays).exchange fine

theorem guards_erase_iff (guards : a.Guards) : (a.apply (.erase key)).Guards ↔ a.Meets (.erase key) := by
  cases found : a.map.find? key with
  | none =>
      rw [apply_erase_missing found]
      apply iff_of_true guards
      intro entry present
      cases found.symm.trans present
  | some entry =>
      rw [apply_erase_found found]
      constructor
      · intro after entry' same out e member other
        cases found.symm.trans same
        cases stays : a.listed e.1 with
        | true => rfl
        | false =>
            have left := after e (SortedMap.mem_erase.mpr ⟨member, other⟩) (unlist_eq_false.mpr (.inr stays))
            exact absurd out ((guards e member stays).leave_iff.mp left)
      · intro meets e member stays
        obtain ⟨member, other⟩ := SortedMap.mem_erase.mp member
        cases unlist_eq_false.mp stays with
        | inl same => exact absurd same other
        | inr stays =>
            apply (guards e member stays).leave_iff.mpr
            intro out
            exact Bool.false_ne_true (stays.symm.trans (meets entry found out e member other))

theorem guards_touch_iff (guards : a.Guards) (relative : UInt64) :
    (a.apply (.touch relative key)).Guards ↔ a.Meets (.touch relative key) := by
  cases found : a.map.find? key with
  | none =>
      rw [apply_touch_missing relative found]
      apply iff_of_true guards
      intro entry present
      cases found.symm.trans present
  | some entry =>
      rw [apply_touch_found relative found]
      constructor
      · intro after entry' _
        cases stays : a.listed key with
        | true => exact .inl rfl
        | false =>
            have covers := after (key, { entry with useTime := relative }) (SortedMap.mem_set.mpr (.inl rfl)) stays
            exact .inr covers.2
      · intro meets e member stays
        cases SortedMap.mem_set.mp member with
        | inr old => exact guards e old.1 stays
        | inl new =>
            subst new
            cases meets entry found with
            | inl listed => exact absurd listed (Bool.eq_false_iff.mp stays)
            | inr later => exact ⟨(guards (key, entry) (SortedMap.find?_eq_some.mp found) stays).1, later⟩

theorem guards_spare_iff (guards : a.Guards) : (a.apply (.spare key)).Guards ↔ a.Meets (.spare key) := by
  constructor
  · intro after entry found
    exact after (key, entry) (SortedMap.find?_eq_some.mp found) (unlist_eq_false.mpr (.inl rfl))
  · intro meets e member stays
    cases unlist_eq_false.mp stays with
    | inl same =>
        subst same
        exact meets e.2 (SortedMap.find?_eq_some.mpr member)
    | inr stays => exact guards e member stays

theorem guards_list (guards : a.Guards) (keys : List Key) : (a.apply (.list keys)).Guards := by
  intro e member stays
  exact guards e member (Bool.or_eq_false_iff.mp stays).1

/-- What a search leaves is newer. -/
theorem collect_newer {walk : Iteration} {before : UInt64} {e : Key × Entry} (member : e ∈ a.map.entries)
    (stays : (a.apply (.collect walk before)).listed e.1 = false) : before < e.2.useTime := by
  have young := (Bool.or_eq_false_iff.mp stays).2
  rw [isOld, SortedMap.find?_eq_some.mpr member] at young
  simpa using young

theorem guards_collect (walk : Iteration) (before : UInt64) : (a.apply (.collect walk before)).Guards := by
  intro e member stays
  have newer := @collect_newer a walk before e member stays
  have met : e ∈ walk.order a.map.entries := (walk.perm a.map.entries).mem_iff.mpr member
  have inside : e.2.useTime ∈ (walk.order a.map.entries).map fun e => e.2.useTime :=
    List.mem_map.mpr ⟨e, met, rfl⟩
  exact Least.foldl_meet_covers inside newer {}

/-- A change keeps every entry covered exactly when its condition holds. -/
theorem guards_apply_iff (guards : a.Guards) (c : Change) : (a.apply c).Guards ↔ a.Meets c := by
  cases c with
  | set key entry => exact guards_set_iff guards
  | erase key => exact guards_erase_iff guards
  | touch relative key => exact guards_touch_iff guards relative
  | spare key => exact guards_spare_iff guards
  | list keys => exact iff_of_true (guards_list guards keys) trivial
  | collect walk before => exact iff_of_true (guards_collect walk before) trivial

/-- Every change meets its condition when it is made. -/
abbrev Met (a : Ages) (changes : List Change) : Prop := EveryStep apply Meets a changes

theorem Met.guards {changes : List Change} (met : a.Met changes) (guards : a.Guards) :
    (changes.foldl apply a).Guards :=
  met.preserve (fun _ c guards meets => (guards_apply_iff guards c).mpr meets) guards

/-! ## Old entries -/

/-- Entries up to this time are listed. -/
def Collected (before : UInt64) (a : Ages) : Prop :=
  ∀ e ∈ a.map.entries, a.listed e.1 = false → before < e.2.useTime

theorem Collected.erase {before : UInt64} (collected : a.Collected before) (key : Key) :
    (a.apply (.erase key)).Collected before := by
  cases found : a.map.find? key with
  | none =>
      rw [apply_erase_missing found]
      exact collected
  | some entry =>
      rw [apply_erase_found found]
      intro e member stays
      obtain ⟨member, other⟩ := SortedMap.mem_erase.mp member
      cases unlist_eq_false.mp stays with
      | inl same => exact absurd same other
      | inr stays => exact collected e member stays

theorem Collected.erases {before : UInt64} (collected : a.Collected before) (keys : List Key) :
    ((keys.map Change.erase).foldl apply a).Collected before := by
  induction keys generalizing a with
  | nil => exact collected
  | cons key keys ih => exact ih (collected.erase key)

theorem Collected.list {before : UInt64} (collected : a.Collected before) (keys : List Key) :
    (a.apply (.list keys)).Collected before := by
  intro e member stays
  exact collected e member (Bool.or_eq_false_iff.mp stays).1

/-- Nothing has to be looked for when the least time is not old. -/
theorem Guards.collected {before : UInt64} (guards : a.Guards)
    (young : a.minimal.value = 0 ∨ a.minimal.value > before) :
    a.Collected before := by
  intro e member stays
  obtain ⟨known, below⟩ := guards e member stays
  cases young with
  | inl unknown => exact absurd unknown known
  | inr young => exact UInt64.lt_of_lt_of_le young below

end Ages

end IMeDesktop.Storage.Cache
