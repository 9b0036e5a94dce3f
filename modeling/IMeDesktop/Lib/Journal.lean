import Mathlib.Data.Set.Insert
import Mathlib.Logic.Function.Basic
import Mathlib.Logic.Relation

/-! # Journals with batched removals

A map whose changes are kept in a journal. What is stored goes to the journal at once;
what is removed is only noted, and written together with other removals later. The
journal is then behind the map on the noted keys, and nowhere else.

Nothing here is about how a journal is written down.
-/

namespace IMeDesktop.Lib

variable {κ ν : Type} [DecidableEq κ]

inductive Change (κ ν : Type) where
  | set (k : κ) (v : ν)
  | erase (k : κ)
  deriving DecidableEq, Repr

namespace Change

def key : Change κ ν → κ
  | set k _ => k
  | erase k => k

def apply (m : κ → Option ν) : Change κ ν → κ → Option ν
  | set k v => Function.update m k (some v)
  | erase k => Function.update m k none

def replay (m : κ → Option ν) (changes : List (Change κ ν)) : κ → Option ν := changes.foldl apply m

variable {m m' : κ → Option ν} {changes : List (Change κ ν)} {k : κ}

@[simp]
theorem replay_nil (m : κ → Option ν) : replay m [] = m := rfl

@[simp]
theorem replay_cons (m : κ → Option ν) (c : Change κ ν) (changes : List (Change κ ν)) :
    replay m (c :: changes) = replay (c.apply m) changes := rfl

theorem replay_append (m : κ → Option ν) (first second : List (Change κ ν)) :
    replay m (first ++ second) = replay (replay m first) second := List.foldl_append

theorem apply_other {c : Change κ ν} (other : c.key ≠ k) : c.apply m k = m k := by
  cases c with
  | set j v => exact Function.update_of_ne (Ne.symm other) _ _
  | erase j => exact Function.update_of_ne (Ne.symm other) _ _

theorem apply_same {c : Change κ ν} (same : c.key = k) : c.apply m k = c.apply m' k := by
  subst same
  cases c with
  | set j v => simp [apply, key]
  | erase j => simp [apply, key]

theorem replay_congr (same : m k = m' k) : replay m changes k = replay m' changes k := by
  induction changes generalizing m m' with
  | nil => exact same
  | cons c changes ih =>
      apply ih
      by_cases touched : c.key = k
      · exact apply_same touched
      · rw [apply_other touched, apply_other touched, same]

theorem replay_untouched (alone : ∀ c ∈ changes, c.key ≠ k) : replay m changes k = m k := by
  induction changes generalizing m with
  | nil => rfl
  | cons c changes ih =>
      obtain ⟨first, others⟩ := List.forall_mem_cons.mp alone
      exact (ih others).trans (apply_other first)

/-- The last change of a key decides. -/
theorem replay_touched (touched : ∃ c ∈ changes, c.key = k) : replay m changes k = replay m' changes k := by
  induction changes generalizing m m' with
  | nil =>
      obtain ⟨c, member, -⟩ := touched
      cases member
  | cons c changes ih =>
      by_cases later : ∃ c ∈ changes, c.key = k
      · exact ih later
      · obtain ⟨c', member, same⟩ := touched
        cases List.mem_cons.mp member with
        | inr behind => exact absurd ⟨c', behind, same⟩ later
        | inl first =>
            subst first
            exact @replay_congr κ ν _ (c'.apply m) (c'.apply m') changes k (apply_same same)

/-- Removing several keys. -/
theorem replay_erases (m : κ → Option ν) (keys : List κ) (k : κ) :
    replay m (keys.map erase) k = if k ∈ keys then none else m k := by
  induction keys generalizing m with
  | nil => simp
  | cons j keys ih =>
      simp only [List.map_cons, replay_cons, ih, apply, List.mem_cons]
      by_cases same : k = j
      · simp [same]
      · simp [same]

end Change

/-- A map with its journal; `pending` are the removals that are not written yet. -/
structure Batched (κ ν : Type) where
  map : κ → Option ν
  pending : Set κ
  journal : List (Change κ ν)

namespace Batched

open Change

inductive Step : Batched κ ν → Batched κ ν → Prop where
  | set (b : Batched κ ν) (k : κ) (v : ν) :
      Step b ⟨Function.update b.map k (some v), b.pending \ {k}, b.journal ++ [.set k v]⟩
  | remove (b : Batched κ ν) (k : κ) : Step b ⟨Function.update b.map k none, insert k b.pending, b.journal⟩
  | flush (b : Batched κ ν) (keys : List κ) (all : ∀ k, k ∈ keys ↔ k ∈ b.pending) :
      Step b ⟨b.map, ∅, b.journal ++ keys.map .erase⟩

def Steps : Batched κ ν → Batched κ ν → Prop := Relation.ReflTransGen Step

/-- The journal and the map differ on the pending keys at most. -/
structure Agrees (b : Batched κ ν) : Prop where
  replayed : ∀ k, k ∉ b.pending → replay (fun _ => none) b.journal k = b.map k
  absent : ∀ k ∈ b.pending, b.map k = none

variable {b b' : Batched κ ν} {k : κ}

theorem agrees_step (h : Agrees b) (step : Step b b') : Agrees b' := by
  cases step with
  | set k v =>
      constructor
      · intro j settled
        simp only [replay_append, replay_cons, replay_nil, Change.apply]
        by_cases same : j = k
        · simp [same]
        · simp only [Function.update_of_ne same]
          exact h.replayed j fun pending => settled ⟨pending, same⟩
      · rintro j ⟨pending, other⟩
        simpa only [Function.update_of_ne other] using h.absent j pending
  | remove k =>
      constructor
      · intro j settled
        simp only [Set.mem_insert_iff, not_or] at settled
        simpa only [Function.update_of_ne settled.1] using h.replayed j settled.2
      · intro j pending
        by_cases same : j = k
        · simp [same]
        · simpa only [Function.update_of_ne same] using h.absent j (pending.resolve_left same)
  | flush keys all =>
      constructor
      · intro j _
        simp only [replay_append, replay_erases]
        split_ifs with removed
        · exact (h.absent j ((all j).mp removed)).symm
        · exact h.replayed j fun pending => removed ((all j).mpr pending)
      · exact fun j pending => absurd pending (Set.notMem_empty j)

theorem agrees_steps (h : Agrees b) (steps : Steps b b') : Agrees b' := by
  induction steps with
  | refl => exact h
  | tail _ step ih => exact agrees_step ih step

/-- While a key is pending, nothing is written about it. -/
theorem replay_pending (step : Step b b') (waits : k ∈ b'.pending) (m : κ → Option ν) :
    replay m b'.journal k = replay m b.journal k := by
  cases step with
  | set j v =>
      have other : (Change.set j v).key ≠ k := fun same => waits.2 same.symm
      rw [replay_append]
      exact Change.apply_other other
  | remove j => rfl
  | flush keys all => cases waits

/-- A run only adds to the journal, and a key that is not touched and is not pending at the end was left
alone all the time. -/
structure Extends (b b' : Batched κ ν) (added : List (Change κ ν)) : Prop where
  journal : b'.journal = b.journal ++ added
  untouched : ∀ k, k ∉ b'.pending → (∀ c ∈ added, c.key ≠ k) → k ∉ b.pending ∧ b'.map k = b.map k

theorem extends_step (step : Step b b') : ∃ added, Extends b b' added := by
  cases step with
  | set j v =>
      refine ⟨[.set j v], rfl, fun k settled alone => ?_⟩
      have other : k ≠ j := fun same => alone _ List.mem_cons_self same.symm
      exact ⟨fun pending => settled ⟨pending, other⟩, Function.update_of_ne other _ _⟩
  | remove j =>
      refine ⟨[], (List.append_nil _).symm, fun k settled _ => ?_⟩
      simp only [Set.mem_insert_iff, not_or] at settled
      exact ⟨settled.2, Function.update_of_ne settled.1 _ _⟩
  | flush keys all =>
      refine ⟨keys.map .erase, rfl, fun k _ alone => ⟨fun pending => ?_, rfl⟩⟩
      exact alone (.erase k) (List.mem_map_of_mem ((all k).mpr pending)) rfl

omit [DecidableEq κ] in
theorem Extends.trans {b₁ b₂ b₃ : Batched κ ν} {first second : List (Change κ ν)}
    (h₁ : Extends b₁ b₂ first) (h₂ : Extends b₂ b₃ second) : Extends b₁ b₃ (first ++ second) := by
  constructor
  · rw [h₂.journal, h₁.journal, List.append_assoc]
  · intro k settled alone
    obtain ⟨settled₂, same₂⟩ := h₂.untouched k settled fun c member => alone c (List.mem_append_right _ member)
    obtain ⟨settled₁, same₁⟩ := h₁.untouched k settled₂ fun c member => alone c (List.mem_append_left _ member)
    exact ⟨settled₁, same₂.trans same₁⟩

theorem extends_steps (steps : Steps b b') : ∃ added, Extends b b' added := by
  induction steps with
  | refl => exact ⟨[], (List.append_nil _).symm, fun k settled _ => ⟨settled, rfl⟩⟩
  | tail _ step ih =>
      obtain ⟨first, before⟩ := ih
      obtain ⟨second, last⟩ := extends_step step
      exact ⟨first ++ second, before.trans last⟩

/-- Steps between two states, by way of a third one. -/
def Via (b w b' : Batched κ ν) : Prop := Steps b w ∧ Steps w b'

/-- What was written since the first state does not touch a key that is settled at the end: then the map held the same
at all times between. -/
theorem via_untouched {w : Batched κ ν} {added : List (Change κ ν)} (via : Via b w b')
    (journal : b'.journal = b.journal ++ added) (alone : ∀ c ∈ added, c.key ≠ k) (settled : k ∉ b'.pending) :
    k ∉ w.pending ∧ b'.map k = w.map k := by
  obtain ⟨before, first⟩ := extends_steps via.1
  obtain ⟨after, last⟩ := extends_steps via.2
  have split : added = before ++ after := by
    rw [last.journal, first.journal, List.append_assoc] at journal
    exact (List.append_cancel_left journal).symm
  subst split
  exact last.untouched k settled fun c member => alone c (List.mem_append_right before member)

/-! ## Shorter journals -/

/-- A journal that may take the place of an older part of another one. It sets keys to what they were at some time since,
each one once, and leaves out keys that were missing at some time since. -/
structure Sampled (b b' : Batched κ ν) (samples : List (κ × ν)) : Prop where
  once : (samples.map Prod.fst).Nodup
  seen : ∀ e ∈ samples, ∃ w, Via b w b' ∧ w.map e.1 = some e.2
  complete : ∀ k v, .set k v ∈ b.journal → k ∈ samples.map Prod.fst ∨ ∃ w, Via b w b' ∧ w.map k = none

def setAll (samples : List (κ × ν)) : List (Change κ ν) := samples.map fun e => .set e.1 e.2

theorem via_step {w : Batched κ ν} (via : Via b w b') {b'' : Batched κ ν} (steps : Steps b' b'') : Via b w b'' :=
  ⟨via.1, via.2.trans steps⟩

theorem Sampled.later {samples : List (κ × ν)} (h : Sampled b b' samples) {b'' : Batched κ ν}
    (steps : Steps b' b'') : Sampled b b'' samples where
  once := h.once
  seen e member := by
    obtain ⟨w, via, value⟩ := h.seen e member
    exact ⟨w, via_step via steps, value⟩
  complete k v member := by
    rcases h.complete k v member with sampled | ⟨w, via, missing⟩
    · exact .inl sampled
    · exact .inr ⟨w, via_step via steps, missing⟩

theorem replay_setAll_missing {samples : List (κ × ν)} (missing : k ∉ samples.map Prod.fst) (m : κ → Option ν) :
    replay m (setAll samples) k = m k := by
  induction samples generalizing m with
  | nil => rfl
  | cons e samples ih =>
      obtain ⟨other, rest⟩ := not_or.mp (List.mem_cons.not.mp missing)
      exact (ih rest _).trans (Change.apply_other (Ne.symm other))

theorem replay_setAll_sampled {samples : List (κ × ν)} (once : (samples.map Prod.fst).Nodup) {e : κ × ν}
    (member : e ∈ samples) (m : κ → Option ν) : replay m (setAll samples) e.1 = some e.2 := by
  induction samples generalizing m with
  | nil => cases member
  | cons first samples ih =>
      obtain ⟨fresh, once⟩ := List.nodup_cons.mp once
      cases List.mem_cons.mp member with
      | inl same =>
          subst same
          exact (replay_setAll_missing fresh _).trans (Function.update_self _ _ _)
      | inr later => exact ih once later _

theorem replay_never_set {changes : List (Change κ ν)} (never : ∀ v, .set k v ∉ changes) {m : κ → Option ν}
    (missing : m k = none) : replay m changes k = none := by
  induction changes generalizing m with
  | nil => exact missing
  | cons c changes ih =>
      apply ih fun v member => never v (List.mem_cons_of_mem c member)
      cases c with
      | erase j =>
          simp only [Change.apply, Function.update_apply]
          split_ifs
          · rfl
          · exact missing
      | set j v =>
          have other : (Change.set j v).key ≠ k := by
            rintro rfl
            exact never v List.mem_cons_self
          rw [Change.apply_other other]
          exact missing

/-- A journal whose older part was replaced agrees with the map as the whole one does. -/
theorem Sampled.agrees {samples : List (κ × ν)} {added : List (Change κ ν)} (h : Sampled b b' samples)
    (start : Agrees b) (steps : Steps b b') (journal : b'.journal = b.journal ++ added) :
    Agrees ⟨b'.map, b'.pending, setAll samples ++ added⟩ := by
  have now := agrees_steps start steps
  refine ⟨fun k settled => ?_, now.absent⟩
  by_cases touched : ∃ c ∈ added, c.key = k
  · -- the last change of the key is not in the part that was replaced
    rw [← now.replayed k settled, journal, replay_append, replay_append]
    exact Change.replay_touched touched
  · have alone : ∀ c ∈ added, c.key ≠ k := fun c member same => touched ⟨c, member, same⟩
    obtain ⟨settledFirst, first⟩ := via_untouched ⟨.refl, steps⟩ journal alone settled
    rw [replay_append, Change.replay_untouched alone]
    simp only
    by_cases sampled : k ∈ samples.map Prod.fst
    · obtain ⟨e, member, rfl⟩ := List.mem_map.mp sampled
      obtain ⟨w, via, value⟩ := h.seen e member
      rw [replay_setAll_sampled h.once member, (via_untouched via journal alone settled).2, value]
    · rw [replay_setAll_missing sampled]
      by_cases old : ∃ v, .set k v ∈ b.journal
      · obtain ⟨v, member⟩ := old
        obtain ⟨w, via, missing⟩ := (h.complete k v member).resolve_left sampled
        rw [(via_untouched via journal alone settled).2, missing]
      · have never := replay_never_set (m := fun _ => none) (fun v member => old ⟨v, member⟩) rfl
        rw [first, ← start.replayed k settledFirst, never]

end Batched

end IMeDesktop.Lib
