import IMeDesktop.Api.Updates

/-! # Containers in the order of their numbers

Containers number the ranges of a partition of `s + 1 .. n`. They come in any order and any number
of times; each is fed once, after all before it. What is saved is at any time what was seen of what
is still to come, and never what comes next.
-/

namespace IMeDesktop.Api

open Lib Data

variable {υ : Type}

namespace MTPUpdates

/-- The range of numbers of a container; one with `seq` zero and a short one have none. -/
def range? : MTPUpdates υ → Option (Int × Int)
  | .updates _ seq _ => if seq = 0 then none else some (seq, seq)
  | .updatesCombined _ seqStart seq _ => if seqStart = 0 ∧ seq = 0 then none else some (seqStart, seq)
  | _ => none

def numbered (c : MTPUpdates υ) : Bool := c.range?.isSome

end MTPUpdates

/-- The ranges of the containers follow each other from `s + 1` to `n`. -/
def Partition (s n : Int) : List (MTPUpdates υ) → Prop
  | [] => s = n
  | c :: rest => ∃ last, c.range? = some (s + 1, last) ∧ s + 1 ≤ last ∧ Partition last n rest

namespace Partition

theorem le {s n : Int} {parts : List (MTPUpdates υ)} (h : Partition s n parts) : s ≤ n := by
  induction parts generalizing s with
  | nil => exact le_of_eq h
  | cons head rest ih =>
      obtain ⟨last, -, le, tail⟩ := h
      exact (by omega : s ≤ last).trans (ih tail)

theorem range_of_mem {s n : Int} {parts : List (MTPUpdates υ)} (h : Partition s n parts) {c : MTPUpdates υ}
    (member : c ∈ parts) : ∃ first last, c.range? = some (first, last) ∧ s < first ∧ first ≤ last ∧ last ≤ n := by
  induction parts generalizing s with
  | nil => simp at member
  | cons head rest ih =>
      obtain ⟨last, range, le, tail⟩ := h
      rcases List.mem_cons.mp member with rfl | inside
      · exact ⟨s + 1, last, range, by omega, le, tail.le⟩
      · obtain ⟨first, last', range', lt, le'⟩ := ih tail inside
        exact ⟨first, last', range', by omega, le'⟩

/-- No two containers start at the same number. -/
theorem eq_of_start {s n : Int} {parts : List (MTPUpdates υ)} (h : Partition s n parts) {c d : MTPUpdates υ}
    (memberC : c ∈ parts) (memberD : d ∈ parts) {first lastC lastD : Int} (rangeC : c.range? = some (first, lastC))
    (rangeD : d.range? = some (first, lastD)) : c = d := by
  induction parts generalizing s with
  | nil => simp at memberC
  | cons head rest ih =>
      obtain ⟨last, range, le, tail⟩ := h
      -- the head starts below everything behind it
      have below : ∀ e ∈ rest, ∀ l, e.range? = some (s + 1, l) → False := by
        intro e member l range'
        obtain ⟨f, l', range'', lt, -⟩ := tail.range_of_mem member
        rw [range'] at range''
        obtain ⟨rfl, -⟩ := Prod.mk.inj (Option.some.inj range'')
        omega
      rcases List.mem_cons.mp memberC with rfl | insideC
      · rcases List.mem_cons.mp memberD with rfl | insideD
        · rfl
        · rw [range] at rangeC
          obtain ⟨rfl, -⟩ := Prod.mk.inj (Option.some.inj rangeC)
          exact (below d insideD _ rangeD).elim
      · rcases List.mem_cons.mp memberD with rfl | insideD
        · rw [range] at rangeD
          obtain ⟨rfl, -⟩ := Prod.mk.inj (Option.some.inj rangeD)
          exact (below c insideC _ rangeC).elim
        · exact ih tail insideC insideD

theorem append {s n : Int} {done todo : List (MTPUpdates υ)} (h : Partition s n (done ++ todo)) :
    ∃ m, Partition s m done ∧ Partition m n todo := by
  induction done generalizing s with
  | nil => exact ⟨s, rfl, h⟩
  | cons head rest ih =>
      obtain ⟨last, range, le, tail⟩ := h
      obtain ⟨m, before, after⟩ := ih tail
      exact ⟨m, ⟨last, range, le, before⟩, after⟩

/-- Where a partition starts is known from its end and its containers. -/
theorem start_eq {s t n : Int} {parts : List (MTPUpdates υ)} (hs : Partition s n parts) (ht : Partition t n parts) :
    s = t := by
  cases parts with
  | nil => exact Eq.trans hs ht.symm
  | cons head rest =>
      obtain ⟨last, range, -, -⟩ := hs
      obtain ⟨last', range', -, -⟩ := ht
      rw [range] at range'
      have := (Prod.mk.inj (Option.some.inj range')).1
      omega

theorem cons_ne {s n : Int} {c : MTPUpdates υ} {rest : List (MTPUpdates υ)} (h : Partition s n (c :: rest)) :
    c ∉ rest := by
  obtain ⟨last, range, le, tail⟩ := h
  intro inside
  obtain ⟨first, l, range', lt, -⟩ := tail.range_of_mem inside
  rw [range] at range'
  obtain ⟨rfl, -⟩ := Prod.mk.inj (Option.some.inj range')
  omega

end Partition

namespace Updates

/-- The fed containers that have a range. -/
def numberedFed (u : Updates υ) : List (MTPUpdates υ) := u.fed.filter MTPUpdates.numbered

/-! ## How many differences were requested never goes down -/

theorem differenceCount_releaseSaved (seq : Int) (fuel : Nat) (u : Updates υ) :
    (releaseSaved seq fuel u).1.differenceCount = u.differenceCount := by
  induction fuel generalizing u with
  | zero => rfl
  | succ fuel ih =>
      unfold releaseSaved
      split
      · rfl
      · dsimp only
        split_ifs
        · rfl
        · exact ih _
        · rfl
        · rfl

theorem differenceCount_setState (u : Updates υ) (pts date qts seq : Int) :
    (u.setState pts date qts seq).1.differenceCount = u.differenceCount := by
  unfold setState
  extract_lets u₁ u₂ u₃
  have same : u₃.differenceCount = u.differenceCount := by
    unfold u₃ u₂ u₁
    split_ifs <;> rfl
  split_ifs
  · exact (differenceCount_releaseSaved _ _ _).trans same
  · exact same

theorem differenceCount_applyRange (u : Updates υ) (session : Session υ) (c : MTPUpdates υ) (list : υ)
    (date start seq : Int) : u.differenceCount ≤ (u.applyRange session c list date start seq).1.differenceCount := by
  unfold applyRange
  split_ifs
  · exact le_refl _
  · exact le_refl _
  · dsimp only
    rw [differenceCount_setState]
    exact (undisturbed_feed (u.note c) _).count

theorem differenceCount_applyAccepted (u : Updates υ) (session : Session υ) (c : MTPUpdates υ) (message : υ)
    (date : Int) : u.differenceCount ≤ (u.applyAccepted session c message date).1.differenceCount := by
  have fed := (undisturbed_feed u (session.feeding message)).count
  unfold applyAccepted
  dsimp only
  split
  · rw [differenceCount_setState]
    exact fed
  · exact fed

theorem differenceCount_applyOnce (u : Updates υ) (session : Session υ) (c : MTPUpdates υ) :
    u.differenceCount ≤ (u.applyOnce session c).1.differenceCount := by
  unfold applyOnce
  split
  · exact differenceCount_applyRange _ _ _ _ _ _ _
  · exact differenceCount_applyRange _ _ _ _ _ _ _
  · dsimp only
    rw [differenceCount_setState]
    exact (undisturbed_feed (u.note _) _).count
  · split
    · exact differenceCount_applyAccepted _ _ _ _ _
    · exact (undisturbed_getDifference u).count
  · split
    · exact differenceCount_applyAccepted _ _ _ _ _
    · exact (undisturbed_getDifference u).count
  · exact differenceCount_applyAccepted _ _ _ _ _
  · exact (undisturbed_getDifference u).count

theorem differenceCount_applyUpdates (u : Updates υ) (session : Session υ) (c : MTPUpdates υ) :
    u.differenceCount ≤ (u.applyUpdates session c).differenceCount := by
  fun_induction applyUpdates u session c with
  | case1 u c after result =>
      have once := differenceCount_applyOnce u session c
      rwa [result] at once
  | case2 u c after next result ih =>
      have once := differenceCount_applyOnce u session c
      rw [result] at once
      exact once.trans ih

/-! ## One container -/

/-- What `setState` does to the order of containers when their number stays. -/
theorem setState_idle (u : Updates υ) (pts date qts seq : Int) (idle : seq = 0 ∨ seq = u.updatesSeq) :
    (u.setState pts date qts seq).2 = none ∧ Undisturbed u (u.setState pts date qts seq).1 := by
  unfold setState
  extract_lets u₁ u₂ u₃
  have same : Undisturbed u u₃ := by
    unfold u₃ u₂ u₁
    split_ifs <;> exact .of_eq rfl rfl rfl rfl
  have stays : ¬(seq ≠ 0 ∧ seq ≠ u₃.updatesSeq) := by
    rw [same.updatesSeq]
    grind
  rw [if_neg stays]
  exact ⟨rfl, same⟩

/-- A container without a range orders nothing. -/
structure Aside (u v : Updates υ) : Prop where
  updatesSeq : v.updatesSeq = u.updatesSeq
  numberedFed : v.numberedFed = u.numberedFed
  saved : v.differenceCount = u.differenceCount → v.bySeqUpdates = u.bySeqUpdates

theorem Undisturbed.aside {u v : Updates υ} (h : Undisturbed u v) : Aside u v where
  updatesSeq := h.updatesSeq
  numberedFed := by rw [numberedFed, numberedFed, h.fed]
  saved same := by
    rcases h.saved with kept | ⟨-, more⟩
    · exact kept
    · omega

theorem numberedFed_note {u : Updates υ} {c : MTPUpdates υ} (free : c.range? = none) :
    (u.note c).numberedFed = u.numberedFed := by
  simp [numberedFed, note, List.filter_append, MTPUpdates.numbered, free]

/-- A container that is fed for its contents alone. -/
theorem aside_note {u v : Updates υ} {c : MTPUpdates υ} (free : c.range? = none) (h : Undisturbed (u.note c) v) :
    Aside u v where
  updatesSeq := h.updatesSeq
  numberedFed := h.aside.numberedFed.trans (numberedFed_note free)
  saved := h.aside.saved

theorem aside_applyAccepted (u : Updates υ) (session : Session υ) {c : MTPUpdates υ} (free : c.range? = none)
    (message : υ) (date : Int) :
    (u.applyAccepted session c message date).2 = none ∧ Aside u (u.applyAccepted session c message date).1 := by
  have fed := undisturbed_feed u (session.feeding message)
  unfold applyAccepted
  generalize u.feed (session.feeding message) = v at fed
  dsimp only
  split
  · obtain ⟨none, idle⟩ := setState_idle (v.note c) 0 date v.updatesQts v.updatesSeq (.inr rfl)
    have shown := (aside_note free idle).numberedFed
    exact ⟨none, ⟨idle.updatesSeq.trans fed.updatesSeq, shown.trans fed.aside.numberedFed, fun same => by
      have between : v.differenceCount ≤ ((v.note c).setState 0 date v.updatesQts v.updatesSeq).1.differenceCount :=
        idle.count
      have first := fed.count
      exact ((aside_note free idle).saved (by omega)).trans (fed.aside.saved (by omega))⟩⟩
  · exact ⟨rfl, fed.aside⟩

theorem aside_applyOnce (u : Updates υ) (session : Session υ) {c : MTPUpdates υ} (free : c.range? = none) :
    (u.applyOnce session c).2 = none ∧ Aside u (u.applyOnce session c).1 := by
  have zero : ∀ list date,
      (u.applyRange session c list date 0 0).2 = none ∧ Aside u (u.applyRange session c list date 0 0).1 := by
    intro list date
    have fed := undisturbed_feed (u.note c) (session.feeding list)
    unfold applyRange
    simp only [ne_eq, not_true_eq_false, false_and, if_false]
    obtain ⟨none, idle⟩ := setState_idle ((u.note c).feed (session.feeding list)) 0 date
      ((u.note c).feed (session.feeding list)).updatesQts 0 (.inl rfl)
    exact ⟨none, aside_note free (fed.trans idle)⟩
  cases c with
  | updates date seq list =>
      have absent : seq = 0 := by
        by_contra present
        simp [MTPUpdates.range?, present] at free
      subst absent
      simpa only [applyOnce] using zero list date
  | updatesCombined date seqStart seq list =>
      have absent : seqStart = 0 ∧ seq = 0 := by
        by_contra present
        simp [MTPUpdates.range?, present] at free
      obtain ⟨rfl, rfl⟩ := absent
      simpa only [applyOnce] using zero list date
  | updateShort date update =>
      have fed := undisturbed_feed (u.note (.updateShort date update)) (session.feeding update)
      unfold applyOnce
      dsimp only
      generalize (u.note (.updateShort date update)).feed (session.feeding update) = v at fed
      obtain ⟨none, idle⟩ := setState_idle v 0 date v.updatesQts v.updatesSeq (.inr rfl)
      exact ⟨none, aside_note free (fed.trans idle)⟩
  | updateShortMessage date message =>
      unfold applyOnce
      dsimp only
      split
      · exact aside_applyAccepted u session free message date
      · exact ⟨rfl, (undisturbed_getDifference u).aside⟩
  | updateShortChatMessage date message =>
      unfold applyOnce
      dsimp only
      split
      · exact aside_applyAccepted u session free message date
      · exact ⟨rfl, (undisturbed_getDifference u).aside⟩
  | updateShortSentMessage date message =>
      unfold applyOnce
      dsimp only
      exact aside_applyAccepted u session free message date
  | updatesTooLong => exact ⟨rfl, (undisturbed_getDifference u).aside⟩

theorem aside_applyUpdates (u : Updates υ) (session : Session υ) {c : MTPUpdates υ} (free : c.range? = none) :
    Aside u (u.applyUpdates session c) := by
  obtain ⟨last, aside⟩ := aside_applyOnce u session free
  rw [applyUpdates]
  split
  · rename_i result
    rwa [result] at aside
  · rename_i result
    rw [result] at last
    contradiction

/-- A container with a range is handled by its range alone. -/
theorem applyOnce_ranged (u : Updates υ) (session : Session υ) {c : MTPUpdates υ} {first last : Int}
    (range : c.range? = some (first, last)) :
    ∃ list date, u.applyOnce session c = u.applyRange session c list date first last := by
  cases c with
  | updates date seq list =>
      simp only [MTPUpdates.range?] at range
      split at range
      · contradiction
      · obtain ⟨rfl, rfl⟩ := Prod.mk.inj (Option.some.inj range)
        exact ⟨list, date, rfl⟩
  | updatesCombined date seqStart seq list =>
      simp only [MTPUpdates.range?] at range
      split at range
      · contradiction
      · obtain ⟨rfl, rfl⟩ := Prod.mk.inj (Option.some.inj range)
        exact ⟨list, date, rfl⟩
  | _ => simp [MTPUpdates.range?] at range

theorem applyUpdates_last {u v : Updates υ} {session : Session υ} {c : MTPUpdates υ}
    (once : u.applyOnce session c = (v, none)) : u.applyUpdates session c = v := by
  rw [applyUpdates]
  split
  · rename_i result
    exact (Prod.mk.inj (result.symm.trans once)).1
  · rename_i result
    exact absurd (Prod.mk.inj (result.symm.trans once)).2 (by simp)

theorem applyUpdates_next {u v : Updates υ} {session : Session υ} {c d : MTPUpdates υ}
    (once : u.applyOnce session c = (v, some d)) : u.applyUpdates session c = v.applyUpdates session d := by
  rw [applyUpdates]
  split
  · rename_i result
    exact absurd (Prod.mk.inj (result.symm.trans once)).2 (by simp)
  · rename_i result
    obtain ⟨rfl, same⟩ := Prod.mk.inj (result.symm.trans once)
    rw [Option.some.inj same]

theorem applyUpdates_once {u : Updates υ} {session : Session υ} {c : MTPUpdates υ}
    (last : (u.applyOnce session c).2 = none) : u.applyUpdates session c = (u.applyOnce session c).1 :=
  applyUpdates_last (Prod.ext rfl last)

theorem applyUpdates_then {u : Updates υ} {session : Session υ} {c d : MTPUpdates υ}
    (next : (u.applyOnce session c).2 = some d) :
    u.applyUpdates session c = (u.applyOnce session c).1.applyUpdates session d :=
  applyUpdates_next (Prod.ext rfl next)

/-- What `setState` can do when nothing saved is behind the new number. -/
inductive Advanced (u : Updates υ) (seq : Int) : Updates υ × Option (MTPUpdates υ) → Prop
  /-- Nothing saved comes next. -/
  | waits {v : Updates υ} (updatesSeq : v.updatesSeq = seq) (fed : v.fed = u.fed)
      (count : v.differenceCount = u.differenceCount) (saved : v.bySeqUpdates = u.bySeqUpdates)
      (later : ∀ e ∈ u.bySeqUpdates.entries, seq + 1 < e.1) : Advanced u seq (v, none)
  /-- The first that is saved comes next. -/
  | releases {v : Updates υ} {d : MTPUpdates υ} {rest : List (Int × MTPUpdates υ)} (updatesSeq : v.updatesSeq = seq)
      (fed : v.fed = u.fed) (count : v.differenceCount = u.differenceCount)
      (front : u.bySeqUpdates.entries = (seq + 1, d) :: rest) (saved : v.bySeqUpdates.entries = rest) :
      Advanced u seq (v, some d)

theorem setState_advance (u : Updates υ) (pts date qts seq : Int) (nonzero : seq ≠ 0) (moves : seq ≠ u.updatesSeq)
    (above : ∀ e ∈ u.bySeqUpdates.entries, seq < e.1) : Advanced u seq (u.setState pts date qts seq) := by
  unfold setState
  extract_lets u₁ u₂ u₃
  have same : u₃.bySeqUpdates = u.bySeqUpdates ∧ u₃.fed = u.fed ∧ u₃.updatesSeq = u.updatesSeq ∧
      u₃.requests = u.requests := by
    unfold u₃ u₂ u₁
    split_ifs <;> exact ⟨rfl, rfl, rfl, rfl⟩
  obtain ⟨saved, fed, number, requests⟩ := same
  have count : u₃.differenceCount = u.differenceCount := by rw [differenceCount, differenceCount, requests]
  clear_value u₃
  rw [number, if_pos ⟨nonzero, moves⟩]
  rw [← saved] at above
  cases entries : u₃.bySeqUpdates.entries with
  | nil =>
      have empty : u₃.bySeqUpdates.size = 0 := by rw [SortedMap.size, entries, List.length_nil]
      rw [empty, releaseSaved]
      exact .waits rfl fed count saved (by rw [← saved, entries]; simp)
  | cons entry rest =>
      obtain ⟨start, d⟩ := entry
      have size : u₃.bySeqUpdates.size = rest.length + 1 := by rw [SortedMap.size, entries, List.length_cons]
      have after : seq < start := above (start, d) (by rw [entries]; exact List.mem_cons_self)
      rw [size, releaseSaved]
      simp only [entries, List.head?_cons]
      by_cases next : start = seq + 1
      · subst next
        simp only [le_refl, if_true]
        exact .releases rfl fed count (by rw [← saved, entries]) (by simp [SortedMap.eraseBegin, entries])
      · have far : seq + 1 < start := by omega
        have later : ∀ e ∈ u.bySeqUpdates.entries, seq + 1 < e.1 := by
          intro e member
          rw [← saved, entries] at member
          rcases List.mem_cons.mp member with rfl | behind
          · exact far
          · have sorted := u₃.bySeqUpdates.sorted
            rw [entries] at sorted
            exact far.trans ((List.pairwise_cons.mp sorted).1 e behind)
        simp only [not_le.mpr far, if_false]
        split
        · exact .waits rfl fed count saved later
        · exact .waits rfl fed count saved later

/-! ## The invariant of a delivery -/

/-- What is still to come, and what of it was seen. -/
structure Waiting (n : Int) (todo : List (MTPUpdates υ)) (seen : MTPUpdates υ → Prop) (u : Updates υ) : Prop where
  partition : Partition u.updatesSeq n todo
  saved : ∀ k c, (k, c) ∈ u.bySeqUpdates.entries ↔ c ∈ todo ∧ seen c ∧ ∃ last, c.range? = some (k, last)
  front : ∀ c ∈ todo.head?, ¬seen c

theorem differenceCount_once (u : Updates υ) (session : Session υ) (c : MTPUpdates υ) :
    (u.applyOnce session c).1.differenceCount ≤ (u.applyUpdates session c).differenceCount := by
  match once : u.applyOnce session c with
  | (v, none) => rw [applyUpdates_last once]
  | (v, some d) =>
      rw [applyUpdates_next once]
      exact differenceCount_applyUpdates v session d

/-- What comes next is fed, and its last number is the one reached. -/
theorem applyOnce_head {u : Updates υ} {session : Session υ} {c : MTPUpdates υ} {last : Int}
    (positive : 0 < u.updatesSeq) (range : c.range? = some (u.updatesSeq + 1, last)) (le : u.updatesSeq + 1 ≤ last)
    (above : ∀ e ∈ u.bySeqUpdates.entries, last < e.1)
    (quiet : (u.applyUpdates session c).differenceCount = u.differenceCount) :
    Advanced (u.note c) last (u.applyOnce session c) := by
  have bound := differenceCount_once u session c
  obtain ⟨list, date, once⟩ := applyOnce_ranged u session range
  have fed := undisturbed_feed (u.note c) (session.feeding list)
  rw [once] at bound ⊢
  unfold applyRange at bound ⊢
  rw [if_neg (by omega), if_neg (by omega)] at bound ⊢
  dsimp only at bound ⊢
  generalize (u.note c).feed (session.feeding list) = v at fed bound ⊢
  rw [differenceCount_setState] at bound
  have count : v.differenceCount = (u.note c).differenceCount := le_antisymm (bound.trans quiet.le) fed.count
  have saved : v.bySeqUpdates = (u.note c).bySeqUpdates := fed.aside.saved count
  have number : v.updatesSeq = u.updatesSeq := fed.updatesSeq
  have advanced := setState_advance v 0 date v.updatesQts last (by omega) (by omega) (by rw [saved]; exact above)
  generalize v.setState 0 date v.updatesQts last = result at advanced
  cases advanced with
  | waits number' fed' count' saved' later =>
      exact .waits number' (fed'.trans fed.fed) (count'.trans count) (saved'.trans saved) (by rwa [saved] at later)
  | releases number' fed' count' front saved' =>
      exact .releases number' (fed'.trans fed.fed) (count'.trans count) (by rwa [saved] at front) saved'

theorem numberedFed_append {u v : Updates υ} {c : MTPUpdates υ} (numbered : c.numbered = true)
    (fed : v.fed = (u.note c).fed) : v.numberedFed = u.numberedFed ++ [c] := by
  simp [numberedFed, fed, note, List.filter_append, numbered]

/-- What comes next is applied: it is fed, with all that follows it without a gap. -/
theorem applyUpdates_head {n : Int} {seen : MTPUpdates υ → Prop} (session : Session υ) (rest : List (MTPUpdates υ)) :
    ∀ (u : Updates υ) (c : MTPUpdates υ), 0 < u.updatesSeq → Partition u.updatesSeq n (c :: rest) →
      (∀ k d, (k, d) ∈ u.bySeqUpdates.entries ↔ d ∈ rest ∧ seen d ∧ ∃ last, d.range? = some (k, last)) →
      (u.applyUpdates session c).differenceCount = u.differenceCount →
      ∃ done todo, rest = done ++ todo ∧ Waiting n todo seen (u.applyUpdates session c) ∧
        (u.applyUpdates session c).numberedFed = u.numberedFed ++ c :: done := by
  induction rest with
  | nil =>
      intro u c positive partition saved quiet
      obtain ⟨last, range, le, tail⟩ := partition
      have nothing : u.bySeqUpdates.entries = [] :=
        List.eq_nil_iff_forall_not_mem.mpr fun e member => by simpa using ((saved e.1 e.2).mp member).1
      have advanced := applyOnce_head positive range le (by simp [nothing]) quiet
      match once : u.applyOnce session c with
      | (v, next) =>
          rw [once] at advanced
          cases advanced with
          | waits number fed count kept later =>
              rw [applyUpdates_last once]
              refine ⟨[], [], rfl, ⟨by rw [number]; exact tail, ?_, by simp⟩, ?_⟩
              · intro k d
                rw [kept]
                exact saved k d
              · exact numberedFed_append (by simp [MTPUpdates.numbered, range]) fed
          | releases number fed count front kept =>
              have front : u.bySeqUpdates.entries = _ := front
              simp [nothing] at front
  | cons d rest ih =>
      intro u c positive partition saved quiet
      obtain ⟨last, range, le, tail⟩ := partition
      have above : ∀ e ∈ u.bySeqUpdates.entries, last < e.1 := by
        intro e member
        obtain ⟨inside, -, l, range'⟩ := (saved e.1 e.2).mp member
        obtain ⟨first, l', range'', lt, -⟩ := tail.range_of_mem inside
        rw [range'] at range''
        obtain ⟨rfl, -⟩ := Prod.mk.inj (Option.some.inj range'')
        exact lt
      have advanced := applyOnce_head positive range le above quiet
      match once : u.applyOnce session c with
      | (v, next) =>
          rw [once] at advanced
          cases advanced with
          | waits number fed count kept later =>
              rw [applyUpdates_last once]
              refine ⟨[], d :: rest, rfl, ⟨by rw [number]; exact tail, ?_, ?_⟩, ?_⟩
              · intro k e
                rw [kept]
                exact saved k e
              · -- what starts at the next number would have been released
                intro e head known
                obtain rfl : d = e := by simpa using head
                obtain ⟨last', range', -, -⟩ := tail
                have := later _ ((saved (last + 1) d).mpr ⟨List.mem_cons_self, known, last', range'⟩)
                exact lt_irrefl _ this
              · exact numberedFed_append (by simp [MTPUpdates.numbered, range]) fed
          | @releases v e others number fed count front kept =>
              have front : u.bySeqUpdates.entries = (last + 1, e) :: others := front
              have count : v.differenceCount = u.differenceCount := count
              obtain ⟨insideE, -, lastE, rangeE⟩ := (saved (last + 1) e).mp (by rw [front]; exact List.mem_cons_self)
              obtain ⟨last', range', le', behind⟩ := id tail
              obtain rfl : e = d := tail.eq_of_start insideE List.mem_cons_self rangeE range'
              have sorted := u.bySeqUpdates.sorted
              rw [front] at sorted
              have once' := applyUpdates_next once
              rw [once'] at quiet ⊢
              have saved' : ∀ k x, (k, x) ∈ v.bySeqUpdates.entries ↔
                  x ∈ rest ∧ seen x ∧ ∃ last, x.range? = some (k, last) := by
                intro k x
                rw [kept]
                constructor
                · intro member
                  obtain ⟨inside, known, l, rangeX⟩ := (saved k x).mp (by rw [front]; exact List.mem_cons_of_mem _ member)
                  refine ⟨?_, known, l, rangeX⟩
                  rcases List.mem_cons.mp inside with rfl | inside
                  · have later := (List.pairwise_cons.mp sorted).1 _ member
                    rw [range'] at rangeX
                    obtain ⟨rfl, -⟩ := Prod.mk.inj (Option.some.inj rangeX)
                    exact absurd later (lt_irrefl _)
                  · exact inside
                · rintro ⟨inside, known, l, rangeX⟩
                  have member := (saved k x).mpr ⟨List.mem_cons_of_mem _ inside, known, l, rangeX⟩
                  rw [front] at member
                  rcases List.mem_cons.mp member with same | member
                  · obtain ⟨rfl, rfl⟩ := Prod.mk.inj same
                    obtain ⟨first, l', rangeY, lt, -⟩ := behind.range_of_mem inside
                    rw [rangeX] at rangeY
                    obtain ⟨rfl, -⟩ := Prod.mk.inj (Option.some.inj rangeY)
                    omega
                  · exact member
              obtain ⟨done, todo, split, waiting, shown⟩ :=
                ih v e (by omega) (by rw [number]; exact tail) saved' (quiet.trans count.symm)
              refine ⟨e :: done, todo, by rw [split, List.cons_append], waiting, ?_⟩
              rw [shown, numberedFed_append (by simp [MTPUpdates.numbered, range]) fed, List.append_assoc,
                List.singleton_append]

/-! ## Runs -/

/-- A container that is not to come changes nothing by being seen. -/
theorem Waiting.other {n : Int} {todo : List (MTPUpdates υ)} {seen : MTPUpdates υ → Prop} {u v : Updates υ}
    (h : Waiting n todo seen u) {c : MTPUpdates υ} (absent : c ∉ todo) (number : v.updatesSeq = u.updatesSeq)
    (same : v.bySeqUpdates = u.bySeqUpdates) : Waiting n todo (fun d => seen d ∨ d = c) v where
  partition := by rw [number]; exact h.partition
  saved k d := by
    rw [same, h.saved]
    constructor
    · rintro ⟨inside, known, range⟩
      exact ⟨inside, .inl known, range⟩
    · rintro ⟨inside, known | rfl, range⟩
      · exact ⟨inside, known, range⟩
      · exact absurd inside absent
  front d head known := by
    rcases known with known | rfl
    · exact h.front d head known
    · exact absurd (List.mem_of_mem_head? head) absent

/-- A container that comes too early is saved, once. -/
theorem waiting_later {n : Int} {head c : MTPUpdates υ} {rest : List (MTPUpdates υ)} {seen : MTPUpdates υ → Prop}
    {u : Updates υ} (h : Waiting n (head :: rest) seen u) (positive : 0 < u.updatesSeq) (session : Session υ)
    (inside : c ∈ rest) :
    Waiting n (head :: rest) (fun d => seen d ∨ d = c) (u.applyUpdates session c) ∧
      (u.applyUpdates session c).numberedFed = u.numberedFed := by
  obtain ⟨last, rangeHead, le, tail⟩ := id h.partition
  obtain ⟨first, l, range, lt, -⟩ := tail.range_of_mem inside
  obtain ⟨list, date, once⟩ := applyOnce_ranged u session range
  unfold applyRange at once
  rw [if_neg (by omega), if_pos (by omega)] at once
  rw [applyUpdates_last once]
  refine ⟨⟨h.partition, ?_, ?_⟩, rfl⟩
  · intro k d
    simp only [SortedMap.mem_emplace, h.saved]
    constructor
    · rintro (⟨member, known, rangeD⟩ | ⟨same, -⟩)
      · exact ⟨member, .inl known, rangeD⟩
      · obtain ⟨rfl, rfl⟩ := Prod.mk.inj same
        exact ⟨List.mem_cons_of_mem _ inside, .inr rfl, l, range⟩
    · rintro ⟨member, known | rfl, rangeD⟩
      · exact .inl ⟨member, known, rangeD⟩
      · obtain ⟨l', rangeD⟩ := rangeD
        rw [range] at rangeD
        obtain ⟨rfl, -⟩ := Prod.mk.inj (Option.some.inj rangeD)
        cases before : u.bySeqUpdates.find? first with
        | none => exact .inr ⟨rfl, rfl⟩
        | some e =>
            -- only the container itself could be there
            obtain ⟨memberE, known, lastE, rangeE⟩ := (h.saved _ _).mp (SortedMap.find?_eq_some.mp before)
            obtain rfl := h.partition.eq_of_start memberE member rangeE range
            exact .inl ⟨member, known, l, range⟩
  · intro d front known
    obtain rfl : head = d := by simpa using front
    rcases known with known | rfl
    · exact h.front head (by simp) known
    · exact h.partition.cons_ne inside

/-- One more container is delivered, of those still to come, those done or those without a range. -/
theorem waiting_applyUpdates {n : Int} {todo : List (MTPUpdates υ)} {seen : MTPUpdates υ → Prop} {u : Updates υ}
    (h : Waiting n todo seen u) (positive : 0 < u.updatesSeq) (session : Session υ) (c : MTPUpdates υ)
    (known : c ∈ todo ∨ c.range? = none ∨ ∃ first last, c.range? = some (first, last) ∧ first ≠ 0 ∧ first ≤ u.updatesSeq)
    (quiet : (u.applyUpdates session c).differenceCount = u.differenceCount) :
    ∃ done rest, todo = done ++ rest ∧ Waiting n rest (fun d => seen d ∨ d = c) (u.applyUpdates session c) ∧
      (u.applyUpdates session c).numberedFed = u.numberedFed ++ done := by
  rcases known with inside | free | ⟨first, last, range, nonzero, old⟩
  · cases todo with
    | nil => simp at inside
    | cons head rest =>
        rcases List.mem_cons.mp inside with rfl | later
        · have saved : ∀ k d, (k, d) ∈ u.bySeqUpdates.entries ↔
              d ∈ rest ∧ (seen d ∨ d = c) ∧ ∃ last, d.range? = some (k, last) := by
            intro k d
            rw [h.saved]
            constructor
            · rintro ⟨member, known, range⟩
              rcases List.mem_cons.mp member with rfl | member
              · exact absurd known (h.front d (by simp))
              · exact ⟨member, .inl known, range⟩
            · rintro ⟨member, known | rfl, range⟩
              · exact ⟨List.mem_cons_of_mem _ member, known, range⟩
              · exact absurd member h.partition.cons_ne
          obtain ⟨done, todo, split, waiting, fed⟩ :=
            applyUpdates_head session rest u c positive h.partition saved quiet
          exact ⟨c :: done, todo, by rw [split, List.cons_append], waiting, fed⟩
        · obtain ⟨waiting, fed⟩ := waiting_later h positive session later
          exact ⟨[], head :: rest, rfl, waiting, by rw [fed, List.append_nil]⟩
  · have aside := aside_applyUpdates u session free
    have absent : c ∉ todo := by
      intro inside
      obtain ⟨first, last, range, -⟩ := h.partition.range_of_mem inside
      simp [free] at range
    exact ⟨[], todo, rfl, h.other absent aside.updatesSeq (aside.saved quiet),
      by rw [aside.numberedFed, List.append_nil]⟩
  · have absent : c ∉ todo := by
      intro inside
      obtain ⟨first', last', range', lt, -⟩ := h.partition.range_of_mem inside
      rw [range] at range'
      obtain ⟨rfl, -⟩ := Prod.mk.inj (Option.some.inj range')
      omega
    obtain ⟨list, date, once⟩ := applyOnce_ranged u session range
    unfold applyRange at once
    rw [if_pos ⟨nonzero, old⟩] at once
    rw [applyUpdates_last once]
    exact ⟨[], todo, rfl, h.other absent rfl rfl, by rw [List.append_nil]⟩

/-- Containers are delivered one after another, each with what the session answers then. -/
def deliver (u : Updates υ) (deliveries : List (Session υ × MTPUpdates υ)) : Updates υ :=
  deliveries.foldl (fun u d => u.applyUpdates d.1 d.2) u

theorem deliver_append (u : Updates υ) (before behind : List (Session υ × MTPUpdates υ)) :
    (u.deliver before).deliver behind = u.deliver (before ++ behind) := List.foldl_append.symm

theorem differenceCount_deliver (u : Updates υ) (deliveries : List (Session υ × MTPUpdates υ)) :
    u.differenceCount ≤ (u.deliver deliveries).differenceCount := by
  induction deliveries generalizing u with
  | nil => exact le_refl _
  | cons d rest ih => exact (differenceCount_applyUpdates u d.1 d.2).trans (ih _)

theorem waiting_deliver {n : Int} {parts : List (MTPUpdates υ)} (deliveries : List (Session υ × MTPUpdates υ)) :
    ∀ (u : Updates υ) (old todo : List (MTPUpdates υ)) (seen : MTPUpdates υ → Prop), parts = old ++ todo →
      (∀ c ∈ old, ∃ first last, c.range? = some (first, last) ∧ first ≠ 0 ∧ first ≤ u.updatesSeq) →
      Waiting n todo seen u → 0 < u.updatesSeq → (∀ d ∈ deliveries, d.2 ∈ parts ∨ d.2.range? = none) →
      (u.deliver deliveries).differenceCount = u.differenceCount →
      ∃ done rest, todo = done ++ rest ∧ (u.deliver deliveries).numberedFed = u.numberedFed ++ done ∧
        Waiting n rest (fun c => seen c ∨ c ∈ deliveries.map Prod.snd) (u.deliver deliveries) := by
  induction deliveries with
  | nil =>
      intro u old todo seen split before waiting positive known quiet
      exact ⟨[], todo, rfl, (List.append_nil _).symm, by simpa [deliver] using waiting⟩
  | cons d deliveries ih =>
      intro u old todo seen split before waiting positive known quiet
      have first : (u.applyUpdates d.1 d.2).differenceCount = u.differenceCount :=
        le_antisymm ((differenceCount_deliver _ deliveries).trans quiet.le) (differenceCount_applyUpdates u d.1 d.2)
      have which : d.2 ∈ todo ∨ d.2.range? = none ∨
          ∃ first last, d.2.range? = some (first, last) ∧ first ≠ 0 ∧ first ≤ u.updatesSeq := by
        rcases known d List.mem_cons_self with member | free
        · rw [split, List.mem_append] at member
          exact member.elim (fun inside => .inr (.inr (before _ inside))) .inl
        · exact .inr (.inl free)
      obtain ⟨done, rest, cut, next, fed⟩ := waiting_applyUpdates waiting positive d.1 d.2 which first
      -- what was fed lies between the old number and the new one
      obtain ⟨m, passed, behind⟩ := Partition.append (cut ▸ waiting.partition)
      obtain rfl := behind.start_eq next.partition
      have old' : ∀ c ∈ old ++ done, ∃ first last, c.range? = some (first, last) ∧ first ≠ 0 ∧
          first ≤ (u.applyUpdates d.1 d.2).updatesSeq := by
        intro c member
        rcases List.mem_append.mp member with member | member
        · obtain ⟨a, b, range, nonzero, le⟩ := before c member
          exact ⟨a, b, range, nonzero, le.trans passed.le⟩
        · obtain ⟨a, b, range, lt, le, last⟩ := passed.range_of_mem member
          exact ⟨a, b, range, by omega, le.trans last⟩
      obtain ⟨done', rest', cut', fed', final⟩ :=
        ih (u.applyUpdates d.1 d.2) (old ++ done) rest _ (by rw [split, cut, List.append_assoc]) old' next
          (positive.trans_le passed.le) (fun e member => known e (List.mem_cons_of_mem _ member))
          (quiet.trans first.symm)
      refine ⟨done ++ done', rest', by rw [cut, cut', List.append_assoc], ?_, ?_⟩
      · exact fed'.trans (by rw [fed, List.append_assoc])
      · simpa only [deliver, List.foldl_cons, List.map_cons, List.mem_cons, or_assoc] using final

/-- Every container of the partition is fed once and in order, whatever the order in which they come. -/
theorem deliver_in_order (u : Updates υ) {n : Int} {parts : List (MTPUpdates υ)} (positive : 0 < u.updatesSeq)
    (empty : u.bySeqUpdates = .empty) (partition : Partition u.updatesSeq n parts)
    (deliveries : List (Session υ × MTPUpdates υ))
    (known : ∀ d ∈ deliveries, d.2 ∈ parts ∨ d.2.range? = none) (complete : ∀ c ∈ parts, c ∈ deliveries.map Prod.snd)
    (quiet : (u.deliver deliveries).differenceCount = u.differenceCount) :
    (∀ before, before <+: deliveries →
      ∃ done, done <+: parts ∧ (u.deliver before).numberedFed = u.numberedFed ++ done) ∧
    (u.deliver deliveries).numberedFed = u.numberedFed ++ parts ∧
    (u.deliver deliveries).updatesSeq = n ∧ (u.deliver deliveries).bySeqUpdates = .empty := by
  have waiting : Waiting n parts (fun _ => False) u := by
    refine ⟨partition, ?_, by simp⟩
    intro k c
    simp [empty]
  refine ⟨?_, ?_⟩
  · intro before initial
    obtain ⟨behind, rfl⟩ := initial
    have same : (u.deliver before).differenceCount = u.differenceCount := by
      have rest := differenceCount_deliver (u.deliver before) behind
      rw [deliver_append] at rest
      exact le_antisymm (rest.trans quiet.le) (differenceCount_deliver u before)
    obtain ⟨done, rest, cut, fed, -⟩ := waiting_deliver before u [] parts _ rfl (by simp) waiting positive
      (fun d member => known d (List.mem_append_left _ member)) same
    exact ⟨done, ⟨rest, cut.symm⟩, fed⟩
  · obtain ⟨done, rest, cut, fed, final⟩ :=
      waiting_deliver deliveries u [] parts _ rfl (by simp) waiting positive known quiet
    -- the first of what is left would not have been delivered
    cases rest with
    | nil =>
        rw [List.append_nil] at cut
        have nothing : (u.deliver deliveries).bySeqUpdates.entries = [] :=
          List.eq_nil_iff_forall_not_mem.mpr fun e member => by simpa using ((final.saved e.1 e.2).mp member).1
        exact ⟨by rw [fed, cut], final.partition, SortedMap.ext nothing⟩
    | cons c rest =>
        have member : c ∈ parts := by
          rw [cut]
          exact List.mem_append_right _ List.mem_cons_self
        exact absurd (.inr (complete c member)) (final.front c (by simp))

/-- The second range comes first, then the first one releases it. -/
theorem deliver_in_order_swapped :
    (deliver ({ updatesSeq := 1 } : Updates Nat)
      [({}, .updatesCombined 0 3 5 20), ({}, .updates 0 0 30), ({}, .updates 0 2 10)]).numberedFed =
        [.updates 0 2 10, .updatesCombined 0 3 5 20] := by
  have saved := @applyUpdates_once Nat { updatesSeq := 1 } {} (.updatesCombined 0 3 5 20) (by decide +kernel)
  have between := @applyUpdates_once Nat (applyOnce { updatesSeq := 1 } {} (.updatesCombined 0 3 5 20)).1 {}
    (.updates 0 0 30) (by decide +kernel)
  have next := @applyUpdates_then Nat ((applyOnce { updatesSeq := 1 } {} (.updatesCombined 0 3 5 20)).1.applyOnce {}
    (.updates 0 0 30)).1 {} (.updates 0 2 10) (.updatesCombined 0 3 5 20) (by decide +kernel)
  have released := @applyUpdates_once Nat (((applyOnce { updatesSeq := 1 } {} (.updatesCombined 0 3 5 20)).1.applyOnce {}
    (.updates 0 0 30)).1.applyOnce {} (.updates 0 2 10)).1 {} (.updatesCombined 0 3 5 20) (by decide +kernel)
  refine (@deliver_in_order Nat _ _ [.updates 0 2 10, .updatesCombined 0 3 5 20] (by decide) rfl
    ⟨2, rfl, by decide, 5, rfl, by decide, rfl⟩ _ (by simp [MTPUpdates.range?]) (by simp) ?_).2.1
  simp only [deliver, List.foldl_cons, List.foldl_nil, saved, between, next, released]
  decide +kernel

end Updates

end IMeDesktop.Api
