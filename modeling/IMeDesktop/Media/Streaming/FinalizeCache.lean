import IMeDesktop.Lib.Attempt
import IMeDesktop.Media.Streaming.CacheRoundTrip
import Mathlib.Data.Finset.Card
import Mathlib.Data.Finset.Range

/-! # The cache when a reader ends

The destructor asks for one value after the other until there is none. Each value is of a slice that was changed, which
is not changed any more, so the loop ends, and each changed slice is in one of the values.
-/

namespace IMeDesktop.Media.Streaming

open Lib

namespace Slices

section Changed

variable {s s' : Slices} {m n : Nat} {slice : Slice}

/-- The header is slice 0. -/
def changed (s : Slices) (n : Nat) : Bool := (s.slice? n).any (·.flags.changedSinceCache)

def changedSlices (s : Slices) : Finset Nat := (Finset.range (s.data.length + 1)).filter fun n => s.changed n

/-- The loop of the destructor, with a bound on its steps. -/
def finalizeCache : Nat → Slices → Attempt (Option (List SerializedSlice) × Slices)
  | 0, s => .ok (none, s)
  | steps + 1, s => do
      let out ← s.unloadToCache
      match out.1 with
      | none => return (some [], out.2)
      | some saved =>
          let more ← finalizeCache steps out.2
          return (more.1.map (saved :: ·), more.2)

theorem slice?_setSlice (inside : n ≤ s.data.length) :
    (s.setSlice n slice).slice? m = if m = n then some slice else s.slice? m := by
  unfold setSlice slice?
  by_cases zero : n = 0
  · rw [if_pos zero, zero]
    split_ifs <;> rfl
  · rw [if_neg zero]
    by_cases same : m = n
    · rw [if_neg (same ▸ zero), if_pos same, same]
      exact List.getElem?_set_self (by omega)
    · rw [if_neg same]
      split_ifs with header
      · rfl
      · exact List.getElem?_set_ne (by omega)

theorem inside_of_slice? (there : s.slice? n = some slice) : n ≤ s.data.length := by
  unfold slice? at there
  split_ifs at there with zero
  · omega
  · have inside := (List.getElem?_eq_some_iff.mp there).1
    omega

theorem length_setSlice : (s.setSlice n slice).data.length = s.data.length := by
  unfold setSlice
  split_ifs
  · rfl
  · exact List.length_set

theorem headerMode_setSlice : (s.setSlice n slice).headerMode = s.headerMode := by
  unfold setSlice
  split_ifs <;> rfl

/-- What one value does: its slice is not changed any more, and in the value of a good header the first one neither. -/
structure Saved (s s' : Slices) (n : Nat) : Prop where
  length : s'.data.length = s.data.length
  mode : s'.headerMode = s.headerMode
  changed : ∀ m, s'.changed m = (s.changed m && m ≠ n && !(s.isGoodHeader && n = 0 && m = 1))

theorem changed_setSlice (inside : n ≤ s.data.length) (still : slice.flags.changedSinceCache = false) :
    (s.setSlice n slice).changed m = (s.changed m && m ≠ n) := by
  unfold changed
  rw [slice?_setSlice inside]
  split_ifs with same
  · simp [same, still]
  · simp [same]

def anyAssertion : Assertion → Prop := fun _ => True

theorem yields_any {α : Type} (attempt : Attempt α) : Yields anyAssertion (fun _ => True) attempt := by
  cases attempt with
  | ok value => trivial
  | error assertion => trivial

theorem serializeAndUnloadFirst_saved : Yields anyAssertion
    (fun out => ∃ first, s.data[0]? = some first ∧ out.2 = s.setSlice 1 (unloadSlice first))
    s.serializeAndUnloadFirstSliceNoHeader := by
  unfold serializeAndUnloadFirstSliceNoHeader
  cases there : s.data[0]? with
  | none => trivial
  | some first =>
      simp only
      split_ifs
      · exact ⟨first, rfl, rfl⟩
      · trivial

theorem serializeAndUnload_saved (n : Nat) (apart : s.isGoodHeader = true → n ≠ 1) : Yields anyAssertion
    (fun out => out.1.number = n ∧ Saved s out.2 n) (s.serializeAndUnload n) := by
  unfold serializeAndUnload
  cases there : s.slice? n with
  | none => trivial
  | some slice =>
      have inside := inside_of_slice? there
      have still : (if n = 0 then { slice with flags := { slice.flags with changedSinceCache := false } }
          else unloadSlice slice).flags.changedSinceCache = false := by
        split_ifs <;> rfl
      have plain : ¬(s.isGoodHeader && decide (n = 0)) = true → Saved s (s.setSlice n
          (if n = 0 then { slice with flags := { slice.flags with changedSinceCache := false } }
            else unloadSlice slice)) n := by
        intro plain
        refine ⟨length_setSlice, headerMode_setSlice, fun m => ?_⟩
        rw [changed_setSlice inside still, Bool.eq_false_iff.mpr plain, Bool.false_and, Bool.not_false, Bool.and_true]
      have nothing : Yields anyAssertion (fun out => out.2 = s) (Except.ok (([] : Bytes), s)) := rfl
      simp only
      split
      · trivial
      · split
        · rename_i good
          split
          · rename_i gap
            exact absurd gap (by cases slice.parts.entries.getLast? <;> simp)
          · refine serializeAndUnloadFirst_saved.bind ?_
            rintro ⟨more, s'⟩ ⟨first, here, rfl⟩
            refine (yields_any _).bind fun _ _ => ⟨rfl, ?_⟩
            obtain ⟨isGood, zero⟩ := Bool.and_eq_true_iff.mp good
            rw [decide_eq_true_eq] at zero
            have one : 1 ≤ s.data.length := (List.getElem?_eq_some_iff.mp here).1
            refine ⟨length_setSlice.trans length_setSlice, headerMode_setSlice.trans headerMode_setSlice, fun m => ?_⟩
            rw [changed_setSlice (by omega) still, changed_setSlice one rfl, good, Bool.true_and, Bool.and_right_comm,
              decide_not, decide_not]
        · rename_i bad
          split
          · exact ⟨rfl, plain bad⟩
          · refine nothing.bind ?_
            rintro ⟨more, s'⟩ rfl
            exact (yields_any _).bind fun _ _ => ⟨rfl, plain bad⟩

theorem written_ne_one (good : s.isGoodHeader = true) : s.written n ≠ 1 := by
  unfold written
  rw [good, Bool.true_and]
  split_ifs with one
  · exact Nat.zero_ne_one
  · simpa using one

theorem serializeAndUnloadSlice_saved (known : s.headerMode ≠ .unknown ∧ s.headerMode ≠ .noCache)
    (inside : n ≤ s.data.length) : Yields anyAssertion
      (fun out => out.1.number = s.written n ∧ Saved s out.2 (s.written n)) (s.serializeAndUnloadSlice n) := by
  unfold serializeAndUnloadSlice
  rw [if_neg]
  · exact serializeAndUnload_saved _ written_ne_one
  · rintro (unknown | noCache | outside)
    · exact known.1 unknown
    · exact known.2 noCache
    · omega

theorem mem_changedSlices : n ∈ s.changedSlices ↔ n ≤ s.data.length ∧ s.changed n = true := by
  rw [changedSlices, Finset.mem_filter, Finset.mem_range, Nat.lt_succ_iff]

theorem unloadToCache_saved (known : s.headerMode ≠ .unknown ∧ s.headerMode ≠ .noCache) : Yields anyAssertion
    (fun out => (out.1 = none ∧ s.changedSlices = ∅ ∧ out.2 = s) ∨ ∃ saved n, out.1 = some saved ∧
      n ∈ s.changedSlices ∧ saved.number = s.written n ∧ Saved s out.2 (s.written n)) s.unloadToCache := by
  unfold unloadToCache
  rw [if_neg (not_or.mpr known)]
  split_ifs with header
  · refine Yields.map ((serializeAndUnloadSlice_saved known (Nat.zero_le _)).imp fun out both => ?_)
    exact .inr ⟨out.1, 0, rfl, mem_changedSlices.mpr ⟨Nat.zero_le _, header⟩, both⟩
  · cases found : s.data.findIdx? (·.flags.changedSinceCache) with
    | none =>
        refine .inl ⟨rfl, Finset.eq_empty_of_forall_notMem fun n member => ?_, rfl⟩
        have none := List.findIdx?_eq_none_iff.mp found
        obtain ⟨inside, isChanged⟩ := mem_changedSlices.mp member
        unfold changed slice? at isChanged
        split_ifs at isChanged with zero
        · exact header isChanged
        · cases there : s.data[n - 1]? with
          | none => simp [there] at isChanged
          | some slice =>
              have still := none slice (List.mem_of_getElem? there)
              simp [there, still] at isChanged
    | some i =>
        obtain ⟨inside, isChanged, -⟩ := List.findIdx?_eq_some_iff_getElem.mp found
        have there : s.data[i]? = some s.data[i] := List.getElem?_eq_getElem inside
        refine Yields.map ((serializeAndUnloadSlice_saved known inside).imp fun out both => ?_)
        refine .inr ⟨out.1, i + 1, rfl, mem_changedSlices.mpr ⟨inside, ?_⟩, both⟩
        rw [changed, slice?, if_neg (Nat.succ_ne_zero i), Nat.add_sub_cancel, there]
        exact isChanged

/-- A slice is changed afterwards only if it was before and is in another value. -/
theorem Saved.mem (saved : Saved s s' (s.written n)) :
    m ∈ s'.changedSlices ↔ m ∈ s.changedSlices ∧ s.written m ≠ s.written n := by
  rw [mem_changedSlices, mem_changedSlices, saved.length, saved.changed, and_assoc]
  refine and_congr_right fun _ => ?_
  simp only [Bool.and_eq_true, Bool.not_eq_true', decide_eq_true_eq, Bool.and_eq_false_iff, decide_eq_false_iff_not,
    and_assoc]
  refine and_congr_right fun _ => ?_
  cases good : s.isGoodHeader with
  | false => simp [written, good]
  | true =>
      simp only [written, good, Bool.true_and, decide_eq_true_eq]
      split_ifs <;> simp <;> omega

/-- The loop ends, and each value with a slice that was changed is put to the cache once. -/
theorem finalizeCache_saves (known : s.headerMode ≠ .unknown ∧ s.headerMode ≠ .noCache) {steps : Nat}
    (enough : s.changedSlices.card < steps) : Yields anyAssertion
      (fun out => out.2.changedSlices = ∅ ∧ ∃ saved, out.1 = some saved ∧ (saved.map SerializedSlice.number).Nodup ∧
        ∀ k, k ∈ saved.map SerializedSlice.number ↔ ∃ n ∈ s.changedSlices, s.written n = k)
      (s.finalizeCache steps) := by
  induction steps generalizing s with
  | zero => exact absurd enough (Nat.not_lt_zero _)
  | succ steps ih =>
      unfold finalizeCache
      refine (unloadToCache_saved known).bind ?_
      rintro ⟨out, s'⟩ (⟨rfl, empty, rfl⟩ | ⟨saved, n, rfl, member, number, effect⟩)
      · refine ⟨empty, [], rfl, List.nodup_nil, fun k => ?_⟩
        simp [empty]
      · have fewer : s'.changedSlices ⊂ s.changedSlices := by
          refine Finset.ssubset_iff_subset_ne.mpr ⟨fun m there => (effect.mem.mp there).1, fun same => ?_⟩
          rw [← same] at member
          exact (effect.mem.mp member).2 rfl
        have sameNumber : ∀ m, s'.written m = s.written m := fun m => by
          rw [written, written, isGoodHeader, isGoodHeader, effect.mode]
        have less := lt_of_lt_of_le (Finset.card_lt_card fewer) (Nat.lt_succ_iff.mp enough)
        refine (ih (effect.mode.symm ▸ known) less).bind ?_
        rintro ⟨more, s''⟩ ⟨done, values, rfl, once, each⟩
        refine ⟨done, saved :: values, rfl, ?_, fun k => ?_⟩
        · rw [List.map_cons, List.nodup_cons, number]
          refine ⟨fun again => ?_, once⟩
          obtain ⟨m, there, same⟩ := (each _).mp again
          exact (effect.mem.mp there).2 (sameNumber m ▸ same)
        · rw [List.map_cons, List.mem_cons, number, each]
          constructor
          · rintro (rfl | ⟨m, there, rfl⟩)
            · exact ⟨n, member, rfl⟩
            · exact ⟨m, (effect.mem.mp there).1, (sameNumber m).symm⟩
          · rintro ⟨m, there, rfl⟩
            by_cases same : s.written m = s.written n
            · exact .inl same
            · exact .inr ⟨m, effect.mem.mpr ⟨there, same⟩, sameNumber m⟩

end Changed

/-- A file of four bytes, of which the header was loaded and is not in the cache yet. -/
def fourLoaded : Slices where
  data := []
  header := { parts := ⟨[(0, [1, 2, 3, 4])], List.pairwise_singleton _ _⟩
              flags := { loadedFromCache := true, changedSinceCache := true } }
  size := 4
  headerMode := .full

theorem fourLoaded_saved : ∃ saved finish, fourLoaded.finalizeCache 2 = .ok (some saved, finish) ∧
    finish.changedSlices = ∅ ∧ saved.map SerializedSlice.data = [[1, 2, 3, 4]] := by
  have known : fourLoaded.headerMode ≠ .unknown ∧ fourLoaded.headerMode ≠ .noCache := ⟨nofun, nofun⟩
  have few : fourLoaded.changedSlices.card < 2 := by decide
  obtain ⟨finish, ran⟩ : ∃ finish, fourLoaded.finalizeCache 2 = .ok (some [⟨0, [1, 2, 3, 4]⟩], finish) := ⟨_, rfl⟩
  have saves := finalizeCache_saves known few
  rw [ran] at saves
  exact ⟨_, finish, ran, saves.1, rfl⟩

end Slices

end IMeDesktop.Media.Streaming
