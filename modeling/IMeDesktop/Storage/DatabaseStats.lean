import IMeDesktop.Storage.DatabaseEffects

/-! # The statistics of the database

The sizes and counts that the database publishes are changed by differences, whenever an
entry is set or erased. They stay the sums over the index, which is an invariant of the
changes of one entry.
-/

namespace IMeDesktop.Storage.Cache

open Lib

def summed (f : Entry → Int) (map : SortedMap Key Entry) : Int := (map.entries.map fun e => f e.2).sum

variable {f : Entry → Int} {map : SortedMap Key Entry} {key : Key} {entry : Entry}

theorem summed_erase (f : Entry → Int) (found : map.find? key = some entry) :
    summed f (map.erase key) = summed f map - f entry := by
  have taken := ((SortedMap.perm_erase found).map fun e => f e.2).sum_eq
  simp only [List.map_cons, List.sum_cons] at taken
  unfold summed
  omega

theorem summed_emplace (f : Entry → Int) (missing : map.find? key = none) (entry : Entry) :
    summed f (map.emplace key entry) = summed f map + f entry := by
  have added := ((SortedMap.emplace_perm entry missing).map fun e => f e.2).sum_eq
  simp only [List.map_cons, List.sum_cons] at added
  unfold summed
  omega

/-- An entry is set in place of another one, or of none. -/
theorem summed_set (f : Entry → Int) (none : f {} = 0) (key : Key) (entry : Entry) :
    summed f ((map.erase key).emplace key entry) = summed f map + f entry - f ((map.find? key).getD {}) := by
  have missing : (map.erase key).find? key = .none := by
    rw [SortedMap.find?_erase, if_pos rfl]
  rw [summed_emplace f missing]
  cases found : map.find? key with
  | none =>
      rw [SortedMap.erase_of_missing found, Option.getD_none, none]
      omega
  | some already =>
      rw [summed_erase f found, Option.getD_some]
      omega

namespace DatabaseObject

/-- The statistics are the sums. -/
structure Tallied (map : SortedMap Key Entry) (s : Statistics) : Prop where
  total : s.totalSize = summed (fun e => e.size) map
  count : ∀ tag, tag ≠ 0 → (s.tagged tag).count = summed (Entry.countIn tag) map
  size : ∀ tag, tag ≠ 0 → (s.tagged tag).totalSize = summed (Entry.sizeIn tag) map

theorem invariant_tallied (settings : Settings) : Invariant settings Tallied where
  set := by
    rintro map s key entry - - ⟨total, count, size⟩
    refine ⟨?_, fun tag tagged => ?_, fun tag tagged => ?_⟩
    · rw [summed_set _ rfl, ← total]
      rfl
    · rw [summed_set _ (by simp [Entry.countIn]), ← count tag tagged]
      simp only [Statistics.change, tagged, if_false]
    · rw [summed_set _ (by simp [Entry.sizeIn]), ← size tag tagged]
      simp only [Statistics.change, tagged, if_false]
  erase := by
    rintro map s key entry found ⟨total, count, size⟩
    refine ⟨?_, fun tag tagged => ?_, fun tag tagged => ?_⟩
    · rw [summed_erase _ found, ← total]
      simp [Statistics.change]
    · rw [summed_erase _ found, ← count tag tagged]
      simp [Statistics.change, tagged, Entry.countIn]
    · rw [summed_erase _ found, ← size tag tagged]
      simp [Statistics.change, tagged, Entry.sizeIn]
  touch := by
    rintro map s key entry useTime found ⟨total, count, size⟩
    have same : ∀ f : Entry → Int, f {} = 0 → f { entry with useTime := useTime } = f entry →
        summed f ((map.erase key).emplace key { entry with useTime := useTime }) = summed f map := by
      intro f none unchanged
      rw [summed_set f none, found, Option.getD_some, unchanged]
      omega
    refine ⟨?_, fun tag tagged => ?_, fun tag tagged => ?_⟩
    · rw [same _ rfl rfl, total]
    · rw [same _ (by simp [Entry.countIn]) rfl, count tag tagged]
    · rw [same _ (by simp [Entry.sizeIn]) rfl, size tag tagged]

/-- What is published of the index. -/
structure ExactStatistics (d : DatabaseObject) : Prop where
  totalSize : d.totalSize = (d.map.entries.map fun e => (e.2.size : Int)).sum
  count : ∀ tag, tag ≠ 0 → (d.taggedStats tag).count = (d.map.entries.filter fun e => e.2.tag = tag).length
  tagSize : ∀ tag, tag ≠ 0 →
    (d.taggedStats tag).totalSize = ((d.map.entries.filter fun e => e.2.tag = tag).map fun e => (e.2.size : Int)).sum

/-- Entries that are counted have a size. -/
theorem summed_countIn (tag : UInt8) {entries : List (Key × Entry)} (positive : ∀ e ∈ entries, 0 < e.2.size) :
    (entries.map fun e => e.2.countIn tag).sum = (entries.filter fun e => e.2.tag = tag).length := by
  induction entries with
  | nil => rfl
  | cons e entries ih =>
      obtain ⟨first, others⟩ := List.forall_mem_cons.mp positive
      have nonzero : e.2.size ≠ 0 := Nat.pos_iff_ne_zero.mp first
      rw [List.map_cons, List.sum_cons, ih others, Entry.countIn]
      by_cases tagged : e.2.tag = tag
      · simp [tagged, nonzero, Int.add_comm]
      · simp [tagged]

theorem summed_sizeIn (tag : UInt8) (entries : List (Key × Entry)) :
    (entries.map fun e => e.2.sizeIn tag).sum =
      ((entries.filter fun e => e.2.tag = tag).map fun e => (e.2.size : Int)).sum := by
  induction entries with
  | nil => rfl
  | cons e entries ih =>
      rw [List.map_cons, List.sum_cons, ih, Entry.sizeIn]
      by_cases tagged : e.2.tag = tag
      · simp [tagged]
      · simp [tagged]

/-- Whatever the file was and whatever is done, the statistics are exact. -/
theorem run_statistics_exact (settings : Settings) (data : Bytes) (now : UInt32) (d : DatabaseObject)
    (opened : openBinlog settings data now = some d) (operations : List (Operation settings)) :
    (d.run settings operations).ExactStatistics := by
  have tallied := run_keeps (invariant_tallied settings) ⟨rfl, fun _ _ => rfl, fun _ _ => rfl⟩ opened operations
  have sized := run_keeps (invariant_sized settings) nofun opened operations
  refine ⟨tallied.total, fun tag tagged => ?_, fun tag tagged => ?_⟩
  · exact (tallied.count tag tagged).trans (summed_countIn tag fun e member => (sized e member).1)
  · exact (tallied.size tag tagged).trans (summed_sizeIn tag _)

/-- A database that is new, with one value put over another one. -/
theorem new_statistics_exact : ∃ d : DatabaseObject, openBinlog {} [] 5 = some d ∧
    (d.run {}
      [.put ⟨5, fun _ _ => [], ⟨List.replicate 7 1, rfl⟩, fun _ => 9, fun _ _ => .inl rfl⟩ ⟨1, 2⟩ ⟨[1, 2, 3], 4⟩
        (by decide),
       .put ⟨6, fun _ _ => [], ⟨List.replicate 7 2, rfl⟩, fun _ => 8, fun _ _ => .inl rfl⟩ ⟨1, 2⟩ ⟨[1, 2], 7⟩
        (by decide)]).ExactStatistics :=
  ⟨_, rfl, run_statistics_exact {} [] 5 _ rfl _⟩

end DatabaseObject

end IMeDesktop.Storage.Cache
