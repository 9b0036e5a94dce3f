import IMeDesktop.Storage.DatabaseClearing

/-! # Old entries are removed

Pruning looks for old entries only when the least time of use is known and old. It finds all of them
in a run whose changes keep every entry covered by that time. When the count of the least time runs
out while there are other entries, the least time is forgotten, and old entries stay.
-/

namespace IMeDesktop.Storage.Cache

open Lib

namespace DatabaseObject

variable {settings : Settings} {d : DatabaseObject}

/-- Every record that is replayed meets the conditions of its changes. -/
abbrev OpeningMeets (settings : Settings) (file : Bytes) : Prop :=
  Ages.Met {} ((replayedRecords settings ((wholeBlocks file).drop 16)).flatMap (Record.ageChanges settings))

/-- Every operation of a run meets the conditions of its changes, in the states it finds. -/
abbrev RunMeets (settings : Settings) (d : DatabaseObject) (operations : List (Operation settings)) : Prop :=
  EveryStep (step settings) (fun d operation => d.ages.Met (d.changes settings operation)) d operations

theorem guards_run (tracks : settings.trackEstimatedTime = true) {operations : List (Operation settings)}
    (meets : RunMeets settings d operations) (guards : d.ages.Guards) : (d.run settings operations).ages.Guards := by
  have each : ∀ (d : DatabaseObject) (operation : Operation settings), d.ages.Guards →
      d.ages.Met (d.changes settings operation) → (d.step settings operation).ages.Guards := by
    intro d operation guards met
    rw [ages_step tracks]
    exact met.guards guards
  exact meets.preserve each guards

theorem guards_opened (tracks : settings.trackEstimatedTime = true) {file : Bytes} {now : UInt32}
    (opened : openBinlog settings (wholeBlocks file) now = some d) (meets : OpeningMeets settings file) :
    d.ages.Guards := by
  rw [ages_openBinlog tracks opened]
  apply meets.guards
  intro e member
  cases member

/-- What pruning does not list is newer. -/
theorem prune_collected (limited : settings.totalTimeLimit ≠ 0) (guards : d.ages.Guards) (none : d.stale = [])
    (walk : Iteration) (now : UInt32) :
    (d.prune settings walk now).ages.Collected (d.pruneBeforeTime settings now) := by
  rw [ages_prune, pruneChanges, if_neg (not_not.mpr none)]
  simp only
  rw [List.foldl_append, List.foldl_cons]
  apply Ages.Collected.erases
  apply Ages.Collected.list
  unfold searchChanges
  split_ifs with young
  · cases young with
    | inl unlimited => exact absurd unlimited limited
    | inr young => exact guards.collected young
  · intro e member stays
    exact @Ages.collect_newer d.ages walk _ e member stays

theorem iterate_collected {before : UInt64} (collected : d.ages.Collected before) (n : Nat) :
    ((clearStaleChunk settings)^[n] d).ages.Collected before := by
  induction n generalizing d with
  | zero => exact collected
  | succ n ih =>
      apply ih
      rw [ages_clearStaleChunk]
      exact collected.erases _

/-- After every run whose changes meet their conditions, pruning and clearing what it lists leave no entry that is
not newer than the time it counts from. -/
theorem run_prunes_old (tracks : settings.trackEstimatedTime = true) (limited : settings.totalTimeLimit ≠ 0)
    {file : Bytes} {now : UInt32} (opened : openBinlog settings (wholeBlocks file) now = some d)
    (replayed : OpeningMeets settings file) {operations : List (Operation settings)}
    (meets : RunMeets settings d operations) (idle : (d.run settings operations).stale = []) (walk : Iteration)
    (later : UInt32) {chunks : Nat}
    (cleared :
      ((clearStaleChunk settings)^[chunks] ((d.run settings operations).prune settings walk later)).stale = []) :
    ∀ e ∈ ((clearStaleChunk settings)^[chunks] ((d.run settings operations).prune settings walk later)).map.entries,
      (d.run settings operations).pruneBeforeTime settings later < e.2.useTime := by
  have guards := guards_run tracks meets (guards_opened tracks opened replayed)
  have pruned := prune_collected limited guards idle walk later
  have collected := @iterate_collected settings _ _ pruned chunks
  intro e member
  apply collected e member
  change (decide (e.1 ∈ _) && _) = false
  rw [cleared]
  rfl

/-! ## Two runs -/

def shortSettings : Settings := { defaultSettings with totalTimeLimit := 100 }

/-- One byte is stored under a key. -/
def putByte (now : UInt32) (byte : UInt8) : Operation shortSettings :=
  .put ⟨now, fun _ _ => [], ⟨List.replicate 7 1, rfl⟩, fun _ => 9, fun _ _ => .inl rfl⟩ ⟨1, 2⟩
    ⟨[byte], 4⟩ (show 1 ≤ shortSettings.maxDataSize by decide)

/-- The only value is stored once more, and the least time is forgotten. It is not removed when it is too old. -/
theorem stored_again_stays : ∃ d, openBinlog shortSettings (wholeBlocks []) 1000 = some d ∧
    (let d := d.run shortSettings [putByte 1000 1, putByte 5000 2]
     d.stale = [] ∧ (d.prune shortSettings ⟨id, .refl⟩ 6000).stale = [] ∧
      ¬∀ e ∈ (d.prune shortSettings ⟨id, .refl⟩ 6000).map.entries,
        d.pruneBeforeTime shortSettings 6000 < e.2.useTime) := by
  refine ⟨_, rfl, ?_⟩
  decide +kernel

/-- A value that is stored once is removed. -/
theorem stored_once_removed : ∃ d, openBinlog shortSettings (wholeBlocks []) 1000 = some d ∧
    (let d := d.run shortSettings [putByte 1000 1]
     ∀ e ∈ (d.prune shortSettings ⟨id, .refl⟩ 6000).map.entries,
      d.pruneBeforeTime shortSettings 6000 < e.2.useTime) := by
  refine ⟨_, rfl, ?_⟩
  exact @run_prunes_old shortSettings _ rfl (by decide) [] 1000 rfl (by decide) [putByte 1000 1] (by decide +kernel) rfl
    ⟨id, .refl⟩ 6000 0 rfl

end DatabaseObject

end IMeDesktop.Storage.Cache
