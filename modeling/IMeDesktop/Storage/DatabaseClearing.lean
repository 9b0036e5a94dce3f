import IMeDesktop.Storage.DatabaseChanges
import IMeDesktop.Storage.DatabaseOldest
import IMeDesktop.Storage.DatabaseOpening

/-! # What clearing and opening change of the ages

Keys are removed in chunks from the end of a list, and a few keys at once as if they had been listed.
With pruning, every operation does what its changes say, and so does the opening of a file, with the
changes of the records that are replayed.
-/

namespace IMeDesktop.Storage.Cache

open Lib Ages

namespace DatabaseObject

variable {settings : Settings} {d : DatabaseObject}

/-! ## Clearing -/

/-- The same database with another list. -/
def withStale (stale : List Key) (d : DatabaseObject) : DatabaseObject := { d with stale := stale }

theorem addSummary_withStale (stale : List Key) (d : DatabaseObject) (tag : UInt8) (count totalSize : Int) :
    (withStale stale d).addSummary tag count totalSize = withStale stale (d.addSummary tag count totalSize) := by
  unfold addSummary
  split_ifs
  · rfl
  · rfl

theorem updateStats_withStale (stale : List Key) (d : DatabaseObject) (was now : Entry) :
    (withStale stale d).updateStats was now = withStale stale (d.updateStats was now) := by
  unfold updateStats
  simp only
  split_ifs
  · exact addSummary_withStale stale { d with totalSize := d.totalSize + (now.size - was.size) } _ _ _
  · rw [← addSummary_withStale, ← addSummary_withStale]
    rfl

theorem eraseMapEntry_withStale (stale : List Key) (d : DatabaseObject) (key : Key) (entry : Entry) :
    (withStale stale d).eraseMapEntry key entry = withStale stale (d.eraseMapEntry key entry) := by
  unfold eraseMapEntry
  rw [updateStats_withStale]
  generalize d.updateStats entry {} = d'
  simp only
  rw [show (withStale stale d').minimalEntryTime = d'.minimalEntryTime from rfl]
  split_ifs
  · rfl
  · rfl

theorem writeMultiRemoveLazy_withStale (stale : List Key) (d : DatabaseObject) :
    (withStale stale d).writeMultiRemoveLazy settings = withStale stale (d.writeMultiRemoveLazy settings) := by
  unfold writeMultiRemoveLazy writeMultiRemove
  rw [show (withStale stale d).removing = d.removing from rfl]
  split_ifs
  all_goals rfl

theorem remove_withStale (stale : List Key) (d : DatabaseObject) (key : Key) :
    (withStale stale d).remove settings key = withStale stale (d.remove settings key) := by
  unfold remove
  rw [show (withStale stale d).map = d.map from rfl]
  cases d.map.find? key with
  | none => rfl
  | some entry =>
      simp only
      rw [← eraseMapEntry_withStale, ← writeMultiRemoveLazy_withStale]
      rfl

theorem foldl_remove_withStale (stale keys : List Key) (d : DatabaseObject) :
    keys.foldl (remove settings) (withStale stale d) = withStale stale (keys.foldl (remove settings) d) := by
  induction keys generalizing d with
  | nil => rfl
  | cons key keys ih => rw [List.foldl_cons, remove_withStale, ih, List.foldl_cons]

theorem stale_foldl_remove (keys : List Key) (d : DatabaseObject) :
    (keys.foldl (remove settings) d).stale = d.stale := by
  have same := congrArg DatabaseObject.stale (@foldl_remove_withStale settings d.stale keys d)
  exact same

theorem contains_foldl_remove (keys : List Key) (d : DatabaseObject) (k : Key) :
    (keys.foldl (remove settings) d).map.contains k = (decide (k ∉ keys) && d.map.contains k) := by
  have one : ∀ (d : DatabaseObject) (key : Key), (d.remove settings key).map.contains k =
      (decide (k ≠ key) && d.map.contains k) := by
    intro d key
    have same := congrArg Ages.map (@ages_remove settings d key)
    rw [show (d.remove settings key).map = _ from same]
    cases found : d.map.find? key with
    | none =>
        rw [apply_erase_missing (a := d.ages) found]
        by_cases this : k = key
        · simp [this, SortedMap.contains, found, ages]
        · simp [this, ages]
    | some entry =>
        rw [apply_erase_found (a := d.ages) found]
        refine (d.map.contains_erase key k).trans ?_
        congr
  induction keys generalizing d with
  | nil => simp
  | cons key keys ih =>
      rw [List.foldl_cons, ih, one]
      grind

/-- Keys that were removed need not be listed. -/
theorem ages_take (d : DatabaseObject) (n : Nat) (gone : ∀ k ∈ d.stale.drop n, d.map.contains k = false) :
    (withStale (d.stale.take n) d).ages = d.ages := by
  apply Ages.ext
  · rfl
  · rfl
  · funext k
    change (decide (k ∈ d.stale.take n) && d.map.contains k) = (decide (k ∈ d.stale) && d.map.contains k)
    have split : k ∈ d.stale ↔ k ∈ d.stale.take n ∨ k ∈ d.stale.drop n := by
      rw [← List.mem_append, List.take_append_drop]
    grind

theorem ages_clearStaleChunk (d : DatabaseObject) :
    (d.clearStaleChunk settings).ages = (d.chunkChanges settings).foldl Ages.apply d.ages := by
  unfold clearStaleChunk chunkChanges
  simp only
  generalize d.stale.length - min d.stale.length settings.staleRemoveChunk = n
  rw [← ages_foldl_remove]
  have stale := @stale_foldl_remove settings (d.stale.drop n) d
  apply ages_take
  intro k dropped
  rw [stale] at dropped
  rw [contains_foldl_remove]
  simp [dropped]

theorem ages_list (keys : List Key) (d : DatabaseObject) :
    (withStale (d.stale ++ keys) d).ages = d.ages.apply (.list keys) := by
  apply Ages.ext
  · rfl
  · rfl
  · funext k
    change (decide (k ∈ d.stale ++ keys) && d.map.contains k) =
      (decide (k ∈ d.stale) && d.map.contains k || d.map.contains k && decide (k ∈ keys))
    simp only [List.mem_append]
    grind

theorem ages_clearByTag (d : DatabaseObject) (walk : Iteration) (tag : UInt8) :
    (d.clearByTag settings walk tag).ages = (d.clearByTagChanges settings walk tag).foldl Ages.apply d.ages := by
  unfold clearByTag clearByTagChanges
  simp only
  generalize ((walk.order d.map.entries).filter fun e => e.2.tag = tag).map Prod.fst = keys
  rw [List.foldl_cons, ← ages_list]
  split_ifs with none
  · rw [ages_clearStaleChunk, none]
    rfl
  · rfl

/-! ## Pruning -/

/-- A few keys are removed at once, as if they had been listed. -/
theorem foldl_remove_short {keys : List Key} (short : keys.length ≤ settings.staleRemoveChunk) (none : d.stale = []) :
    keys.foldl (remove settings) d = (withStale keys d).clearStaleChunk settings := by
  have removed := @foldl_remove_withStale settings keys keys d
  have stale := (@stale_foldl_remove settings keys d).trans none
  unfold clearStaleChunk
  rw [show (withStale keys d).stale = keys from rfl]
  simp only [Nat.min_eq_left short, Nat.sub_self, List.drop_zero, List.take_zero]
  rw [removed]
  generalize keys.foldl (remove settings) d = d' at stale
  change d' = withStale [] d'
  rw [← stale]
  rfl

theorem prune_eq (none : d.stale = []) (walk : Iteration) (now : UInt32)
    (stale : (d.pruned settings walk now).2.stale = []) :
    d.prune settings walk now =
      (withStale (d.pruned settings walk now).1 (d.pruned settings walk now).2).clearStaleChunk settings := by
  unfold prune
  rw [if_neg (not_not.mpr none)]
  unfold pruned at stale ⊢
  simp only at stale ⊢
  split_ifs with short
  · exact foldl_remove_short short stale
  · rfl

/-- The search finds the least time of the newer entries. -/
theorem collectTime_foldl (before : UInt64) (entries : List (Key × Entry)) (stale : Stale) (d : DatabaseObject) :
    (entries.foldl (collectTime before) (stale, d)).2 =
      let found := (entries.map fun e => e.2.useTime).foldl (Least.meet before) d.ages.minimal
      { d with minimalEntryTime := found.value, entriesWithMinimalTimeCount := found.count } := by
  induction entries generalizing stale d with
  | nil => rfl
  | cons e entries ih =>
      rw [List.foldl_cons, List.map_cons, List.foldl_cons]
      have one : (collectTime before (stale, d) e).2.ages.minimal = Least.meet before d.ages.minimal e.2.useTime ∧
          ∀ value count, ({ (collectTime before (stale, d) e).2 with
            minimalEntryTime := value, entriesWithMinimalTimeCount := count } : DatabaseObject) =
            { d with minimalEntryTime := value, entriesWithMinimalTimeCount := count } := by
        unfold collectTime Least.meet
        rw [show d.ages.minimal.value = d.minimalEntryTime from rfl]
        simp only
        split_ifs
        all_goals exact ⟨rfl, fun _ _ => rfl⟩
      rw [← one.1, ← one.2]
      exact ih _ _

theorem collectTime_keys (before : UInt64) (entries : List (Key × Entry)) (state : Stale × DatabaseObject) {k : Key}
    (found : state.1.keys.contains k = true ∨ ∃ e ∈ entries, e.1 = k ∧ e.2.useTime ≤ before) :
    (entries.foldl (collectTime before) state).1.keys.contains k = true := by
  induction entries generalizing state with
  | nil =>
      cases found with
      | inl already => exact already
      | inr member =>
          obtain ⟨e, member, -⟩ := member
          cases member
  | cons e entries ih =>
      apply ih
      unfold collectTime
      simp only
      split_ifs with old
      · cases found with
        | inl already => exact .inl (SortedMap.contains_emplace.mpr (.inl already))
        | inr member =>
            obtain ⟨x, member, same, early⟩ := member
            cases List.mem_cons.mp member with
            | inl first =>
                subst first
                exact .inl (SortedMap.contains_emplace.mpr (.inr same.symm))
            | inr later => exact .inr ⟨x, later, same, early⟩
      all_goals
        cases found with
        | inl already => exact .inl already
        | inr member =>
            obtain ⟨x, member, same, early⟩ := member
            cases List.mem_cons.mp member with
            | inl first =>
                subst first
                exact absurd early old
            | inr later => exact .inr ⟨x, later, same, early⟩

theorem collectSizeStale_keys (d : DatabaseObject) (walk : Iteration) (stale : Stale) {k : Key}
    (listed : stale.keys.contains k = true) : (d.collectSizeStale settings walk stale).keys.contains k = true := by
  unfold collectSizeStale
  simp only
  generalize (if settings.totalSizeLimit > 0 then d.totalSize - stale.totalSize - settings.totalSizeLimit else 0) = n
  split_ifs
  · exact listed
  · exact (contains_added _ _ _).mpr (.inl listed)

theorem mem_keysOf {keys : SortedMap Key Unit} {k : Key} (found : keys.contains k = true) :
    k ∈ keys.entries.map Prod.fst := by
  obtain ⟨_, member⟩ := SortedMap.contains_iff.mp found
  exact List.mem_map.mpr ⟨_, member, rfl⟩

/-- Searching and listing is all that pruning does before it removes. -/
theorem ages_pruned (none : d.stale = []) (walk : Iteration) (now : UInt32) :
    (withStale (d.pruned settings walk now).1 (d.pruned settings walk now).2).ages =
        (d.searchChanges settings walk (d.pruneBeforeTime settings now) ++
          [Ages.Change.list (d.pruned settings walk now).1]).foldl Ages.apply d.ages ∧
      (d.pruned settings walk now).2.stale = [] := by
  unfold pruned searchChanges
  simp only
  generalize d.pruneBeforeTime settings now = before
  unfold collectTimeStale
  split_ifs with young
  · simp only
    generalize (d.collectSizeStale settings walk {}).keys.entries.map Prod.fst = keys
    have listed := ages_list keys d
    rw [none] at listed
    exact ⟨listed, none⟩
  · let start : Stale × DatabaseObject := ({}, { d with minimalEntryTime := 0, entriesWithMinimalTimeCount := 0 })
    have found : ∀ k, isOld d.map before k = true →
        ((walk.order d.map.entries).foldl (collectTime before) start).1.keys.contains k = true := by
      intro k old
      obtain ⟨entry, member, early⟩ := isOld_iff.mp old
      apply collectTime_keys
      exact .inr ⟨(k, entry), (walk.perm d.map.entries).mem_iff.mpr member, rfl, early⟩
    have searched := collectTime_foldl before (walk.order d.map.entries) {} start.2
    rw [show ((({} : Stale), start.2) : Stale × DatabaseObject) = start from rfl] at searched
    rw [show ((({} : Stale), ({ d with minimalEntryTime := 0, entriesWithMinimalTimeCount := 0 } : DatabaseObject)) :
      Stale × DatabaseObject) = start from rfl]
    generalize (walk.order d.map.entries).foldl (collectTime before) start = state at found searched
    obtain ⟨stale, d₁⟩ := state
    simp only at found searched ⊢
    have listed : ∀ k, isOld d.map before k = true →
        k ∈ (d₁.collectSizeStale settings walk stale).keys.entries.map Prod.fst :=
      fun k old => mem_keysOf (collectSizeStale_keys d₁ walk stale (found k old))
    generalize (d₁.collectSizeStale settings walk stale).keys.entries.map Prod.fst = keys at listed
    subst searched
    refine ⟨?_, none⟩
    apply Ages.ext
    · rfl
    · rfl
    · funext k
      change (decide (k ∈ keys) && d.map.contains k) =
        (((decide (k ∈ d.stale) && d.map.contains k) || isOld d.map before k) ||
          (d.map.contains k && decide (k ∈ keys)))
      cases old : isOld d.map before k with
      | true =>
          obtain ⟨entry, member, -⟩ := isOld_iff.mp old
          have present : d.map.contains k = true := SortedMap.contains_iff.mpr ⟨entry, member⟩
          simp [listed k old, present]
      | false => simp [none, Bool.and_comm]

theorem ages_prune (d : DatabaseObject) (walk : Iteration) (now : UInt32) :
    (d.prune settings walk now).ages = (d.pruneChanges settings walk now).foldl Ages.apply d.ages := by
  unfold pruneChanges
  by_cases none : d.stale = []
  · obtain ⟨searched, stale⟩ := @ages_pruned settings d none walk now
    rw [if_neg (not_not.mpr none), prune_eq none walk now stale, ages_clearStaleChunk, searched]
    generalize (d.pruned settings walk now).1 = keys
    have split := List.append_cons (d.searchChanges settings walk (d.pruneBeforeTime settings now))
      (Ages.Change.list keys) ((withStale keys d).chunkChanges settings)
    exact ((congrArg (List.foldl Ages.apply d.ages) split).trans List.foldl_append).symm
  · rw [if_pos none, prune, if_pos none]
    rfl

/-- Every operation does what its changes say. -/
theorem ages_step (tracks : settings.trackEstimatedTime = true) (d : DatabaseObject) (operation : Operation settings) :
    (d.step settings operation).ages = (d.changes settings operation).foldl Ages.apply d.ages := by
  cases operation with
  | put around key value fits => exact ages_put tracks around key value
  | putIfEmpty around key value fits =>
      unfold step putIfEmpty changes
      simp only
      split_ifs
      · rfl
      · exact ages_put tracks around key value
  | copyIfEmpty reading writing source target =>
      unfold step copyIfEmpty changes
      simp only
      split_ifs
      · rfl
      · exact ages_get tracks reading source fun value d => ages_put tracks writing target value
  | moveIfEmpty around source target => exact ages_moveIfEmpty tracks around source target
  | get around key => exact @ages_get settings d tracks around key (fun _ d => d) (fun _ _ => []) fun _ _ => rfl
  | remove key => exact ages_remove d key
  | clearByTag walk tag => exact ages_clearByTag d walk tag
  | prune walk now => exact ages_prune d walk now
  | clearStaleChunk => exact ages_clearStaleChunk d
  | writeMultiRemove => exact ages_writeMultiRemove d
  | writeMultiAccess now =>
      unfold step
      simp only [tracks, if_true]
      exact ages_writeMultiAccess d now
  | writeBundles now =>
      unfold step writeBundles
      simp only [tracks, if_true]
      rw [ages_writeMultiAccess, ages_writeMultiRemove]
      have accessed : (d.writeMultiRemove settings).accessed = d.accessed := by
        unfold writeMultiRemove
        split_ifs
        · rfl
        · rfl
      have time : (d.writeMultiRemove settings).countTimePoint now = d.countTimePoint now := by
        unfold countTimePoint
        rw [time_writeMultiRemove]
      rw [accessChanges, accessed, time]
      rfl

/-! ## Opening -/

theorem stale_processRecordStore (d : DatabaseObject) (part : Store) :
    (d.processRecordStore settings part).2.stale = d.stale := by
  unfold processRecordStore
  split_ifs
  · rfl
  · exact (stale_setMapEntry _ _ _).trans (stale_applyTimePoint d _)
  · exact stale_setMapEntry _ _ _

theorem ages_processRecordMultiStore (tracks : settings.trackEstimatedTime = true) (parts : List Store)
    (none : d.stale = []) :
    (d.processRecordMultiStore settings parts).2.ages =
        ((Record.multiStore parts).ageChanges settings).foldl Ages.apply d.ages ∧
      (d.processRecordMultiStore settings parts).2.stale = [] := by
  unfold Record.ageChanges Record.storedParts
  simp only
  induction parts generalizing d with
  | nil => exact ⟨rfl, none⟩
  | cons part parts ih =>
      rw [processRecordMultiStore]
      by_cases accepted : part.Accepted settings
      · obtain ⟨_, taken, -⟩ := processRecordStore_accepted accepted d
        have ages := ages_processRecordStore tracks accepted (none ▸ List.not_mem_nil)
        have stale := (@stale_processRecordStore settings d part).trans none
        generalize d.processRecordStore settings part = outcome at taken ages stale ⊢
        obtain ⟨_, d'⟩ := outcome
        subst taken
        obtain ⟨result, listed⟩ := ih stale
        have taken : (part :: parts).takeWhile (fun part => decide (part.Accepted settings)) =
            part :: parts.takeWhile fun part => decide (part.Accepted settings) :=
          List.takeWhile_cons_of_pos (decide_eq_true accepted)
        rw [taken, List.map_cons, List.foldl_cons, ← ages]
        exact ⟨result, listed⟩
      · have taken : (part :: parts).takeWhile (fun part => decide (part.Accepted settings)) = [] :=
          List.takeWhile_cons_of_neg (by simpa using accepted)
        rw [processRecordStore_rejected accepted, taken]
        exact ⟨rfl, none⟩

theorem ages_processRemoved (d : DatabaseObject) (key : Key) :
    (d.processRemoved key).ages = d.ages.apply (.erase key) ∧ (d.processRemoved key).stale = d.stale := by
  unfold processRemoved
  simp only
  cases found : d.map.find? key with
  | none => exact ⟨(apply_erase_missing found).symm, rfl⟩
  | some entry =>
      let d' : DatabaseObject := { d with binlogExcessLength := d.binlogExcessLength + 16 }
      have same := congrArg DatabaseObject.stale (eraseMapEntry_withStale d.stale d' key entry)
      exact ⟨@ages_eraseMapEntry d' key entry found, same⟩

theorem ages_processRecordMultiRemove (keys : List Key) (d : DatabaseObject) :
    (d.processRecordMultiRemove keys).ages = (keys.map Ages.Change.erase).foldl Ages.apply d.ages ∧
      (d.processRecordMultiRemove keys).stale = d.stale := by
  have each : ∀ (keys : List Key) (d : DatabaseObject),
      (keys.foldl processRemoved d).ages = (keys.map Ages.Change.erase).foldl Ages.apply d.ages ∧
        (keys.foldl processRemoved d).stale = d.stale := by
    intro keys
    induction keys with
    | nil => exact fun d => ⟨rfl, rfl⟩
    | cons key keys ih =>
        intro d
        obtain ⟨ages, stale⟩ := ages_processRemoved d key
        obtain ⟨result, listed⟩ := ih (d.processRemoved key)
        rw [ages] at result
        exact ⟨result, listed.trans stale⟩
  exact each keys { d with binlogExcessLength := d.binlogExcessLength + 16 }

theorem stale_foldl_setUseTime (relative : UInt64) (keys : List Key) (d : DatabaseObject) :
    (keys.foldl (setUseTime relative) d).stale = d.stale := by
  induction keys generalizing d with
  | nil => rfl
  | cons key keys ih =>
      rw [List.foldl_cons, ih, setUseTime]
      split
      · rfl
      · rfl

theorem ages_processRecord (tracks : settings.trackEstimatedTime = true) (none : d.stale = []) (record : Record) :
    (d.processRecord settings record).2.ages = (record.ageChanges settings).foldl Ages.apply d.ages ∧
      (d.processRecord settings record).2.stale = [] := by
  cases record with
  | store part =>
      refine ⟨?_, (stale_processRecordStore d part).trans none⟩
      unfold processRecord Record.ageChanges
      simp only
      split_ifs with accepted
      · exact ages_processRecordStore tracks accepted (none ▸ List.not_mem_nil)
      · rw [processRecordStore_rejected accepted]
        rfl
  | multiStore parts => exact ages_processRecordMultiStore tracks parts none
  | multiRemove keys =>
      obtain ⟨ages, stale⟩ := ages_processRecordMultiRemove keys d
      exact ⟨ages, stale.trans none⟩
  | multiAccess time keys =>
      have ages := ages_applyTimePoint d time
      have stale := (stale_applyTimePoint d time).trans none
      unfold processRecord processRecordMultiAccess
      simp only
      generalize d.applyTimePoint time = d' at ages stale ⊢
      refine ⟨?_, (stale_foldl_setUseTime _ _ _).trans stale⟩
      rw [ages_foldl_setUseTime, ← ages]
      rfl

theorem ages_replay (tracks : settings.trackEstimatedTime = true) (records : List Record) (none : d.stale = []) :
    (records.foldl (fun d record => (d.processRecord settings record).2) d).ages =
      (records.flatMap (Record.ageChanges settings)).foldl Ages.apply d.ages := by
  induction records generalizing d with
  | nil => rfl
  | cons record records ih =>
      obtain ⟨ages, stale⟩ := @ages_processRecord settings d tracks none record
      rw [List.foldl_cons, ih stale, ages, List.flatMap_cons, List.foldl_append]

theorem replayAll_eq (d : DatabaseObject) (data : Bytes) :
    d.replayAll settings data =
      (replayedRecords settings data).foldl (fun d record => (d.processRecord settings record).2) d := by
  unfold replayAll replayedRecords replayFront
  simp only
  rw [List.foldl_append]
  cases frontRecord settings (scan settings (Record.acceptable settings) data).2 with
  | none => rfl
  | some front => rfl

theorem ages_adjustRelativeTime (d : DatabaseObject) (none : d.accessed = .empty) (now : UInt32) :
    (d.adjustRelativeTime settings now).ages = d.ages := by
  unfold adjustRelativeTime
  split_ifs
  · rw [ages_writeMultiAccessBlock, accessChanges, none]
    rfl
  · rfl

theorem ages_readBinlog (tracks : settings.trackEstimatedTime = true) (inside : d.binlog.offset ≤ d.binlog.size)
    (aligned : kBlockSize ∣ d.binlog.size - d.binlog.offset) (stale : d.stale = []) (accessed : d.accessed = .empty)
    (now : UInt32) :
    (d.readBinlog settings now).ages =
      ((replayedRecords settings (d.binlog.data.drop d.binlog.offset)).flatMap (Record.ageChanges settings)).foldl
        Ages.apply d.ages := by
  obtain ⟨-, same⟩ := @replayed_replayAll settings d (d.binlog.data.drop d.binlog.offset)
  have none : (d.replayAll settings (d.binlog.data.drop d.binlog.offset)).accessed = .empty :=
    (congrArg (fun bundles => bundles.2.2) same).trans accessed
  rw [readBinlog_eq inside aligned, ← ages_replay tracks _ stale, ← replayAll_eq, ages_adjustRelativeTime]
  · rfl
  · exact none

/-- Opening a file comes to the changes of the records that are replayed. -/
theorem ages_openBinlog (tracks : settings.trackEstimatedTime = true) {file : Bytes} {now : UInt32}
    (opened : openBinlog settings (wholeBlocks file) now = some d) :
    d.ages = ((replayedRecords settings ((wholeBlocks file).drop 16)).flatMap (Record.ageChanges settings)).foldl
      Ages.apply {} := by
  have aligned := wholeBlocks_aligned file
  generalize wholeBlocks file = data at opened aligned ⊢
  unfold openBinlog at opened
  split at opened
  · rename_i empty
    subst empty
    cases opened
    have length : (encodeHeader settings now).length = 16 := by simp [encodeHeader, length_toLittleEndian]
    generalize encodeHeader settings now = header at length ⊢
    have binlog : File.write { data := [] } header = { data := header, offset := 16 } := by
      simp [File.write, length]
    rw [binlog]
    have size : File.size { data := header, offset := 16 } = 16 := length
    rw [ages_readBinlog tracks size.ge (by rw [size]; exact Nat.dvd_zero _) rfl rfl]
    simp only [List.drop_nil]
    rw [List.drop_of_length_le length.le]
    rfl
  · split at opened
    · cases opened
    · rename_i systemTime header
      cases opened
      have long : 16 ≤ data.length := by
        unfold readHeader at header
        split_ifs at header with short
        exact Nat.le_of_not_lt short
      have whole := Nat.dvd_sub aligned (Nat.dvd_refl 16)
      exact @ages_readBinlog settings (opening data systemTime) tracks long whole rfl rfl now

end DatabaseObject

end IMeDesktop.Storage.Cache
