import IMeDesktop.Storage.CompactorRuns

/-! # The excess of the binlog

The database counts how many bytes of the binlog say nothing that is not said behind them. Every
operation adds to this, and a compaction takes off what was counted when it began. So it is never
negative, which the database asserts when it takes the new file.
-/

namespace IMeDesktop.Storage.Cache

open Lib

namespace DatabaseObject

/-- The excess of one database is not more than that of another. -/
def Grows (d d' : DatabaseObject) : Prop := d.binlogExcessLength ≤ d'.binlogExcessLength

variable {settings : Settings} {d d' d'' : DatabaseObject}

theorem Grows.refl (d : DatabaseObject) : Grows d d := Int.le_refl _

theorem Grows.trans (first : Grows d d') (second : Grows d' d'') : Grows d d'' := Int.le_trans first second

theorem Grows.foldl {α : Type} {f : DatabaseObject → α → DatabaseObject} (each : ∀ d a, Grows d (f d a)) (l : List α)
    (d : DatabaseObject) : Grows d (l.foldl f d) := by
  induction l generalizing d with
  | nil => exact .refl d
  | cons a l ih => exact (each d a).trans (ih (f d a))

theorem excess_updateStats (d : DatabaseObject) (was now : Entry) :
    (d.updateStats was now).binlogExcessLength = d.binlogExcessLength := by
  unfold updateStats addSummary
  simp only
  split_ifs
  all_goals rfl

theorem excess_updateMinimal (d : DatabaseObject) (already entry : Entry) :
    (d.updateMinimal already entry).binlogExcessLength = d.binlogExcessLength := by
  unfold updateMinimal
  split_ifs
  all_goals rfl

theorem excess_eraseMapEntry (d : DatabaseObject) (key : Key) (entry : Entry) :
    (d.eraseMapEntry key entry).binlogExcessLength = d.binlogExcessLength := by
  rw [← excess_updateStats d entry {}]
  unfold eraseMapEntry
  simp only
  split_ifs
  · rfl
  · rfl

theorem grows_setMapEntry (d : DatabaseObject) (key : Key) (entry : Entry) : Grows d (d.setMapEntry settings key entry) := by
  unfold Grows
  rw [← excess_updateStats d ((d.map.find? key).getD {}) entry]
  unfold setMapEntry
  simp only
  rw [excess_updateMinimal]
  split_ifs
  · simp only
    omega
  · exact Int.le_refl _

theorem grows_processRecordStore (d : DatabaseObject) (part : Store) :
    Grows d (d.processRecordStore settings part).2 := by
  unfold processRecordStore
  split_ifs
  · exact .refl d
  · refine Grows.trans ?_ (grows_setMapEntry _ _ _)
    unfold applyTimePoint
    split_ifs
    all_goals exact .refl d
  · exact grows_setMapEntry _ _ _

theorem grows_writeMultiRemove (d : DatabaseObject) : Grows d (d.writeMultiRemove settings) := by
  unfold writeMultiRemove
  split_ifs
  · exact .refl d
  · simp only [Grows, writeRecord]
    omega

theorem excess_foldl_setUseTime (relative : UInt64) (keys : List Key) (d : DatabaseObject) :
    (keys.foldl (setUseTime relative) d).binlogExcessLength = d.binlogExcessLength := by
  induction keys generalizing d with
  | nil => rfl
  | cons key keys ih =>
      rw [List.foldl_cons, ih, setUseTime]
      split
      · rfl
      · rfl

theorem grows_writeMultiAccessBlock (d : DatabaseObject) (now : UInt32) :
    Grows d (d.writeMultiAccessBlock settings now) := by
  unfold writeMultiAccessBlock
  simp only [Grows, writeRecord, excess_foldl_setUseTime]
  omega

theorem grows_writeMultiAccess (d : DatabaseObject) (now : UInt32) : Grows d (d.writeMultiAccess settings now) := by
  unfold writeMultiAccess
  split_ifs
  · exact .refl d
  · exact grows_writeMultiAccessBlock d now

theorem grows_recordEntryAccess (d : DatabaseObject) (now : UInt32) (key : Key) :
    Grows d (d.recordEntryAccess settings now key) := by
  unfold recordEntryAccess writeMultiAccessLazy
  split_ifs
  · exact grows_writeMultiAccess { d with accessed := d.accessed.emplace key () } now
  · exact .refl d
  · exact .refl d

theorem grows_writeStore (d : DatabaseObject) (part : Store) : Grows d (d.writeStore settings part) :=
  grows_processRecordStore (d.writeRecord settings (.store part)) part

theorem grows_remove (d : DatabaseObject) (key : Key) : Grows d (d.remove settings key) := by
  unfold remove writeMultiRemoveLazy
  split
  · exact .refl d
  · simp only [Grows, excess_eraseMapEntry]
    split_ifs
    · exact grows_writeMultiRemove { d with removing := d.removing.emplace key () }
    · exact Int.le_refl _

theorem grows_put (d : DatabaseObject) (around : Surroundings) (key : Key) (value : TaggedValue) :
    Grows d (d.put settings around key value) := by
  unfold put
  split_ifs
  · exact grows_remove d key
  · simp only
    split
    · exact grows_recordEntryAccess
        { d with removing := d.removing.erase key, stale := d.stale.filter fun k => k ≠ key } around.now key
    · exact grows_writeStore
        { d with removing := d.removing.erase key, stale := d.stale.filter fun k => k ≠ key } _

theorem grows_get (d : DatabaseObject) (around : Surroundings) (key : Key)
    {done : TaggedValue → DatabaseObject → DatabaseObject} (goesOn : ∀ value d, Grows d (done value d)) :
    Grows d (d.get settings around key done) := by
  unfold get
  split
  · exact goesOn {} d
  · simp only
    split_ifs
    · exact (grows_remove d key).trans (goesOn {} _)
    · exact (goesOn _ d).trans (grows_recordEntryAccess _ around.now key)

theorem grows_moveIfEmpty (d : DatabaseObject) (around : Surroundings) (source target : Key) :
    Grows d (d.moveIfEmpty settings around source target) := by
  unfold moveIfEmpty
  split_ifs
  · exact .refl d
  · split
    · exact .refl d
    · rename_i entry found
      have taken : Grows d ({ d with removing := d.removing.emplace source () }.eraseMapEntry source entry) :=
        (excess_eraseMapEntry { d with removing := d.removing.emplace source () } source entry).ge
      have removed := @grows_writeMultiRemove settings
      simp only
      refine (taken.trans (removed _)).trans ?_
      generalize writeMultiRemove settings _ = x
      unfold writeExistingPlace
      simp only
      split
      · exact grows_writeStore { x with removing := x.removing.erase target, stale := _ } _
      · split_ifs
        · exact .refl x
        · exact grows_writeStore { x with removing := x.removing.erase target, stale := _ } _

theorem grows_clearStaleChunk (d : DatabaseObject) : Grows d (d.clearStaleChunk settings) :=
  Grows.foldl grows_remove _ d

theorem excess_collectTimeStale (d : DatabaseObject) (walk : Iteration) (before : UInt64) :
    (d.collectTimeStale settings walk before).2.binlogExcessLength = d.binlogExcessLength := by
  have each : ∀ (entries : List (Key × Entry)) (state : Stale × DatabaseObject),
      (entries.foldl (collectTime before) state).2.binlogExcessLength = state.2.binlogExcessLength := by
    intro entries
    induction entries with
    | nil => exact fun state => rfl
    | cons e entries ih =>
        intro state
        rw [List.foldl_cons, ih]
        unfold collectTime
        simp only
        split_ifs
        all_goals rfl
  unfold collectTimeStale
  split_ifs
  · rfl
  · exact each _ _

theorem grows_prune (d : DatabaseObject) (walk : Iteration) (now : UInt32) : Grows d (d.prune settings walk now) := by
  have same : (d.collectTimeStale settings walk (d.pruneBeforeTime settings now)).2.binlogExcessLength =
      d.binlogExcessLength := excess_collectTimeStale d walk _
  unfold prune
  split_ifs
  · exact .refl d
  · simp only
    generalize d.collectTimeStale settings walk (d.pruneBeforeTime settings now) = collected at same
    split_ifs
    · exact Grows.trans same.ge (Grows.foldl grows_remove _ _)
    · exact Grows.trans same.ge (grows_clearStaleChunk { collected.2 with stale := _ })

theorem grows_clearByTag (d : DatabaseObject) (walk : Iteration) (tag : UInt8) :
    Grows d (d.clearByTag settings walk tag) := by
  unfold clearByTag
  simp only
  split_ifs
  · exact grows_clearStaleChunk { d with stale := _ }
  · exact .refl d

theorem grows_step (d : DatabaseObject) (operation : Operation settings) : Grows d (d.step settings operation) := by
  cases operation with
  | put around key value fits => exact grows_put d around key value
  | putIfEmpty around key value fits =>
      unfold step putIfEmpty
      simp only
      split_ifs
      · exact .refl d
      · exact grows_put d around key value
  | copyIfEmpty reading writing source target =>
      unfold step copyIfEmpty
      simp only
      split_ifs
      · exact .refl d
      · exact grows_get d reading source fun value d => grows_put d writing target value
  | moveIfEmpty around source target => exact grows_moveIfEmpty d around source target
  | get around key => exact grows_get d around key fun _ d => .refl d
  | remove key => exact grows_remove d key
  | clearByTag walk tag => exact grows_clearByTag d walk tag
  | prune walk now => exact grows_prune d walk now
  | clearStaleChunk => exact grows_clearStaleChunk d
  | writeMultiRemove => exact grows_writeMultiRemove d
  | writeMultiAccess now =>
      unfold step
      simp only
      split_ifs
      · exact grows_writeMultiAccess d now
      · exact .refl d
  | writeBundles now =>
      unfold step writeBundles
      simp only
      split_ifs
      · exact (grows_writeMultiRemove d).trans (grows_writeMultiAccess _ now)
      · exact grows_writeMultiRemove d

/-! ## Opening -/

theorem grows_processRecordMultiStore (d : DatabaseObject) (parts : List Store) :
    Grows d (d.processRecordMultiStore settings parts).2 := by
  induction parts generalizing d with
  | nil => exact .refl d
  | cons part parts ih =>
      have first : Grows d (d.processRecordStore settings part).2 := grows_processRecordStore d part
      rw [processRecordMultiStore]
      split
      · rename_i stored
        rw [stored] at first
        exact first.trans (ih _)
      · rename_i rejected
        rw [rejected] at first
        exact first

theorem grows_processRecord (d : DatabaseObject) (record : Record) : Grows d (d.processRecord settings record).2 := by
  cases record with
  | store part => exact grows_processRecordStore d part
  | multiStore parts => exact grows_processRecordMultiStore d parts
  | multiRemove keys =>
      have each : ∀ (d : DatabaseObject) (key : Key), Grows d (d.processRemoved key) := by
        intro d key
        unfold processRemoved
        simp only
        split
        · simp only [Grows]
          omega
        · simp only [Grows, excess_eraseMapEntry]
          omega
      refine Grows.trans ?_ (Grows.foldl each keys _)
      simp only [Grows]
      omega
  | multiAccess time keys =>
      have same : (d.applyTimePoint time).binlogExcessLength = d.binlogExcessLength := by
        unfold applyTimePoint
        split_ifs
        · rfl
        · rfl
      simp only [processRecord, processRecordMultiAccess, Grows, excess_foldl_setUseTime, same]
      omega

theorem grows_readBinlog (d : DatabaseObject) (now : UInt32) : Grows d (d.readBinlog settings now) := by
  have each : ∀ x r, Grows d x → Grows d (processRecord settings x r).2 := fun x r holds =>
    holds.trans (grows_processRecord x r)
  have read : Grows d (BinlogWrapper.readAll settings (processRecord settings) (d.binlog.size - d.binlog.offset + 1) d
      { binlog := d.binlog, till := d.binlog.size }).1 := BinlogWrapper.readAll_keeps each _ (Grows.refl d) _
  unfold readBinlog adjustRelativeTime
  simp only
  split_ifs
  · refine read.trans (Grows.trans ?_ (grows_writeMultiAccessBlock _ now))
    exact .refl _
  · exact read

theorem excess_openBinlog {data : Bytes} {now : UInt32} (opened : openBinlog settings data now = some d) :
    0 ≤ d.binlogExcessLength := by
  unfold openBinlog at opened
  split at opened
  · cases opened
    exact grows_readBinlog _ now
  · split at opened
    · cases opened
    · cases opened
      exact grows_readBinlog _ now

end DatabaseObject

/-! ## Compacting -/

namespace Compacting

variable {settings : Settings}

/-- What is taken off when the compaction is done was counted by then. -/
structure Covered (s : Compacting) : Prop where
  positive : 0 ≤ s.database.binlogExcessLength
  counted : s.compactor.object ≠ none → s.compactor.excessLength ≤ s.database.binlogExcessLength

theorem Covered.compactorDone {s : Compacting} (h : Covered s) (compacting : s.compactor.object ≠ none)
    (c : CompactorObject) (source now : Nat) : Covered (s.compactorDone settings c source now) := by
  have installed : ∀ compact, Covered (s.install compact) := by
    refine fun compact => ⟨?_, fun some => absurd rfl some⟩
    have := h.counted compacting
    simp only [install]
    omega
  have failed : Covered (s.compactorFail now) := ⟨h.positive, fun some => absurd rfl some⟩
  unfold Compacting.compactorDone
  simp only
  split_ifs
  · exact installed _
  · split
    · exact failed
    · split_ifs
      · exact installed _
      · exact failed

theorem Covered.step {s : Compacting} (h : Covered s) (event : Event settings) : Covered (s.step settings event) := by
  have goesOn : ∀ {object}, s.compactor.object ≠ none → Covered (s.withObject object) :=
    fun some => ⟨h.positive, fun _ => h.counted some⟩
  have present : ∀ {object}, s.compactor.object = some object → s.compactor.object ≠ none := by
    intro object there none
    rw [none] at there
    cases there
  cases event with
  | operate operation =>
      have grows := DatabaseObject.grows_step s.database operation
      exact ⟨h.positive.trans grows, fun some => (h.counted some).trans grows⟩
  | checkCompactor now =>
      simp only [Compacting.step, Compacting.checkCompactor]
      split_ifs
      · exact ⟨h.positive, fun _ => Int.le_refl _⟩
      · exact h
  | parseChunk | getManyRaw | processValues | catchUp seen =>
      simp only [Compacting.step]
      split
      · exact goesOn (present ‹_›)
      · exact h
  | take now =>
      simp only [Compacting.step]
      split
      · exact h.compactorDone (present ‹_›) _ _ now
      · exact ⟨h.positive, fun some => absurd rfl some⟩
      · exact h

end Compacting

end IMeDesktop.Storage.Cache
