import IMeDesktop.Storage.DatabaseAges
import IMeDesktop.Storage.DatabaseReplay

/-! # What the database changes of the ages

The changes that each operation makes to the ages of entries, and each record that is replayed, are
listed here in their order. That the database does what the list says is shown first for single
entries, and for what stores and reads them. Use times are tracked.
-/

namespace IMeDesktop.Storage.Cache

open Lib Ages

/-- A part that is stored with its time. -/
def Store.ageChange (part : Store) : Ages.Change := .set part.key (part.entry part.time.relative)

def Record.ageChanges (settings : Settings) : Record → List Ages.Change
  | .store part => if part.Accepted settings then [part.ageChange] else []
  | .multiStore parts => ((Record.multiStore parts).storedParts settings).map Store.ageChange
  | .multiRemove keys => keys.map .erase
  | .multiAccess time keys => keys.map (.touch time.relative)

/-- The records that replaying uses, the last one maybe in part. -/
def replayedRecords (settings : Settings) (data : Bytes) : List Record :=
  let (records, rest) := scan settings (Record.acceptable settings) data
  records ++ ((frontRecord settings rest).map Prod.snd).toList

namespace DatabaseObject

def ages (d : DatabaseObject) : Ages where
  map := d.map
  minimal := ⟨d.minimalEntryTime, d.entriesWithMinimalTimeCount⟩
  listed k := decide (k ∈ d.stale) && d.map.contains k

/-! ## The changes of an operation -/

section Changes

variable (settings : Settings) (d : DatabaseObject)

/-- What is written of the entries that were used. -/
def accessChanges (now : UInt32) : List Change :=
  (keysOf d.accessed).map (.touch (d.countTimePoint now).relative)

def recordAccessChanges (now : UInt32) (key : Key) : List Change :=
  let d := { d with accessed := d.accessed.emplace key () }
  if d.accessed.size = settings.maxBundledRecords then d.accessChanges now else []

def putChanges (around : Surroundings) (key : Key) (value : TaggedValue) : List Change :=
  if value.bytes = [] then [.erase key]
  else
    let checksum := around.countChecksum value.bytes
    match d.chooseKeyPlace around key value checksum with
    | none => .spare key :: d.recordAccessChanges settings around.now key
    | some place =>
        let record : Store :=
          { tag := value.tag, size := value.bytes.length, place := place, checksum := checksum, key := key
            time := d.recordTime settings around.now }
        if record.Accepted settings then [record.ageChange] else [.spare key]

/-- A value that is found is given to `done`. -/
def getChanges (around : Surroundings) (key : Key) (done : TaggedValue → DatabaseObject → DatabaseObject)
    (changes : TaggedValue → DatabaseObject → List Change) : List Change :=
  match d.map.find? key with
  | none => changes {} d
  | some entry =>
      let bytes := around.readValueData entry.place entry.size
      if bytes = [] ∨ around.countChecksum bytes ≠ entry.checksum then
        .erase key :: changes {} (d.remove settings key)
      else
        let value : TaggedValue := { bytes := bytes, tag := entry.tag }
        changes value d ++ (done value d).recordAccessChanges settings around.now key

def moveChanges (around : Surroundings) (source target : Key) : List Change :=
  if d.map.contains target then []
  else
    match d.map.find? source with
    | none => []
    | some entry =>
        let record : Store :=
          { tag := entry.tag, size := entry.size, place := entry.place, checksum := entry.checksum, key := target
            time := d.recordTime settings around.now }
        .erase source :: (Record.store record).ageChanges settings

def chunkChanges : List Change :=
  (d.stale.drop (d.stale.length - min d.stale.length settings.staleRemoveChunk)).map .erase

def clearByTagChanges (walk : Iteration) (tag : UInt8) : List Change :=
  let keys := ((walk.order d.map.entries).filter fun e => e.2.tag = tag).map Prod.fst
  .list keys :: if d.stale = [] then { d with stale := keys }.chunkChanges settings else []

/-- The entries that are collected, with the database after the search. -/
def pruned (walk : Iteration) (now : UInt32) : List Key × DatabaseObject :=
  let (stale, d) := d.collectTimeStale settings walk (d.pruneBeforeTime settings now)
  ((d.collectSizeStale settings walk stale).keys.entries.map Prod.fst, d)

/-- The search is only made when the least time is old. -/
def searchChanges (walk : Iteration) (before : UInt64) : List Change :=
  if settings.totalTimeLimit = 0 ∨ d.minimalEntryTime = 0 ∨ d.minimalEntryTime > before then []
  else [.collect walk before]

def pruneChanges (walk : Iteration) (now : UInt32) : List Change :=
  if d.stale ≠ [] then []
  else
    let keys := (d.pruned settings walk now).1
    d.searchChanges settings walk (d.pruneBeforeTime settings now) ++
      .list keys :: { d with stale := keys }.chunkChanges settings

def changes : Operation settings → List Change
  | .put around key value _ => d.putChanges settings around key value
  | .putIfEmpty around key value _ => if d.map.contains key then [] else d.putChanges settings around key value
  | .copyIfEmpty reading writing source target =>
      if d.map.contains target then []
      else
        d.getChanges settings reading source (fun value d => d.put settings writing target value)
          fun value d => d.putChanges settings writing target value
  | .moveIfEmpty around source target => d.moveChanges settings around source target
  | .get around key => d.getChanges settings around key (fun _ d => d) fun _ _ => []
  | .remove key => [.erase key]
  | .clearByTag walk tag => d.clearByTagChanges settings walk tag
  | .prune walk now => d.pruneChanges settings walk now
  | .clearStaleChunk => d.chunkChanges settings
  | .writeMultiRemove => []
  | .writeMultiAccess now => d.accessChanges now
  | .writeBundles now => d.accessChanges now

end Changes

/-! ## What keeps the ages -/

variable {settings : Settings} {d : DatabaseObject}

theorem unlist_erase (stale : List Key) (map : SortedMap Key Entry) (key k : Key) :
    (decide (k ∈ stale) && (map.erase key).contains k) =
      unlist (fun k => decide (k ∈ stale) && map.contains k) key k := by
  rw [SortedMap.contains_erase, unlist]
  grind

theorem unlist_set {stale : List Key} {key : Key} (free : key ∉ stale) (map : SortedMap Key Entry) (entry : Entry)
    (k : Key) :
    (decide (k ∈ stale) && ((map.erase key).emplace key entry).contains k) =
      unlist (fun k => decide (k ∈ stale) && map.contains k) key k := by
  rw [SortedMap.contains_set, unlist]
  grind

theorem unlist_filter (stale : List Key) (map : SortedMap Key Entry) (key k : Key) :
    (decide (k ∈ stale.filter fun k => k ≠ key) && map.contains k) =
      unlist (fun k => decide (k ∈ stale) && map.contains k) key k := by
  rw [unlist]
  grind

theorem ages_addSummary (d : DatabaseObject) (tag : UInt8) (count totalSize : Int) :
    (d.addSummary tag count totalSize).ages = d.ages := by
  unfold addSummary
  split_ifs
  · rfl
  · rfl

theorem ages_updateStats (d : DatabaseObject) (was now : Entry) : (d.updateStats was now).ages = d.ages := by
  unfold updateStats
  simp only
  split_ifs
  · exact ages_addSummary _ _ _ _
  · rw [ages_addSummary, ages_addSummary]
    rfl

theorem stale_updateStats (d : DatabaseObject) (was now : Entry) : (d.updateStats was now).stale = d.stale := by
  have each : ∀ (d : DatabaseObject) (tag : UInt8) (count totalSize : Int),
      (d.addSummary tag count totalSize).stale = d.stale := by
    intro d tag count totalSize
    unfold addSummary
    split_ifs
    · rfl
    · rfl
  unfold updateStats
  simp only
  split_ifs
  · exact each _ _ _ _
  · rw [each, each]

theorem ages_applyTimePoint (d : DatabaseObject) (time : EstimatedTimePoint) :
    (d.applyTimePoint time).ages = d.ages := by
  unfold applyTimePoint
  split_ifs
  · rfl
  · rfl

theorem ages_writeMultiRemove (d : DatabaseObject) : (d.writeMultiRemove settings).ages = d.ages := by
  unfold writeMultiRemove
  split_ifs
  · rfl
  · rfl

theorem ages_writeMultiRemoveLazy (d : DatabaseObject) : (d.writeMultiRemoveLazy settings).ages = d.ages := by
  unfold writeMultiRemoveLazy
  split_ifs
  · exact ages_writeMultiRemove d
  · rfl

/-! ## Single entries -/

theorem minimal_updateMinimal (d : DatabaseObject) (already entry : Entry) :
    (d.updateMinimal already entry).ages.minimal = d.ages.minimal.exchange already.useTime entry.useTime := by
  unfold updateMinimal Least.exchange
  rw [show d.ages.minimal.value = d.minimalEntryTime from rfl]
  split_ifs
  all_goals rfl

theorem ages_updateMinimal (d : DatabaseObject) (already entry : Entry) :
    (d.updateMinimal already entry).ages =
      { d.ages with minimal := d.ages.minimal.exchange already.useTime entry.useTime } := by
  apply Ages.ext
  · unfold updateMinimal
    split_ifs
    all_goals rfl
  · exact minimal_updateMinimal d already entry
  · unfold updateMinimal
    split_ifs
    all_goals rfl

theorem stale_updateMinimal (d : DatabaseObject) (already entry : Entry) :
    (d.updateMinimal already entry).stale = d.stale := by
  unfold updateMinimal
  split_ifs
  all_goals rfl

theorem ages_eraseMapEntry {key : Key} {entry : Entry} (found : d.map.find? key = some entry) :
    (d.eraseMapEntry key entry).ages = d.ages.apply (.erase key) := by
  have same := ages_updateStats d entry {}
  rw [apply_erase_found found, ← same]
  unfold eraseMapEntry
  have kept : (d.updateStats entry {}).map = d.map := congrArg Ages.map same
  generalize d.updateStats entry {} = d at same kept ⊢
  simp only
  apply Ages.ext
  · split_ifs
    all_goals rfl
  · unfold Least.leave
    rw [show d.ages.minimal.value = d.minimalEntryTime from rfl]
    split_ifs
    all_goals rfl
  · funext k
    split_ifs
    all_goals exact unlist_erase d.stale d.map key k

theorem ages_set {key : Key} (free : key ∉ d.stale) (entry : Entry) :
    ({ d with map := (d.map.erase key).emplace key entry } : DatabaseObject).ages =
      { map := d.ages.map.set key entry, minimal := d.ages.minimal, listed := unlist d.ages.listed key } := by
  apply Ages.ext
  · rfl
  · rfl
  · funext k
    exact unlist_set free d.map entry k

theorem ages_setMapEntry {key : Key} (free : key ∉ d.stale) (entry : Entry) :
    (d.setMapEntry settings key entry).ages = d.ages.apply (.set key entry) := by
  have same := ages_updateStats d ((d.map.find? key).getD {}) entry
  have stale := stale_updateStats d ((d.map.find? key).getD {}) entry
  unfold setMapEntry
  simp only
  generalize d.updateStats ((d.map.find? key).getD {}) entry = d₁ at same stale ⊢
  generalize already : (d.map.find? key).getD {} = before
  have counted : (if before.size ≠ 0 then
      { d₁ with binlogExcessLength := d₁.binlogExcessLength + partSize settings.trackEstimatedTime }
      else d₁).ages = d.ages ∧ (if before.size ≠ 0 then
      { d₁ with binlogExcessLength := d₁.binlogExcessLength + partSize settings.trackEstimatedTime }
      else d₁).stale = d.stale := by
    split_ifs
    · exact ⟨same, stale⟩
    · exact ⟨same, stale⟩
  generalize (if before.size ≠ 0 then _ else d₁) = d₂ at counted ⊢
  have minimal := ages_updateMinimal d₂ before entry
  have listed := stale_updateMinimal d₂ before entry
  generalize d₂.updateMinimal before entry = d₃ at minimal listed ⊢
  have free' : key ∉ d₃.stale := by
    rw [listed, counted.2]
    exact free
  rw [ages_set free', minimal, counted.1, ← already]
  rfl

theorem stale_setMapEntry (d : DatabaseObject) (key : Key) (entry : Entry) :
    (d.setMapEntry settings key entry).stale = d.stale := by
  unfold setMapEntry
  simp only
  rw [stale_updateMinimal]
  split_ifs
  · exact stale_updateStats d _ _
  · exact stale_updateStats d _ _

theorem ages_setUseTime (relative : UInt64) (d : DatabaseObject) (key : Key) :
    (d.setUseTime relative key).ages = d.ages.apply (.touch relative key) := by
  unfold setUseTime
  cases found : d.map.find? key with
  | none => exact (apply_touch_missing relative found).symm
  | some entry =>
      rw [apply_touch_found relative found]
      apply Ages.ext
      · rfl
      · rfl
      · funext k
        have present : d.map.contains key = true := by simp [SortedMap.contains, found]
        change (decide (k ∈ d.stale) && ((d.map.erase key).emplace key _).contains k) = _
        rw [SortedMap.contains_set]
        change _ = (decide (k ∈ d.stale) && d.map.contains k)
        by_cases same : k = key
        · simp [same, present]
        · simp [same]

theorem ages_foldl_setUseTime (relative : UInt64) (keys : List Key) (d : DatabaseObject) :
    (keys.foldl (setUseTime relative) d).ages = (keys.map (Ages.Change.touch relative)).foldl Ages.apply d.ages := by
  induction keys generalizing d with
  | nil => rfl
  | cons key keys ih =>
      rw [List.foldl_cons, ih, ages_setUseTime]
      rfl

theorem ages_writeMultiAccessBlock (d : DatabaseObject) (now : UInt32) :
    (d.writeMultiAccessBlock settings now).ages = (d.accessChanges now).foldl Ages.apply d.ages :=
  ages_foldl_setUseTime (d.countTimePoint now).relative (keysOf d.accessed)
    { d with accessed := .empty, time := d.countTimePoint now }

theorem ages_writeMultiAccess (d : DatabaseObject) (now : UInt32) :
    (d.writeMultiAccess settings now).ages = (d.accessChanges now).foldl Ages.apply d.ages := by
  unfold writeMultiAccess
  split_ifs with none
  · rw [accessChanges, keysOf, (SortedMap.isEmpty_iff _).mp none]
    rfl
  · exact ages_writeMultiAccessBlock d now

theorem ages_recordEntryAccess (tracks : settings.trackEstimatedTime = true) (d : DatabaseObject) (now : UInt32)
    (key : Key) :
    (d.recordEntryAccess settings now key).ages = (d.recordAccessChanges settings now key).foldl Ages.apply d.ages := by
  rw [recordEntryAccess, if_pos tracks, recordAccessChanges, writeMultiAccessLazy]
  simp only
  split_ifs
  · exact ages_writeMultiAccess _ now
  · rfl

theorem ages_remove (d : DatabaseObject) (key : Key) :
    (d.remove settings key).ages = d.ages.apply (.erase key) := by
  unfold remove
  cases found : d.map.find? key with
  | none => exact (apply_erase_missing found).symm
  | some entry =>
      have same := @ages_writeMultiRemoveLazy settings { d with removing := d.removing.emplace key () }
      have map : (({ d with removing := d.removing.emplace key () }).writeMultiRemoveLazy settings).map = d.map :=
        congrArg Ages.map same
      have found' := found
      rw [← map] at found'
      simp only
      rw [ages_eraseMapEntry found', same]
      rfl

theorem ages_foldl_remove (keys : List Key) (d : DatabaseObject) :
    (keys.foldl (remove settings) d).ages = (keys.map Ages.Change.erase).foldl Ages.apply d.ages := by
  induction keys generalizing d with
  | nil => rfl
  | cons key keys ih =>
      rw [List.foldl_cons, ih, ages_remove]
      rfl

/-! ## Storing -/

theorem stale_applyTimePoint (d : DatabaseObject) (time : EstimatedTimePoint) :
    (d.applyTimePoint time).stale = d.stale := by
  unfold applyTimePoint
  split_ifs
  · rfl
  · rfl

theorem ages_processRecordStore (tracks : settings.trackEstimatedTime = true) {part : Store}
    (accepted : part.Accepted settings) (free : part.key ∉ d.stale) :
    (d.processRecordStore settings part).2.ages = d.ages.apply part.ageChange := by
  have good : ¬(part.size = 0 ∨ part.size > settings.maxDataSize) := by
    have positive := accepted.1
    have small := accepted.2
    omega
  have free' : part.key ∉ (d.applyTimePoint part.time).stale := by
    rw [stale_applyTimePoint]
    exact free
  rw [processRecordStore, if_neg good]
  simp only [tracks, if_true]
  rw [ages_setMapEntry free', ages_applyTimePoint]
  rfl

theorem ages_writeStore (tracks : settings.trackEstimatedTime = true) {record : Store} (free : record.key ∉ d.stale) :
    (d.writeStore settings record).ages =
      ((Record.store record).ageChanges settings).foldl Ages.apply d.ages := by
  unfold writeStore Record.ageChanges
  simp only
  split_ifs with accepted
  · exact @ages_processRecordStore settings (d.writeRecord settings (.store record)) tracks _ accepted free
  · rw [processRecordStore_rejected accepted]
    rfl

/-- The key of a value that comes is taken off the list. -/
theorem ages_filter (d : DatabaseObject) (removing : SortedMap Key Unit) (key : Key) :
    ({ d with removing := removing, stale := d.stale.filter fun k => k ≠ key } : DatabaseObject).ages =
      d.ages.apply (.spare key) := by
  apply Ages.ext
  · rfl
  · rfl
  · funext k
    exact unlist_filter d.stale d.map key k

/-- What is set is off the list anyway. -/
theorem apply_spare_set (a : Ages) (key : Key) (entry : Entry) :
    (a.apply (.spare key)).apply (.set key entry) = a.apply (.set key entry) := by
  apply Ages.ext
  · rfl
  · rfl
  · funext k
    change unlist (unlist a.listed key) key k = unlist a.listed key k
    unfold unlist
    grind

theorem ages_put (tracks : settings.trackEstimatedTime = true) (around : Surroundings) (key : Key)
    (value : TaggedValue) :
    (d.put settings around key value).ages = (d.putChanges settings around key value).foldl Ages.apply d.ages := by
  unfold put putChanges
  split_ifs with empty
  · exact ages_remove d key
  · have filtered := ages_filter d (d.removing.erase key) key
    let d' : DatabaseObject :=
      { d with removing := d.removing.erase key, stale := d.stale.filter fun k => k ≠ key }
    have free : key ∉ d'.stale := by simp [d']
    have same : d'.chooseKeyPlace around key value (around.countChecksum value.bytes) =
      d.chooseKeyPlace around key value (around.countChecksum value.bytes) := rfl
    simp only
    rw [show { d with removing := d.removing.erase key, stale := d.stale.filter fun k => k ≠ key } = d'
      from rfl] at filtered ⊢
    rw [same]
    cases d.chooseKeyPlace around key value (around.countChecksum value.bytes) with
    | none =>
        simp only [List.foldl_cons]
        rw [ages_recordEntryAccess tracks, filtered]
        rfl
    | some place =>
        simp only
        rw [writeKeyPlace, ages_writeStore tracks free, filtered]
        unfold Record.ageChanges
        rw [show d'.recordTime settings around.now = d.recordTime settings around.now from rfl]
        simp only
        split_ifs
        · exact apply_spare_set d.ages key _
        · rfl

theorem ages_get (tracks : settings.trackEstimatedTime = true) (around : Surroundings) (key : Key)
    {done : TaggedValue → DatabaseObject → DatabaseObject}
    {changes : TaggedValue → DatabaseObject → List Ages.Change}
    (does : ∀ value d, (done value d).ages = (changes value d).foldl Ages.apply d.ages) :
    (d.get settings around key done).ages =
      (d.getChanges settings around key done changes).foldl Ages.apply d.ages := by
  unfold get getChanges
  cases d.map.find? key with
  | none => exact does {} d
  | some entry =>
      simp only
      split_ifs
      · rw [does, ages_remove]
        rfl
      · rw [ages_recordEntryAccess tracks, does, List.foldl_append]

theorem apply_spare_unlisted {a : Ages} {key : Key} (unlisted : a.listed key = false) : a.apply (.spare key) = a := by
  apply Ages.ext
  · rfl
  · rfl
  · funext k
    change unlist a.listed key k = a.listed k
    unfold unlist
    grind

theorem recordTime_congr {d' : DatabaseObject} (same : d'.time = d.time) (now : UInt32) :
    d'.recordTime settings now = d.recordTime settings now := by
  unfold recordTime countTimePoint
  rw [same]

theorem time_writeMultiRemove (d : DatabaseObject) : (d.writeMultiRemove settings).time = d.time := by
  unfold writeMultiRemove
  split_ifs
  · rfl
  · rfl

theorem ages_writeExistingPlace (tracks : settings.trackEstimatedTime = true) {key : Key}
    (missing : d.map.contains key = false) (free : key ∉ d.stale) (around : Surroundings) (entry : Entry) :
    (d.writeExistingPlace settings around key entry).ages =
      ((Record.store
          { tag := entry.tag, size := entry.size, place := entry.place, checksum := entry.checksum, key := key
            time := d.recordTime settings around.now }).ageChanges settings).foldl Ages.apply d.ages := by
  have none : d.map.find? key = none := by
    cases found : d.map.find? key with
    | none => rfl
    | some already =>
        rw [SortedMap.contains, found] at missing
        cases missing
  unfold writeExistingPlace
  simp only [none]
  exact ages_writeStore tracks free

theorem ages_moveIfEmpty (tracks : settings.trackEstimatedTime = true) (around : Surroundings) (source target : Key) :
    (d.moveIfEmpty settings around source target).ages =
      (d.moveChanges settings around source target).foldl Ages.apply d.ages := by
  unfold moveIfEmpty moveChanges
  split_ifs with present
  · rfl
  · cases found : d.map.find? source with
    | none => rfl
    | some entry =>
        simp only
        let d' : DatabaseObject := { d with removing := d.removing.emplace source () }
        have erased : (d'.eraseMapEntry source entry).ages = d.ages.apply (.erase source) := ages_eraseMapEntry found
        have flushed := (@ages_writeMultiRemove settings (d'.eraseMapEntry source entry)).trans erased
        have time := (@time_writeMultiRemove settings (d'.eraseMapEntry source entry)).trans
          (time_eraseMapEntry d' source entry)
        rw [show ({ d with removing := d.removing.emplace source () } : DatabaseObject) = d' from rfl]
        generalize (d'.eraseMapEntry source entry).writeMultiRemove settings = d₂ at flushed time ⊢
        have map : d₂.map = d.map.erase source :=
          (congrArg Ages.map flushed).trans (congrArg Ages.map (apply_erase_found found))
        have missing : d₂.map.contains target = false := by
          rw [map, SortedMap.contains_erase]
          simp [present]
        have unlisted : d₂.ages.listed target = false := by
          change (_ && d₂.map.contains target) = false
          rw [missing, Bool.and_false]
        have filtered := ages_filter d₂ (d₂.removing.erase target) target
        rw [apply_spare_unlisted unlisted, flushed] at filtered
        let d₃ : DatabaseObject :=
          { d₂ with removing := d₂.removing.erase target, stale := d₂.stale.filter fun k => k ≠ target }
        have free : target ∉ d₃.stale := by simp [d₃]
        have written := @ages_writeExistingPlace settings d₃ tracks target missing free around entry
        have sameTime : d₃.recordTime settings around.now = d.recordTime settings around.now :=
          recordTime_congr time around.now
        rw [filtered, sameTime] at written
        exact written

end DatabaseObject

end IMeDesktop.Storage.Cache
