import IMeDesktop.Storage.BinlogBounds
import IMeDesktop.Storage.DatabaseEffects

/-! # What is replayed of a binlog

Which records of a file are replayed does not depend on the state they are applied to, nor
on the blocks the file is read in: records are taken from the front while they are complete
and can be used as a whole. Reading ends there. A record of several parts may be rejected
behind its first parts, which were stored by then.
-/

namespace IMeDesktop.Storage.Cache

open Lib

section Scan

variable (settings : Settings)

/-- Whether replaying accepts a record. -/
def Record.acceptable : Record → Bool
  | .store part => decide (part.Accepted settings)
  | .multiStore parts => parts.all fun part => decide (part.Accepted settings)
  | .multiRemove _ => true
  | .multiAccess _ _ => true

/-- The parts of a record that are stored before it is rejected. -/
def Record.storedParts : Record → List Store
  | .multiStore parts => parts.takeWhile fun part => decide (part.Accepted settings)
  | _ => []

/-- The record at the front, and its size. -/
def frontRecord (data : Bytes) : Option (Nat × Record) :=
  match readRecordSize settings data with
  | .known size =>
      if size ≤ data.length then some (size, Record.decode settings.trackEstimatedTime (data.take size)) else none
  | _ => none

def scanFrom (takes : Record → Bool) : Nat → Bytes → List Record × Bytes
  | 0, data => ([], data)
  | fuel + 1, data =>
      match frontRecord settings data with
      | none => ([], data)
      | some (size, record) =>
          if takes record then
            let (records, rest) := scanFrom takes fuel (data.drop size)
            (record :: records, rest)
          else ([], data)

/-- The complete records from the front, while they are taken, and the bytes behind them. -/
def scan (takes : Record → Bool) (data : Bytes) : List Record × Bytes := scanFrom settings takes data.length data

/-- All complete records from the front. -/
def recordsIn (data : Bytes) : List Record := (scan settings (fun _ => true) data).1

end Scan

/-! ## Records at the front of some bytes -/

section Front

variable {settings : Settings} {takes : Record → Bool} {data : Bytes} {size : Nat} {record : Record}

theorem frontRecord_known (known : readRecordSize settings data = .known size) (complete : size ≤ data.length) :
    frontRecord settings data = some (size, Record.decode settings.trackEstimatedTime (data.take size)) := by
  rw [frontRecord, known]
  exact if_pos complete

theorem frontRecord_incomplete (incomplete : BinlogWrapper.Incomplete settings data) :
    frontRecord settings data = none := by
  unfold frontRecord
  split
  · rename_i size known
    exact if_neg (Nat.not_le.mpr (incomplete size known))
  · rfl

theorem frontRecord_size (front : frontRecord settings data = some (size, record)) :
    kBlockSize ≤ size ∧ size ≤ data.length ∧ kBlockSize ∣ size ∧ readRecordSize settings data = .known size ∧
      record = Record.decode settings.trackEstimatedTime (data.take size) := by
  unfold frontRecord at front
  split at front
  · rename_i found known
    split_ifs at front with complete
    cases front
    obtain ⟨aligned, large, -⟩ := readRecordSize_known known
    exact ⟨large, complete, aligned, known, rfl⟩
  · cases front

/-- What is behind a record does not matter for it. -/
theorem frontRecord_take (front : frontRecord settings data = some (size, record)) (more : Bytes) :
    frontRecord settings (data.take size ++ more) = some (size, record) := by
  obtain ⟨large, complete, -, known, rfl⟩ := frontRecord_size front
  have length : (data.take size).length = size := by
    rw [List.length_take]
    omega
  have long : 16 ≤ (data.take size).length := by
    rw [length]
    exact large
  have same : readRecordSize settings (data.take size ++ more) = .known size := by
    rw [readRecordSize_append long, ← known]
    conv_rhs => rw [← List.take_append_drop size data]
    exact (readRecordSize_append long _).symm
  rw [frontRecord_known same (by rw [List.length_append]; omega), List.take_append_of_le_length length.ge,
    List.take_take, Nat.min_self]

/-- A record as it is written. -/
theorem frontRecord_encode (valid : record.Valid settings) (more : Bytes) :
    frontRecord settings (record.encode settings.trackEstimatedTime ++ more) =
      some ((record.encode settings.trackEstimatedTime).length, record) := by
  rw [frontRecord_known (readRecordSize_encode valid more) (by rw [List.length_append]; omega), List.take_left,
    Record.decode_encode valid]

/-- More fuel than there are bytes changes nothing. -/
theorem scanFrom_fuel {fuel fuel' : Nat} (enough : data.length ≤ fuel) (enough' : data.length ≤ fuel') :
    scanFrom settings takes fuel data = scanFrom settings takes fuel' data := by
  have none : ∀ n, scanFrom settings takes n [] = ([], []) := by
    intro n
    cases n with
    | zero => rfl
    | succ n => rfl
  induction fuel generalizing fuel' data with
  | zero =>
      have empty := List.eq_nil_of_length_eq_zero (Nat.le_zero.mp enough)
      rw [empty, none, none]
  | succ fuel ih =>
      cases fuel' with
      | zero =>
          have empty := List.eq_nil_of_length_eq_zero (Nat.le_zero.mp enough')
          rw [empty, none, none]
      | succ fuel' =>
          rw [scanFrom, scanFrom]
          split
          · rfl
          · rename_i size record front
            have large := (frontRecord_size front).1
            simp only [kBlockSize] at large
            rw [@ih (data.drop size) fuel' (by rw [List.length_drop]; omega) (by rw [List.length_drop]; omega)]

theorem scan_none (none : frontRecord settings data = none) : scan settings takes data = ([], data) := by
  unfold scan
  cases data.length with
  | zero => rfl
  | succ fuel => rw [scanFrom, none]

theorem scan_refused (front : frontRecord settings data = some (size, record)) (refused : takes record = false) :
    scan settings takes data = ([], data) := by
  unfold scan
  cases data.length with
  | zero => rfl
  | succ fuel =>
      rw [scanFrom, front]
      exact if_neg (by simp [refused])

theorem scan_next (front : frontRecord settings data = some (size, record)) (taken : takes record = true) :
    scan settings takes data =
      (record :: (scan settings takes (data.drop size)).1, (scan settings takes (data.drop size)).2) := by
  obtain ⟨large, complete, -⟩ := frontRecord_size front
  simp only [kBlockSize] at large
  unfold scan
  cases length : data.length with
  | zero => omega
  | succ fuel =>
      have enough : (data.drop size).length ≤ fuel := by
        rw [List.length_drop]
        omega
      rw [scanFrom, front]
      simp only [taken, if_true]
      rw [scanFrom_fuel enough (Nat.le_refl _)]

/-- Induction along the records that are taken. -/
theorem scan_induction {settings : Settings} {takes : Record → Bool} {motive : Bytes → Prop}
    (stop : ∀ data, scan settings takes data = ([], data) →
      (∀ size record, frontRecord settings data = some (size, record) → takes record = false) → motive data)
    (next : ∀ data size record, frontRecord settings data = some (size, record) → takes record = true →
      motive (data.drop size) → motive data) (data : Bytes) : motive data := by
  cases front : frontRecord settings data with
  | none => exact stop data (scan_none front) (by rw [front]; nofun)
  | some found =>
      obtain ⟨size, record⟩ := found
      cases taken : takes record with
      | false =>
          refine stop data (scan_refused front taken) fun size' record' front' => ?_
          rw [front] at front'
          cases front'
          exact taken
      | true =>
          obtain ⟨large, complete, -⟩ := frontRecord_size front
          have shorter : (data.drop size).length < data.length := by
            simp only [kBlockSize] at large
            rw [List.length_drop]
            omega
          exact next data size record front taken (scan_induction stop next (data.drop size))
termination_by data.length
decreasing_by exact shorter

/-- The bytes of the records that are taken hold these records, whatever is behind them. -/
theorem scan_taken {takes' : Record → Bool} (weaker : ∀ r, takes r = true → takes' r = true) (data : Bytes) :
    ∃ taken, data = taken ++ (scan settings takes data).2 ∧ kBlockSize ∣ taken.length ∧
      ∀ more, scan settings takes' (taken ++ more) =
        ((scan settings takes data).1 ++ (scan settings takes' more).1, (scan settings takes' more).2) := by
  induction data using @scan_induction settings takes with
  | stop data stopped _ =>
      refine ⟨[], ?_, Nat.dvd_zero _, ?_⟩
      · rw [stopped, List.nil_append]
      · intro more
        rw [stopped, List.nil_append, List.nil_append]
  | next data size record front accepted ih =>
      obtain ⟨taken, split, aligned, others⟩ := ih
      obtain ⟨large, complete, sized, -⟩ := frontRecord_size front
      have length : (data.take size).length = size := by
        rw [List.length_take]
        omega
      rw [scan_next front accepted]
      refine ⟨data.take size ++ taken, ?_, ?_, ?_⟩
      · rw [List.append_assoc, ← split, List.take_append_drop]
      · rw [List.length_append, length]
        exact Nat.dvd_add sized aligned
      · intro more
        have first := frontRecord_take front (taken ++ more)
        have behind : (data.take size ++ (taken ++ more)).drop size = taken ++ more := List.drop_left' length
        rw [List.append_assoc, scan_next first (weaker record accepted), behind, others]
        rfl

/-- Where records are not taken, the first one is not. -/
theorem frontRecord_scan (data : Bytes) {size : Nat} {record : Record}
    (front : frontRecord settings (scan settings takes data).2 = some (size, record)) : takes record = false := by
  induction data using @scan_induction settings takes with
  | stop data stopped refuses =>
      rw [stopped] at front
      exact refuses size record front
  | next data size' record' front' taken ih =>
      rw [scan_next front' taken] at front
      exact ih front

end Front

/-! ## The index that records give -/

/-- What replaying keeps of the records: the last time, and the entries. -/
@[ext]
structure Replayed where
  time : EstimatedTimePoint
  entries : Key → Option Entry

namespace Replayed

variable (settings : Settings)

def applyTimePoint (s : Replayed) (time : EstimatedTimePoint) : Replayed :=
  if time.relative > s.time.relative then { s with time := time } else s

def store (s : Replayed) (part : Store) : Replayed :=
  let useTime := if settings.trackEstimatedTime then part.time.relative else s.time.relative
  let s := if settings.trackEstimatedTime then s.applyTimePoint part.time else s
  { s with entries := Function.update s.entries part.key (some (part.entry useTime)) }

def remove (s : Replayed) (keys : List Key) : Replayed :=
  { s with entries := fun key => if key ∈ keys then none else s.entries key }

def use (s : Replayed) (time : EstimatedTimePoint) (keys : List Key) : Replayed :=
  { s.applyTimePoint time with
    entries := fun key =>
      if key ∈ keys then (s.entries key).map fun entry => { entry with useTime := time.relative }
      else s.entries key }

def record (s : Replayed) : Record → Replayed
  | .store part => s.store settings part
  | .multiStore parts => parts.foldl (store settings) s
  | .multiRemove keys => s.remove keys
  | .multiAccess time keys => s.use time keys

/-- The records of a binlog, one after another. -/
def replay (s : Replayed) (records : List Record) : Replayed := records.foldl (record settings) s

end Replayed

namespace DatabaseObject

variable {settings : Settings}

def replayed (d : DatabaseObject) : Replayed := ⟨d.time, d.map.find?⟩

theorem time_addSummary (d : DatabaseObject) (tag : UInt8) (count totalSize : Int) :
    (d.addSummary tag count totalSize).time = d.time := by
  unfold addSummary
  split_ifs
  · rfl
  · rfl

theorem time_updateStats (d : DatabaseObject) (was now : Entry) : (d.updateStats was now).time = d.time := by
  unfold updateStats
  simp only
  split_ifs
  · rw [time_addSummary]
  · rw [time_addSummary, time_addSummary]

theorem time_updateMinimal (d : DatabaseObject) (already entry : Entry) :
    (d.updateMinimal already entry).time = d.time := by
  unfold updateMinimal
  split_ifs
  all_goals rfl

theorem time_eraseMapEntry (d : DatabaseObject) (key : Key) (entry : Entry) :
    (d.eraseMapEntry key entry).time = d.time := by
  rw [← time_updateStats d entry {}]
  simp only [eraseMapEntry]
  split_ifs
  · rfl
  · rfl

theorem time_setMapEntry (d : DatabaseObject) (key : Key) (entry : Entry) :
    (d.setMapEntry settings key entry).time = d.time := by
  rw [← time_updateStats d ((d.map.find? key).getD {}) entry]
  simp only [setMapEntry]
  generalize d.updateStats ((d.map.find? key).getD {}) entry = counted
  refine (time_updateMinimal _ _ _).trans ?_
  split_ifs
  · rfl
  · rfl

theorem find?_set (map : SortedMap Key Entry) (key : Key) (entry : Entry) :
    ((map.erase key).emplace key entry).find? = Function.update map.find? key (some entry) := by
  funext j
  simp only [SortedMap.find?_emplace, SortedMap.find?_erase, Function.update_apply, if_true]
  split_ifs
  · rfl
  · rfl

theorem replayed_setMapEntry (d : DatabaseObject) (key : Key) (entry : Entry) :
    (d.setMapEntry settings key entry).replayed =
      { d.replayed with entries := Function.update d.map.find? key (some entry) } := by
  have core := @core_setMapEntry settings d key entry
  apply Replayed.ext
  · exact time_setMapEntry d key entry
  · have map : (d.setMapEntry settings key entry).map = _ := congrArg Core.map core
    exact (congrArg SortedMap.find? map).trans (find?_set d.map key entry)

theorem replayed_applyTimePoint (d : DatabaseObject) (time : EstimatedTimePoint) :
    (d.applyTimePoint time).replayed = d.replayed.applyTimePoint time := by
  unfold applyTimePoint Replayed.applyTimePoint
  by_cases later : time.relative > d.time.relative
  · rw [if_pos later]
    exact (if_pos later).symm
  · rw [if_neg later]
    exact (if_neg later).symm

theorem replayed_processRecordStore {part : Store} (accepted : part.Accepted settings) (d : DatabaseObject) :
    (d.processRecordStore settings part).1 = true ∧
      (d.processRecordStore settings part).2.replayed = d.replayed.store settings part := by
  have good : ¬ (part.size = 0 ∨ part.size > settings.maxDataSize) := by
    have := accepted.1
    have := accepted.2
    omega
  unfold processRecordStore Replayed.store
  rw [if_neg good]
  refine ⟨rfl, (replayed_setMapEntry _ _ _).trans ?_⟩
  by_cases tracks : settings.trackEstimatedTime = true
  · simp only [tracks, if_true, ← replayed_applyTimePoint]
    rfl
  · simp only [tracks]
    rfl

theorem processRecordStore_rejected {part : Store} (rejected : ¬ part.Accepted settings) (d : DatabaseObject) :
    d.processRecordStore settings part = (false, d) := by
  have bad : part.size = 0 ∨ part.size > settings.maxDataSize := by
    unfold Store.Accepted at rejected
    omega
  rw [processRecordStore, if_pos bad]

/-- The parts up to the first one that is not accepted. -/
theorem replayed_processRecordMultiStore (parts : List Store) (d : DatabaseObject) :
    (d.processRecordMultiStore settings parts).1 = (parts.all fun part => decide (part.Accepted settings)) ∧
      (d.processRecordMultiStore settings parts).2.replayed =
        (parts.takeWhile fun part => decide (part.Accepted settings)).foldl (Replayed.store settings) d.replayed := by
  induction parts generalizing d with
  | nil => exact ⟨rfl, rfl⟩
  | cons part parts ih =>
      rw [processRecordMultiStore, List.all_cons, List.takeWhile_cons]
      by_cases accepted : part.Accepted settings
      · obtain ⟨stored, replayed⟩ := replayed_processRecordStore accepted d
        rcases outcome : d.processRecordStore settings part with ⟨accepts, d'⟩
        rw [outcome] at stored replayed
        simp only at stored replayed
        simp only [stored, accepted, decide_true, Bool.true_and, if_true, List.foldl_cons, ← replayed]
        exact ih d'
      · simp only [processRecordStore_rejected accepted, accepted, decide_false, Bool.false_and, Bool.false_eq_true,
          if_false, List.foldl_nil, and_self]

theorem replayed_processRecordMultiRemove (keys : List Key) (d : DatabaseObject) :
    (d.processRecordMultiRemove keys).replayed = d.replayed.remove keys := by
  have each : ∀ (keys : List Key) (d : DatabaseObject),
      (keys.foldl processRemoved d).replayed = d.replayed.remove keys := by
    intro keys
    induction keys with
    | nil =>
        intro d
        simp [Replayed.remove]
    | cons key keys ih =>
        intro d
        have one : (d.processRemoved key).replayed = d.replayed.remove [key] := by
          unfold processRemoved
          simp only
          split
          · rename_i missing
            apply Replayed.ext
            · rfl
            · funext j
              simp only [Replayed.remove, replayed, List.mem_singleton]
              split_ifs with same
              · rw [same]
                exact missing
              · rfl
          · rename_i entry found
            apply Replayed.ext
            · exact time_eraseMapEntry _ key entry
            · funext j
              have core := core_eraseMapEntry { d with binlogExcessLength := d.binlogExcessLength + 16 } key entry
              have map : (eraseMapEntry _ key entry).map = d.map.erase key := congrArg Core.map core
              simp only [Replayed.remove, replayed, List.mem_singleton, map, SortedMap.find?_erase]
              split_ifs
              · rfl
              · rfl
        rw [List.foldl_cons, ih, one]
        apply Replayed.ext
        · rfl
        · funext j
          simp only [Replayed.remove, List.mem_cons, List.not_mem_nil, or_false]
          grind
  exact each keys _

theorem time_foldl_setUseTime (relative : UInt64) (keys : List Key) (d : DatabaseObject) :
    (keys.foldl (setUseTime relative) d).time = d.time := by
  induction keys generalizing d with
  | nil => rfl
  | cons key keys ih =>
      rw [List.foldl_cons, ih, setUseTime]
      split
      · rfl
      · rfl

theorem find?_touched (relative : UInt64) (map : SortedMap Key Entry) (keys : List Key) (key : Key) :
    (touched relative map keys).find? key =
      if key ∈ keys then (map.find? key).map fun entry => { entry with useTime := relative } else map.find? key := by
  induction keys generalizing map with
  | nil => rfl
  | cons first keys ih =>
      unfold touched at ih ⊢
      rw [List.foldl_cons, ih]
      cases found : map.find? first with
      | none =>
          simp only [List.mem_cons]
          grind
      | some entry =>
          simp only [find?_set, Function.update_apply, List.mem_cons]
          grind

theorem replayed_processRecordMultiAccess (time : EstimatedTimePoint) (keys : List Key) (d : DatabaseObject) :
    (d.processRecordMultiAccess time keys).replayed = d.replayed.use time keys := by
  have before := replayed_applyTimePoint d time
  unfold processRecordMultiAccess
  simp only
  generalize d.applyTimePoint time = x at before
  have core := core_foldl_setUseTime time.relative keys
    { x with binlogExcessLength := x.binlogExcessLength + 16 + 16 * keys.length }
  have map : (keys.foldl (setUseTime time.relative) _).map = touched time.relative x.map keys := congrArg Core.map core
  have entries : x.map.find? = d.map.find? := by
    have same := congrArg Replayed.entries before
    refine same.trans ?_
    unfold Replayed.applyTimePoint
    split_ifs
    · rfl
    · rfl
  apply Replayed.ext
  · exact (time_foldl_setUseTime _ _ _).trans (congrArg Replayed.time before)
  · funext key
    simp only [replayed, map, find?_touched, Replayed.use, entries]

/-- Replaying a record does to the index what the record says, if it is accepted. -/
theorem processRecord_replayed (record : Record) (d : DatabaseObject) :
    (d.processRecord settings record).1 = record.acceptable settings ∧
      (record.acceptable settings = true →
        (d.processRecord settings record).2.replayed = d.replayed.record settings record) ∧
      (record.acceptable settings = false →
        (d.processRecord settings record).2.replayed =
          (record.storedParts settings).foldl (Replayed.store settings) d.replayed) := by
  cases record with
  | store part =>
      by_cases accepted : part.Accepted settings
      · obtain ⟨stored, replayed⟩ := replayed_processRecordStore accepted d
        refine ⟨?_, fun _ => replayed, fun rejected => ?_⟩
        · simpa [processRecord, Record.acceptable, accepted] using stored
        · simp [Record.acceptable, accepted] at rejected
      · have same := processRecordStore_rejected accepted d
        refine ⟨?_, fun acceptable => ?_, fun _ => ?_⟩
        · simp [processRecord, same, Record.acceptable, accepted]
        · simp [Record.acceptable, accepted] at acceptable
        · simp [processRecord, same, Record.storedParts]
  | multiStore parts =>
      obtain ⟨stored, replayed⟩ := @replayed_processRecordMultiStore settings parts d
      refine ⟨stored, fun acceptable => replayed.trans ?_, fun _ => replayed⟩
      have all := List.all_eq_true.mp acceptable
      rw [List.takeWhile_eq_self_iff.mpr all]
      rfl
  | multiRemove keys => exact ⟨rfl, fun _ => replayed_processRecordMultiRemove keys d, fun same => by cases same⟩
  | multiAccess time keys => exact ⟨rfl, fun _ => replayed_processRecordMultiAccess time keys d, fun same => by cases same⟩

end DatabaseObject

end IMeDesktop.Storage.Cache
