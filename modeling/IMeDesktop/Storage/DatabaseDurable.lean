import IMeDesktop.Storage.DatabaseOpening

/-! # Closing a database and opening it again

A binlog that was written without interruption is a header with whole records behind it. The
database keeps such a file in step with its index: what the records say and what is in memory
differ on the removals that wait for their bundle, and nowhere else. Closing writes these, so
the next opening finds the index as it was.

The journals of the library are used for the index; what is added here is how each effect
writes its change down, and how the bytes are read again.
-/

namespace IMeDesktop.Storage.Cache

open Lib

/-! ## What records change -/

def changesOf (records : List Record) : List (Change Key IndexEntry) := records.flatMap Record.changes

theorem changesOf_append (first second : List Record) :
    changesOf (first ++ second) = changesOf first ++ changesOf second := List.flatMap_append

namespace Replayed

variable (settings : Settings)

def index (s : Replayed) (k : Key) : Option IndexEntry := (s.entries k).map Entry.index

theorem index_store (s : Replayed) (part : Store) :
    (s.store settings part).index = Change.apply s.index (.set part.key part.index) := by
  funext k
  have entries : ∃ useTime, (s.store settings part).entries =
      Function.update s.entries part.key (some (part.entry useTime)) := by
    refine ⟨if settings.trackEstimatedTime then part.time.relative else s.time.relative, ?_⟩
    unfold store applyTimePoint
    split_ifs
    all_goals rfl
  obtain ⟨useTime, entries⟩ := entries
  simp only [index, entries, Change.apply, Function.update_apply]
  split_ifs
  · rfl
  · rfl

theorem index_record (s : Replayed) (r : Record) :
    (s.record settings r).index = Change.replay s.index r.changes := by
  cases r with
  | store part => exact index_store settings s part
  | multiStore parts =>
      simp only [record, Record.changes]
      induction parts generalizing s with
      | nil => rfl
      | cons part parts ih =>
          rw [List.foldl_cons, ih, index_store]
          rfl
  | multiRemove keys =>
      funext k
      simp only [record, Record.changes, Change.replay_erases, index, remove]
      split_ifs
      · rfl
      · rfl
  | multiAccess time keys =>
      funext k
      simp only [record, Record.changes, Change.replay_nil, index, use]
      split_ifs
      · rw [Option.map_map]
        rfl
      · rfl

theorem index_replay (s : Replayed) (records : List Record) :
    (s.replay settings records).index = Change.replay s.index (changesOf records) := by
  induction records generalizing s with
  | nil => rfl
  | cons r records ih =>
      have first := ih (s.record settings r)
      rw [index_record, ← Change.replay_append] at first
      exact first

end Replayed

/-! ## Files of whole records -/

section Files

variable {settings : Settings} {data : Bytes} {records : List Record} {r : Record}

theorem Record.Valid.acceptable (valid : r.Valid settings) : r.acceptable settings = true := by
  cases r with
  | store part => exact decide_eq_true valid.1
  | multiStore parts => exact List.all_eq_true.mpr fun part member => decide_eq_true (valid.2.2 part member).1
  | multiRemove keys => rfl
  | multiAccess time keys => rfl

/-- A record takes whole blocks. -/
theorem Record.Valid.aligned (valid : r.Valid settings) :
    kBlockSize ∣ (r.encode settings.trackEstimatedTime).length :=
  (readRecordSize_known (readRecordSize_encode valid [])).1

def encodeAll (settings : Settings) (records : List Record) : Bytes :=
  records.flatMap (Record.encode settings.trackEstimatedTime)

theorem encodeAll_append (first second : List Record) :
    encodeAll settings (first ++ second) = encodeAll settings first ++ encodeAll settings second := List.flatMap_append

theorem scan_encodeAll {takes : Record → Bool} (valid : ∀ r ∈ records, r.Valid settings)
    (taken : ∀ r ∈ records, takes r = true) (rest : Bytes) :
    scan settings takes (encodeAll settings records ++ rest) =
      (records ++ (scan settings takes rest).1, (scan settings takes rest).2) := by
  induction records with
  | nil => rfl
  | cons r records ih =>
      obtain ⟨first, others⟩ := List.forall_mem_cons.mp valid
      obtain ⟨firstTaken, othersTaken⟩ := List.forall_mem_cons.mp taken
      have bytes : encodeAll settings (r :: records) ++ rest =
          r.encode settings.trackEstimatedTime ++ (encodeAll settings records ++ rest) := by
        simp [encodeAll]
      rw [bytes, scan_next (frontRecord_encode first _) firstTaken, List.drop_left, ih others othersTaken]
      rfl

theorem encodeAll_aligned (valid : ∀ r ∈ records, r.Valid settings) :
    kBlockSize ∣ (encodeAll settings records).length := by
  induction records with
  | nil => exact Nat.dvd_zero _
  | cons r records ih =>
      obtain ⟨first, others⟩ := List.forall_mem_cons.mp valid
      rw [show encodeAll settings (r :: records) =
        r.encode settings.trackEstimatedTime ++ encodeAll settings records from rfl, List.length_append]
      exact Nat.dvd_add first.aligned (ih others)

/-- A header that fits the settings, and behind it these records and nothing else. -/
structure Holds (settings : Settings) (data : Bytes) (records : List Record) : Prop where
  header : (DatabaseObject.readHeader settings data).isSome = true
  bytes : data.drop 16 = encodeAll settings records
  valid : ∀ r ∈ records, r.Valid settings

theorem long_of_readHeader (header : (DatabaseObject.readHeader settings data).isSome = true) : 16 ≤ data.length := by
  by_contra short
  rw [DatabaseObject.readHeader, if_pos (Nat.lt_of_not_le short)] at header
  cases header

theorem readHeader_append (long : 16 ≤ data.length) (more : Bytes) :
    DatabaseObject.readHeader settings (data ++ more) = DatabaseObject.readHeader settings data := by
  have first : (data ++ more).getD 0 0 = data.getD 0 0 := List.getD_append _ _ _ _ (by omega)
  have second : (data ++ more).getD 1 0 = data.getD 1 0 := List.getD_append _ _ _ _ (by omega)
  have time : window (data ++ more) 4 4 = window data 4 4 := by
    rw [window, window, List.drop_append_of_le_length (by omega),
      List.take_append_of_le_length (by rw [List.length_drop]; omega)]
  have enough : ¬ (data ++ more).length < 16 := by
    rw [List.length_append]
    omega
  simp only [DatabaseObject.readHeader, first, second, time, enough, Nat.not_lt.mpr long, if_false]

namespace Holds

variable (h : Holds settings data records)

include h

theorem long : 16 ≤ data.length := long_of_readHeader h.header

theorem length : data.length = 16 + (encodeAll settings records).length := by
  have length := congrArg List.length h.bytes
  rw [List.length_drop] at length
  have := h.long
  omega

theorem aligned : kBlockSize ∣ data.length := by
  rw [h.length]
  exact Nat.dvd_add (Nat.dvd_refl 16) (encodeAll_aligned h.valid)

theorem append {more : List Record} (valid : ∀ r ∈ more, r.Valid settings) :
    Holds settings (data ++ encodeAll settings more) (records ++ more) := by
  refine ⟨?_, ?_, ?_⟩
  · rw [readHeader_append h.long]
    exact h.header
  · rw [List.drop_append_of_le_length h.long, h.bytes, encodeAll_append]
  · exact fun r member => (List.mem_append.mp member).elim (h.valid r) (valid r)

theorem scanned : scan settings (Record.acceptable settings) (data.drop 16) = (records, []) := by
  have all := scan_encodeAll h.valid (fun r member => (h.valid r member).acceptable) []
  have nothing : scan settings (Record.acceptable settings) [] = ([], []) := scan_none rfl
  rwa [List.append_nil, nothing, List.append_nil, ← h.bytes] at all

end Holds

end Files

/-! ## A database in step with its file -/

namespace DatabaseObject

open Batched Relation

variable {settings : Settings} {d d' : DatabaseObject} {records : List Record}

/-- The database as a map with a journal. -/
def batched (d : DatabaseObject) (records : List Record) : Batched Key IndexEntry where
  map := index d.map
  pending := {k | d.removing.contains k = true}
  journal := changesOf records

structure InStep (settings : Settings) (d : DatabaseObject) (records : List Record) : Prop where
  file : Holds settings d.binlog.data records
  offset : d.binlog.offset = d.binlog.size
  agrees : (d.batched records).Agrees

theorem write_end {f : File} (atEnd : f.offset = f.size) (bytes : Bytes) :
    (f.write bytes).data = f.data ++ bytes ∧ (f.write bytes).offset = (f.write bytes).size := by
  have all : f.offset = f.data.length := atEnd
  have behind : f.data.drop (f.offset + bytes.length) = [] := List.drop_eq_nil_of_le (by omega)
  have data : (f.write bytes).data = f.data ++ bytes := by
    rw [File.write, behind, List.append_nil, all, List.take_length]
  refine ⟨data, ?_⟩
  rw [File.size, data, List.length_append]
  exact congrArg (· + bytes.length) all

/-- Of the entries, the time of use is not in the index. -/
theorem index_touched (relative : UInt64) (map : SortedMap Key Entry) (keys : List Key) :
    index (touched relative map keys) = index map := by
  funext k
  rw [index, find?_touched]
  split_ifs
  · rw [Option.map_map]
    rfl
  · rfl

/-- What an effect writes down, and what it does to the journal. -/
inductive Writes (settings : Settings) (d d' : DatabaseObject) (records : List Record) : List Record → Prop where
  | nothing (binlog : d'.binlog = d.binlog) (step : ReflGen Step (d.batched records) (d'.batched records)) :
      Writes settings d d' records []
  | record (r : Record) (valid : r.Valid settings)
      (binlog : d'.binlog = d.binlog.write (r.encode settings.trackEstimatedTime))
      (step : ReflGen Step (d.batched records) (d'.batched (records ++ [r]))) : Writes settings d d' records [r]

theorem mem_keysOf_iff {keys : SortedMap Key Unit} {k : Key} : k ∈ keysOf keys ↔ keys.contains k = true := by
  rw [SortedMap.contains_iff, keysOf, List.mem_map]
  constructor
  · rintro ⟨⟨j, u⟩, member, rfl⟩
    exact ⟨u, member⟩
  · rintro ⟨u, member⟩
    exact ⟨(k, u), member, rfl⟩

theorem batched_ext {map : Key → Option IndexEntry} {pending : Set Key} {journal : List (Change Key IndexEntry)}
    (sameMap : index d'.map = map) (samePending : ∀ k, d'.removing.contains k = true ↔ k ∈ pending)
    (sameJournal : changesOf records = journal) : d'.batched records = ⟨map, pending, journal⟩ := by
  subst sameMap sameJournal
  rw [batched, show {k | d'.removing.contains k = true} = pending from Set.ext samePending]

theorem batched_congr {records' : List Record} (sameMap : index d'.map = index d.map)
    (sameRemoving : d'.removing = d.removing) (sameJournal : changesOf records' = changesOf records) :
    d'.batched records' = d.batched records := by
  simp only [batched, sameMap, sameRemoving, sameJournal]

theorem writes_effect (effect : Effect settings d d') (agrees : (d.batched records).Agrees) :
    ∃ added, Writes settings d d' records added := by
  cases effect with
  | quiet core _ =>
      refine ⟨[], .nothing (congrArg Core.binlog core) ?_⟩
      rw [batched_congr (congrArg index (congrArg Core.map core)) (congrArg Core.removing core) rfl]
  | access key core _ =>
      refine ⟨[], .nothing (congrArg Core.binlog core) ?_⟩
      rw [batched_congr (congrArg index (congrArg Core.map core)) (congrArg Core.removing core) rfl]
  | cancel key stored core _ =>
      refine ⟨[], .nothing (congrArg Core.binlog core) ?_⟩
      -- what is in the index is not waiting to be removed
      have settled : d.removing.find? key = none := by
        by_contra waits
        have absent := agrees.absent key (Option.ne_none_iff_isSome.mp waits)
        have missing : d.map.find? key = none := Option.map_eq_none_iff.mp absent
        simp [SortedMap.contains, missing] at stored
      have removing : d'.removing = d.removing.erase key := congrArg Core.removing core
      rw [SortedMap.erase_of_missing settled] at removing
      rw [batched_congr (congrArg index (congrArg Core.map core)) removing rfl]
  | store part useTime accepted storable core _ =>
      refine ⟨[.store part], .record (.store part) ⟨accepted, storable⟩ (congrArg Core.binlog core) ?_⟩
      refine .single ?_
      have after : d'.batched (records ++ [.store part]) = ⟨Function.update (index d.map) part.key (some part.index),
          {k | d.removing.contains k = true} \ {part.key}, changesOf records ++ [.set part.key part.index]⟩ := by
        apply batched_ext
        · rw [show d'.map = _ from congrArg Core.map core, index_set]
          rfl
        · intro k
          rw [show d'.removing = _ from congrArg Core.removing core, SortedMap.contains_erase]
          simp [and_comm]
        · rw [changesOf_append]
          rfl
      rw [after]
      exact .set (d.batched records) part.key part.index
  | remove key entry found core _ =>
      refine ⟨[], .nothing (congrArg Core.binlog core) (.single ?_)⟩
      have after : d'.batched records = ⟨Function.update (index d.map) key none,
          insert key {k | d.removing.contains k = true}, changesOf records⟩ := by
        apply batched_ext
        · rw [show d'.map = _ from congrArg Core.map core, index_erase]
        · intro k
          rw [show d'.removing = _ from congrArg Core.removing core, SortedMap.contains_emplace]
          exact or_comm
        · rfl
      rw [after]
      exact .remove (d.batched records) key
  | flush some few core _ =>
      have short : (keysOf d.removing).length ≤ settings.maxBundledRecords := by
        rw [keysOf, List.length_map]
        exact few
      refine ⟨[.multiRemove (keysOf d.removing)],
        .record (.multiRemove _) ⟨some, short⟩ (congrArg Core.binlog core) (.single ?_)⟩
      have after : d'.batched (records ++ [.multiRemove (keysOf d.removing)]) =
          ⟨index d.map, ∅, changesOf records ++ (keysOf d.removing).map .erase⟩ := by
        apply batched_ext
        · rw [show d'.map = d.map from congrArg Core.map core]
        · intro k
          rw [show d'.removing = .empty from congrArg Core.removing core]
          simp [SortedMap.contains]
        · rw [changesOf_append]
          simp [changesOf, Record.changes]
      rw [after]
      exact .flush (d.batched records) (keysOf d.removing) fun k => mem_keysOf_iff
  | times time tracks few core _ =>
      have short : (keysOf d.accessed).length ≤ settings.maxBundledRecords := by
        rw [keysOf, List.length_map]
        exact few
      refine ⟨[.multiAccess time (keysOf d.accessed)],
        .record (.multiAccess time _) ⟨tracks, short⟩ (congrArg Core.binlog core) ?_⟩
      have map : index d'.map = index d.map := by
        rw [show d'.map = _ from congrArg Core.map core, index_touched]
      have after : d'.batched (records ++ [.multiAccess time (keysOf d.accessed)]) = d.batched records :=
        batched_congr map (congrArg Core.removing core) (by simp [changesOf, Record.changes])
      rw [after]

theorem InStep.writes {added : List Record} (h : InStep settings d records)
    (writes : Writes settings d d' records added) : InStep settings d' (records ++ added) := by
  cases writes with
  | nothing binlog step =>
      rw [List.append_nil]
      refine ⟨?_, ?_, agrees_steps h.agrees step.to_reflTransGen⟩
      · rw [binlog]
        exact h.file
      · rw [binlog]
        exact h.offset
  | record r valid binlog step =>
      obtain ⟨data, offset⟩ := write_end h.offset (r.encode settings.trackEstimatedTime)
      refine ⟨?_, ?_, agrees_steps h.agrees step.to_reflTransGen⟩
      · rw [binlog, data]
        have more := @Holds.append settings d.binlog.data records h.file [r] fun r' member =>
          (List.mem_singleton.mp member) ▸ valid
        simpa [encodeAll] using more
      · rw [binlog]
        exact offset

/-- A state that effects pass, with the records that were written until then. What the file says of a key is what it
said at first, or what was in memory at some time. -/
structure Between (settings : Settings) (d : DatabaseObject) (records written : List Record) (x : DatabaseObject) :
    Prop where
  effects : Effects settings d x
  bytes : x.binlog.data = d.binlog.data ++ encodeAll settings written
  steps : Steps (d.batched records) (x.batched (records ++ written))
  inStep : InStep settings x (records ++ written)
  held : ∀ k, Change.replay (fun _ => none) (changesOf (records ++ written)) k =
      Change.replay (fun _ => none) (changesOf records) k ∨
    ∃ w, Effects settings d w ∧ Effects settings w x ∧
      Change.replay (fun _ => none) (changesOf (records ++ written)) k = index w.map k

theorem InStep.between (h : InStep settings d records) : Between settings d records [] d where
  effects := .refl
  bytes := (List.append_nil _).symm
  steps := by
    rw [List.append_nil]
    exact .refl
  inStep := by rwa [List.append_nil]
  held k := by
    rw [List.append_nil]
    exact .inl rfl

theorem Between.next {x y : DatabaseObject} {written added : List Record}
    (h : Between settings d records written x) (effect : Effect settings x y)
    (writes : Writes settings x y (records ++ written) added) : Between settings d records (written ++ added) y := by
  have inStep := h.inStep.writes writes
  have step : ReflGen Step (x.batched (records ++ written)) (y.batched (records ++ (written ++ added))) := by
    rw [← List.append_assoc]
    cases writes with
    | nothing _ step => rwa [List.append_nil]
    | record _ _ _ step => exact step
  have bytes : y.binlog.data = d.binlog.data ++ encodeAll settings (written ++ added) := by
    rw [encodeAll_append, ← List.append_assoc, ← h.bytes]
    cases writes with
    | nothing binlog _ =>
        rw [binlog]
        exact (List.append_nil _).symm
    | record r _ binlog _ =>
        rw [binlog, (write_end h.inStep.offset _).1]
        simp [encodeAll]
  rw [List.append_assoc] at inStep
  refine ⟨h.effects.tail effect, bytes, h.steps.trans step.to_reflTransGen, inStep, fun k => ?_⟩
  by_cases waits : y.removing.contains k = true
  · -- nothing is written about a key that waits
    have same : Change.replay (fun _ => none) (changesOf (records ++ (written ++ added))) k =
        Change.replay (fun _ => none) (changesOf (records ++ written)) k := by
      cases reflGen_iff _ _ _ |>.mp step with
      | inl same => exact congrArg (fun b => Change.replay (fun _ => none) b.journal k) same
      | inr step => exact replay_pending step waits _
    rw [same]
    rcases h.held k with old | ⟨w, before, after, value⟩
    · exact .inl old
    · exact .inr ⟨w, before, after.tail effect, value⟩
  · exact .inr ⟨y, h.effects.tail effect, .refl, inStep.agrees.replayed k waits⟩

/-- Effects only add records, and some state between them goes with each part of these. -/
theorem InStep.effects (h : InStep settings d records) (effects : Effects settings d d') :
    ∃ added, Between settings d records added d' ∧
      ∀ written, written <+: added → ∃ x, Between settings d records written x ∧ Effects settings x d' := by
  induction effects with
  | refl =>
      refine ⟨[], h.between, fun written part => ⟨d, ?_, .refl⟩⟩
      rw [List.prefix_nil.mp part]
      exact h.between
  | @tail y z before last ih =>
      obtain ⟨added, reached, between⟩ := ih
      obtain ⟨more, writes⟩ := writes_effect last reached.inStep.agrees
      have after := reached.next last writes
      refine ⟨added ++ more, after, fun written part => ?_⟩
      by_cases all : written = added ++ more
      · exact ⟨z, all ▸ after, .refl⟩
      · -- the last effect writes one record at most, so less was written before it
        have less : written <+: added := by
          cases writes with
          | nothing _ _ => rwa [List.append_nil] at part
          | record r _ _ _ => exact (List.prefix_concat_iff.mp part).resolve_left all
        obtain ⟨x, start, rest⟩ := between written less
        exact ⟨x, start, rest.tail last⟩

/-! ## Opening -/

variable {data : Bytes}

theorem readHeader_encodeHeader (systemTime : UInt32) :
    readHeader settings (encodeHeader settings systemTime) = some systemTime := by
  have time : window (encodeHeader settings systemTime) 4 4 = toLittleEndian 4 systemTime.toNat := by
    simpa [encodeHeader] using window_between
      [0, if settings.trackEstimatedTime then 1 else 0, 0, 0] (toLittleEndian 4 systemTime.toNat) (List.replicate 8 0)
  have flags : (encodeHeader settings systemTime).getD 1 0 % 2 = 1 ↔ settings.trackEstimatedTime = true := by
    cases tracks : settings.trackEstimatedTime
    · simp [encodeHeader, tracks]
    · simp [encodeHeader, tracks]
  have first : (encodeHeader settings systemTime).getD 0 0 = 0 := rfl
  have long : ¬ (encodeHeader settings systemTime).length < 16 := by simp [encodeHeader]
  simp only [readHeader, long, first, flags, time, uint32_bytes, if_false, ne_eq, not_true_eq_false]
  simp

theorem holds_header (systemTime : UInt32) : Holds settings (encodeHeader settings systemTime) [] := by
  refine ⟨?_, ?_, List.forall_mem_nil _⟩
  · rw [readHeader_encodeHeader]
    rfl
  · exact List.drop_eq_nil_of_le (by simp [encodeHeader])

/-- A new file is opened as one that holds its header. -/
theorem openBinlog_new (now : UInt32) :
    openBinlog settings [] now =
      openBinlog settings (encodeHeader settings (if settings.trackEstimatedTime then now else 0)) now := by
  rw [openBinlog_opening (readHeader_encodeHeader _), openBinlog, if_pos rfl]
  rfl

/-- Bytes behind the records that are no record change nothing. -/
theorem index_opened {rest : Bytes} {systemTime : UInt32} (long : 16 ≤ data.length) (aligned : kBlockSize ∣ data.length)
    (scanned : scan settings (Record.acceptable settings) (data.drop 16) = (records, rest))
    (none : frontRecord settings rest = none) (now : UInt32) :
    index (opened settings data systemTime now).map = Change.replay (fun _ => .none) (changesOf records) := by
  have entries := @entries_opened settings data systemTime now long aligned
  simp only [scanned, leftParts, none, List.foldl_nil] at entries
  refine Eq.trans ?_ (Replayed.index_replay settings (opening data systemTime).replayed records)
  funext k
  exact congrArg (Option.map Entry.index) (congrFun entries k)

theorem removing_adjustRelativeTime (now : UInt32) : (d.adjustRelativeTime settings now).removing = d.removing := by
  unfold adjustRelativeTime
  split_ifs
  · exact congrArg Core.removing (@core_writeMultiAccessBlock settings d now)
  · rfl

/-- A file of whole records is opened with the index that its records give. -/
theorem inStep_opened (h : Holds settings data records) (now : UInt32) :
    ∃ d told, openBinlog settings data now = some d ∧ InStep settings d (records ++ told) ∧
      d.removing = .empty ∧ Ready settings d ∧ index d.map = Change.replay (fun _ => none) (changesOf records) := by
  obtain ⟨systemTime, header⟩ := Option.isSome_iff_exists.mp h.header
  have opens := openBinlog_opening header now
  obtain ⟨-, ready⟩ := openBinlog_keeps (invariant_sized settings) (List.forall_mem_nil _) opens
  have map := @index_opened settings records data [] systemTime h.long h.aligned h.scanned rfl now
  have eq := @opened_eq settings data systemTime now h.long h.aligned
  obtain ⟨-, told, kind, binlog⟩ :=
    @adjustRelativeTime_record settings _ (accessed_stopped settings data systemTime) now
  have removing : (opened settings data systemTime now).removing = .empty := by
    obtain ⟨-, same⟩ := @replayed_replayAll settings (opening data systemTime) (data.drop 16)
    have stays : (stopped settings data systemTime).removing = .empty :=
      congrArg (fun bundles => bundles.2.1) same
    rw [eq, removing_adjustRelativeTime, stays]
  have valid : ∀ r ∈ told, r.Valid settings := by
    rcases kind with rfl | ⟨time, valid, rfl⟩
    · exact List.forall_mem_nil _
    · exact fun r member => (List.mem_singleton.mp member) ▸ valid
  have silent : changesOf told = [] := by
    rcases kind with rfl | ⟨time, -, rfl⟩
    · rfl
    · rfl
  have atEnd : (stopped settings data systemTime).binlog.offset = (stopped settings data systemTime).binlog.size := by
    simp only [stopped, h.scanned, File.size, List.length_nil, Nat.sub_zero]
  obtain ⟨written, offset⟩ := write_end atEnd (encodeAll settings told)
  have file : (opened settings data systemTime now).binlog =
      (stopped settings data systemTime).binlog.write (encodeAll settings told) := by
    rw [eq]
    exact binlog
  rw [← file] at written offset
  refine ⟨opened settings data systemTime now, told, opens, ⟨?_, offset, ?_, ?_⟩, removing, ready, map⟩
  · rw [written]
    exact h.append valid
  · intro k _
    rw [batched, map, changesOf_append, silent, List.append_nil]
  · intro k waits
    rw [batched, removing] at waits
    cases waits

/-! ## Closing -/

theorem writeMultiAccess_core (now : UInt32) :
    index (d.writeMultiAccess settings now).map = index d.map ∧
      (d.writeMultiAccess settings now).removing = d.removing := by
  unfold writeMultiAccess
  split_ifs
  · exact ⟨rfl, rfl⟩
  · have core := @core_writeMultiAccessBlock settings d now
    refine ⟨?_, congrArg Core.removing core⟩
    rw [show (d.writeMultiAccessBlock settings now).map = _ from congrArg Core.map core, index_touched]

theorem writeMultiRemove_core :
    (d.writeMultiRemove settings).map = d.map ∧ (d.writeMultiRemove settings).removing = .empty := by
  unfold writeMultiRemove
  split_ifs with none
  · exact ⟨rfl, SortedMap.ext ((SortedMap.isEmpty_iff _).mp none)⟩
  · exact ⟨rfl, rfl⟩

/-- Nothing waits to be removed once the bundles are written. -/
theorem writeBundles_core (now : UInt32) :
    index (d.writeBundles settings now).map = index d.map ∧ (d.writeBundles settings now).removing = .empty := by
  obtain ⟨map, removing⟩ := @writeMultiRemove_core settings d
  unfold writeBundles
  simp only
  split_ifs
  · obtain ⟨sameMap, sameRemoving⟩ := @writeMultiAccess_core settings (d.writeMultiRemove settings) now
    exact ⟨sameMap.trans (congrArg index map), sameRemoving.trans removing⟩
  · exact ⟨congrArg index map, removing⟩

/-- Closing leaves a file of whole records, which give the index. -/
theorem holds_close (h : InStep settings d records) (ready : Ready settings d) (now : UInt32) :
    ∃ added, Holds settings (d.close settings now) (records ++ added) ∧
      Change.replay (fun _ => none) (changesOf (records ++ added)) = index d.map := by
  obtain ⟨added, ⟨-, -, -, inStep, -⟩, -⟩ := h.effects (does_writeBundles now ready).1
  obtain ⟨map, removing⟩ := @writeBundles_core settings d now
  refine ⟨added, inStep.file, ?_⟩
  rw [← map]
  funext k
  apply inStep.agrees.replayed k
  intro waits
  rw [batched, removing] at waits
  cases waits

/-- A file that a database can start from. -/
def Startable (settings : Settings) (data : Bytes) : Prop := data = [] ∨ ∃ records, Holds settings data records

theorem inStep_opens (startable : Startable settings data) (now : UInt32) :
    ∃ d records, openBinlog settings data now = some d ∧ InStep settings d records ∧ Ready settings d := by
  have holds : ∃ whole records, openBinlog settings data now = openBinlog settings whole now ∧
      Holds settings whole records := by
    rcases startable with rfl | ⟨records, holds⟩
    · exact ⟨_, [], openBinlog_new now, holds_header _⟩
    · exact ⟨data, records, rfl, holds⟩
  obtain ⟨whole, records, same, holds⟩ := holds
  obtain ⟨d, told, opens, inStep, -, ready, -⟩ := inStep_opened holds now
  exact ⟨d, records ++ told, same.trans opens, inStep, ready⟩

end DatabaseObject

end IMeDesktop.Storage.Cache
