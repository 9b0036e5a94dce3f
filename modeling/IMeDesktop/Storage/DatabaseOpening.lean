import IMeDesktop.Storage.DatabaseReplay

/-! # Opening a binlog

What the database holds once it has read a file of any contents: the records from the
front, as far as they are complete and acceptable, and nothing that depends on the blocks
the file is read in. The exception is a record of several parts that is rejected behind
its first ones: these stay in the index, although the record is given up in the file.
-/

namespace IMeDesktop.Storage.Cache

open Lib

/-- The bytes of a file that can be decrypted. -/
def wholeBlocks (data : Bytes) : Bytes := data.take (data.length - data.length % kBlockSize)

theorem wholeBlocks_aligned (data : Bytes) : kBlockSize ∣ (wholeBlocks data).length := by
  rw [wholeBlocks, List.length_take, Nat.min_eq_left (Nat.sub_le _ _)]
  exact Nat.dvd_sub_mod data.length

/-- The same settings, with blocks of another size. -/
def Settings.withBlocks (settings : Settings) (readBlockSize : Nat) (aligned : kBlockSize ∣ readBlockSize)
    (fits : kBlockSize + settings.maxBundledRecords * partSize settings.trackEstimatedTime ≤ readBlockSize) : Settings :=
  { settings with readBlockSize := readBlockSize, aligned := aligned, fits := fits }

section Opening

variable (settings : Settings)

/-- The records that lie before the write offset, behind the header. -/
def recordsBefore (f : File) : List Record := recordsIn settings ((f.data.take f.offset).drop 16)

namespace DatabaseObject

/-- The database when the header was read. -/
def opening (data : Bytes) (systemTime : UInt32) : DatabaseObject :=
  { binlog := { data := data, offset := 16 }, time := { relative := systemTime.toUInt64, system := systemTime } }

/-- A record that is rejected may have been used in part. -/
def replayFront (d : DatabaseObject) (data : Bytes) : DatabaseObject :=
  match frontRecord settings data with
  | some (_, record) => (d.processRecord settings record).2
  | none => d

def replayAll (d : DatabaseObject) (data : Bytes) : DatabaseObject :=
  let (records, rest) := scan settings (Record.acceptable settings) data
  (records.foldl (fun d record => (d.processRecord settings record).2) d).replayFront settings rest

end DatabaseObject

end Opening

/-! ## Blocks of another size -/

section Blocks

variable {settings : Settings} {readBlockSize : Nat} {aligned : kBlockSize ∣ readBlockSize}
  {fits : kBlockSize + settings.maxBundledRecords * partSize settings.trackEstimatedTime ≤ readBlockSize}

theorem frontRecord_withBlocks : frontRecord (settings.withBlocks readBlockSize aligned fits) = frontRecord settings :=
  rfl

theorem scan_withBlocks : scan (settings.withBlocks readBlockSize aligned fits) = scan settings := by
  have each : ∀ (takes : Record → Bool) (fuel : Nat) (data : Bytes),
      scanFrom (settings.withBlocks readBlockSize aligned fits) takes fuel data = scanFrom settings takes fuel data := by
    intro takes fuel
    induction fuel with
    | zero => exact fun data => rfl
    | succ fuel ih =>
        intro data
        simp only [scanFrom, frontRecord_withBlocks, ih]
  funext takes data
  exact each takes data.length data

theorem processRecord_withBlocks :
    DatabaseObject.processRecord (settings.withBlocks readBlockSize aligned fits) =
      DatabaseObject.processRecord settings := by
  have parts : ∀ (parts : List Store) (d : DatabaseObject),
      d.processRecordMultiStore (settings.withBlocks readBlockSize aligned fits) parts =
        d.processRecordMultiStore settings parts := by
    intro parts
    induction parts with
    | nil => exact fun d => rfl
    | cons part parts ih =>
        intro d
        have first : d.processRecordStore (settings.withBlocks readBlockSize aligned fits) part =
            d.processRecordStore settings part := rfl
        simp only [DatabaseObject.processRecordMultiStore, first, ih]
  funext d record
  cases record with
  | multiStore stores => exact parts stores d
  | store part => rfl
  | multiRemove keys => rfl
  | multiAccess time keys => rfl

end Blocks

namespace DatabaseObject

variable {settings : Settings} {d d' : DatabaseObject}

theorem openBinlog_opening {data : Bytes} {systemTime : UInt32} (header : readHeader settings data = some systemTime)
    (now : UInt32) :
    openBinlog settings data now = some ((opening data systemTime).readBinlog settings now) := by
  have nonempty : data ≠ [] := by
    rintro rfl
    cases header
  rw [openBinlog, if_neg nonempty, header]
  rfl

/-! ## Reading -/

theorem scans_replayAll {data rest : Bytes}
    (scans : BinlogWrapper.Scans settings (processRecord settings) d data d' rest) :
    rest = (scan settings (Record.acceptable settings) data).2 ∧ d' = d.replayAll settings data := by
  obtain ⟨last, passed, stops⟩ := scans
  induction passed with
  | refl s data =>
      cases stops with
      | incomplete incomplete =>
          have none := frontRecord_incomplete incomplete
          rw [replayAll, scan_none none]
          refine ⟨rfl, ?_⟩
          simp only [List.foldl_nil, replayFront, none]
      | @rejected _ _ size known complete rejects =>
          have front := frontRecord_known known complete
          have verdict := (@processRecord_replayed settings (Record.decode settings.trackEstimatedTime (data.take size)) s).1
          rw [rejects] at verdict
          rw [replayAll, scan_refused front verdict.symm]
          refine ⟨rfl, ?_⟩
          simp only [List.foldl_nil, replayFront, front, rejects]
  | @next s s' s'' data rest size known complete accepted more ih =>
      obtain ⟨same, result⟩ := ih stops
      have front := frontRecord_known known complete
      have verdict := (@processRecord_replayed settings (Record.decode settings.trackEstimatedTime (data.take size)) s).1
      rw [accepted] at verdict
      rw [replayAll, scan_next front verdict.symm]
      refine ⟨same, ?_⟩
      simp only [List.foldl_cons, accepted]
      exact result

/-- The reader of `readBinlog` at its start. -/
theorem at_start {f : File} (inside : f.offset ≤ f.size) (aligned : kBlockSize ∣ f.size - f.offset) :
    BinlogWrapper.At { binlog := f, till := f.size } (f.data.drop f.offset) := by
  refine ⟨rfl, inside, Nat.le_refl _, Nat.zero_le _, ?_, Nat.dvd_zero _, aligned⟩
  rw [List.nil_append, window, List.take_of_length_le]
  rw [List.length_drop]
  exact Nat.le_refl _

/-- Reading a file does not depend on the size of the blocks. -/
theorem readBinlog_eq (inside : d.binlog.offset ≤ d.binlog.size) (aligned : kBlockSize ∣ d.binlog.size - d.binlog.offset)
    (now : UInt32) :
    d.readBinlog settings now =
      { d.replayAll settings (d.binlog.data.drop d.binlog.offset) with
        binlog :=
          { d.binlog with
            offset := d.binlog.size -
              (scan settings (Record.acceptable settings) (d.binlog.data.drop d.binlog.offset)).2.length }
        }.adjustRelativeTime settings now := by
  obtain ⟨rest, scans, ends⟩ := @BinlogWrapper.At.readAll settings DatabaseObject (processRecord settings) _ _
    (at_start inside aligned) (.inl rfl) (d.binlog.size - d.binlog.offset + 1) (Nat.lt_succ_self _) d
  obtain ⟨same, result⟩ := scans_replayAll scans
  unfold readBinlog
  simp only
  generalize BinlogWrapper.readAll settings (processRecord settings) (d.binlog.size - d.binlog.offset + 1) d
      { binlog := d.binlog, till := d.binlog.size } = outcome at ends result
  obtain ⟨x, w⟩ := outcome
  have file : w.binlog = { d.binlog with offset := d.binlog.size - rest.length } := by
    have offset := ends.offset
    have data := ends.data
    simp only at offset data
    rcases read : w.binlog with ⟨data', offset'⟩
    rw [read] at offset data
    simp only at offset data
    rw [data, ← offset, Nat.add_sub_cancel]
  simp only at result
  simp only [file, result, same]

/-! ## What is replayed -/

/-- Records that are all acceptable. -/
theorem replayed_foldl (records : List Record) (acceptable : ∀ r ∈ records, r.acceptable settings = true)
    (d : DatabaseObject) :
    (records.foldl (fun d record => (d.processRecord settings record).2) d).replayed =
        d.replayed.replay settings records ∧
      (records.foldl (fun d record => (d.processRecord settings record).2) d).bundles = d.bundles := by
  induction records generalizing d with
  | nil => exact ⟨rfl, rfl⟩
  | cons record records ih =>
      obtain ⟨first, others⟩ := List.forall_mem_cons.mp acceptable
      obtain ⟨replayed, same⟩ := ih others (d.processRecord settings record).2
      rw [(processRecord_replayed record d).2.1 first] at replayed
      rw [bundles_processRecord] at same
      exact ⟨replayed, same⟩

theorem acceptable_scan (data : Bytes) :
    ∀ r ∈ (scan settings (Record.acceptable settings) data).1, r.acceptable settings = true := by
  induction data using @scan_induction settings (Record.acceptable settings) with
  | stop data stopped _ =>
      rw [stopped]
      nofun
  | next data size record front acceptable ih =>
      rw [scan_next front acceptable]
      exact List.forall_mem_cons.mpr ⟨acceptable, ih⟩

/-- What is stored of the record at the front, although it is rejected. -/
def leftParts (settings : Settings) (data : Bytes) : List Store :=
  match frontRecord settings data with
  | some (_, record) => record.storedParts settings
  | none => []

theorem replayed_replayAll (data : Bytes) :
    (d.replayAll settings data).replayed =
        (leftParts settings (scan settings (Record.acceptable settings) data).2).foldl (Replayed.store settings)
          (d.replayed.replay settings (scan settings (Record.acceptable settings) data).1) ∧
      (d.replayAll settings data).bundles = d.bundles := by
  obtain ⟨replayed, same⟩ := replayed_foldl _ (@acceptable_scan settings data) d
  have rejected := @frontRecord_scan settings (Record.acceptable settings) data
  unfold replayAll
  generalize scan settings (Record.acceptable settings) data = outcome at replayed same rejected
  obtain ⟨records, rest⟩ := outcome
  simp only at replayed same rejected ⊢
  rw [← replayed, ← same]
  generalize records.foldl (fun d record => (d.processRecord settings record).2) d = x
  unfold replayFront leftParts
  cases front : frontRecord settings rest with
  | none => exact ⟨rfl, rfl⟩
  | some found =>
      obtain ⟨size, record⟩ := found
      exact ⟨(processRecord_replayed record x).2.2 (rejected front), bundles_processRecord record⟩

/-- A record that only tells the time may be written behind the others. -/
theorem adjustRelativeTime_record (none : d.accessed = .empty) (now : UInt32) :
    (d.adjustRelativeTime settings now).map = d.map ∧
      ∃ told, (told = [] ∨ ∃ time, (Record.multiAccess time []).Valid settings ∧ told = [.multiAccess time []]) ∧
        (d.adjustRelativeTime settings now).binlog =
          d.binlog.write (told.flatMap (Record.encode settings.trackEstimatedTime)) := by
  have bare : d.binlog.write [] = d.binlog := by
    rw [File.write]
    simp
  unfold adjustRelativeTime
  split_ifs with back
  · have core := @core_writeMultiAccessBlock settings d now
    rw [none] at core
    refine ⟨congrArg Core.map core, [.multiAccess (d.countTimePoint now) []], .inr ⟨_, ?_, rfl⟩, ?_⟩
    · exact ⟨back.1, Nat.zero_le _⟩
    · rw [List.flatMap_singleton]
      exact congrArg Core.binlog core
  · exact ⟨rfl, [], .inl rfl, bare.symm⟩

/-- What is written at the offset comes behind the bytes before it. -/
theorem take_write (f : File) (inside : f.offset ≤ f.size) (bytes : Bytes) :
    (f.write bytes).data.take (f.write bytes).offset = f.data.take f.offset ++ bytes := by
  have length : (f.data.take f.offset ++ bytes).length = f.offset + bytes.length := by
    rw [List.length_append, List.length_take]
    exact congrArg (· + bytes.length) (Nat.min_eq_left inside)
  exact List.take_left' length

/-- A record that only tells the time changes no entry. -/
theorem entries_replay_told {s : Replayed} {records told : List Record}
    (kind : told = [] ∨ ∃ time, told = [.multiAccess time []]) :
    (s.replay settings (records ++ told)).entries = (s.replay settings records).entries := by
  rcases kind with rfl | ⟨time, rfl⟩
  · rw [List.append_nil]
  · simp [Replayed.replay, Replayed.record, Replayed.use]

section Opened

variable (settings) (data : Bytes) (systemTime now : UInt32)

/-- A database that has read a file with a header. -/
def opened : DatabaseObject := (opening data systemTime).readBinlog settings now

/-- The database where reading ends. -/
def stopped : DatabaseObject :=
  { (opening data systemTime).replayAll settings (data.drop 16) with
    binlog :=
      { data := data
        offset := data.length - (scan settings (Record.acceptable settings) (data.drop 16)).2.length } }

theorem accessed_stopped : (stopped settings data systemTime).accessed = .empty := by
  obtain ⟨-, same⟩ := @replayed_replayAll settings (opening data systemTime) (data.drop 16)
  exact congrArg (fun bundles => bundles.2.2) same

variable {settings data} (long : 16 ≤ data.length) (aligned : kBlockSize ∣ data.length)

include long aligned

theorem opened_eq : opened settings data systemTime now = (stopped settings data systemTime).adjustRelativeTime settings now :=
  @readBinlog_eq settings (opening data systemTime) long (Nat.dvd_sub aligned (Nat.dvd_refl 16)) now

theorem entries_opened :
    (opened settings data systemTime now).map.find? =
      ((leftParts settings (scan settings (Record.acceptable settings) (data.drop 16)).2).foldl (Replayed.store settings)
        ((opening data systemTime).replayed.replay settings
          (scan settings (Record.acceptable settings) (data.drop 16)).1)).entries := by
  obtain ⟨replayed, -⟩ := @replayed_replayAll settings (opening data systemTime) (data.drop 16)
  rw [← replayed, opened_eq systemTime now long aligned,
    (adjustRelativeTime_record (accessed_stopped settings data systemTime) now).1]
  rfl

/-- What lies before the write offset are the records that were taken, and maybe one that tells the time. -/
theorem recordsBefore_opened :
    ∃ told, (told = [] ∨ ∃ time, told = [.multiAccess time []]) ∧
      recordsBefore settings (opened settings data systemTime now).binlog =
        (scan settings (Record.acceptable settings) (data.drop 16)).1 ++ told := by
  obtain ⟨-, told, kind, binlog⟩ :=
    @adjustRelativeTime_record settings _ (accessed_stopped settings data systemTime) now
  obtain ⟨taken, split, -, records⟩ := @scan_taken settings (Record.acceptable settings) (fun _ => true)
    (fun _ _ => rfl) (data.drop 16)
  rw [opened_eq systemTime now long aligned, recordsBefore, binlog]
  rw [take_write _ (Nat.sub_le _ _)]
  simp only [stopped]
  generalize scan settings (Record.acceptable settings) (data.drop 16) = outcome at split records
  obtain ⟨accepted, rest⟩ := outcome
  simp only at split records ⊢
  have length := congrArg List.length split
  rw [List.length_append, List.length_drop] at length
  have before : (data.take (data.length - rest.length)).drop 16 = taken := by
    rw [List.drop_take, split]
    exact List.take_left' (by omega)
  have header : 16 ≤ (data.take (data.length - rest.length)).length := by
    rw [List.length_take]
    omega
  rw [List.drop_append_of_le_length header, before, recordsIn, records]
  rcases kind with rfl | ⟨time, valid, rfl⟩
  · exact ⟨[], .inl rfl, rfl⟩
  · refine ⟨[.multiAccess time []], .inr ⟨time, rfl⟩, ?_⟩
    have front := frontRecord_encode valid []
    rw [List.append_nil] at front
    rw [List.flatMap_singleton, scan_next front rfl, List.drop_length]
    rfl

end Opened

/-- The index is what the log says: it is the replay of the records before the write offset, no other size of blocks
gives another result, and nothing is read outside of a block. -/
structure OpensExactly (settings : Settings) (data : Bytes) (systemTime now : UInt32) : Prop where
  replays : ∀ key, (opened settings data systemTime now).map.find? key =
    ((opening data systemTime).replayed.replay settings
      (recordsBefore settings (opened settings data systemTime now).binlog)).entries key
  anyBlocks : ∀ readBlockSize aligned fits,
    let other := opened (settings.withBlocks readBlockSize aligned fits) data systemTime now
    other.map = (opened settings data systemTime now).map ∧
      other.binlog.offset = (opened settings data systemTime now).binlog.offset
  inside : BinlogWrapper.readAllChecked settings (processRecord settings) (data.length - 16 + 1) (opening data systemTime)
      { binlog := (opening data systemTime).binlog, till := data.length } =
    some (BinlogWrapper.readAll settings (processRecord settings) (data.length - 16 + 1) (opening data systemTime)
      { binlog := (opening data systemTime).binlog, till := data.length })

/-- The record where reading ends leaves no trace: it is not one of several parts that begins with parts that are
accepted, or these parts repeat what the records before it say. -/
def LeavesNoTrace (settings : Settings) (data : Bytes) (systemTime : UInt32) : Prop :=
  let (records, rest) := scan settings (Record.acceptable settings) (data.drop 16)
  let before := (opening data systemTime).replayed.replay settings records
  ((leftParts settings rest).foldl (Replayed.store settings) before).entries = before.entries

/-- A header, and two parts of which the second one has no size. -/
def halfStored : Bytes :=
  List.replicate 16 0 ++ ([2, 2, 0, 0] ++ List.replicate 12 0) ++
    ([1, 7, 3, 0, 0] ++ List.replicate 11 5 ++ List.replicate 16 9) ++ List.replicate 32 0

end DatabaseObject

end IMeDesktop.Storage.Cache
