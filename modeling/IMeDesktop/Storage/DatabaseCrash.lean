import IMeDesktop.Storage.CompactorRuns

/-! # Opening what a crash leaves

When the program stops in the middle of a session, the binlog may have been cut anywhere behind
what the session found. The cut leaves the records that are complete, and the beginning of one
more, which is read as no record. So the next session opens with the index of a state that the
run has passed, but for the removals that waited for their bundle there: these are lost, and the
key is what it was in some state before.
-/

namespace IMeDesktop.Storage.Cache

open Lib

section Torn

variable {settings : Settings} {records : List Record} {r : Record}

/-- The beginning of a record is no record. -/
theorem frontRecord_torn (valid : r.Valid settings) {m : Nat}
    (torn : m < (r.encode settings.trackEstimatedTime).length) :
    frontRecord settings ((r.encode settings.trackEstimatedTime).take m) = none := by
  have whole := readRecordSize_encode valid []
  rw [List.append_nil] at whole
  generalize r.encode settings.trackEstimatedTime = data at torn whole
  have length : (data.take m).length = m := by
    rw [List.length_take]
    exact Nat.min_eq_left torn.le
  apply frontRecord_incomplete
  intro size known
  rw [length]
  by_cases long : 16 ≤ m
  · have same := @readRecordSize_append settings (data.take m) (by rw [length]; exact long) (data.drop m)
    rw [List.take_append_drop, whole, known] at same
    cases same
    exact torn
  · -- less than a block only has a size when the type is that of one part
    have blocks := (readRecordSize_known known).2.1
    simp only [kBlockSize] at blocks
    omega

/-- What a cut leaves of some records. -/
theorem encodeAll_take (valid : ∀ r ∈ records, r.Valid settings) (m : Nat) :
    ∃ written torn, written <+: records ∧ (encodeAll settings records).take m = encodeAll settings written ++ torn ∧
      frontRecord settings torn = none := by
  induction records generalizing m with
  | nil => exact ⟨[], [], List.prefix_rfl, List.take_nil, rfl⟩
  | cons r records ih =>
      obtain ⟨first, others⟩ := List.forall_mem_cons.mp valid
      have bytes : encodeAll settings (r :: records) =
          r.encode settings.trackEstimatedTime ++ encodeAll settings records := rfl
      by_cases complete : (r.encode settings.trackEstimatedTime).length ≤ m
      · obtain ⟨written, torn, part, split, none⟩ := ih others (m - (r.encode settings.trackEstimatedTime).length)
        refine ⟨r :: written, torn, List.cons_prefix_cons.mpr ⟨rfl, part⟩, ?_, none⟩
        rw [bytes, List.take_append, List.take_of_length_le complete, split]
        exact (List.append_assoc _ _ _).symm
      · have short := Nat.lt_of_not_le complete
        refine ⟨[], (r.encode settings.trackEstimatedTime).take m, List.nil_prefix, ?_, frontRecord_torn first short⟩
        rw [bytes, List.take_append_of_le_length short.le]
        rfl

/-- What a cut leaves of a file, when it comes behind some of the records. -/
theorem Holds.take_blocks {data : Bytes} {added : List Record} (h : Holds settings data (records ++ added)) {m : Nat}
    (behind : 16 + (encodeAll settings records).length ≤ m) :
    ∃ written torn, written <+: added ∧ frontRecord settings torn = none ∧
      (wholeBlocks (data.take m)).drop 16 = encodeAll settings (records ++ written) ++ torn ∧
      (DatabaseObject.readHeader settings (wholeBlocks (data.take m))).isSome := by
  have aligned := encodeAll_aligned fun r member => h.valid r (List.mem_append_left added member)
  have total := h.length
  rw [encodeAll_append, List.length_append] at total
  generalize whole : min m data.length - min m data.length % kBlockSize = n
  have blocks : wholeBlocks (data.take m) = data.take n := by
    have less : n ≤ m := by omega
    rw [wholeBlocks, List.length_take, List.take_take, whole, Nat.min_eq_left less]
  have kept : 16 + (encodeAll settings records).length ≤ n := by
    simp only [kBlockSize] at whole aligned
    omega
  obtain ⟨written, torn, part, split, none⟩ := encodeAll_take
    (fun r member => h.valid r (List.mem_append_right records member)) (n - 16 - (encodeAll settings records).length)
  refine ⟨written, torn, part, none, ?_, ?_⟩
  · have all : (encodeAll settings records).take (n - 16) = encodeAll settings records :=
      List.take_of_length_le (by omega)
    rw [blocks, List.drop_take, h.bytes, encodeAll_append, List.take_append, split, all, encodeAll_append,
      List.append_assoc]
  · have front : 16 ≤ (data.take n).length := by
      rw [List.length_take]
      omega
    rw [blocks, ← readHeader_append front (data.drop n), List.take_append_drop]
    exact h.header

end Torn

namespace DatabaseObject

open Batched Relation

variable {settings : Settings} {d d' x y : DatabaseObject} {records added : List Record}

/-- A state that a run of operations passes, maybe inside of one of them. -/
def Passes (settings : Settings) (d : DatabaseObject) (operations : List (Operation settings))
    (x : DatabaseObject) : Prop :=
  ∃ first rest, operations = first ++ rest ∧ Effects settings (d.run settings first) x ∧
    Effects settings x (d.run settings (first ++ rest.take 1))

theorem run_append (d : DatabaseObject) (first rest : List (Operation settings)) :
    d.run settings (first ++ rest) = (d.run settings first).run settings rest := List.foldl_append

theorem Passes.first {operation : Operation settings} (before : Effects settings d x)
    (after : Effects settings x (d.step settings operation)) (rest : List (Operation settings)) :
    Passes settings d (operation :: rest) x := ⟨[], operation :: rest, rfl, before, after⟩

theorem Passes.later {operation : Operation settings} {rest : List (Operation settings)}
    (passes : Passes settings (d.step settings operation) rest x) : Passes settings d (operation :: rest) x := by
  obtain ⟨first, rest, rfl, before, after⟩ := passes
  exact ⟨operation :: first, rest, rfl, before, after⟩

theorem Passes.reached {operations : List (Operation settings)} (ready : Ready settings d)
    (passes : Passes settings d operations x) : Effects settings d x := by
  obtain ⟨first, rest, rfl, before, -⟩ := passes
  exact (does_run first ready).1.trans before

/-- For each part of what a run writes, there is a state that the run passes and that is in step with it. -/
theorem InStep.run (h : InStep settings d records) (ready : Ready settings d)
    (operations : List (Operation settings)) :
    ∃ added, InStep settings (d.run settings operations) (records ++ added) ∧
      ∀ written, written <+: added → ∃ x, Passes settings d operations x ∧ InStep settings x (records ++ written) ∧
        ∀ k, Change.replay (fun _ => none) (changesOf (records ++ written)) k =
            Change.replay (fun _ => none) (changesOf records) k ∨
          ∃ w, Passes settings d operations w ∧ Effects settings w x ∧
            Change.replay (fun _ => none) (changesOf (records ++ written)) k = index w.map k := by
  induction operations generalizing d records with
  | nil =>
      refine ⟨[], by rwa [List.append_nil], fun written part => ⟨d, ⟨[], [], rfl, .refl, .refl⟩, ?_⟩⟩
      rw [List.prefix_nil.mp part, List.append_nil]
      exact ⟨h, fun k => .inl rfl⟩
  | cons operation rest ih =>
      obtain ⟨effects, after⟩ := does_step operation ready
      obtain ⟨added, reached, between⟩ := h.effects effects
      obtain ⟨more, last, others⟩ := ih reached.inStep after
      refine ⟨added ++ more, by rwa [← List.append_assoc], fun written part => ?_⟩
      cases List.prefix_or_prefix_of_prefix part (List.prefix_append added more) with
      | inl early =>
          obtain ⟨x, ⟨start, -, -, inStep, held⟩, goesOn⟩ := between written early
          refine ⟨x, .first start goesOn rest, inStep, fun k => ?_⟩
          rcases held k with old | ⟨w, before, then_, value⟩
          · exact .inl old
          · exact .inr ⟨w, .first before (then_.trans goesOn) rest, then_, value⟩
      | inr late =>
          obtain ⟨further, rfl⟩ := late
          obtain ⟨x, passes, inStep, held⟩ := others further ((List.prefix_append_right_inj added).mp part)
          rw [List.append_assoc] at inStep held
          refine ⟨x, passes.later, inStep, fun k => ?_⟩
          rcases held k with old | ⟨w, passed, then_, value⟩
          · rw [old]
            rcases reached.held k with old | ⟨w, before, then_, value⟩
            · exact .inl old
            · exact .inr ⟨w, .first before then_ rest, then_.trans (passes.reached after), value⟩
          · exact .inr ⟨w, passed.later, then_, value⟩

end DatabaseObject

/-! ## Taking a new file -/

/-- The files of a cache: `binlog`, `binlog-temp` and `binlog-ready`. -/
inductive CacheFile where
  | binlog
  | compact
  | compactReady
  deriving DecidableEq, Repr

structure Disk where
  binlog : Option Bytes
  compact : Option Bytes := none
  compactReady : Option Bytes := none
  deriving DecidableEq, Repr

namespace Disk

def get (disk : Disk) : CacheFile → Option Bytes
  | .binlog => disk.binlog
  | .compact => disk.compact
  | .compactReady => disk.compactReady

def set (disk : Disk) (data : Option Bytes) : CacheFile → Disk
  | .binlog => { disk with binlog := data }
  | .compact => { disk with compact := data }
  | .compactReady => { disk with compactReady := data }

/-- `File::Move`, with the disk after each of its steps: the target is removed before the source gets its name. -/
def moveSteps (disk : Disk) (source target : CacheFile) : List Disk :=
  match disk.get source with
  | none => []
  | some data =>
      let removed := disk.set none target
      (if (disk.get target).isSome then [removed] else []) ++ [(removed.set none source).set (some data) target]

def move (disk : Disk) (source target : CacheFile) : Disk := (disk.moveSteps source target).getLast?.getD disk

/-- What the disk is while `compactorDone` moves the new file. -/
def installSteps (disk : Disk) : List Disk :=
  disk.moveSteps .compact .compactReady ++ (disk.move .compact .compactReady).moveSteps .compactReady .binlog

/-- `openBinlog`, which first takes a file that is ready. -/
def openBinlog (settings : Settings) (disk : Disk) (now : UInt32) : Option DatabaseObject :=
  let disk := if disk.compactReady.isSome then disk.move .compactReady .binlog else disk
  DatabaseObject.openBinlog settings (disk.binlog.getD []) now

/-- The binlog is never missing without a new one that is ready, so one of them is opened. -/
theorem openBinlog_installSteps (settings : Settings) (binlog compact : Bytes) (now : UInt32) :
    ∀ disk ∈ ⟨some binlog, some compact, none⟩ :: installSteps ⟨some binlog, some compact, none⟩,
      disk.openBinlog settings now = DatabaseObject.openBinlog settings binlog now ∨
        disk.openBinlog settings now = DatabaseObject.openBinlog settings compact now := by
  have steps : installSteps ⟨some binlog, some compact, none⟩ =
      [⟨some binlog, none, some compact⟩, ⟨none, none, some compact⟩, ⟨some compact, none, none⟩] := rfl
  rw [steps]
  intro disk passed
  simp only [List.mem_cons, List.not_mem_nil, or_false] at passed
  rcases passed with rfl | rfl | rfl | rfl
  · exact .inl rfl
  · exact .inr rfl
  · exact .inr rfl
  · exact .inr rfl

end Disk

end IMeDesktop.Storage.Cache
