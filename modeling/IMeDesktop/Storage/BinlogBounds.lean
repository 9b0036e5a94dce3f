import IMeDesktop.Storage.BinlogReader

/-! # Reads of the reader stay inside

The reader of a binlog once more, with every read of the current block checked: the type
and the count of a record, the parts of it, and the bytes of the file that a block is
filled with. `none` is a read outside of the block. The checks never fail, so this reader
does what the other one does.
-/

namespace IMeDesktop.Storage.Cache

open Lib

section Checked

variable (settings : Settings)

/-- The count is behind the type in the header. -/
def readRecordSizeMultiChecked (data : Bytes) (strict : Bool) (part : Nat) : Option RecordSize :=
  if data.length < 16 then some .unknown
  else do
    let header ← subspan data 0 16
    let count ← subspan header 1 3
    if strict ∧ fromLittleEndian count = 0 then some .invalid
    else if fromLittleEndian count ≤ settings.maxBundledRecords then
      some (.known (16 + fromLittleEndian count * part))
    else some .invalid

def readRecordSizeChecked (data : Bytes) : Option RecordSize :=
  if data = [] then some .unknown
  else do
    let type ← subspan data 0 1
    if type = [1] then some (.known (partSize settings.trackEstimatedTime))
    else if type = [2] then readRecordSizeMultiChecked settings data true (partSize settings.trackEstimatedTime)
    else if type = [3] then readRecordSizeMultiChecked settings data true 16
    else if type = [4] ∧ settings.trackEstimatedTime then readRecordSizeMultiChecked settings data false 16
    else some .invalid

end Checked

def partsOfChecked (size : Nat) : Nat → Bytes → Option (List Bytes)
  | 0, _ => some []
  | count + 1, data => do
      let part ← subspan data 0 size
      let parts ← partsOfChecked size count (data.drop size)
      some (part :: parts)

/-- `HandleRecord` with its assertions on the size of what it is given. -/
def Record.decodeChecked (track : Bool) (data : Bytes) : Option Record := do
  let type ← subspan data 0 1
  if type = [1] then
    let part ← if data.length = partSize track then subspan data 0 (partSize track) else none
    some (.store (Store.decode track part))
  else
    let header ← subspan data 0 16
    let count := countOf header
    let size := if type = [2] then partSize track else 16
    let parts ← if data.length = 16 + count * size then partsOfChecked size count (data.drop 16) else none
    if type = [2] then some (.multiStore (parts.map (Store.decode track)))
    else if type = [3] then some (.multiRemove (parts.map Key.decode))
    else some (.multiAccess (EstimatedTimePoint.decode (window header 4 12)) (parts.map Key.decode))

namespace BinlogWrapper

section Checked

variable (settings : Settings)

/-- Something is read, and it is read into the block. -/
def readPartChecked (w : BinlogWrapper) : Option (Bool × BinlogWrapper) :=
  if w.finished ∨ w.till - w.binlog.offset = 0 then some (readPart settings w)
  else
    let amount := min (w.till - w.binlog.offset) (settings.readBlockSize - w.part.length)
    if 0 < amount ∧ w.part.length + amount ≤ settings.readBlockSize then some (readPart settings w) else none

def readRecordChecked (w : BinlogWrapper) : Option (Bytes × BinlogWrapper) :=
  if w.finished then some ([], w)
  else do
    match ← readRecordSizeChecked settings w.part with
    | .unknown => some ([], w)
    | .invalid => some ([], { w.finish 0 with finished := true, failed := true })
    | .known size =>
        if size > w.part.length then some ([], w)
        else do
          let bytes ← subspan w.part 0 size
          some (bytes, { w with part := w.part.drop size })

variable {σ : Type} (handler : σ → Record → Bool × σ)

def readRecordsChecked : Nat → σ → BinlogWrapper → Option (Bool × σ × BinlogWrapper)
  | 0, s, w => some (false, s, w)
  | fuel + 1, s, w => do
      match ← readRecordChecked settings w with
      | ([], w) => some (false, s, w)
      | (byte :: bytes, w) =>
          let record ← Record.decodeChecked settings.trackEstimatedTime (byte :: bytes)
          match handler s record with
          | (true, s) => readRecordsChecked fuel s w
          | (false, s) => some (true, s, w.finish (byte :: bytes).length)

def readTillEndChecked (s : σ) (w : BinlogWrapper) : Option (Bool × σ × BinlogWrapper) := do
  match ← readPartChecked settings w with
  | (false, w) => some (true, s, w)
  | (true, w) => readRecordsChecked settings handler w.part.length s w

def readAllChecked : Nat → σ → BinlogWrapper → Option (σ × BinlogWrapper)
  | 0, s, w => some (s, w)
  | fuel + 1, s, w => do
      match ← readTillEndChecked settings handler s w with
      | (true, s, w) => some (s, w)
      | (false, s, w) => readAllChecked fuel s w

end Checked

end BinlogWrapper

/-! ## Records -/

section Records

variable {settings : Settings}

theorem subspan_type (type : UInt8) (rest : Bytes) : subspan (type :: rest) 0 1 = some [type] := by
  have inside := @subspan_first _ (type :: rest) 1 (by simp)
  simpa using inside

theorem subspan_count {data : Bytes} (long : ¬ data.length < 16) :
    (subspan data 0 16).bind (fun header => subspan header 1 3) = some (window data 1 3) := by
  have header := @subspan_first _ data 16 (by omega)
  have count := @subspan_inside _ (data.take 16) 1 3 (by rw [List.length_take]; omega)
  simp only [Nat.cast_ofNat] at header
  simp only [Nat.cast_one, Nat.cast_ofNat] at count
  rw [header, Option.bind_some, count, window, List.drop_take, List.take_take]
  rfl

theorem readRecordSizeMultiChecked_eq (data : Bytes) (strict : Bool) (part : Nat) :
    readRecordSizeMultiChecked settings data strict part = some (readRecordSizeMulti settings data strict part) := by
  unfold readRecordSizeMultiChecked readRecordSizeMulti
  by_cases short : data.length < 16
  · rw [if_pos short, if_pos short]
  · have count := subspan_count short
    cases header : subspan data 0 16 with
    | none =>
        rw [header] at count
        cases count
    | some bytes =>
        rw [header, Option.bind_some] at count
        rw [if_neg short, if_neg short]
        simp only [Option.bind_eq_bind, Option.bind_some, count, countOf]
        grind

theorem readRecordSizeChecked_eq (data : Bytes) :
    readRecordSizeChecked settings data = some (readRecordSize settings data) := by
  cases data with
  | nil => rfl
  | cons type rest =>
      unfold readRecordSizeChecked readRecordSize
      rw [if_neg (List.cons_ne_nil _ _), subspan_type]
      simp only [Option.bind_eq_bind, Option.bind_some, List.cons.injEq, and_true, readRecordSizeMultiChecked_eq]
      grind

theorem partsOfChecked_eq {size count : Nat} {data : Bytes} (inside : count * size ≤ data.length) :
    partsOfChecked size count data = some (partsOf size count data) := by
  induction count generalizing data with
  | zero => rfl
  | succ count ih =>
      rw [Nat.succ_mul] at inside
      have part := @subspan_first _ data size (by omega)
      have parts := @ih (data.drop size) (by rw [List.length_drop]; omega)
      simp only [partsOfChecked, part, parts, Option.bind_eq_bind, Option.bind_some, partsOf]

theorem readRecordSizeMulti_extent {data : Bytes} {strict : Bool} {part size : Nat}
    (known : readRecordSizeMulti settings data strict part = .known size) :
    16 ≤ data.length ∧ size = 16 + countOf data * part := by
  unfold readRecordSizeMulti at known
  split_ifs at known with short
  cases known
  exact ⟨Nat.le_of_not_lt short, rfl⟩

theorem subspan_whole {data : Bytes} {size : Nat} (length : data.length = size) : subspan data 0 size = some data := by
  rw [subspan_first (by omega), List.take_of_length_le (by omega)]

/-- The record in some bytes of its size. -/
theorem decodeChecked_whole {data : Bytes} (known : readRecordSize settings data = .known data.length) :
    Record.decodeChecked settings.trackEstimatedTime data =
      some (Record.decode settings.trackEstimatedTime data) := by
  have multi : ∀ {strict : Bool} {size : Nat},
      readRecordSizeMulti settings data strict size = .known data.length →
        ∃ header, subspan data 0 16 = some header ∧ countOf header = countOf data ∧
          window header 4 12 = window data 4 12 ∧ data.length = 16 + countOf data * size ∧
          partsOfChecked size (countOf data) (data.drop 16) = some (partsOf size (countOf data) (data.drop 16)) := by
    intro strict size known
    obtain ⟨long, extent⟩ := readRecordSizeMulti_extent known
    refine ⟨data.take 16, @subspan_first _ data 16 long, ?_, ?_, extent, ?_⟩
    · rw [countOf, countOf, window, window, List.drop_take, List.take_take]
      rfl
    · rw [window, window, List.drop_take, List.take_take]
      rfl
    · apply partsOfChecked_eq
      rw [List.length_drop]
      omega
  cases data with
  | nil => cases known
  | cons type rest =>
      unfold Record.decodeChecked Record.decode
      rw [subspan_type]
      simp only [Option.bind_eq_bind, Option.bind_some, List.cons.injEq, and_true, List.head?_cons, Option.some.injEq]
      rw [readRecordSize] at known
      split_ifs at known with store multiStore multiRemove multiAccess
      · have length : (type :: rest).length = partSize settings.trackEstimatedTime := (RecordSize.known.inj known).symm
        rw [if_pos store, if_pos store, if_pos length, subspan_whole length]
        rfl
      · obtain ⟨header, found, count, fields, length, parts⟩ := multi known
        subst multiStore
        simp only [if_neg store, found, Option.bind_some, count, if_true, if_pos length, parts]
      · obtain ⟨header, found, count, fields, length, parts⟩ := multi known
        subst multiRemove
        simp only [if_neg store, if_neg multiStore, found, Option.bind_some, count, if_true, if_pos length, parts]
      · obtain ⟨header, found, count, fields, length, parts⟩ := multi known
        simp only [if_neg store, if_neg multiStore, if_neg multiRemove, found, Option.bind_some, count, fields,
          if_pos length, parts]

/-- The bytes of a record are enough to take it apart. -/
theorem decodeChecked_eq {data : Bytes} {size : Nat} (known : readRecordSize settings data = .known size)
    (complete : size ≤ data.length) :
    Record.decodeChecked settings.trackEstimatedTime (data.take size) =
      some (Record.decode settings.trackEstimatedTime (data.take size)) := by
  have long := (readRecordSize_known known).2.1
  have length : (data.take size).length = size := by
    rw [List.length_take]
    omega
  apply decodeChecked_whole
  rw [length, ← known]
  conv_rhs => rw [← List.take_append_drop size data]
  refine (readRecordSize_append ?_ _).symm
  rw [length]
  exact long

end Records

/-! ## Reading -/

namespace BinlogWrapper

variable {settings : Settings} {σ : Type} {handler : σ → Record → Bool × σ}

theorem readRecordChecked_eq (w : BinlogWrapper) : readRecordChecked settings w = some (readRecord settings w) := by
  unfold readRecordChecked readRecord
  by_cases finished : w.finished = true
  · rw [if_pos finished, if_pos finished]
  · rw [if_neg finished, if_neg finished, readRecordSizeChecked_eq]
    simp only [Option.bind_eq_bind, Option.bind_some]
    cases readRecordSize settings w.part with
    | unknown => rfl
    | invalid => rfl
    | known size =>
        by_cases larger : size > w.part.length
        · simp only [larger, if_true]
        · simp only [larger, if_false, @subspan_first _ w.part size (Nat.le_of_not_gt larger), Option.bind_some]

/-- What is handed out is a record at the front of the block. -/
theorem readRecord_bytes {w w' : BinlogWrapper} {byte : UInt8} {bytes : Bytes}
    (read : readRecord settings w = (byte :: bytes, w')) :
    ∃ size, readRecordSize settings w.part = .known size ∧ size ≤ w.part.length ∧
      byte :: bytes = w.part.take size := by
  unfold readRecord at read
  split_ifs at read
  · cases read
  · split at read
    · cases read
    · cases read
    · rename_i size known
      split_ifs at read with larger
      · cases read
      · refine ⟨size, known, Nat.le_of_not_gt larger, ?_⟩
        exact (congrArg Prod.fst read).symm

theorem readRecordsChecked_eq (fuel : Nat) (s : σ) (w : BinlogWrapper) :
    readRecordsChecked settings handler fuel s w = some (readRecords settings handler fuel s w) := by
  induction fuel generalizing s w with
  | zero => rfl
  | succ fuel ih =>
      rw [readRecordsChecked, readRecords, readRecordChecked_eq]
      simp only [Option.bind_eq_bind, Option.bind_some]
      rcases read : readRecord settings w with ⟨bytes, w'⟩
      cases bytes with
      | nil => rfl
      | cons byte bytes =>
          obtain ⟨size, known, complete, front⟩ := readRecord_bytes read
          have checked := decodeChecked_eq known complete
          rw [← front] at checked
          simp only [checked, Option.bind_some]
          rcases handler s (Record.decode settings.trackEstimatedTime (byte :: bytes)) with ⟨accepted, s'⟩
          cases accepted with
          | true => exact ih s' w'
          | false => rfl

theorem readPartChecked_eq {w : BinlogWrapper} (room : w.part.length < settings.readBlockSize) :
    readPartChecked settings w = some (readPart settings w) := by
  unfold readPartChecked
  split_ifs with ended
  · rfl
  · rw [not_or] at ended
    exact if_pos (by omega)

theorem readAllChecked_finished {w : BinlogWrapper} (finished : w.finished = true) (fuel : Nat) (s : σ) :
    readAllChecked settings handler fuel s w = some (s, w) := by
  cases fuel with
  | zero => rfl
  | succ fuel =>
      simp [readAllChecked, readTillEndChecked, readPartChecked, readPart, finished]

theorem readTillEndChecked_eq {w : BinlogWrapper} (room : w.part.length < settings.readBlockSize) (s : σ) :
    readTillEndChecked settings handler s w = some (readTillEnd settings handler s w) := by
  rw [readTillEndChecked, readTillEnd, readPartChecked_eq room]
  simp only [Option.bind_eq_bind, Option.bind_some]
  rcases readPart settings w with ⟨more, w'⟩
  cases more with
  | true => exact readRecordsChecked_eq _ _ _
  | false => rfl

/-- Every read of the reader is a read inside of the block. -/
theorem At.readAllChecked {w : BinlogWrapper} {rest : Bytes} (h : At w rest)
    (short : readRecordSize settings w.part = .unknown ∨
      ∃ size, readRecordSize settings w.part = .known size ∧ w.part.length < size) (fuel : Nat) (s : σ) :
    BinlogWrapper.readAllChecked settings handler fuel s w = some (BinlogWrapper.readAll settings handler fuel s w) := by
  induction fuel generalizing s w rest with
  | zero => rfl
  | succ fuel ih =>
      rw [BinlogWrapper.readAllChecked, BinlogWrapper.readAll, readTillEndChecked_eq (part_lt_block short)]
      simp only [Option.bind_eq_bind, Option.bind_some]
      cases h.readPart (part_lt_block short) with
      | inr last =>
          obtain ⟨all, w', read, ends⟩ := last
          simp only [readTillEnd, read]
      | inl block =>
          obtain ⟨w₁, read, next, -⟩ := block
          have records := @At.readRecords settings σ handler w₁ rest next w₁.part.length (Nat.le_refl _) s
          simp only [readTillEnd, read]
          generalize BinlogWrapper.readRecords settings handler w₁.part.length s w₁ = result at records
          cases records with
          | more passed at_ short' => exact ih at_ short' _
          | invalid passed invalid finished =>
              simp only [readAll_finished finished, readAllChecked_finished finished]
          | rejected => rfl

end BinlogWrapper

end IMeDesktop.Storage.Cache
