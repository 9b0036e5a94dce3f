import IMeDesktop.Storage.Compactor
import IMeDesktop.Storage.DatabaseDurable

/-! # What the compactor reads

Chunk by chunk, the compactor finds the keys of all records up to where it was told to read. It
stops in the middle of the records when a chunk is long enough, and goes on from there. What it
copies in the end is all that was appended to the binlog, whatever the size of the blocks.
-/

namespace IMeDesktop.Storage.Cache

open Lib

/-! ## Copying -/

section Copying

variable {binlog compact : Bytes} {source block till fuel : Nat}

theorem copyBytes_eq (some : 0 < block) (inside : till ≤ binlog.length) (more : source < till)
    (enough : till - source ≤ fuel) :
    copyBytes binlog block till fuel source compact = .some (compact ++ window binlog source (till - source)) := by
  induction fuel generalizing source compact with
  | zero => omega
  | succ fuel ih =>
      have length : (window binlog source (min (till - source) block)).length = min (till - source) block :=
        length_window (by omega)
      have filled : window binlog source (min (till - source) block) ≠ [] := by
        intro empty
        rw [empty, List.length_nil] at length
        omega
      rw [copyBytes]
      simp only [filled, length, if_false]
      split_ifs with last
      · have all : min (till - source) block = till - source := by omega
        rw [all]
      · have step : till - source = min (till - source) block + (till - (source + min (till - source) block)) := by
          omega
        rw [ih (by omega) (by omega)]
        conv_rhs => rw [step, window_add]
        rw [List.append_assoc]

/-- Copying succeeds unless the binlog got shorter. -/
theorem catchUp_eq (some : 0 < block) :
    catchUp compact binlog source block =
      if binlog.length < source then none else .some (binlog.length, compact ++ binlog.drop source) := by
  unfold catchUp
  simp only
  split_ifs with same less
  · omega
  · rw [← same, List.drop_length, List.append_nil]
  · rfl
  · have all : window binlog source (binlog.length - source) = binlog.drop source :=
      List.take_of_length_le (by rw [List.length_drop])
    rw [copyBytes_eq some (Nat.le_refl _) (by omega) (Nat.le_refl _), all]
    rfl

end Copying

/-! ## Reading keys -/

namespace CompactorObject

open BinlogWrapper

variable {settings : Settings} {w : BinlogWrapper} {left : List Record} {result : List Key}

theorem readRecords_push (fuel : Nat) (result : List Key) (w : BinlogWrapper) :
    (readRecords settings push fuel result w).1 = false := by
  induction fuel generalizing result w with
  | zero => rfl
  | succ fuel ih =>
      rw [readRecords]
      split
      · rfl
      · exact ih _ _

/-- The records that are passed are those from the front. -/
theorem passed_push {data rest : Bytes} {result' : List Key} (valid : ∀ r ∈ left, r.Valid settings)
    (bytes : data = encodeAll settings left) (passed : Passed settings push result data result' rest) :
    ∃ read left', left = read ++ left' ∧ rest = encodeAll settings left' ∧
      result' = result ++ read.flatMap storeKeys := by
  induction passed generalizing left with
  | refl s data => exact ⟨[], left, rfl, bytes, (List.append_nil s).symm⟩
  | @next s s' s'' data rest size known complete accepted more ih =>
      cases left with
      | nil =>
          rw [bytes] at known
          cases known
      | cons r left =>
          obtain ⟨first, others⟩ := List.forall_mem_cons.mp valid
          rw [show encodeAll settings (r :: left) =
            r.encode settings.trackEstimatedTime ++ encodeAll settings left from rfl] at bytes
          have size_eq := readRecordSize_encode first (encodeAll settings left)
          rw [← bytes, known] at size_eq
          cases size_eq
          rw [bytes, List.take_left, Record.decode_encode first] at accepted
          cases accepted
          obtain ⟨read, left', split, rest_eq, keys⟩ := ih others (by rw [bytes, List.drop_left])
          refine ⟨r :: read, left', by rw [split, List.cons_append], rest_eq, ?_⟩
          rw [keys, List.append_assoc]
          rfl

/-- The wrapper stands before some records, and has none of them as a whole in its block. -/
structure Reads (settings : Settings) (w : BinlogWrapper) (left : List Record) : Prop where
  stands : At w (encodeAll settings left)
  short : readRecordSize settings w.part = .unknown ∨
    ∃ size, readRecordSize settings w.part = .known size ∧ w.part.length < size

/-- A block with nothing behind it is empty. -/
theorem Reads.none_left (h : Reads settings w left) (valid : ∀ r ∈ left, r.Valid settings)
    (all : w.till - w.binlog.offset = 0) : left = [] ∧ w.part = [] := by
  have rest : encodeAll settings left = w.part := by simpa [all, window] using h.stands.rest
  cases left with
  | nil => exact ⟨rfl, rest.symm⟩
  | cons r left =>
      exfalso
      have known := readRecordSize_encode (List.forall_mem_cons.mp valid).1 (encodeAll settings left)
      rw [show r.encode settings.trackEstimatedTime ++ encodeAll settings left = w.part from rest] at known
      rcases h.short with unknown | ⟨size, known', less⟩
      · rw [unknown] at known
        cases known
      · rw [known'] at known
        cases known
        have length := congrArg List.length rest
        rw [show encodeAll settings (r :: left) =
          r.encode settings.trackEstimatedTime ++ encodeAll settings left from rfl, List.length_append] at length
        omega

theorem finish_empty (empty : w.part = []) (inside : w.binlog.offset ≤ w.binlog.size) : w.finish 0 = w := by
  cases w with
  | mk binlog till part finished failed =>
      cases empty
      simp only [BinlogWrapper.finish, File.seek, List.length_nil, Nat.add_zero, Nat.sub_zero, Nat.lt_irrefl,
        decide_false, Bool.or_false, inside, if_true]

/-- Reading one block. -/
theorem Reads.readTillEnd (h : Reads settings w left) (valid : ∀ r ∈ left, r.Valid settings) (result : List Key) :
    (left = [] ∧ readTillEnd settings push result w = (true, result, w)) ∨
      ∃ read left' w', left = read ++ left' ∧ Reads settings w' left' ∧ w'.till = w.till ∧
        w'.binlog.data = w.binlog.data ∧ w.binlog.offset < w'.binlog.offset ∧
        readTillEnd settings push result w = (false, result ++ read.flatMap storeKeys, w') := by
  by_cases all : w.till - w.binlog.offset = 0
  · obtain ⟨none, empty⟩ := h.none_left valid all
    have stays := finish_empty empty (h.stands.inside.trans h.stands.available)
    refine .inl ⟨none, ?_⟩
    simp only [BinlogWrapper.readTillEnd, BinlogWrapper.readPart, h.stands.unfinished, all, stays,
      Bool.false_eq_true, if_false, if_true]
  · right
    cases h.stands.readPart (part_lt_block h.short) with
    | inr last =>
        have length := congrArg List.length h.stands.rest
        rw [last.1, List.length_append, length_window_file h.stands.inside h.stands.available] at length
        omega
    | inl block =>
        obtain ⟨w₁, read, next, till, data, further⟩ := block
        have records := @At.readRecords settings (List Key) push w₁ (encodeAll settings left) next w₁.part.length
          (Nat.le_refl _) result
        have goesOn := @readRecords_push settings w₁.part.length result w₁
        simp only [BinlogWrapper.readTillEnd, read]
        generalize BinlogWrapper.readRecords settings push w₁.part.length result w₁ = outcome at records goesOn
        cases records with
        | @more result' w' rest' passed at_ short till' data' offset' =>
            obtain ⟨records, left', split, rest, keys⟩ := passed_push valid rfl passed
            subst rest keys
            exact ⟨records, left', w', split, ⟨at_, short⟩, till'.trans till, data'.trans data, offset' ▸ further, rfl⟩
        | @invalid result' w' rest' passed invalid finished ends =>
            obtain ⟨records, left', split, rest, -⟩ := passed_push valid rfl passed
            exfalso
            cases left' with
            | nil =>
                rw [rest] at invalid
                cases invalid
            | cons r left' =>
                have first : r.Valid settings := valid r (by simp [split])
                have known := readRecordSize_encode first (encodeAll settings left')
                rw [show r.encode settings.trackEstimatedTime ++ encodeAll settings left' = rest' from rest.symm,
                  invalid] at known
                cases known
        | rejected => cases goesOn

/-- A chunk has the keys of the records from the front. There are none only when nothing is left. -/
theorem Reads.readBlocks (h : Reads settings w left) (valid : ∀ r ∈ left, r.Valid settings) {fuel : Nat}
    (enough : w.till - w.binlog.offset < fuel) (result : List Key) :
    ∃ read left' w', left = read ++ left' ∧ Reads settings w' left' ∧ w'.till = w.till ∧
      w'.binlog.data = w.binlog.data ∧
      readBlocks settings fuel result w = (result ++ read.flatMap storeKeys, w') ∧
      (result ++ read.flatMap storeKeys = [] → left' = []) := by
  induction fuel generalizing w left result with
  | zero => omega
  | succ fuel ih =>
      rw [CompactorObject.readBlocks]
      by_cases full : settings.compactChunkSize ≤ result.length
      · refine ⟨[], left, w, rfl, h, rfl, rfl, ?_, ?_⟩
        · rw [if_pos full]
          simp
        · intro empty
          have none : result = [] := by simpa using empty
          have := settings.compacts
          rw [none, List.length_nil] at full
          omega
      · rw [if_neg full]
        rcases h.readTillEnd valid result with ⟨none, ended⟩ | ⟨read, left', w', split, next, till, data, further, goesOn⟩
        · refine ⟨[], [], w, none, none ▸ h, rfl, rfl, ?_, fun _ => rfl⟩
          rw [ended]
          simp
        · have others : ∀ r ∈ left', r.Valid settings :=
            fun r member => valid r (split ▸ List.mem_append_right read member)
          have inside := next.stands.inside
          obtain ⟨read', left'', w'', split', reads, till', data', result', last⟩ :=
            ih next others (by omega) (result ++ read.flatMap storeKeys)
          refine ⟨read ++ read', left'', w'', ?_, reads, till'.trans till, data'.trans data, ?_, ?_⟩
          · rw [split, split', List.append_assoc]
          · rw [goesOn]
            simp only [result', List.flatMap_append, List.append_assoc]
          · rwa [List.flatMap_append, ← List.append_assoc]

/-- A file that gets longer is read as before. -/
theorem Reads.grown (h : Reads settings w left) {binlog : Bytes} (same : binlog.take w.till = w.binlog.data.take w.till)
    (available : w.till ≤ binlog.length) :
    Reads settings { w with binlog := { w.binlog with data := binlog } } left := by
  have window_eq : window binlog w.binlog.offset (w.till - w.binlog.offset) =
      window w.binlog.data w.binlog.offset (w.till - w.binlog.offset) := by
    rw [window, window, ← List.drop_take, ← List.drop_take, same]
  obtain ⟨unfinished, inside, -, held, rest, partAligned, leftAligned⟩ := h.stands
  exact ⟨⟨unfinished, inside, available, held, rest.trans (by rw [window_eq]), partAligned, leftAligned⟩, h.short⟩

end CompactorObject

end IMeDesktop.Storage.Cache
