import IMeDesktop.Storage.CacheTypes

/-! # Reading a binlog in blocks

`BinlogWrapper` reads a file block by block and hands out the records that are complete
in the block; what is left of a block is read on with the next one. Handlers are given
by the callers, the database and the compactor, and may reject a record.

The main result says what this comes to without blocks: records are handled one after
another until one is incomplete, invalid or rejected, and the file is left where that
one starts. The file is the decrypted one, and its operations do not fail.
-/

namespace IMeDesktop.Storage.Cache

open Lib

structure File where
  data : Bytes
  offset : Nat := 0
  deriving DecidableEq, Repr

namespace File

def size (f : File) : Nat := f.data.length

def read (f : File) (amount : Nat) : Bytes × File :=
  let bytes := window f.data f.offset amount
  (bytes, { f with offset := f.offset + bytes.length })

/-- What was behind the written bytes stays. -/
def write (f : File) (bytes : Bytes) : File where
  data := f.data.take f.offset ++ bytes ++ f.data.drop (f.offset + bytes.length)
  offset := f.offset + bytes.length

def seek (f : File) (offset : Nat) : File := if offset ≤ f.size then { f with offset := offset } else f

end File

structure BinlogWrapper where
  binlog : File
  till : Nat
  part : Bytes := []
  finished : Bool := false
  failed : Bool := false
  deriving DecidableEq, Repr

namespace BinlogWrapper

section Reading

variable (settings : Settings)

def finish (w : BinlogWrapper) (rollback : Nat) : BinlogWrapper :=
  { w with
    failed := w.failed || 0 < rollback
    binlog := w.binlog.seek (w.binlog.offset - (rollback + w.part.length)) }

def readPart (w : BinlogWrapper) : Bool × BinlogWrapper :=
  if w.finished then (false, w)
  else
    let left := w.till - w.binlog.offset
    if left = 0 then (false, w.finish 0)
    else
      let amount := min left (settings.readBlockSize - w.part.length)
      let (bytes, binlog) := w.binlog.read amount
      if bytes = [] then (false, finish { w with binlog := binlog } 0)
      else (true, { w with binlog := binlog, part := w.part ++ bytes })

/-- No bytes when there is no complete record in the block. -/
def readRecord (w : BinlogWrapper) : Bytes × BinlogWrapper :=
  if w.finished then ([], w)
  else
    match readRecordSize settings w.part with
    | .unknown => ([], w)
    | .invalid => ([], { w.finish 0 with finished := true, failed := true })
    | .known size =>
        if size > w.part.length then ([], w)
        else (w.part.take size, { w with part := w.part.drop size })

variable {σ : Type} (handler : σ → Record → Bool × σ)

/-- The records of one block. -/
def readRecords : Nat → σ → BinlogWrapper → Bool × σ × BinlogWrapper
  | 0, s, w => (false, s, w)
  | fuel + 1, s, w =>
      match readRecord settings w with
      | ([], w) => (false, s, w)
      | (byte :: bytes, w) =>
          match handler s (Record.decode settings.trackEstimatedTime (byte :: bytes)) with
          | (true, s) => readRecords fuel s w
          | (false, s) => (true, s, w.finish (byte :: bytes).length)

def readTillEnd (s : σ) (w : BinlogWrapper) : Bool × σ × BinlogWrapper :=
  match readPart settings w with
  | (false, w) => (true, s, w)
  | (true, w) => readRecords settings handler w.part.length s w

/-- `readBinlogHelper`, which calls `readTillEnd` until there is nothing more to read. -/
def readAll : Nat → σ → BinlogWrapper → σ × BinlogWrapper
  | 0, s, w => (s, w)
  | fuel + 1, s, w =>
      match readTillEnd settings handler s w with
      | (true, s, w) => (s, w)
      | (false, s, w) => readAll fuel s w

end Reading

/-! ## What holds of every record -/

section Keeping

variable {settings : Settings} {σ : Type} {handler : σ → Record → Bool × σ} {P : σ → Prop}

theorem readRecords_keeps (keeps : ∀ s r, P s → P (handler s r).2) (fuel : Nat) {s : σ} (holds : P s)
    (w : BinlogWrapper) : P (readRecords settings handler fuel s w).2.1 := by
  induction fuel generalizing s w with
  | zero => exact holds
  | succ fuel ih =>
      rw [readRecords]
      split
      · exact holds
      · rename_i byte bytes w' _
        have next := keeps s (Record.decode settings.trackEstimatedTime (byte :: bytes)) holds
        split
        · rename_i s' accepted
          rw [accepted] at next
          exact ih next w'
        · rename_i s' rejected
          rw [rejected] at next
          exact next

theorem readAll_keeps (keeps : ∀ s r, P s → P (handler s r).2) (fuel : Nat) {s : σ} (holds : P s)
    (w : BinlogWrapper) : P (readAll settings handler fuel s w).1 := by
  induction fuel generalizing s w with
  | zero => exact holds
  | succ fuel ih =>
      have block : P (readTillEnd settings handler s w).2.1 := by
        rw [readTillEnd]
        split
        · exact holds
        · exact readRecords_keeps keeps _ holds _
      rw [readAll]
      split
      · rename_i s' w' read
        rw [read] at block
        exact block
      · rename_i s' w' read
        rw [read] at block
        exact ih block w'

end Keeping

/-! ## Records without blocks -/

section Scanning

variable {settings : Settings} {σ : Type} {handler : σ → Record → Bool × σ}

/-- Complete records at the start of some bytes, all of them accepted. -/
inductive Passed (settings : Settings) (handler : σ → Record → Bool × σ) : σ → Bytes → σ → Bytes → Prop where
  | refl (s : σ) (data : Bytes) : Passed settings handler s data s data
  | next {s s' s'' : σ} {data rest : Bytes} {size : Nat} (known : readRecordSize settings data = .known size)
      (complete : size ≤ data.length)
      (accepted : handler s (Record.decode settings.trackEstimatedTime (data.take size)) = (true, s'))
      (more : Passed settings handler s' (data.drop size) s'' rest) : Passed settings handler s data s'' rest

/-- There is no complete record. -/
def Incomplete (settings : Settings) (data : Bytes) : Prop :=
  ∀ size, readRecordSize settings data = .known size → data.length < size

/-- Reading ends at some bytes. -/
inductive Stops (settings : Settings) (handler : σ → Record → Bool × σ) : σ → Bytes → σ → Prop where
  | incomplete (s : σ) {data : Bytes} (h : Incomplete settings data) : Stops settings handler s data s
  | rejected {s s' : σ} {data : Bytes} {size : Nat} (known : readRecordSize settings data = .known size)
      (complete : size ≤ data.length)
      (rejects : handler s (Record.decode settings.trackEstimatedTime (data.take size)) = (false, s')) :
      Stops settings handler s data s'

/-- Everything that is read of some bytes, and the bytes where reading ended. -/
def Scans (settings : Settings) (handler : σ → Record → Bool × σ) (s : σ) (data : Bytes) (s' : σ)
    (rest : Bytes) : Prop :=
  ∃ last, Passed settings handler s data last rest ∧ Stops settings handler last rest s'

theorem Passed.trans {s₁ s₂ s₃ : σ} {data rest rest' : Bytes} (first : Passed settings handler s₁ data s₂ rest)
    (second : Passed settings handler s₂ rest s₃ rest') : Passed settings handler s₁ data s₃ rest' := by
  induction first with
  | refl => exact second
  | next known complete accepted _ ih => exact .next known complete accepted (ih second)

/-- A wrapper that is about to read `rest`; some of it is in the block already. -/
structure At (w : BinlogWrapper) (rest : Bytes) : Prop where
  unfinished : w.finished = false
  inside : w.binlog.offset ≤ w.till
  available : w.till ≤ w.binlog.size
  held : w.part.length ≤ w.binlog.offset
  rest : rest = w.part ++ window w.binlog.data w.binlog.offset (w.till - w.binlog.offset)
  partAligned : kBlockSize ∣ w.part.length
  leftAligned : kBlockSize ∣ w.till - w.binlog.offset

/-- A wrapper that ended reading at `rest`. -/
structure EndsAt (w : BinlogWrapper) (data : Bytes) (till : Nat) (rest : Bytes) : Prop where
  offset : w.binlog.offset + rest.length = till
  data : w.binlog.data = data

theorem length_window_file {f : File} {till : Nat} (inside : f.offset ≤ till) (available : till ≤ f.size) :
    (window f.data f.offset (till - f.offset)).length = till - f.offset := by
  apply length_window
  rw [File.size] at available
  omega

theorem At.till_eq {w : BinlogWrapper} {rest : Bytes} (h : At w rest) :
    w.binlog.offset - w.part.length + rest.length = w.till := by
  have := h.held
  have := h.inside
  rw [h.rest, List.length_append, length_window_file h.inside h.available]
  omega

theorem At.finish {w : BinlogWrapper} {rest : Bytes} (h : At w rest) (bytes : Bytes)
    (taken : bytes.length + w.part.length ≤ w.binlog.offset) :
    EndsAt (w.finish bytes.length) w.binlog.data w.till (bytes ++ rest) := by
  have inside : w.binlog.offset - (bytes.length + w.part.length) ≤ w.binlog.size := by
    have := h.inside
    have := h.available
    omega
  have till := h.till_eq
  have := h.held
  constructor
  · simp only [BinlogWrapper.finish, File.seek, inside, if_true, List.length_append]
    omega
  · simp only [BinlogWrapper.finish, File.seek, inside, if_true]

/-- What is too short for a record is shorter than a block. -/
theorem part_lt_block {part : Bytes}
    (short : readRecordSize settings part = .unknown ∨
      ∃ size, readRecordSize settings part = .known size ∧ part.length < size) :
    part.length < settings.readBlockSize := by
  cases short with
  | inr larger =>
      obtain ⟨size, known, less⟩ := larger
      exact Nat.lt_of_lt_of_le less (readRecordSize_known known).2.2
  | inl unknown =>
      have fits := settings.fits
      have small : part.length < 16 := by
        by_contra long
        cases part with
        | nil => simp at long
        | cons type more =>
            simp only [readRecordSize, readRecordSizeMulti, long, if_false] at unknown
            split_ifs at unknown
      simp only [kBlockSize] at fits
      omega

theorem At.take {w : BinlogWrapper} {rest : Bytes} (h : At w rest) {amount : Nat}
    (most : amount ≤ w.till - w.binlog.offset) (aligned : kBlockSize ∣ amount) :
    (window w.binlog.data w.binlog.offset amount).length = amount ∧
      At { w with
        binlog := { w.binlog with offset := w.binlog.offset + amount }
        part := w.part ++ window w.binlog.data w.binlog.offset amount } rest := by
  have inside := h.inside
  have available := h.available
  have length : (window w.binlog.data w.binlog.offset amount).length = amount := by
    apply length_window
    rw [File.size] at available
    omega
  refine ⟨length, h.unfinished, ?_, h.available, ?_, ?_, ?_, ?_⟩
  · simp only
    omega
  · have := h.held
    simp only [List.length_append, length]
    omega
  · have split : w.till - w.binlog.offset = amount + (w.till - (w.binlog.offset + amount)) := by omega
    rw [h.rest, split, window_add]
    simp
  · simp only [List.length_append, length]
    exact Nat.dvd_add h.partAligned aligned
  · simp only [Nat.sub_add_eq]
    exact Nat.dvd_sub h.leftAligned aligned

/-- Reading on makes the block longer, or there is nothing left. -/
theorem At.readPart {w : BinlogWrapper} {rest : Bytes} (h : At w rest)
    (room : w.part.length < settings.readBlockSize) :
    (∃ w', readPart settings w = (true, w') ∧ At w' rest ∧ w'.till = w.till ∧ w'.binlog.data = w.binlog.data ∧
        w.binlog.offset < w'.binlog.offset) ∨
      (rest = w.part ∧ ∃ w', readPart settings w = (false, w') ∧ EndsAt w' w.binlog.data w.till rest) := by
  by_cases left : w.till - w.binlog.offset = 0
  · right
    have all : rest = w.part := by simpa [left, window] using h.rest
    refine ⟨all, w.finish 0, ?_, h.finish [] (by simpa using h.held)⟩
    simp [BinlogWrapper.readPart, h.unfinished, left]
  · left
    have amount_le := Nat.min_le_left (w.till - w.binlog.offset) (settings.readBlockSize - w.part.length)
    have positive : 0 < min (w.till - w.binlog.offset) (settings.readBlockSize - w.part.length) := by omega
    have aligned : kBlockSize ∣ min (w.till - w.binlog.offset) (settings.readBlockSize - w.part.length) := by
      cases Nat.le_total (w.till - w.binlog.offset) (settings.readBlockSize - w.part.length) with
      | inl less =>
          rw [Nat.min_eq_left less]
          exact h.leftAligned
      | inr more =>
          rw [Nat.min_eq_right more]
          exact Nat.dvd_sub settings.aligned h.partAligned
    obtain ⟨length, next⟩ := h.take amount_le aligned
    refine ⟨_, ?_, next, rfl, rfl, Nat.lt_add_of_pos_right positive⟩
    have nonempty : window w.binlog.data w.binlog.offset
        (min (w.till - w.binlog.offset) (settings.readBlockSize - w.part.length)) ≠ [] := by
      intro empty
      rw [empty] at length
      exact absurd length (Nat.ne_of_lt positive)
    simp only [BinlogWrapper.readPart, h.unfinished, left, File.read, length, nonempty, if_false,
      Bool.false_eq_true]

/-- What the records of one block come to. -/
inductive BlockRead (settings : Settings) (handler : σ → Record → Bool × σ) (s : σ) (w : BinlogWrapper)
    (rest : Bytes) : Bool × σ × BinlogWrapper → Prop where
  | more {s' : σ} {w' : BinlogWrapper} {rest' : Bytes} (passed : Passed settings handler s rest s' rest')
      (at_ : At w' rest')
      (short : readRecordSize settings w'.part = .unknown ∨
        ∃ size, readRecordSize settings w'.part = .known size ∧ w'.part.length < size)
      (till : w'.till = w.till) (data : w'.binlog.data = w.binlog.data) (offset : w'.binlog.offset = w.binlog.offset) :
      BlockRead settings handler s w rest (false, s', w')
  | invalid {s' : σ} {w' : BinlogWrapper} {rest' : Bytes} (passed : Passed settings handler s rest s' rest')
      (invalid : readRecordSize settings rest' = .invalid) (finished : w'.finished = true)
      (ends : EndsAt w' w.binlog.data w.till rest') : BlockRead settings handler s w rest (false, s', w')
  | rejected {s' : σ} {w' : BinlogWrapper} {rest' : Bytes} (scans : Scans settings handler s rest s' rest')
      (ends : EndsAt w' w.binlog.data w.till rest') : BlockRead settings handler s w rest (true, s', w')

/-- A block that is not empty shows what the bytes to read start with. -/
theorem At.readRecordSize_eq {w : BinlogWrapper} {rest : Bytes} (h : At w rest)
    (started : readRecordSize settings w.part ≠ .unknown) :
    readRecordSize settings rest = readRecordSize settings w.part := by
  have long : 16 ≤ w.part.length := by
    obtain ⟨blocks, length⟩ := h.partAligned
    cases blocks with
    | zero =>
        have empty : w.part = [] := List.eq_nil_of_length_eq_zero (by omega)
        exact absurd (by rw [empty]; rfl) started
    | succ blocks =>
        simp only [kBlockSize] at length
        omega
  rw [h.rest, readRecordSize_append long]

theorem At.drop {w : BinlogWrapper} {rest : Bytes} (h : At w rest) {size : Nat} (held : size ≤ w.part.length)
    (aligned : kBlockSize ∣ size) : At { w with part := w.part.drop size } (rest.drop size) := by
  refine ⟨h.unfinished, h.inside, h.available, ?_, ?_, ?_, h.leftAligned⟩
  · have := h.held
    simp only [List.length_drop]
    omega
  · rw [h.rest, List.drop_append_of_le_length held]
  · simp only [List.length_drop]
    exact Nat.dvd_sub h.partAligned aligned

theorem BlockRead.after {s s' : σ} {w w' : BinlogWrapper} {rest rest' : Bytes} {result : Bool × σ × BinlogWrapper}
    (passed : Passed settings handler s rest s' rest') (till : w'.till = w.till)
    (data : w'.binlog.data = w.binlog.data) (offset : w'.binlog.offset = w.binlog.offset)
    (block : BlockRead settings handler s' w' rest' result) : BlockRead settings handler s w rest result := by
  cases block with
  | more later at_ short till' data' offset' =>
      exact .more (passed.trans later) at_ short (till'.trans till) (data'.trans data) (offset'.trans offset)
  | invalid later invalid finished ends =>
      rw [till, data] at ends
      exact .invalid (passed.trans later) invalid finished ends
  | rejected scans ends =>
      obtain ⟨last, later, stops⟩ := scans
      rw [till, data] at ends
      exact .rejected ⟨last, passed.trans later, stops⟩ ends

theorem readRecord_known {w : BinlogWrapper} {size : Nat} (unfinished : w.finished = false)
    (found : readRecordSize settings w.part = .known size) (held : size ≤ w.part.length) :
    readRecord settings w = (w.part.take size, { w with part := w.part.drop size }) := by
  rw [readRecord, unfinished, if_neg Bool.false_ne_true, found]
  exact if_neg (Nat.not_lt.mpr held)

theorem At.readRecords {w : BinlogWrapper} {rest : Bytes} (h : At w rest) {fuel : Nat}
    (enough : w.part.length ≤ fuel) (s : σ) :
    BlockRead settings handler s w rest (readRecords settings handler fuel s w) := by
  induction fuel generalizing s w rest with
  | zero =>
      have empty : w.part = [] := List.eq_nil_of_length_eq_zero (by omega)
      refine .more (.refl s rest) h (.inl ?_) rfl rfl rfl
      rw [empty]
      rfl
  | succ fuel ih =>
      rw [BinlogWrapper.readRecords]
      cases found : readRecordSize settings w.part with
      | unknown =>
          simp only [readRecord, h.unfinished, found, Bool.false_eq_true, if_false]
          exact .more (.refl s rest) h (.inl found) rfl rfl rfl
      | invalid =>
          have invalid := @At.readRecordSize_eq settings w rest h (by rw [found]; nofun)
          have ends := h.finish [] (by simpa using h.held)
          simp only [readRecord, h.unfinished, found, Bool.false_eq_true, if_false]
          exact .invalid (.refl s rest) (invalid.trans found) rfl ⟨ends.offset, ends.data⟩
      | known size =>
          by_cases larger : size > w.part.length
          · simp only [readRecord, h.unfinished, found, larger, Bool.false_eq_true, if_false, if_true]
            exact .more (.refl s rest) h (.inr ⟨size, found, larger⟩) rfl rfl rfl
          · obtain ⟨aligned, large, -⟩ := readRecordSize_known found
            have held : size ≤ w.part.length := Nat.le_of_not_gt larger
            have known : readRecordSize settings rest = .known size := by
              rw [@At.readRecordSize_eq settings w rest h (by rw [found]; nofun), found]
            have complete : size ≤ rest.length := by
              rw [h.rest, List.length_append]
              omega
            have taken : rest.take size = w.part.take size := by
              rw [h.rest, List.take_append_of_le_length held]
            have next := h.drop held aligned
            have read := readRecord_known h.unfinished found held
            cases bytes : w.part.take size with
            | nil =>
                have length := congrArg List.length bytes
                simp only [List.length_take, List.length_nil, kBlockSize] at length large
                omega
            | cons byte more =>
                rw [bytes] at taken read
                rw [read]
                cases outcome : handler s (Record.decode settings.trackEstimatedTime (byte :: more)) with
                | mk accepted s' =>
                    rw [← taken] at outcome
                    cases accepted with
                    | true =>
                        have shorter : (w.part.drop size).length ≤ fuel := by
                          simp only [List.length_drop, kBlockSize] at large ⊢
                          omega
                        simp only [← taken, outcome]
                        refine .after (.next known complete outcome (.refl s' _)) ?_ ?_ ?_ (ih next shorter s')
                        · rfl
                        · rfl
                        · rfl
                    | false =>
                        have ends := next.finish (rest.take size) (by
                          have := h.held
                          rw [List.length_take, List.length_drop]
                          simp only
                          omega)
                        rw [List.take_append_drop] at ends
                        simp only [← taken, outcome]
                        exact .rejected ⟨s, .refl s rest, .rejected known complete outcome⟩ ends

theorem readAll_finished {w : BinlogWrapper} (finished : w.finished = true) (fuel : Nat) (s : σ) :
    readAll settings handler fuel s w = (s, w) := by
  cases fuel with
  | zero => rfl
  | succ fuel => simp only [BinlogWrapper.readAll, readTillEnd, BinlogWrapper.readPart, finished, if_true]

/-- Reading in blocks does what reading at once would do. -/
theorem At.readAll {w : BinlogWrapper} {rest : Bytes} (h : At w rest)
    (short : readRecordSize settings w.part = .unknown ∨
      ∃ size, readRecordSize settings w.part = .known size ∧ w.part.length < size) {fuel : Nat}
    (enough : w.till - w.binlog.offset < fuel) (s : σ) :
    ∃ rest', Scans settings handler s rest (readAll settings handler fuel s w).1 rest' ∧
      EndsAt (readAll settings handler fuel s w).2 w.binlog.data w.till rest' := by
  induction fuel generalizing s w rest with
  | zero => omega
  | succ fuel ih =>
      cases h.readPart (part_lt_block short) with
      | inr last =>
          obtain ⟨all, w', read, ends⟩ := last
          have incomplete : Incomplete settings rest := by
            intro size known
            rw [all] at known ⊢
            cases short with
            | inl unknown =>
                rw [unknown] at known
                cases known
            | inr larger =>
                obtain ⟨size', known', less⟩ := larger
                rw [known'] at known
                cases known
                exact less
          refine ⟨rest, ⟨s, .refl s rest, ?_⟩, ?_⟩
          · simp only [BinlogWrapper.readAll, readTillEnd, read]
            exact .incomplete s incomplete
          · simp only [BinlogWrapper.readAll, readTillEnd, read]
            exact ends
      | inl block =>
          obtain ⟨w₁, read, next, till, data, further⟩ := block
          have records := @At.readRecords settings σ handler w₁ rest next w₁.part.length (Nat.le_refl _) s
          simp only [BinlogWrapper.readAll, readTillEnd, read]
          generalize BinlogWrapper.readRecords settings handler w₁.part.length s w₁ = result at records
          rw [← till, ← data]
          cases records with
          | @more s' w' rest' passed at_ short' till' data' offset' =>
              have inside := next.inside
              obtain ⟨rest'', ⟨last, later, stops⟩, ends⟩ := ih at_ short' (by omega) s'
              rw [till', data'] at ends
              exact ⟨rest'', ⟨last, passed.trans later, stops⟩, ends⟩
          | @invalid s' w' rest' passed invalid finished ends =>
              simp only [readAll_finished finished]
              refine ⟨rest', ⟨s', passed, .incomplete s' fun size known => ?_⟩, ends⟩
              rw [invalid] at known
              cases known
          | @rejected s' w' rest' scans ends => exact ⟨rest', scans, ends⟩

/-! ## Known records -/

/-- An accepted record at the start is passed. -/
theorem scans_accepted {s s₁ s' : σ} {r : Record} {data rest : Bytes} (valid : r.Valid settings)
    (accepted : handler s r = (true, s₁))
    (scans : Scans settings handler s (r.encode settings.trackEstimatedTime ++ data) s' rest) :
    Scans settings handler s₁ data s' rest := by
  have known := readRecordSize_encode valid data
  have complete : (r.encode settings.trackEstimatedTime).length ≤
      (r.encode settings.trackEstimatedTime ++ data).length := by simp
  have decoded : Record.decode settings.trackEstimatedTime
      ((r.encode settings.trackEstimatedTime ++ data).take (r.encode settings.trackEstimatedTime).length) = r := by
    rw [List.take_left, Record.decode_encode valid]
  obtain ⟨last, passed, stops⟩ := scans
  cases passed with
  | refl =>
      exfalso
      cases stops with
      | incomplete short => exact absurd complete (Nat.not_le.mpr (short _ known))
      | rejected known' _ rejects =>
          rw [known] at known'
          cases known'
          rw [decoded, accepted] at rejects
          cases rejects
  | next known' _ accepted' more =>
      rw [known] at known'
      cases known'
      rw [decoded, accepted] at accepted'
      cases accepted'
      rw [List.drop_left] at more
      exact ⟨last, more, stops⟩

/-- Where no record is complete, nothing is read. -/
theorem scans_incomplete {s s' : σ} {data rest : Bytes} (incomplete : Incomplete settings data)
    (scans : Scans settings handler s data s' rest) : s' = s ∧ rest = data := by
  obtain ⟨last, passed, stops⟩ := scans
  cases passed with
  | refl =>
      cases stops with
      | incomplete => exact ⟨rfl, rfl⟩
      | rejected known complete _ => exact absurd complete (Nat.not_le.mpr (incomplete _ known))
  | next known complete _ _ => exact absurd complete (Nat.not_le.mpr (incomplete _ known))

end Scanning

end BinlogWrapper

end IMeDesktop.Storage.Cache
