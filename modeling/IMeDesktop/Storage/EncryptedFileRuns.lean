import IMeDesktop.Storage.EncryptedFile

/-! # Runs of an encrypted file

A file is opened with a key, on a device that is empty or has a header for this key. From
then on every step in which the device takes what it is given is a step of a plain file.

When a write fails, the caller should find nothing changed. This is so but for the size,
when the blocks in front were written behind the end and the padded one was not.
-/

namespace IMeDesktop.Storage

open Lib

namespace EncryptedFile

variable {crypto : Crypto} {f : EncryptedFile}

/-! ## Opening -/

inductive OpenResult where
  | failed
  | wrongKey
  | success
  deriving DecidableEq

section Opening

variable (crypto : Crypto) (key : Bytes)

/-- `openssl::Sha256` of the key and the header up to the checksum. -/
def headerChecksum (header : Bytes) : Bytes := crypto.sha256 (key ++ header.take 80)

/-- Salt, format, what is reserved, version and checksum. -/
def basicHeader (salt : Bytes) : Bytes :=
  let fields := salt ++ List.replicate 16 0
  fields ++ headerChecksum crypto key fields

/-- The device takes all of it. -/
def writeHeader (random : Nat → UInt8) (data : Device) : Option (OpenResult × EncryptedFile) := do
  let magic : Bytes := [0x54, 0x44, 0x45, 0x46]
  let salt := (List.range kSaltSize).map random
  let header := basicHeader crypto key salt
  let (_, data) := data.write magic (some magic.length)
  let (_, data) := data.write salt (some salt.length)
  let f : EncryptedFile := { data := data, state := prepareCtrState crypto key salt }
  let (written, _, f) ← f.write crypto (header.drop kSaltSize) (some header.length)
  if written then some (.success, { f with dataSize := 0 }) else some (.failed, f)

/-- The checks of a header that was decrypted. -/
def checkHeader (f : EncryptedFile) (header : Bytes) : OpenResult × EncryptedFile :=
  if header.drop 80 = headerChecksum crypto key header then
    if header[kSaltSize]? = some 0 then
      let dataSize := f.data.bytes.length - headerSize - kSkipBytes
      (.success, { f with dataSize := dataSize - dataSize % kBlockSize })
    else (.failed, f)
  else (.wrongKey, f)

def readHeader (data : Device) : Option (OpenResult × EncryptedFile) :=
  let (header, data) := (data.seek kSkipBytes).read headerSize
  let salt := header.take kSaltSize
  let f : EncryptedFile := { data := data, state := prepareCtrState crypto key salt }
  if header.length = headerSize then do
    let (rest, f) ← f.decrypt crypto (header.drop kSaltSize)
    some (checkHeader crypto key f (salt ++ rest))
  else some (.failed, f)

inductive Mode where
  | read
  | readAppend
  | write

/-- A device that is opened for writing is empty. -/
def attemptOpen (mode : Mode) (random : Nat → UInt8) (bytes : Bytes) : Option (OpenResult × EncryptedFile) :=
  match mode with
  | .read => readHeader crypto key { bytes := bytes }
  | .readAppend =>
      if bytes = [] then writeHeader crypto key random { bytes := [] } else readHeader crypto key { bytes := bytes }
  | .write => writeHeader crypto key random { bytes := [] }

end Opening

theorem checkHeader_success {key header : Bytes} {r : EncryptedFile}
    (checked : checkHeader crypto key f header = (.success, r)) :
    r = { f with
      dataSize := f.data.bytes.length - headerSize - kSkipBytes -
        (f.data.bytes.length - headerSize - kSkipBytes) % kBlockSize } := by
  unfold checkHeader at checked
  split_ifs at checked
  · exact (Prod.mk.inj checked).2.symm
  · cases (Prod.mk.inj checked).1
  · cases (Prod.mk.inj checked).1

theorem readHeader_exact {key : Bytes} {data : Device} (opened : readHeader crypto key data = some (.success, f)) :
    f.Exact := by
  unfold readHeader at opened
  simp only [Device.read, Device.seek] at opened
  by_cases length : (window data.bytes kSkipBytes headerSize).length = headerSize
  · have rest : ((window data.bytes kSkipBytes headerSize).drop kSaltSize).length = 48 := by
      rw [List.length_drop, length]
      rfl
    have enough : 116 ≤ data.bytes.length := by
      rw [window, List.length_take, List.length_drop] at length
      unfold headerSize kSkipBytes at length
      omega
    rw [decrypt_eq rfl (by rw [rest])] at opened
    simp only [Option.bind_eq_bind, Option.bind_some, rest, length, if_true] at opened
    have opened := checkHeader_success (Option.some.inj opened)
    simp only [headerSize, kSkipBytes, kBlockSize] at opened
    subst opened
    constructor
    · constructor
      · rfl
      · simp only
      · exact Nat.le_refl _
      · rfl
      · simp only
        omega
      · exact enough
      · simp only
        omega
    · rw [offset_eq]
      exact Nat.zero_le _
    · simp only
      omega
  · simp only [length, if_false] at opened
    cases (Prod.mk.inj (Option.some.inj opened)).1

/-- Writing at the end of the device. -/
theorem device_append (front bytes : Bytes) :
    Device.write { bytes := front, pos := front.length } bytes (some bytes.length) =
      ((bytes.length : Int), { bytes := front ++ bytes, pos := (front ++ bytes).length }) := by
  rw [device_full (by simp [Short])]
  simp

/-- A header can always be written, and there is nothing behind it. -/
theorem writeHeader_opens (key : Bytes) (random : Nat → UInt8) :
    ∃ f, writeHeader crypto key random { bytes := [] } = some (.success, f) ∧ f.Exact ∧ f.offset = 0 ∧ f.size = 0 := by
  have width := crypto.sha256_width
  have salt_width : ((List.range kSaltSize).map random).length = 64 := by simp
  have rest : ((basicHeader crypto key ((List.range kSaltSize).map random)).drop kSaltSize).length = 48 := by
    simp [basicHeader, headerChecksum, width]
  have all : 48 ≤ (basicHeader crypto key ((List.range kSaltSize).map random)).length := by
    rw [← rest, List.length_drop]
    exact Nat.sub_le _ _
  have magic := device_append [] [0x54, 0x44, 0x45, 0x46]
  have salt := device_append [0x54, 0x44, 0x45, 0x46] ((List.range kSaltSize).map random)
  simp only [List.nil_append, List.length_nil] at magic
  unfold writeHeader
  simp only [magic, salt]
  rw [write_taken rfl rfl (by rw [rest]) (by simp [Short, rest]; exact all)]
  simp only [Option.bind_eq_bind, Option.bind_some, if_true]
  refine ⟨_, rfl, ?_, ?_, rfl⟩
  · constructor
    · constructor
      · rfl
      · simp only [rest]
      · simp only [rest]
        omega
      · simp only [rest, List.length_append, salt_width]
        rfl
      · rfl
      · simp only [rest, List.length_append, List.length_take, List.length_drop, length_mask, salt_width]
        omega
      · simp only [rest, List.length_append, List.length_take, List.length_drop, length_mask, salt_width,
          List.length_cons, List.length_nil]
        omega
    · rw [offset_eq]
      simp only [rest]
      omega
    · simp only [rest, List.length_append, List.length_take, List.length_drop, length_mask, salt_width, List.length_cons,
        List.length_nil]
      omega
  · rw [offset_eq]
    simp only [rest]

theorem writeHeader_exact {key : Bytes} {random : Nat → UInt8}
    (opened : writeHeader crypto key random { bytes := [] } = some (.success, f)) : f.Exact := by
  obtain ⟨g, opens, exact, -⟩ := @writeHeader_opens crypto key random
  rw [opens] at opened
  cases opened
  exact exact

theorem attemptOpen_exact {key bytes : Bytes} {mode : Mode} {random : Nat → UInt8}
    (opened : attemptOpen crypto key mode random bytes = some (.success, f)) : f.Exact := by
  cases mode with
  | read => exact readHeader_exact opened
  | readAppend =>
      unfold attemptOpen at opened
      simp only at opened
      split_ifs at opened
      · exact writeHeader_exact opened
      · exact readHeader_exact opened
  | write => exact writeHeader_exact opened

/-! ## Runs -/

/-- With the answers of the device to each write. -/
inductive Operation where
  | seek (offset : Int)
  | read (bytes : Bytes)
  | write (bytes : Bytes) (answer : Option Nat)
  | readWithPadding (bytes : Bytes)
  | writeWithPadding (bytes : Bytes) (random : Nat → UInt8) (answer answerPadded : Option Nat)

/-- What the caller gets. -/
inductive Result where
  | sought (succeed : Bool)
  | read (bytes : Bytes)
  | written (succeed : Bool)
  deriving DecidableEq

/-- The result, what is left in the buffer of the caller, and the file. -/
def step (crypto : Crypto) (f : EncryptedFile) : Operation → Option (Result × Bytes × EncryptedFile)
  | .seek offset =>
      let (succeed, f) := f.seek offset
      some (.sought succeed, [], f)
  | .read bytes => do
      let (count, bytes, f) ← f.read crypto bytes
      some (.read (bytes.take count), bytes, f)
  | .write bytes answer => do
      let (succeed, bytes, f) ← f.write crypto bytes answer
      some (.written succeed, bytes, f)
  | .readWithPadding bytes => do
      let (count, bytes, f) ← f.readWithPadding crypto bytes
      some (.read (bytes.take count), bytes, f)
  | .writeWithPadding bytes random answer answerPadded => do
      let (succeed, bytes, f) ← f.writeWithPadding crypto bytes random answer answerPadded
      some (.written succeed, bytes, f)

/-- The same on a plain file. What is read or written with padding are whole blocks. -/
def plainStep (f : Cache.File) : Operation → Result × Cache.File
  | .seek offset => (.sought (0 ≤ offset ∧ offset ≤ f.size), if 0 ≤ offset then f.seek offset.toNat else f)
  | .read bytes =>
      let (read, f) := f.read bytes.length
      (.read read, f)
  | .write bytes _ => (.written true, f.write bytes)
  | .readWithPadding bytes =>
      let (read, f) := f.read (paddedSize bytes)
      (.read (read.take bytes.length), f)
  | .writeWithPadding bytes random _ _ => (.written true, f.write (blocksOf bytes ++ padded bytes random))

namespace Operation

/-- Positions are at blocks, and what is not padded is whole blocks. -/
def Aligned : Operation → Prop
  | seek offset => offset % 16 = 0
  | read bytes => bytes.length % 16 = 0
  | write bytes _ => bytes.length % 16 = 0
  | readWithPadding _ => True
  | writeWithPadding _ _ _ _ => True

/-- A write to the device fails or is short. -/
def Fails : Operation → Prop
  | seek _ => False
  | read _ => False
  | write bytes answer => Short answer bytes.length
  | readWithPadding _ => False
  | writeWithPadding bytes _ answer answerPadded => ShortPadded bytes answer answerPadded

/-- The bytes of the caller. -/
def buffer : Operation → Bytes
  | seek _ => []
  | read bytes => bytes
  | write bytes _ => bytes
  | readWithPadding bytes => bytes
  | writeWithPadding bytes _ _ _ => bytes

end Operation

theorem seek_placed (placed : f.Placed) {offset : Int} (aligned : offset % 16 = 0) : (f.seek offset).2.Placed := by
  have kept := placed.stored
  unfold seek
  split_ifs with outside
  · exact placed
  · constructor
    · exact placed.isOpen
    · simp only [headerSize, kSaltSize]
      omega
    · simp only [headerSize, kSaltSize]
      omega
    · simp only [headerSize, kSaltSize, kSkipBytes, Device.seek]
      omega
    · exact placed.whole
    · simp only [headerSize, kSkipBytes, Device.seek]
      omega
    · exact kept

theorem seek_plain (exact : f.Exact) {offset : Int} (aligned : offset % 16 = 0) :
    (f.seek offset).2.Exact ∧
      plainStep (f.plain crypto) (.seek offset) = (.sought (f.seek offset).1, (f.seek offset).2.plain crypto) := by
  have placed := seek_placed exact.toPlaced aligned
  have size := @size_plain crypto f exact.toPlaced
  unfold seek at placed ⊢
  split_ifs at placed ⊢ with outside
  · refine ⟨exact, ?_⟩
    have not_inside : ¬ (0 ≤ offset ∧ offset ≤ (f.plain crypto).size) := by omega
    simp only [plainStep, not_inside, decide_false, Prod.mk.injEq, true_and]
    split_ifs with positive
    · rw [Cache.File.seek, if_neg (by omega)]
    · rfl
  · have moved : EncryptedFile.offset { f with
        data := f.data.seek (kSkipBytes + (headerSize + offset.toNat))
        encryptionOffset := headerSize + offset.toNat - kSaltSize } = offset.toNat := by
      rw [offset_eq]
      simp only [headerSize, kSaltSize]
      omega
    have within : offset.toNat ≤ f.dataSize := by omega
    refine ⟨{ placed with inside := moved.trans_le within, rest := exact.rest }, ?_⟩
    have inside : 0 ≤ offset ∧ offset ≤ (f.plain crypto).size := by omega
    simp only [plainStep, inside, decide_true, Prod.mk.injEq, true_and, if_true]
    rw [Cache.File.seek, if_pos (by omega), plain, plain, moved]
    rfl

/-- Written in two steps or in one. -/
theorem write_append {file : Cache.File} (inside : file.offset ≤ file.size) (front back : Bytes) :
    (file.write front).write back = file.write (front ++ back) := by
  have length : (file.data.take file.offset ++ front).length = file.offset + front.length := by
    rw [Cache.File.size] at inside
    rw [List.length_append, List.length_take, Nat.min_eq_left inside]
  simp only [Cache.File.write, Cache.File.mk.injEq, List.length_append]
  constructor
  · rw [← length, List.take_left, List.drop_append, List.drop_eq_nil_of_le (Nat.le_add_right _ _), List.nil_append,
      List.drop_drop, Nat.add_sub_cancel_left, length]
    simp only [List.append_assoc, Nat.add_assoc]
  · omega

/-- A step in which the device does not fail is one of the plain file. -/
theorem step_plain (exact : f.Exact) {operation : Operation} (aligned : operation.Aligned)
    (works : ¬ operation.Fails) :
    ∃ buffer f', f.step crypto operation = some ((plainStep (f.plain crypto) operation).1, buffer, f') ∧ f'.Exact ∧
      f'.plain crypto = (plainStep (f.plain crypto) operation).2 := by
  cases operation with
  | seek offset =>
      obtain ⟨after, plain⟩ := @seek_plain crypto f exact offset aligned
      rw [plain]
      exact ⟨[], (f.seek offset).2, rfl, after, rfl⟩
  | read bytes =>
      obtain ⟨buffer, read, seen, -⟩ := @read_eq crypto f exact.toPlaced bytes aligned
      refine ⟨buffer, _, ?_, exact.moved aligned, ?_⟩
      · rw [plainStep, plain_read exact aligned, step, read, ← seen]
        rfl
      · rw [plainStep, plain_read exact aligned]
  | write bytes answer =>
      refine ⟨mask (f.state.keystream crypto) f.encryptionOffset bytes, _, ?_, exact.written aligned,
        plain_stored exact bytes⟩
      rw [step, write_full exact.toPlaced aligned works]
      rfl
  | readWithPadding bytes =>
      have whole : paddedSize bytes % 16 = 0 := by
        have := blocks_whole bytes
        rw [paddedSize]
        split_ifs
        · omega
        · omega
      obtain ⟨count, buffer, read, seen⟩ := @readWithPadding_eq crypto f exact.toPlaced bytes
      refine ⟨buffer, _, ?_, exact.moved whole, ?_⟩
      · rw [plainStep, plain_read exact whole, step, read]
        simp [seen]
      · rw [plainStep, plain_read exact whole]
  | writeWithPadding bytes random answer answerPadded =>
      have whole := blocks_whole bytes
      have after := @Exact.written crypto f (blocksOf bytes) exact whole
      obtain ⟨buffer, written⟩ := @writeWithPadding_full crypto f exact.toPlaced bytes random answer answerPadded works
      rw [storedBlocks_eq exact, storedBlocks_eq after] at written
      refine ⟨buffer, (f.stored crypto (blocksOf bytes)).stored crypto (padded bytes random), ?_, after.written ?_, ?_⟩
      · rw [step, written]
        rfl
      · rw [length_padded]
        split_ifs
        · rfl
        · rfl
      · rw [plain_stored after, plain_stored exact, write_append, plainStep]
        rw [size_plain exact.toPlaced]
        exact exact.inside

/-- The size after a write that fails. -/
def sizeAfter (f : EncryptedFile) : Operation → Nat
  | .writeWithPadding bytes _ answer _ => f.failedSize bytes answer
  | _ => f.dataSize

/-- A write in which the device fails is undone, but for the size. -/
theorem step_fails (placed : f.Placed) {operation : Operation} (aligned : operation.Aligned)
    (fails : operation.Fails) :
    ∃ f', f.step crypto operation = some (.written false, operation.buffer, f') ∧ f'.Placed ∧ f'.offset = f.offset ∧
      f'.size = f.sizeAfter operation := by
  cases operation with
  | seek offset => exact fails.elim
  | read bytes => exact fails.elim
  | readWithPadding bytes => exact fails.elim
  | write bytes answer =>
      obtain ⟨left, kept, written⟩ := @write_short crypto f placed bytes answer aligned fails
      refine ⟨f.spoiled left, ?_, placed.spoiled kept, rfl, rfl⟩
      rw [step, written]
      rfl
  | writeWithPadding bytes random answer answerPadded =>
      obtain ⟨left, kept, enough, written⟩ := @writeWithPadding_short crypto f placed bytes random answer answerPadded fails
      refine ⟨{ f.spoiled left with dataSize := f.failedSize bytes answer }, ?_, ?_, rfl, rfl⟩
      · rw [step, written]
        rfl
      · obtain ⟨isOpen, sides, behind, position, whole, reached, stored⟩ := placed
        refine ⟨isOpen, sides, behind, position, ?_, reached.trans kept, enough⟩
        have offset := f.offset_eq
        have blocks := blocks_whole bytes
        simp only [failedSize, grownSize]
        split_ifs
        · exact whole
        · exact whole
        · omega

theorem step_placed (placed : f.Placed) {operation : Operation} (aligned : operation.Aligned) :
    ∃ result buffer f', f.step crypto operation = some (result, buffer, f') ∧ f'.Placed := by
  by_cases fails : operation.Fails
  · obtain ⟨f', failed, after, -⟩ := @step_fails crypto f placed operation aligned fails
    exact ⟨_, _, f', failed, after⟩
  · cases operation with
    | seek offset => exact ⟨_, _, _, rfl, seek_placed placed aligned⟩
    | read bytes =>
        obtain ⟨buffer, read, -⟩ := @read_eq crypto f placed bytes aligned
        have result : f.step crypto (.read bytes) = some (.read (buffer.take (f.available bytes.length)), buffer,
            f.moved (f.available bytes.length)) := by
          rw [step, read]
          rfl
        exact ⟨_, _, _, result, placed.moved bytes.length⟩
    | write bytes answer =>
        have result : f.step crypto (.write bytes answer) = some (.written true,
            mask (f.state.keystream crypto) f.encryptionOffset bytes, f.stored crypto bytes) := by
          rw [step, write_full placed aligned fails]
          rfl
        exact ⟨_, _, _, result, placed.written aligned⟩
    | readWithPadding bytes =>
        obtain ⟨count, buffer, read, -⟩ := @readWithPadding_eq crypto f placed bytes
        have result : f.step crypto (.readWithPadding bytes) = some (.read (buffer.take count), buffer,
            f.moved (f.available (paddedSize bytes))) := by
          rw [step, read]
          rfl
        exact ⟨_, _, _, result, placed.moved (paddedSize bytes)⟩
    | writeWithPadding bytes random answer answerPadded =>
        have whole : (padded bytes random).length % 16 = 0 := by
          rw [length_padded]
          split_ifs
          · rfl
          · rfl
        obtain ⟨buffer, written⟩ := @writeWithPadding_full crypto f placed bytes random answer answerPadded fails
        have result : f.step crypto (.writeWithPadding bytes random answer answerPadded) = some (.written true, buffer,
            (f.storedBlocks crypto (blocksOf bytes)).storedBlocks crypto (padded bytes random)) := by
          rw [step, written]
          rfl
        exact ⟨_, _, _, result, (placed.writtenBlocks (blocks_whole bytes)).writtenBlocks whole⟩

/-- A write in which the device fails returns false and changes nothing for the caller. -/
def Undone (crypto : Crypto) (f : EncryptedFile) (operation : Operation) : Prop :=
  operation.Fails → ∃ f', f.step crypto operation = some (.written false, operation.buffer, f') ∧ f'.offset = f.offset ∧
    f'.size = f.size

/-- Not so where the blocks are written behind the end and the device fails after that. -/
def Undoes (f : EncryptedFile) : Operation → Prop
  | .writeWithPadding bytes _ answer answerPadded =>
      blocksOf bytes = [] ∨ Short answer (blocksOf bytes).length ∨ partOf bytes = [] ∨ ¬ Short answerPadded 16 ∨
        f.offset + (blocksOf bytes).length ≤ f.size
  | _ => True

theorem undone_iff (placed : f.Placed) {operation : Operation} (aligned : operation.Aligned) :
    Undone crypto f operation ↔ Undoes f operation := by
  have size : operation.Fails → (Undone crypto f operation ↔ f.sizeAfter operation = f.size) := by
    intro fails
    obtain ⟨f', failed, -, offset, size⟩ := @step_fails crypto f placed operation aligned fails
    rw [← size]
    constructor
    · intro undone
      obtain ⟨g, same, -, kept⟩ := undone fails
      rw [failed] at same
      cases same
      exact kept
    · intro kept _
      exact ⟨f', failed, offset, kept⟩
  cases operation with
  | seek offset => exact iff_of_true nofun trivial
  | read bytes => exact iff_of_true nofun trivial
  | readWithPadding bytes => exact iff_of_true nofun trivial
  | write bytes answer => exact iff_of_true (fun fails => (size fails).mpr rfl fails) trivial
  | writeWithPadding bytes random answer answerPadded =>
      by_cases fails : ShortPadded bytes answer answerPadded
      · rw [size fails, sizeAfter, failedSize, Undoes, EncryptedFile.size]
        by_cases first : blocksOf bytes ≠ [] ∧ Short answer (blocksOf bytes).length
        · exact iff_of_true (if_pos first) (.inr (.inl first.2))
        · obtain ⟨part, second⟩ := fails.resolve_left first
          rw [if_neg first, grownSize]
          split_ifs with none
          · exact iff_of_true rfl (.inl none)
          · have taken : ¬ Short answer (blocksOf bytes).length := fun short => first ⟨none, short⟩
            simp only [none, taken, part, second, not_true_eq_false, false_or]
            omega
      · obtain ⟨first, second⟩ := not_or.mp fails
        refine iff_of_true (fun failed => absurd failed fails) ?_
        by_cases part : partOf bytes = []
        · exact .inr (.inr (.inl part))
        · exact .inr (.inr (.inr (.inl fun short => second ⟨part, short⟩)))

/-- Every operation of a run, in the state it is done in. -/
def EveryStep (crypto : Crypto) (P : EncryptedFile → Operation → Prop) (f : EncryptedFile) : List Operation → Prop
  | [] => True
  | operation :: operations =>
      P f operation ∧ ∀ result buffer f', f.step crypto operation = some (result, buffer, f') →
        EveryStep crypto P f' operations

/-- The results of a run. -/
def run (crypto : Crypto) (f : EncryptedFile) : List Operation → Option (List Result × EncryptedFile)
  | [] => some ([], f)
  | operation :: operations => do
      let (result, _, f) ← f.step crypto operation
      let (results, f) ← run crypto f operations
      some (result :: results, f)

def plainRun (f : Cache.File) : List Operation → List Result × Cache.File
  | [] => ([], f)
  | operation :: operations =>
      let (result, f) := plainStep f operation
      let (results, f) := plainRun f operations
      (result :: results, f)

theorem run_plain (exact : f.Exact) {operations : List Operation}
    (aligned : ∀ operation ∈ operations, operation.Aligned) (works : ∀ operation ∈ operations, ¬ operation.Fails) :
    ∃ f', f.run crypto operations = some ((plainRun (f.plain crypto) operations).1, f') ∧
      f'.plain crypto = (plainRun (f.plain crypto) operations).2 := by
  induction operations generalizing f with
  | nil => exact ⟨f, rfl, rfl⟩
  | cons operation operations ih =>
      obtain ⟨here, later⟩ := List.forall_mem_cons.mp aligned
      obtain ⟨works, worksLater⟩ := List.forall_mem_cons.mp works
      obtain ⟨buffer, f', step, after, plain⟩ := @step_plain crypto f exact operation here works
      obtain ⟨f'', run, plain'⟩ := ih after later worksLater
      rw [plain] at run plain'
      refine ⟨f'', ?_, plain'⟩
      rw [EncryptedFile.run, step]
      simp only [Option.bind_eq_bind, Option.bind_some, run, plainRun]

theorem run_undone_iff (placed : f.Placed) {operations : List Operation}
    (aligned : ∀ operation ∈ operations, operation.Aligned) :
    EveryStep crypto (Undone crypto) f operations ↔ EveryStep crypto Undoes f operations := by
  induction operations generalizing f with
  | nil => exact Iff.rfl
  | cons operation operations ih =>
      obtain ⟨here, later⟩ := List.forall_mem_cons.mp aligned
      obtain ⟨result, buffer, f', step, after⟩ := @step_placed crypto f placed operation here
      rw [EveryStep, EveryStep, undone_iff placed here]
      refine and_congr_right fun _ => ?_
      constructor
      · intro every result' buffer' g same
        rw [step] at same
        cases same
        exact (ih after later).mp (every _ _ _ step)
      · intro every result' buffer' g same
        rw [step] at same
        cases same
        exact (ih after later).mpr (every _ _ _ step)

/-- A file that was opened is a plain file as long as the device works, its counter of blocks is a number of 128 bits,
and writes in which the device fails are undone exactly where they do not let the size grow. -/
theorem opened_meets_iff {key bytes : Bytes} {mode : Mode} {random : Nat → UInt8}
    (opened : attemptOpen crypto key mode random bytes = some (.success, f)) {operations : List Operation}
    (aligned : ∀ operation ∈ operations, operation.Aligned) :
    ((∀ blockIndex, counterValue (f.state.incrementedIv blockIndex) =
          (counterValue f.state.iv + blockIndex) % 2 ^ 128) ∧
        ((∀ operation ∈ operations, ¬ operation.Fails) →
          ∃ f', f.run crypto operations = some ((plainRun (f.plain crypto) operations).1, f') ∧
            f'.plain crypto = (plainRun (f.plain crypto) operations).2) ∧
        EveryStep crypto (Undone crypto) f operations) ↔
      EveryStep crypto Undoes f operations := by
  have exact := attemptOpen_exact opened
  rw [← run_undone_iff exact.toPlaced aligned]
  constructor
  · rintro ⟨-, -, undone⟩
    exact undone
  · intro undone
    exact ⟨CtrState.counterValue_incrementedIv, fun works => run_plain exact aligned works, undone⟩

/-- What `AES` and the hash give for a key and a salt of zeros, in a file of two blocks. -/
def zeroCrypto : Crypto where
  sha256 data :=
    if data.length = 64 then
      [245, 165, 253, 66, 209, 106, 32, 48, 39, 152, 239, 110, 211, 9, 151, 155,
        67, 0, 61, 35, 32, 217, 240, 232, 234, 152, 49, 169, 39, 89, 251, 75]
    else
      [129, 198, 17, 243, 91, 255, 121, 73, 21, 56, 178, 247, 207, 32, 28, 117,
        151, 166, 97, 165, 197, 73, 99, 53, 65, 198, 43, 220, 138, 241, 97, 63]
  encryptBlock _ block :=
    match block.getLast? with
    | some 155 => [197, 141, 237, 142, 112, 14, 93, 217, 51, 178, 177, 141, 29, 89, 15, 251]
    | some 156 => [94, 113, 91, 228, 98, 4, 225, 202, 4, 91, 125, 125, 146, 94, 125, 203]
    | some 157 => [81, 243, 160, 84, 183, 77, 37, 212, 11, 221, 122, 70, 31, 159, 159, 22]
    | some 158 => [26, 93, 59, 222, 190, 29, 28, 35, 24, 254, 210, 193, 164, 61, 226, 116]
    | _ => [167, 119, 79, 48, 81, 219, 167, 242, 119, 3, 172, 93, 112, 14, 20, 58]
  sha256_width data := by
    split_ifs
    · rfl
    · rfl

theorem short_write_undone : ∃ f,
    attemptOpen zeroCrypto (List.replicate 64 0) .write (fun _ => 0) [] = some (.success, f) ∧
      EveryStep zeroCrypto (Undone zeroCrypto) f
        [.writeWithPadding (List.replicate 17 1) (fun _ => 0) (some 16) (some 16), .seek 0,
          .write (List.replicate 32 2) (some 7)] := by
  obtain ⟨f, opened, -⟩ := @writeHeader_opens zeroCrypto (List.replicate 64 0) fun _ => 0
  refine ⟨f, opened, ((@opened_meets_iff zeroCrypto f _ [] .write _ opened _ ?_).mpr ?_).2.2⟩
  · simp [Operation.Aligned]
  · have taken : ¬ Short (some 16) 16 := by decide
    exact ⟨.inr (.inr (.inr (.inl taken))), fun _ _ _ _ => ⟨trivial, fun _ _ _ _ => ⟨trivial, fun _ _ _ _ => trivial⟩⟩⟩

/-- The blocks were written behind the end, and the padded block was not. -/
theorem padded_write_grows : ∃ f,
    attemptOpen zeroCrypto (List.replicate 64 0) .write (fun _ => 0) [] = some (.success, f) ∧
      ¬ EveryStep zeroCrypto (Undone zeroCrypto) f
        [.writeWithPadding (List.replicate 17 1) (fun _ => 0) (some 16) none] := by
  obtain ⟨f, opened, exact, offset, size⟩ := @writeHeader_opens zeroCrypto (List.replicate 64 0) fun _ => 0
  refine ⟨f, opened, ?_⟩
  rintro ⟨undone, -⟩
  have aligned : Operation.Aligned (.writeWithPadding (List.replicate 17 1) (fun _ => 0) (some 16) none) := trivial
  have undoes := (undone_iff exact.toPlaced aligned).mp undone
  simp only [Undoes, offset, size] at undoes
  exact absurd undoes (by decide)

end EncryptedFile

end IMeDesktop.Storage
