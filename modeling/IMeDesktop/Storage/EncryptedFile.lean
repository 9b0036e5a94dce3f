import IMeDesktop.Storage.Encryption
import IMeDesktop.Storage.BinlogReader

/-! # The encrypted file

`File` of the storage keeps bytes encrypted on a device, behind a salt and a header. What
is encrypted next is told by an offset that goes along with the position of the device.

As long as writes to the device do what they should, the file is a plain file. The code
that writes undoes what it did when the device fails, except for one number.

The device takes what it is given, a part of it, or fails; each use of it comes with the
answer. Reads and seeks of the device do not fail. An expectation of the code that does
not hold gives `none`.
-/

namespace IMeDesktop.Storage

open Lib

structure Device where
  bytes : Bytes
  pos : Nat := 0
  deriving DecidableEq

namespace Device

def read (d : Device) (amount : Nat) : Bytes × Device :=
  let read := window d.bytes d.pos amount
  (read, { d with pos := d.pos + read.length })

/-- How many bytes were written. No answer is an error. -/
def write (d : Device) (bytes : Bytes) (answer : Option Nat) : Int × Device :=
  match answer with
  | none => (-1, d)
  | some most =>
      let taken := bytes.take most
      (taken.length,
        { bytes := d.bytes.take d.pos ++ taken ++ d.bytes.drop (d.pos + taken.length)
          pos := d.pos + taken.length })

def seek (d : Device) (pos : Nat) : Device := { d with pos := pos }

end Device

/-- `FileLock::kSkipBytes`. -/
abbrev kSkipBytes : Nat := 4

/-- `sizeof(BasicHeader)`. -/
abbrev headerSize : Nat := 112

structure EncryptedFile where
  data : Device
  isOpen : Bool := true
  encryptionOffset : Nat := 0
  dataSize : Nat := 0
  state : CtrState
  deriving DecidableEq

namespace EncryptedFile

section Code

variable (crypto : Crypto) (f : EncryptedFile)

def size : Nat := f.dataSize

def offset : Nat :=
  let realOffset := kSaltSize + f.encryptionOffset
  if realOffset ≥ headerSize then realOffset - headerSize else 0

def seek (offset : Int) : Bool × EncryptedFile :=
  if offset < 0 ∨ offset > f.dataSize then (false, f)
  else
    let realOffset := headerSize + offset.toNat
    (true, { f with data := f.data.seek (kSkipBytes + realOffset), encryptionOffset := realOffset - kSaltSize })

def decrypt (bytes : Bytes) : Option (Bytes × EncryptedFile) := do
  let bytes ← f.state.decrypt crypto bytes f.encryptionOffset
  some (bytes, { f with encryptionOffset := f.encryptionOffset + bytes.length })

def encrypt (bytes : Bytes) : Option (Bytes × EncryptedFile) := do
  let bytes ← f.state.encrypt crypto bytes f.encryptionOffset
  some (bytes, { f with encryptionOffset := f.encryptionOffset + bytes.length })

def decryptBack (bytes : Bytes) : Option (Bytes × EncryptedFile) :=
  if bytes.length ≤ f.encryptionOffset then do
    let (bytes, f) ← decrypt crypto { f with encryptionOffset := f.encryptionOffset - bytes.length } bytes
    some (bytes, { f with encryptionOffset := f.encryptionOffset - bytes.length })
  else none

/-- A part of a block goes back to the device, and the blocks that were read are decrypted. -/
def decryptRead (plain bytes : Bytes) : Option (Nat × Bytes × EncryptedFile) :=
  let bytes := plain ++ bytes.drop plain.length
  let back := plain.length % kBlockSize
  let f := if back = 0 then f else { f with data := f.data.seek (f.data.pos - back) }
  let count := plain.length - back
  if count = 0 then some (count, bytes, f)
  else do
    let (decrypted, f) ← f.decrypt crypto (bytes.take count)
    some (count, decrypted ++ bytes.drop count, f)

/-- The count, the buffer that was filled and the file. -/
def read (bytes : Bytes) : Option (Nat × Bytes × EncryptedFile) :=
  if bytes.length % kBlockSize = 0 then
    let (plain, data) := f.data.read bytes.length
    decryptRead crypto { f with data := data } plain bytes
  else none

/-- Whether it was written, the buffer, which is encrypted in place, and the file. -/
def write (bytes : Bytes) (answer : Option Nat) : Option (Bool × Bytes × EncryptedFile) :=
  if bytes.length % kBlockSize = 0 then
    if f.isOpen then do
      let (bytes, f) ← f.encrypt crypto bytes
      let (count, data) := f.data.write bytes answer
      let f := { f with data := data }
      if count = bytes.length then some (true, bytes, { f with dataSize := max f.dataSize f.offset })
      else
        let (bytes, f) ← f.decryptBack crypto bytes
        if count > 0 then some (false, bytes, { f with data := f.data.seek (f.data.pos - count.toNat) })
        else some (false, bytes, f)
    else some (false, bytes, f)
  else none

/-- What is left behind the whole blocks is read as a part of one more. -/
def readPart (front back : Bytes) : Option (Nat × Bytes × EncryptedFile) := do
  let (succeed, padded, f) ← f.read crypto (List.replicate kBlockSize 0)
  if succeed = 0 then some (front.length, front ++ back, f)
  else if succeed = kBlockSize then
    some (front.length + back.length, front ++ padded.take back.length, f)
  else none

def readBlocks (bytes : Bytes) : Option (Nat × Bytes × EncryptedFile) :=
  if bytes = [] then some (0, [], f) else f.read crypto bytes

def readWithPadding (bytes : Bytes) : Option (Nat × Bytes × EncryptedFile) := do
  let part := bytes.length % kBlockSize
  let good := bytes.length - part
  let back := bytes.drop good
  let (succeed, front, f) ← f.readBlocks crypto (bytes.take good)
  if succeed ≠ good ∨ part = 0 then some (succeed, front ++ back, f) else f.readPart crypto front back

/-- What is left behind the whole blocks, and random bytes. When it can't be written, the blocks are undone. -/
def writePart (front back : Bytes) (random : Nat → UInt8) (answer : Option Nat) :
    Option (Bool × Bytes × EncryptedFile) := do
  let padded := back ++ (List.range (kBlockSize - back.length)).map random
  let (written, _, f) ← f.write crypto padded answer
  if written ∨ front = [] then some (written, front ++ back, f)
  else
    let good := front.length
    let (front, f) ← f.decryptBack crypto front
    some (false, front ++ back, { f with data := f.data.seek (f.data.pos - good) })

def writeBlocks (bytes : Bytes) (answer : Option Nat) : Option (Bool × Bytes × EncryptedFile) :=
  if bytes = [] then some (true, [], f) else f.write crypto bytes answer

def writeWithPadding (bytes : Bytes) (random : Nat → UInt8) (answer answerPadded : Option Nat) :
    Option (Bool × Bytes × EncryptedFile) := do
  let part := bytes.length % kBlockSize
  let good := bytes.length - part
  let back := bytes.drop good
  let (written, front, f) ← f.writeBlocks crypto (bytes.take good) answer
  if ¬ written ∨ part = 0 then some (written, front ++ back, f)
  else f.writePart crypto front back random answerPadded

end Code

/-- The device does not take all of so many bytes. -/
def Short (answer : Option Nat) (count : Nat) : Prop := ∀ most, answer = some most → most < count

instance (answer : Option Nat) (count : Nat) : Decidable (Short answer count) :=
  match answer with
  | none => .isTrue nofun
  | some most => decidable_of_iff (most < count) ⟨fun less _ same => Option.some.inj same ▸ less, fun short => short most rfl⟩

/-- The device and the offsets of an open file belong together. -/
structure Placed (f : EncryptedFile) : Prop where
  isOpen : f.isOpen = true
  aligned : f.encryptionOffset % 16 = 0
  behind : 48 ≤ f.encryptionOffset
  position : f.data.pos = 68 + f.encryptionOffset
  whole : f.dataSize % 16 = 0
  reached : f.data.pos ≤ f.data.bytes.length
  stored : 116 + f.dataSize ≤ f.data.bytes.length

/-- Nothing is on the device behind the file but a part of a block. A write that failed may leave more there. -/
structure Exact (f : EncryptedFile) : Prop extends Placed f where
  inside : f.offset ≤ f.dataSize
  rest : f.data.bytes.length < 132 + f.dataSize

variable {crypto : Crypto} {f : EncryptedFile}

theorem offset_eq (f : EncryptedFile) : f.offset = f.encryptionOffset - 48 := by
  unfold offset kSaltSize headerSize
  simp only
  split_ifs
  · omega
  · omega

/-! ## Writing -/

/-- The file after bytes were written. -/
def stored (crypto : Crypto) (f : EncryptedFile) (bytes : Bytes) : EncryptedFile :=
  { f with
    data :=
      { bytes := f.data.bytes.take f.data.pos ++ mask (f.state.keystream crypto) f.encryptionOffset bytes ++
          f.data.bytes.drop (f.data.pos + bytes.length)
        pos := f.data.pos + bytes.length }
    encryptionOffset := f.encryptionOffset + bytes.length
    dataSize := max f.dataSize (f.offset + bytes.length) }

theorem decrypt_eq {bytes : Bytes} (aligned : f.encryptionOffset % 16 = 0) (whole : bytes.length % 16 = 0) :
    f.decrypt crypto bytes =
      some (mask (f.state.keystream crypto) f.encryptionOffset bytes,
        { f with encryptionOffset := f.encryptionOffset + bytes.length }) := by
  rw [decrypt, CtrState.decrypt, CtrState.process_eq whole aligned]
  simp

theorem decryptBack_eq {bytes : Bytes} {start : Nat} (aligned : start % 16 = 0) (whole : bytes.length % 16 = 0)
    (behind : f.encryptionOffset = start + bytes.length) :
    f.decryptBack crypto (mask (f.state.keystream crypto) start bytes) =
      some (bytes, { f with encryptionOffset := start }) := by
  have back : f.encryptionOffset - bytes.length = start := by omega
  rw [decryptBack, length_mask, if_pos (by omega), back, decrypt_eq aligned (by rw [length_mask]; exact whole)]
  simp

theorem encrypt_eq {bytes : Bytes} (aligned : f.encryptionOffset % 16 = 0) (whole : bytes.length % 16 = 0) :
    f.encrypt crypto bytes =
      some (mask (f.state.keystream crypto) f.encryptionOffset bytes,
        { f with encryptionOffset := f.encryptionOffset + bytes.length }) := decrypt_eq aligned whole

theorem device_full {d : Device} {bytes : Bytes} {answer : Option Nat} (full : ¬ Short answer bytes.length) :
    d.write bytes answer =
      ((bytes.length : Int),
        { bytes := d.bytes.take d.pos ++ bytes ++ d.bytes.drop (d.pos + bytes.length), pos := d.pos + bytes.length }) := by
  obtain ⟨most, rfl, enough⟩ : ∃ most, answer = some most ∧ bytes.length ≤ most := by
    simpa [Short] using full
  rw [Device.write, List.take_of_length_le enough]

theorem device_short {d : Device} {bytes : Bytes} {answer : Option Nat} (short : Short answer bytes.length) :
    ∃ count left, count < (bytes.length : Int) ∧ d.bytes.length ≤ left.length ∧
      d.write bytes answer = (count, { bytes := left, pos := d.pos + count.toNat }) := by
  cases answer with
  | none => exact ⟨-1, d.bytes, by omega, Nat.le_refl _, rfl⟩
  | some most =>
      have less := short most rfl
      refine ⟨(bytes.take most).length, _, ?_, ?_, rfl⟩
      · rw [List.length_take]
        omega
      · simp only [List.length_append, List.length_take, List.length_drop]
        omega

theorem write_taken {bytes : Bytes} {answer : Option Nat} (isOpen : f.isOpen = true)
    (aligned : f.encryptionOffset % 16 = 0) (whole : bytes.length % 16 = 0) (full : ¬ Short answer bytes.length) :
    f.write crypto bytes answer =
      some (true, mask (f.state.keystream crypto) f.encryptionOffset bytes,
        { f with
          data :=
            { bytes := f.data.bytes.take f.data.pos ++ mask (f.state.keystream crypto) f.encryptionOffset bytes ++
                f.data.bytes.drop (f.data.pos + bytes.length)
              pos := f.data.pos + bytes.length }
          encryptionOffset := f.encryptionOffset + bytes.length
          dataSize := max f.dataSize (f.encryptionOffset + bytes.length - 48) }) := by
  have written := @device_full f.data (mask (f.state.keystream crypto) f.encryptionOffset bytes) answer
    (by rwa [length_mask])
  rw [write, if_pos whole, if_pos isOpen, encrypt_eq aligned whole]
  simp only [Option.bind_eq_bind, Option.bind_some, written, length_mask, if_true, offset_eq]

theorem write_full (placed : f.Placed) {bytes : Bytes} {answer : Option Nat} (whole : bytes.length % 16 = 0)
    (full : ¬ Short answer bytes.length) :
    f.write crypto bytes answer =
      some (true, mask (f.state.keystream crypto) f.encryptionOffset bytes, f.stored crypto bytes) := by
  have behind := placed.behind
  have further : f.encryptionOffset + bytes.length - 48 = f.offset + bytes.length := by
    rw [offset_eq]
    omega
  rw [write_taken placed.isOpen placed.aligned whole full, further, stored]

theorem write_short (placed : f.Placed) {bytes : Bytes} {answer : Option Nat} (whole : bytes.length % 16 = 0)
    (short : Short answer bytes.length) :
    ∃ left, f.data.bytes.length ≤ left.length ∧
      f.write crypto bytes answer = some (false, bytes, { f with data := { bytes := left, pos := f.data.pos } }) := by
  obtain ⟨count, left, less, kept, written⟩ := @device_short f.data
    (mask (f.state.keystream crypto) f.encryptionOffset bytes) answer (by rwa [length_mask])
  refine ⟨left, kept, ?_⟩
  rw [write, if_pos whole, if_pos placed.isOpen, encrypt_eq placed.aligned whole]
  rw [length_mask] at less
  have some_left : count ≠ bytes.length := by omega
  simp only [Option.bind_eq_bind, Option.bind_some, written, length_mask, some_left, if_false]
  rw [decryptBack_eq placed.aligned whole rfl]
  simp only [Option.bind_some]
  split_ifs with positive
  · simp [Device.seek]
  · have none : count.toNat = 0 := by omega
    simp [none]

/-- The device holds something else, and as much of it at least. -/
def spoiled (f : EncryptedFile) (left : Bytes) : EncryptedFile :=
  { f with data := { bytes := left, pos := f.data.pos } }

theorem Placed.spoiled {left : Bytes} (placed : f.Placed) (kept : f.data.bytes.length ≤ left.length) :
    (f.spoiled left).Placed :=
  { placed with reached := placed.reached.trans kept, stored := placed.stored.trans kept }

theorem length_stored (placed : f.Placed) (bytes : Bytes) :
    (f.stored crypto bytes).data.bytes.length = max f.data.bytes.length (f.data.pos + bytes.length) := by
  have := placed.reached
  simp only [EncryptedFile.stored, List.length_append, List.length_take, List.length_drop, length_mask]
  omega

theorem Placed.written {bytes : Bytes} (placed : f.Placed) (whole : bytes.length % 16 = 0) :
    (f.stored crypto bytes).Placed := by
  have length := @length_stored crypto f placed bytes
  have offset := f.offset_eq
  obtain ⟨isOpen, aligned, behind, position, wholeSize, reached, stored⟩ := placed
  constructor
  · exact isOpen
  · simp only [EncryptedFile.stored]
    omega
  · simp only [EncryptedFile.stored]
    omega
  · simp only [EncryptedFile.stored]
    omega
  · simp only [EncryptedFile.stored]
    omega
  · rw [length]
    exact le_max_right _ _
  · rw [length]
    simp only [EncryptedFile.stored]
    omega

theorem Exact.written {bytes : Bytes} (exact : f.Exact) (whole : bytes.length % 16 = 0) :
    (f.stored crypto bytes).Exact := by
  have length := @length_stored crypto f exact.toPlaced bytes
  have offset := f.offset_eq
  have := exact.position
  have := exact.behind
  have := exact.inside
  have := exact.rest
  refine { exact.toPlaced.written whole with inside := ?_, rest := ?_ }
  · rw [offset_eq]
    simp only [EncryptedFile.stored]
    omega
  · rw [length]
    simp only [EncryptedFile.stored]
    omega

/-- Where nothing is written, nothing changes. -/
def storedBlocks (crypto : Crypto) (f : EncryptedFile) (bytes : Bytes) : EncryptedFile :=
  if bytes = [] then f else f.stored crypto bytes

theorem Placed.writtenBlocks {bytes : Bytes} (placed : f.Placed) (whole : bytes.length % 16 = 0) :
    (f.storedBlocks crypto bytes).Placed := by
  unfold storedBlocks
  split_ifs
  · exact placed
  · exact placed.written whole

theorem storedBlocks_eq (exact : f.Exact) (bytes : Bytes) : f.storedBlocks crypto bytes = f.stored crypto bytes := by
  unfold storedBlocks
  split_ifs with none
  · have size : max f.dataSize f.offset = f.dataSize := Nat.max_eq_left exact.inside
    simp [none, EncryptedFile.stored, mask, size]
  · rfl

/-! ### Writing with padding -/

/-- The part of whole blocks. -/
def blocksOf (bytes : Bytes) : Bytes := bytes.take (bytes.length - bytes.length % 16)

/-- What is left behind the whole blocks. -/
def partOf (bytes : Bytes) : Bytes := bytes.drop (bytes.length - bytes.length % 16)

theorem length_blocksOf (bytes : Bytes) : (blocksOf bytes).length = bytes.length - bytes.length % 16 := by
  rw [blocksOf, List.length_take]
  omega

theorem length_partOf (bytes : Bytes) : (partOf bytes).length = bytes.length % 16 := by
  rw [partOf, List.length_drop]
  omega

theorem blocks_whole (bytes : Bytes) : (blocksOf bytes).length % 16 = 0 := by
  rw [length_blocksOf]
  omega

/-- What is put behind bytes so that they are whole blocks. -/
def padded (bytes : Bytes) (random : Nat → UInt8) : Bytes :=
  if partOf bytes = [] then [] else partOf bytes ++ (List.range (16 - (partOf bytes).length)).map random

theorem length_padded (bytes : Bytes) (random : Nat → UInt8) :
    (padded bytes random).length = if partOf bytes = [] then 0 else 16 := by
  have part := length_partOf bytes
  unfold padded
  split_ifs
  · rfl
  · rw [List.length_append, List.length_map, List.length_range]
    omega

/-- One of the writes to the device does not take all. -/
def ShortPadded (bytes : Bytes) (answer answerPadded : Option Nat) : Prop :=
  (blocksOf bytes ≠ [] ∧ Short answer (blocksOf bytes).length) ∨ (partOf bytes ≠ [] ∧ Short answerPadded 16)

theorem writeBlocks_full (placed : f.Placed) {bytes : Bytes} {answer : Option Nat} (whole : bytes.length % 16 = 0)
    (full : ¬ (bytes ≠ [] ∧ Short answer bytes.length)) :
    f.writeBlocks crypto bytes answer =
      some (true, mask (f.state.keystream crypto) f.encryptionOffset bytes, f.storedBlocks crypto bytes) := by
  unfold writeBlocks storedBlocks
  split_ifs with none
  · rw [none, mask]
  · exact write_full placed whole fun short => full ⟨none, short⟩

theorem writePart_full (placed : f.Placed) {front back : Bytes} {random : Nat → UInt8} {answer : Option Nat}
    (part : back.length < 16) (full : ¬ Short answer 16) :
    f.writePart crypto front back random answer =
      some (true, front ++ back, f.stored crypto (back ++ (List.range (16 - back.length)).map random)) := by
  have length : (back ++ (List.range (16 - back.length)).map random).length = 16 := by
    rw [List.length_append, List.length_map, List.length_range]
    omega
  rw [writePart, write_full placed (by rw [length]) (by rwa [length])]
  simp

theorem writeWithPadding_eq (bytes : Bytes) (random : Nat → UInt8) (answer answerPadded : Option Nat) :
    f.writeWithPadding crypto bytes random answer answerPadded =
      (f.writeBlocks crypto (blocksOf bytes) answer).bind fun (written, front, f) =>
        if ¬ written ∨ partOf bytes = [] then some (written, front ++ partOf bytes, f)
        else f.writePart crypto front (partOf bytes) random answerPadded := by
  have none : bytes.length % 16 = 0 ↔ partOf bytes = [] := by
    rw [← List.length_eq_zero_iff, length_partOf]
  simp only [writeWithPadding, ← none]
  rfl

theorem writeWithPadding_full (placed : f.Placed) {bytes : Bytes} {random : Nat → UInt8}
    {answer answerPadded : Option Nat} (full : ¬ ShortPadded bytes answer answerPadded) :
    ∃ buffer, f.writeWithPadding crypto bytes random answer answerPadded =
      some (true, buffer, (f.storedBlocks crypto (blocksOf bytes)).storedBlocks crypto (padded bytes random)) := by
  obtain ⟨first, second⟩ := not_or.mp full
  have placed' := @Placed.writtenBlocks crypto f (blocksOf bytes) placed (blocks_whole bytes)
  rw [writeWithPadding_eq, writeBlocks_full placed (blocks_whole bytes) first, padded]
  simp only [Option.bind_some, not_true_eq_false, false_or]
  split_ifs with none
  · exact ⟨_, rfl⟩
  · have some_left : partOf bytes ++ (List.range (16 - (partOf bytes).length)).map random ≠ [] := by
      simp [none]
    rw [writePart_full placed' (by rw [length_partOf]; omega) fun short => second ⟨none, short⟩]
    simp only [storedBlocks, some_left, if_false]
    exact ⟨_, rfl⟩

/-- The size that the blocks in front leave behind. -/
def grownSize (f : EncryptedFile) (front : Bytes) : Nat :=
  if front = [] then f.dataSize else max f.dataSize (f.offset + front.length)

/-- The blocks that were written in front are undone, and the size is not. -/
theorem writePart_short (placed : f.Placed) {front back : Bytes} {random : Nat → UInt8} {answer : Option Nat}
    (whole : front.length % 16 = 0) (part : back.length < 16) (short : Short answer 16) :
    ∃ left, f.data.bytes.length ≤ left.length ∧ 116 + f.grownSize front ≤ left.length ∧
      (f.storedBlocks crypto front).writePart crypto (mask (f.state.keystream crypto) f.encryptionOffset front) back
          random answer =
        some (false, front ++ back, { f.spoiled left with dataSize := f.grownSize front }) := by
  have placed' := @Placed.writtenBlocks crypto f front placed whole
  have length : (back ++ (List.range (16 - back.length)).map random).length = 16 := by
    rw [List.length_append, List.length_map, List.length_range]
    omega
  obtain ⟨left, kept, written⟩ := @write_short crypto _ placed' _ answer (by rw [length]) (by rwa [length])
  have enough := placed'.stored
  rw [writePart, written]
  simp only [Option.bind_eq_bind, Option.bind_some, Bool.false_eq_true, false_or]
  by_cases none : front = []
  · subst none
    exact ⟨left, kept, enough.trans kept, rfl⟩
  · have written : f.storedBlocks crypto front = f.stored crypto front := if_neg none
    have further := @length_stored crypto f placed front
    have size : f.grownSize front = max f.dataSize (f.offset + front.length) := if_neg none
    have masked : mask (f.state.keystream crypto) f.encryptionOffset front ≠ [] := by
      rw [ne_eq, ← List.length_eq_zero_iff, length_mask, List.length_eq_zero_iff]
      exact none
    rw [written] at kept enough ⊢
    refine ⟨left, by omega, by rw [size]; exact enough.trans kept, ?_⟩
    rw [if_neg masked, size]
    simp only [stored]
    rw [decryptBack_eq placed.aligned whole rfl]
    simp [spoiled, Device.seek]

/-- The size after a write that failed: it is larger when the blocks were written and the rest was not. -/
def failedSize (f : EncryptedFile) (bytes : Bytes) (answer : Option Nat) : Nat :=
  if blocksOf bytes ≠ [] ∧ Short answer (blocksOf bytes).length then f.dataSize else f.grownSize (blocksOf bytes)

theorem writeWithPadding_short (placed : f.Placed) {bytes : Bytes} {random : Nat → UInt8}
    {answer answerPadded : Option Nat} (short : ShortPadded bytes answer answerPadded) :
    ∃ left, f.data.bytes.length ≤ left.length ∧ 116 + f.failedSize bytes answer ≤ left.length ∧
      f.writeWithPadding crypto bytes random answer answerPadded =
        some (false, bytes, { f.spoiled left with dataSize := f.failedSize bytes answer }) := by
  have all : blocksOf bytes ++ partOf bytes = bytes := List.take_append_drop _ _
  rw [writeWithPadding_eq, failedSize]
  by_cases first : blocksOf bytes ≠ [] ∧ Short answer (blocksOf bytes).length
  · obtain ⟨left, kept, written⟩ := @write_short crypto f placed _ answer (blocks_whole bytes) first.2
    rw [if_pos first]
    refine ⟨left, kept, placed.stored.trans kept, ?_⟩
    rw [writeBlocks, if_neg first.1, written]
    simp [all, spoiled]
  · obtain ⟨part, second⟩ := short.resolve_left first
    obtain ⟨left, kept, enough, written⟩ := @writePart_short crypto f placed _ (partOf bytes) random answerPadded
      (blocks_whole bytes) (by rw [length_partOf]; omega) second
    rw [if_neg first]
    refine ⟨left, kept, enough, ?_⟩
    rw [writeBlocks_full placed (blocks_whole bytes) first]
    simp only [Option.bind_some, not_true_eq_false, false_or, part, if_false]
    rw [written, all]

/-! ## Reading -/

/-- How many of so many bytes are on the device, in whole blocks. -/
def available (f : EncryptedFile) (amount : Nat) : Nat :=
  min amount (f.data.bytes.length - f.data.pos) - min amount (f.data.bytes.length - f.data.pos) % 16

/-- What is read of so many bytes. -/
def seen (crypto : Crypto) (f : EncryptedFile) (amount : Nat) : Bytes :=
  mask (f.state.keystream crypto) f.encryptionOffset (window f.data.bytes f.data.pos (f.available amount))

theorem length_seen (placed : f.Placed) (amount : Nat) : (f.seen crypto amount).length = f.available amount := by
  have := placed.reached
  rw [seen, length_mask, length_window]
  rw [available]
  omega

/-- The file after bytes were read. -/
def moved (f : EncryptedFile) (count : Nat) : EncryptedFile :=
  { f with data := f.data.seek (f.data.pos + count), encryptionOffset := f.encryptionOffset + count }

theorem decryptRead_eq {start : Nat} {plain bytes : Bytes} {count : Nat} (aligned : f.encryptionOffset % 16 = 0)
    (few : plain.length ≤ bytes.length) (read : f.data.pos = start + plain.length)
    (whole : plain.length - plain.length % 16 = count) :
    ∃ buffer, f.decryptRead crypto plain bytes =
        some (count, buffer,
          { f with data := f.data.seek (start + count), encryptionOffset := f.encryptionOffset + count }) ∧
      buffer.take count = mask (f.state.keystream crypto) f.encryptionOffset (plain.take count) ∧
      buffer.length = bytes.length := by
  have taken : (plain ++ bytes.drop plain.length).take count = plain.take count :=
    List.take_append_of_le_length (by omega)
  have length : (plain ++ bytes.drop plain.length).length = bytes.length := by
    rw [List.length_append, List.length_drop]
    omega
  have back : (if plain.length % 16 = 0 then f else
      { f with data := f.data.seek (f.data.pos - plain.length % 16) }) =
      { f with data := f.data.seek (start + count) } := by
    split_ifs with none
    · have position : start + count = f.data.pos := by omega
      rw [position]
      rfl
    · have position : start + count = f.data.pos - plain.length % 16 := by omega
      rw [position]
  rw [decryptRead]
  simp only [kBlockSize, back, whole]
  split_ifs with none
  · rw [none]
    exact ⟨_, rfl, by simp [mask], length⟩
  · have all : (plain.take count).length = count := by
      rw [List.length_take]
      omega
    have decrypted := @decrypt_eq crypto { f with data := f.data.seek (start + count) } (plain.take count) aligned
      (by omega)
    rw [taken, decrypted]
    refine ⟨_, by rw [all]; rfl, ?_, ?_⟩
    · rw [List.take_left' (by rw [length_mask, all])]
    · rw [List.length_append, length_mask, all, List.length_drop, length]
      omega

theorem read_eq (placed : f.Placed) {bytes : Bytes} (whole : bytes.length % 16 = 0) :
    ∃ buffer, f.read crypto bytes =
        some (f.available bytes.length, buffer, f.moved (f.available bytes.length)) ∧
      buffer.take (f.available bytes.length) = f.seen crypto bytes.length ∧ buffer.length = bytes.length := by
  have length : (window f.data.bytes f.data.pos bytes.length).length =
      min bytes.length (f.data.bytes.length - f.data.pos) := by
    rw [window, List.length_take, List.length_drop]
  have count : (window f.data.bytes f.data.pos bytes.length).length -
      (window f.data.bytes f.data.pos bytes.length).length % 16 = f.available bytes.length := by
    rw [length, available]
  have front : window f.data.bytes f.data.pos (f.available bytes.length) =
      (window f.data.bytes f.data.pos bytes.length).take (f.available bytes.length) := by
    rw [window, window, List.take_take, Nat.min_eq_left (by rw [available]; omega)]
  rw [seen, front, read, if_pos whole]
  exact @decryptRead_eq crypto { f with data := (f.data.read bytes.length).2 } f.data.pos _ bytes _ placed.aligned
    (by omega) rfl count

theorem available_whole (f : EncryptedFile) (amount : Nat) : f.available amount % 16 = 0 := by
  rw [available]
  omega

theorem Placed.moved (placed : f.Placed) (amount : Nat) : (f.moved (f.available amount)).Placed := by
  have whole := f.available_whole amount
  have few : f.available amount ≤ f.data.bytes.length - f.data.pos := by
    rw [available]
    omega
  obtain ⟨isOpen, aligned, behind, position, wholeSize, reached, stored⟩ := placed
  constructor
  · exact isOpen
  · simp only [EncryptedFile.moved]
    omega
  · simp only [EncryptedFile.moved]
    omega
  · simp only [EncryptedFile.moved, Device.seek]
    omega
  · exact wholeSize
  · simp only [EncryptedFile.moved, Device.seek]
    omega
  · exact stored

theorem offset_moved (placed : f.Placed) (count : Nat) : (f.moved count).offset = f.offset + count := by
  have behind := placed.behind
  rw [offset_eq, offset_eq]
  simp only [moved]
  omega

theorem moved_moved (f : EncryptedFile) (m n : Nat) : (f.moved m).moved n = f.moved (m + n) := by
  simp [moved, Device.seek, Nat.add_assoc]

theorem available_add {m : Nat} (whole : m % 16 = 0) (all : f.available m = m) (n : Nat) :
    f.available (m + n) = m + (f.moved m).available n := by
  simp only [available] at all ⊢
  simp only [moved, Device.seek]
  omega

/-- A file is read on where it was left. -/
theorem seen_add {m : Nat} (placed : f.Placed) (whole : m % 16 = 0) (all : f.available m = m) (n : Nat) :
    f.seen crypto (m + n) = f.seen crypto m ++ (f.moved m).seen crypto n := by
  have reached := placed.reached
  have length : (window f.data.bytes f.data.pos m).length = m := by
    rw [length_window]
    rw [available] at all
    omega
  rw [seen, seen, seen, available_add whole all, all, window_add, mask_append, length]
  rfl

theorem readBlocks_eq (placed : f.Placed) {bytes : Bytes} (whole : bytes.length % 16 = 0) :
    ∃ buffer, f.readBlocks crypto bytes =
        some (f.available bytes.length, buffer, f.moved (f.available bytes.length)) ∧
      buffer.take (f.available bytes.length) = f.seen crypto bytes.length ∧ buffer.length = bytes.length := by
  unfold readBlocks
  split_ifs with none
  · subst none
    have nothing : f.available 0 = 0 := by
      rw [available, Nat.zero_min]
    refine ⟨[], ?_, ?_, rfl⟩
    · rw [List.length_nil, nothing]
      rfl
    · rw [seen, List.length_nil, nothing]
      rfl
  · exact read_eq placed whole

/-- How much is read for so many bytes. -/
def paddedSize (bytes : Bytes) : Nat := (blocksOf bytes).length + if partOf bytes = [] then 0 else 16

theorem readWithPadding_blocks (bytes : Bytes) :
    f.readWithPadding crypto bytes =
      (f.readBlocks crypto (blocksOf bytes)).bind fun (succeed, front, f) =>
        if succeed ≠ (blocksOf bytes).length ∨ partOf bytes = [] then some (succeed, front ++ partOf bytes, f)
        else f.readPart crypto front (partOf bytes) := by
  have none : bytes.length % 16 = 0 ↔ partOf bytes = [] := by
    rw [← List.length_eq_zero_iff, length_partOf]
  rw [length_blocksOf]
  simp only [readWithPadding, ← none]
  rfl

/-- One more block is read, or there is none. -/
theorem readPart_eq (placed : f.Placed) {front back : Bytes} (part : back.length < 16) :
    ∃ count buffer, f.readPart crypto front back = some (front.length + count, front ++ buffer, f.moved (f.available 16)) ∧
      buffer.take count = (f.seen crypto 16).take back.length := by
  obtain ⟨padded, read, plain, length⟩ := @read_eq crypto f placed (List.replicate kBlockSize 0) rfl
  rw [List.length_replicate] at read plain length
  have whole := f.available_whole 16
  have most : f.available 16 ≤ 16 := (Nat.sub_le _ _).trans (Nat.min_le_left _ _)
  rw [readPart, read]
  simp only [Option.bind_eq_bind, Option.bind_some]
  by_cases none : f.available 16 = 0
  · rw [none] at plain ⊢
    refine ⟨0, back, rfl, ?_⟩
    rw [← plain]
    simp
  · have all : f.available 16 = 16 := by omega
    rw [all] at plain ⊢
    refine ⟨back.length, padded.take back.length, rfl, ?_⟩
    rw [← plain, List.take_take, List.take_take, Nat.min_self, Nat.min_eq_left (Nat.le_of_lt part)]

theorem readWithPadding_eq (placed : f.Placed) (bytes : Bytes) :
    ∃ count buffer, f.readWithPadding crypto bytes = some (count, buffer, f.moved (f.available (paddedSize bytes))) ∧
      buffer.take count = (f.seen crypto (paddedSize bytes)).take bytes.length := by
  have whole := blocks_whole bytes
  have part := length_partOf bytes
  have total : (blocksOf bytes).length + (partOf bytes).length = bytes.length := by
    rw [part, length_blocksOf]
    omega
  obtain ⟨front, blocks, seenFront, length⟩ := @readBlocks_eq crypto f placed (blocksOf bytes) whole
  have seen_length := @length_seen crypto f placed (blocksOf bytes).length
  have few : f.available (blocksOf bytes).length ≤ (blocksOf bytes).length :=
    (Nat.sub_le _ _).trans (Nat.min_le_left _ _)
  rw [readWithPadding_blocks, blocks]
  simp only [Option.bind_some]
  by_cases all : f.available (blocksOf bytes).length = (blocksOf bytes).length
  · by_cases none : partOf bytes = []
    · have size : paddedSize bytes = (blocksOf bytes).length := by
        rw [paddedSize, if_pos none, Nat.add_zero]
      rw [if_pos (.inr none), size]
      refine ⟨_, _, rfl, ?_⟩
      rw [none, List.append_nil, seenFront, List.take_of_length_le (by omega)]
    · have size : paddedSize bytes = (blocksOf bytes).length + 16 := by rw [paddedSize, if_neg none]
      have moved := placed.moved (blocksOf bytes).length
      rw [all] at moved
      obtain ⟨count, padded, read, seenPadded⟩ := @readPart_eq crypto _ moved front (partOf bytes) (by omega)
      rw [if_neg (not_or.mpr ⟨not_not.mpr all, none⟩), all, read, moved_moved, size, available_add whole all]
      refine ⟨_, _, rfl, ?_⟩
      have first : front = f.seen crypto (blocksOf bytes).length := by
        rw [← seenFront, all, List.take_of_length_le (by omega)]
      rw [seen_add placed whole all, ← first, List.take_length_add_append, seenPadded, ← total, ← length,
        List.take_length_add_append]
  · -- The device ends before the blocks do.
    have same : f.available (paddedSize bytes) = f.available (blocksOf bytes).length := by
      rw [available] at all ⊢
      rw [available, paddedSize]
      split_ifs
      · rw [Nat.add_zero]
      · omega
    rw [if_pos (.inl all), same]
    refine ⟨_, _, rfl, ?_⟩
    rw [List.take_append_of_le_length (by omega), seenFront, seen, seen, same, List.take_of_length_le]
    rw [← seen]
    omega

/-! ## What a plain file does -/

/-- The plain file that is kept. -/
def plain (crypto : Crypto) (f : EncryptedFile) : Cache.File where
  data := mask (f.state.keystream crypto) 48 (window f.data.bytes 116 f.dataSize)
  offset := f.offset

theorem size_plain (placed : f.Placed) : (f.plain crypto).size = f.dataSize := by
  rw [Cache.File.size, plain, length_mask, length_window placed.stored]

/-- The bytes that are read are those of the plain file. -/
theorem plain_read (exact : f.Exact) {amount : Nat} (whole : amount % 16 = 0) :
    (f.plain crypto).read amount = (f.seen crypto amount, (f.moved (f.available amount)).plain crypto) := by
  have offset := f.offset_eq
  have aligned := exact.aligned
  have behind := exact.behind
  have inside := exact.inside
  have wholeSize := exact.whole
  have kept := exact.stored
  have rest := exact.rest
  have position : 116 + f.offset = f.data.pos := by
    rw [exact.position]
    omega
  have start : 48 + f.offset = f.encryptionOffset := by omega
  have count : f.available amount = min amount (f.dataSize - f.offset) := by
    rw [available]
    omega
  have length : (f.plain crypto).data.length = f.dataSize := size_plain exact.toPlaced
  have read : window (f.plain crypto).data f.offset amount = f.seen crypto amount := by
    have all : window (f.plain crypto).data f.offset amount =
        window (f.plain crypto).data f.offset (f.available amount) := by
      rw [window, window, List.take_eq_take_iff, List.length_drop, length]
      omega
    rw [all, plain, ← mask_window, start, window_window (by omega), position, seen]
  have here : (f.plain crypto).offset = f.offset := rfl
  rw [Cache.File.read, here, read, length_seen exact.toPlaced, plain, plain, offset_moved exact.toPlaced]
  rfl

theorem Exact.moved (exact : f.Exact) {amount : Nat} (whole : amount % 16 = 0) :
    (f.moved (f.available amount)).Exact := by
  refine { exact.toPlaced.moved amount with inside := ?_, rest := exact.rest }
  have offset := f.offset_eq
  have position := exact.position
  have aligned := exact.aligned
  have behind := exact.behind
  have inside := exact.inside
  have wholeSize := exact.whole
  have rest := exact.rest
  rw [offset_moved exact.toPlaced]
  simp only [EncryptedFile.moved, available]
  omega

/-- The part of the device that is the file, after bytes were put into it. -/
theorem window_stored {data bytes : Bytes} {start offset size : Nat} (inside : offset ≤ size)
    (kept : start + size ≤ data.length) :
    window (data.take (start + offset) ++ bytes ++ data.drop (start + offset + bytes.length)) start
        (max size (offset + bytes.length)) =
      (window data start size).take offset ++ bytes ++ (window data start size).drop (offset + bytes.length) := by
  have front : (data.take (start + offset)).drop start = (window data start size).take offset := by
    rw [window, List.take_take, List.drop_take, Nat.min_eq_left inside, Nat.add_sub_cancel_left]
  have front_length : ((window data start size).take offset).length = offset := by
    rw [List.length_take, length_window kept]
    omega
  have whole : ((window data start size).take offset ++ bytes).length = offset + bytes.length := by
    rw [List.length_append, front_length]
  rw [window, List.append_assoc, List.drop_append_of_le_length (by rw [List.length_take]; omega), front,
    ← List.append_assoc, List.take_append, whole, List.take_of_length_le (by omega)]
  congr 1
  rw [window, List.drop_take, List.drop_drop, Nat.add_assoc]
  congr 1
  omega

/-- Written bytes are those of the plain file. -/
theorem plain_stored (exact : f.Exact) (bytes : Bytes) :
    (f.stored crypto bytes).plain crypto = (f.plain crypto).write bytes := by
  have offset := f.offset_eq
  have behind := exact.behind
  have position := exact.position
  have inside := exact.inside
  have kept := exact.stored
  have start : f.data.pos = 116 + f.offset := by omega
  have further : 48 + f.offset = f.encryptionOffset := by omega
  have part := @window_stored f.data.bytes (mask (f.state.keystream crypto) f.encryptionOffset bytes) 116 f.offset
    f.dataSize (by omega) kept
  have front_length : ((window f.data.bytes 116 f.dataSize).take f.offset).length = f.offset := by
    rw [List.length_take, length_window kept]
    omega
  rw [length_mask] at part
  rw [Cache.File.write]
  simp only [plain, stored, Cache.File.mk.injEq]
  constructor
  · rw [start, part, mask_append, mask_append, mask_take, front_length, further, mask_mask, List.length_append,
      front_length, length_mask, mask_drop]
  · simp only [offset_eq]
    omega

end EncryptedFile

end IMeDesktop.Storage
