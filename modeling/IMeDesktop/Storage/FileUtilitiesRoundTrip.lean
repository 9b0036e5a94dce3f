import IMeDesktop.Storage.FileUtilities

/-! # Encrypted local files are read back

The signature is made of the same bytes on both sides: the lengths are fed as the stream writes them, and their sum
is the size of the data. What is decrypted has the length that it tells, which is within the last block.
-/

namespace IMeDesktop.Storage.Details

open Lib DataStream

/-! ## Encrypted data -/

/-- Whole blocks, and no more of them than are needed. -/
theorem fullSizeOf_spec (size : Nat) :
    fullSizeOf size % 16 = 0 ∧ size ≤ fullSizeOf size ∧ fullSizeOf size < size + 16 := by
  unfold fullSizeOf
  split_ifs with rest
  · omega
  · omega

section Decrypted

variable (crypto : Crypto) (key : AuthKey)

/-- What is decrypted is what was encrypted if it has its own hash in front. -/
theorem DecryptLocal_hashed {plain : Bytes} (blocks : plain.length % 16 = 0) (some : 16 ≤ plain.length)
    (small : plain.length < 2 ^ 32) {dataLen : Nat} (length : fromLittleEndian (plain.take 4) = dataLen)
    (least : 4 ≤ dataLen) (most : dataLen ≤ plain.length) (last : plain.length < dataLen + 16) :
    DecryptLocal crypto
        ((crypto.sha1 plain).take 16 ++ crypto.aesEncryptLocal plain key ((crypto.sha1 plain).take 16)) key =
      .some (.some ⟨plain.take dataLen, 4⟩) := by
  have width : ((crypto.sha1 plain).take 16).length = 16 := by rw [List.length_take, crypto.sha1_width]; rfl
  generalize hash : (crypto.sha1 plain).take 16 = key128 at width
  have same := crypto.encrypt_width plain key key128 blocks
  have whole : (key128 ++ crypto.aesEncryptLocal plain key key128).length = 16 + plain.length := by
    rw [List.length_append, width, same]
  have full : (UInt32.ofNat plain.length).toNat = plain.length := by
    rw [UInt32.toNat_ofNat']
    omega
  have front : subspan (key128 ++ crypto.aesEncryptLocal plain key key128) 0 16 = .some key128 := by
    have read := @subspan_first _ (key128 ++ crypto.aesEncryptLocal plain key key128) 16 (by omega)
    rw [List.take_left' width] at read
    exact read
  have behind : subspan (key128 ++ crypto.aesEncryptLocal plain key key128) 16 plain.length =
      .some (crypto.aesEncryptLocal plain key key128) := by
    have read := @subspan_inside _ (key128 ++ crypto.aesEncryptLocal plain key key128) 16 plain.length (by omega)
    rwa [List.drop_left' width, List.take_of_length_le (Nat.le_of_eq same)] at read
  have stored : subspan plain 0 4 = .some (plain.take 4) := @subspan_first _ plain 4 (by omega)
  have told : (UInt32.ofNat dataLen).toNat = dataLen := by
    rw [UInt32.toNat_ofNat']
    omega
  have fine : ¬(UInt32.ofNat dataLen > UInt32.ofNat plain.length ∨
      UInt32.ofNat dataLen ≤ UInt32.ofNat plain.length - 16 ∨ UInt32.ofNat dataLen < 4) := by
    have less : (UInt32.ofNat plain.length - 16).toNat = plain.length - 16 := by
      rw [UInt32.toNat_sub_of_le]
      · rw [full]
        rfl
      · rw [UInt32.le_iff_toNat_le, full]
        exact some
    rw [gt_iff_lt, UInt32.lt_iff_toNat_lt, UInt32.le_iff_toNat_le, UInt32.lt_iff_toNat_lt, full, less, told]
    change ¬(_ ∨ _ ∨ dataLen < 4)
    omega
  rw [DecryptLocal, whole, if_neg (by omega)]
  simp only [Nat.add_sub_cancel_left, full, front, behind, Option.bind_eq_bind, Option.bind_some,
    crypto.decrypt_encrypt _ _ _ blocks, hash, stored, length, told, ne_eq, not_true, if_false, if_neg fine]

/-- What is prepared is decrypted again. -/
theorem PrepareEncrypted_decrypted (uninitialized : Fin 4 → UInt8) (random : Nat → UInt8) {payload : Bytes}
    (fits : 16 + fullSizeOf (4 + payload.length) < 2 ^ 31) :
    ∃ encrypted, PrepareEncrypted crypto random ((EncryptedDescriptor.create uninitialized).write payload) key =
        some encrypted ∧
      encrypted.length = 16 + fullSizeOf (4 + payload.length) ∧
      DecryptLocal crypto encrypted key =
        some (some ⟨toLittleEndian 4 (4 + payload.length) ++ payload, 4⟩) := by
  obtain ⟨blocks, least, most⟩ := fullSizeOf_spec (4 + payload.length)
  have size : ((EncryptedDescriptor.create uninitialized).write payload).data.length = 4 + payload.length := by
    simp [EncryptedDescriptor.create, EncryptedDescriptor.write]
    omega
  rw [PrepareEncrypted]
  simp only [size]
  rw [if_neg (by omega)]
  generalize fullSizeOf (4 + payload.length) = fullSize at *
  obtain ⟨padding, drawn⟩ : ∃ padding, (List.range (fullSize - (4 + payload.length))).map random = padding := ⟨_, rfl⟩
  have padded : padding.length = fullSize - (4 + payload.length) := by rw [← drawn]; simp
  have rest : (((EncryptedDescriptor.create uninitialized).write payload).data ++ padding).drop 4 =
      payload ++ padding := by
    rw [EncryptedDescriptor.write, EncryptedDescriptor.create, List.append_assoc, List.drop_left' (by simp)]
  have head := length_toLittleEndian 4 (4 + payload.length)
  rw [drawn, rest]
  have total : (toLittleEndian 4 (4 + payload.length) ++ (payload ++ padding)).length = fullSize := by
    rw [List.length_append, List.length_append, head, padded]
    omega
  refine ⟨_, rfl, ?_, ?_⟩
  · rw [List.length_append, List.length_take, crypto.sha1_width, crypto.encrypt_width _ _ _ (by rwa [total]), total]
    rfl
  · have told : fromLittleEndian ((toLittleEndian 4 (4 + payload.length) ++ (payload ++ padding)).take 4) =
        4 + payload.length := by
      rw [List.take_left' head, fromLittleEndian_toLittleEndian (by omega)]
    rw [DecryptLocal_hashed crypto key (by rwa [total]) (by omega) (by omega) told (by omega) (by omega) (by omega),
      ← List.append_assoc, List.take_left' (by rw [List.length_append, head])]

/-- What is decrypted is never longer than the buffer, and has a length in front; nothing is read outside. -/
theorem DecryptLocal_inside {encrypted : Bytes} (short : encrypted.length < 2 ^ 31) :
    ∃ result, DecryptLocal crypto encrypted key = some result ∧
      ∀ data ∈ result, 4 ≤ data.data.length ∧ data.data.length ≤ encrypted.length - 16 ∧ data.pos = 4 := by
  rw [DecryptLocal]
  split_ifs with bad
  · exact ⟨none, rfl, nofun⟩
  · rw [not_or, not_not] at bad
    have full : (UInt32.ofNat (encrypted.length - 16)).toNat = encrypted.length - 16 := by
      rw [UInt32.toNat_ofNat']
      omega
    obtain ⟨key128, front⟩ : ∃ key128, subspan encrypted 0 16 = some key128 :=
      ⟨_, @subspan_first _ encrypted 16 (by omega)⟩
    have behind : subspan encrypted 16 (encrypted.length - 16 : Nat) = some (encrypted.drop 16) := by
      have read := @subspan_inside _ encrypted 16 (encrypted.length - 16) (by omega)
      rwa [List.take_of_length_le (Nat.le_of_eq List.length_drop)] at read
    have width := crypto.decrypt_width (encrypted.drop 16) key key128 (by rw [List.length_drop]; omega)
    rw [List.length_drop] at width
    simp only [full, front, behind, Option.bind_eq_bind, Option.bind_some]
    generalize crypto.aesDecryptLocal (encrypted.drop 16) key key128 = decrypted at width
    have stored : subspan decrypted 0 4 = some (decrypted.take 4) := @subspan_first _ decrypted 4 (by omega)
    split_ifs with wrong
    · exact ⟨none, rfl, nofun⟩
    · simp only [stored, Option.bind_some]
      split_ifs with outside
      · exact ⟨none, rfl, nofun⟩
      · refine ⟨_, rfl, fun data same => ?_⟩
        cases same
        rw [not_or, not_or] at outside
        obtain ⟨most, _, least⟩ := outside
        rw [gt_iff_lt, UInt32.not_lt, UInt32.le_iff_toNat_le, width, full] at most
        rw [UInt32.not_lt, UInt32.le_iff_toNat_le] at least
        change 4 ≤ _ at least
        rw [List.length_take, width]
        refine ⟨?_, ?_, rfl⟩
        · omega
        · omega

end Decrypted

/-! ## Files -/

section Written

variable (crypto : Crypto)

/-- What is fed is what is written. -/
structure FileWriteDescriptor.Signed (s : FileWriteDescriptor) : Prop where
  fed : s.fed = s.safeData
  fullSize : s.fullSize = s.safeData.length

theorem FileWriteDescriptor.Signed.writeData {s : FileWriteDescriptor} (signed : s.Signed) (data : QByteArray) :
    (s.writeData data).Signed := by
  constructor
  · cases data with
    | none => simp [FileWriteDescriptor.writeData, signed.fed, putByteArray, put]
    | some bytes => simp [FileWriteDescriptor.writeData, signed.fed, putByteArray, put]
  · change s.fullSize + _ = (s.safeData ++ _).length
    rw [signed.fullSize, List.length_append, length_putByteArray]

/-- All arrays, one after another. -/
def written (arrays : List QByteArray) : FileWriteDescriptor := arrays.foldl FileWriteDescriptor.writeData {}

theorem written_spec (arrays : List QByteArray) :
    (written arrays).Signed ∧ (written arrays).safeData = arrays.flatMap putByteArray := by
  have all (s : FileWriteDescriptor) (signed : s.Signed) :
      (arrays.foldl FileWriteDescriptor.writeData s).Signed ∧
        (arrays.foldl FileWriteDescriptor.writeData s).safeData = s.safeData ++ arrays.flatMap putByteArray := by
    induction arrays generalizing s with
    | nil => exact ⟨signed, (List.append_nil _).symm⟩
    | cons array rest ih =>
        obtain ⟨signed', data⟩ := ih (s.writeData array) (signed.writeData array)
        refine ⟨signed', data.trans ?_⟩
        rw [List.flatMap_cons, ← List.append_assoc]
        rfl
  exact all {} ⟨rfl, rfl⟩

theorem int32Bytes_width (n : Int32) : (int32Bytes n).length = 4 := length_toLittleEndian 4 _

theorem int32_read (n : Int32) : (UInt32.ofNat (fromLittleEndian (int32Bytes n))).toInt32 = n := by
  rw [int32Bytes, fromLittleEndian_toLittleEndian n.toUInt32.toNat_lt, UInt32.ofNat_toNat, Int32.toInt32_toUInt32]

/-- A file is accepted. -/
theorem readBytes_written (arrays : List QByteArray) (fits : (arrays.flatMap putByteArray).length + 16 < 2 ^ 31) :
    readBytes crypto ((written arrays).finish crypto).bytes = some ⟨AppVersion, arrays.flatMap putByteArray, 0⟩ := by
  obtain ⟨signed, data⟩ := written_spec arrays
  have entry : ((written arrays).finish crypto).bytes =
      TdfMagic ++ (int32Bytes AppVersion ++ ((written arrays).safeData ++
        crypto.md5 ((written arrays).safeData ++ int32Bytes (Int32.ofNat (written arrays).safeData.length) ++
          int32Bytes AppVersion ++ TdfMagic))) := by
    rw [WriteEntry.bytes, FileWriteDescriptor.finish, signed.fed, signed.fullSize, List.append_assoc,
      List.append_assoc]
  rw [← data] at fits ⊢
  rw [entry]
  generalize (written arrays).safeData = data' at *
  generalize signature : crypto.md5 _ = md5
  have width : md5.length = 16 := signature ▸ crypto.md5_width _
  have magic : (TdfMagic ++ (int32Bytes AppVersion ++ (data' ++ md5))).take 4 = TdfMagic := rfl
  have version : ((TdfMagic ++ (int32Bytes AppVersion ++ (data' ++ md5))).drop 4).take 4 = int32Bytes AppVersion := rfl
  have rest : (TdfMagic ++ (int32Bytes AppVersion ++ (data' ++ md5))).drop 8 = data' ++ md5 := rfl
  have total : (data' ++ md5).length = data'.length + 16 := by rw [List.length_append, width]
  have whole : (data' ++ md5).take (min (TdfMagic ++ (int32Bytes AppVersion ++ (data' ++ md5))).length (2 ^ 31 - 1)) =
      data' ++ md5 := by
    apply List.take_of_length_le
    simp only [List.length_append, width]
    omega
  rw [readBytes]
  simp only [magic, version, rest, whole, int32Bytes_width, int32_read, total, Nat.add_sub_cancel, List.take_left,
    List.drop_left, signature]
  rw [if_neg (by decide), if_neg (by simp), if_neg (by simp), if_neg (by decide), if_neg (by omega), if_neg (by simp)]

theorem ReadFile_first {files : Files} {name : Postfix} {file : File} {result : FileReadDescriptor}
    (first : toTry files = (name, none)) (there : files name = some file)
    (read : readBytes crypto file.bytes = some result) : ReadFile crypto files = some (result, files) := by
  rw [ReadFile, first]
  simp only [there, Option.bind_some, read]

/-- Whatever works, there is one file to try, and it has what was written last. -/
theorem toTry_writeNow {writing : Writing} (done : writing.saved = true ∨ writing.opened = true) (now : Nat)
    (entry : WriteEntry) (files : Files) :
    ∃ name, toTry (writeNow writing now entry files) = (name, none) ∧
      writeNow writing now entry files name = some ⟨entry.bytes, now⟩ := by
  obtain ⟨saved, opened, renamed⟩ := writing
  cases saved with
  | true => exact ⟨.safe, rfl, rfl⟩
  | false =>
      obtain rfl : opened = true := by simpa using done
      cases renamed with
      | true => exact ⟨.safe, rfl, rfl⟩
      | false => exact ⟨.simple, rfl, rfl⟩

theorem ReadFile_written (arrays : List QByteArray) (fits : (arrays.flatMap putByteArray).length + 16 < 2 ^ 31)
    {writing : Writing} (done : writing.saved = true ∨ writing.opened = true) (now : Nat) (files : Files) :
    ReadFile crypto (writeNow writing now ((written arrays).finish crypto) files) =
      some (⟨AppVersion, arrays.flatMap putByteArray, 0⟩,
        writeNow writing now ((written arrays).finish crypto) files) := by
  obtain ⟨name, first, there⟩ := toTry_writeNow done now ((written arrays).finish crypto) files
  exact ReadFile_first crypto first there (readBytes_written crypto arrays fits)

theorem ReadEncryptedFile_written {key : AuthKey} {encrypted : Bytes} {data : EncryptedDescriptor}
    (decrypts : DecryptLocal crypto encrypted key = some (some data)) (arrays : List QByteArray)
    (fits : ((some encrypted :: arrays).flatMap putByteArray).length + 16 < 2 ^ 31)
    {writing : Writing} (done : writing.saved = true ∨ writing.opened = true) (now : Nat) (files : Files) :
    ReadEncryptedFile crypto (writeNow writing now ((written (some encrypted :: arrays)).finish crypto) files) key =
      some (some ⟨AppVersion, data.data, data.pos⟩) := by
  have short : encrypted.length < 2 ^ 31 := by
    rw [List.flatMap_cons, List.length_append, length_putByteArray, Option.getD_some] at fits
    omega
  have first : getByteArray ((some encrypted :: arrays).flatMap putByteArray) =
      some (some encrypted, arrays.flatMap putByteArray) := by
    rw [List.flatMap_cons]
    exact @reads_byteArray (some encrypted) short _
  rw [ReadEncryptedFile, ReadFile_written crypto _ fits done]
  simp only [List.drop_zero, first, Option.bind_some, Option.getD_some, decrypts, Option.bind_eq_bind,
    Option.map_some]

end Written

/-- What is written is read, and what is encrypted is decrypted, whatever comes behind it. Of anything else, what is
decrypted has a length in front and is not longer than the buffer. -/
theorem local_files_read_back (crypto : Crypto) (key : AuthKey) (uninitialized : Fin 4 → UInt8) (random : Nat → UInt8)
    {payload : Bytes} (fits : 16 + fullSizeOf (4 + payload.length) < 2 ^ 31) {writing : Writing}
    (done : writing.saved = true ∨ writing.opened = true) (now : Nat) (files : Files) :
    (∃ encrypted,
      PrepareEncrypted crypto random ((EncryptedDescriptor.create uninitialized).write payload) key =
          some encrypted ∧
        DecryptLocal crypto encrypted key = some (some ⟨toLittleEndian 4 (4 + payload.length) ++ payload, 4⟩) ∧
        ∀ arrays, ((some encrypted :: arrays).flatMap putByteArray).length + 16 < 2 ^ 31 →
          ReadEncryptedFile crypto (writeNow writing now ((written (some encrypted :: arrays)).finish crypto) files)
            key = some (some ⟨AppVersion, toLittleEndian 4 (4 + payload.length) ++ payload, 4⟩)) ∧
      (∀ arrays : List QByteArray, (arrays.flatMap putByteArray).length + 16 < 2 ^ 31 →
        ReadFile crypto (writeNow writing now ((written arrays).finish crypto) files) =
            some (⟨AppVersion, arrays.flatMap putByteArray, 0⟩,
              writeNow writing now ((written arrays).finish crypto) files) ∧
          getByteArrays arrays.length (arrays.flatMap putByteArray) = some (arrays, [])) ∧
      ∀ encrypted : Bytes, encrypted.length < 2 ^ 31 →
        ∃ result, DecryptLocal crypto encrypted key = some result ∧
          ∀ data ∈ result, 4 ≤ data.data.length ∧ data.data.length ≤ encrypted.length - 16 ∧ data.pos = 4 := by
  refine ⟨?_, fun arrays fits => ⟨ReadFile_written crypto arrays fits done now files, ?_⟩, fun encrypted short => ?_⟩
  · obtain ⟨encrypted, prepared, _, decrypts⟩ := PrepareEncrypted_decrypted crypto key uninitialized random fits
    exact ⟨encrypted, prepared, decrypts, fun arrays fits =>
      ReadEncryptedFile_written crypto decrypts arrays fits done now files⟩
  · have short : ∀ array ∈ arrays, (array.getD []).length < 2 ^ 31 := fun array member => by
      obtain ⟨front, back, rfl⟩ := List.append_of_mem member
      rw [List.flatMap_append, List.flatMap_cons, List.length_append, List.length_append, length_putByteArray] at fits
      omega
    have read := reads_byteArrays short []
    rwa [List.append_nil] at read
  · exact DecryptLocal_inside crypto key short

/-! ## Three bytes -/

/-- Three bytes behind their length, in one block. -/
def threeBytes : Bytes := [7, 0, 0, 0, 1, 2, 3, 0, 0, 0, 0, 0, 0, 0, 0, 0]

/-- `SHA-1` of the block. -/
def threeHash : Bytes :=
  [94, 48, 59, 99, 15, 208, 160, 118, 168, 29, 103, 127, 113, 84, 121, 135, 76, 244, 84, 149]

/-- The block, encrypted with a key of zeros. -/
def threeEncrypted : Bytes := [16, 250, 138, 215, 101, 172, 216, 53, 140, 156, 234, 113, 159, 40, 233, 138]

/-- `MD5` of the file with the encrypted bytes, a null array and an empty one. -/
def threeSignature : Bytes := [250, 173, 68, 219, 145, 64, 151, 14, 247, 215, 10, 107, 209, 55, 157, 103]

def threeArrays : List QByteArray := [some (threeHash.take 16 ++ threeEncrypted), none, some []]

/-- What the signature is made of. -/
def threeSigned : Bytes := threeArrays.flatMap putByteArray ++ int32Bytes 44 ++ int32Bytes AppVersion ++ TdfMagic

/-- The functions are known where they are used. -/
def knownCrypto : Crypto where
  sha1 data := if data = threeBytes then threeHash else List.replicate 20 0
  md5 data := if data = threeSigned then threeSignature else List.replicate 16 0
  aesEncryptLocal data key key128 :=
    if key = List.replicate 256 0 ∧ key128 = threeHash.take 16 then Equiv.swap threeBytes threeEncrypted data else data
  aesDecryptLocal data key key128 :=
    if key = List.replicate 256 0 ∧ key128 = threeHash.take 16 then Equiv.swap threeBytes threeEncrypted data else data
  sha1_width data := by
    split_ifs
    · rfl
    · rfl
  md5_width data := by
    split_ifs
    · rfl
    · rfl
  encrypt_width data key key128 _ := by
    split_ifs
    · exact length_swap (by decide) data
    · rfl
  decrypt_width data key key128 _ := by
    split_ifs
    · exact length_swap (by decide) data
    · rfl
  decrypt_encrypt data key key128 _ := by
    split_ifs
    · exact Equiv.swap_apply_self _ _ data
    · rfl

theorem three_bytes_read_back :
    (∃ encrypted,
      PrepareEncrypted knownCrypto (fun _ => 0) ((EncryptedDescriptor.create fun _ => 0).write [1, 2, 3])
          (List.replicate 256 0) = some encrypted ∧
        DecryptLocal knownCrypto encrypted (List.replicate 256 0) = some (some ⟨[7, 0, 0, 0, 1, 2, 3], 4⟩)) ∧
      ReadFile knownCrypto
          (writeNow ⟨true, true, true⟩ 0 ((written threeArrays).finish knownCrypto) fun _ => none) =
        some (⟨AppVersion, threeArrays.flatMap putByteArray, 0⟩,
          writeNow ⟨true, true, true⟩ 0 ((written threeArrays).finish knownCrypto) fun _ => none) := by
  obtain ⟨⟨encrypted, prepared, decrypts, _⟩, read, _⟩ := @local_files_read_back knownCrypto (List.replicate 256 0)
    (fun _ => 0) (fun _ => 0) [1, 2, 3] (by decide) ⟨true, true, true⟩ (.inl rfl) 0 fun _ => none
  exact ⟨⟨encrypted, prepared, decrypts⟩, (read threeArrays (by decide)).1⟩

example : ((written threeArrays).finish knownCrypto).md5 = threeSignature := by decide +kernel

end IMeDesktop.Storage.Details
