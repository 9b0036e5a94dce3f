import IMeDesktop.Lib.DataStream

/-! # Encrypted local files

A file has a magic and a version in front, then byte arrays, then a signature of all that. The arrays that are
encrypted tell their own length inside, are padded to whole blocks, and the hash of what is encrypted makes the key.

Hashes and `AES` in `IGE` mode are taken from outside. No array has `2 ^ 31` bytes, and memory is little endian.
What fails in the code is `none`. Of what decrypts, `some none` is such a failure, and `none` is an access outside of
an array.
-/

namespace IMeDesktop.Storage.Details

open Lib DataStream

def TdfMagic : Bytes := [0x54, 0x44, 0x46, 0x24]

def AppVersion : Int32 := 4000002

abbrev AuthKey := Bytes

/-- The code that is not part of the program. -/
structure Crypto where
  sha1 : Bytes → Bytes
  md5 : Bytes → Bytes
  aesEncryptLocal : (data : Bytes) → (authKey : AuthKey) → (key128 : Bytes) → Bytes
  aesDecryptLocal : (data : Bytes) → (authKey : AuthKey) → (key128 : Bytes) → Bytes
  sha1_width : ∀ data, (sha1 data).length = 20
  md5_width : ∀ data, (md5 data).length = 16
  encrypt_width : ∀ data key key128, data.length % 16 = 0 → (aesEncryptLocal data key key128).length = data.length
  decrypt_width : ∀ data key key128, data.length % 16 = 0 → (aesDecryptLocal data key key128).length = data.length
  decrypt_encrypt : ∀ data key key128, data.length % 16 = 0 →
    aesDecryptLocal (aesEncryptLocal data key key128) key key128 = data

/-- A null array is missing. -/
abbrev QByteArray := Option Bytes

/-- An `int` in memory. -/
def int32Bytes (n : Int32) : Bytes := toLittleEndian 4 n.toUInt32.toNat

/-! ## Encrypted data -/

/-- The data with the position of its buffer. -/
structure EncryptedDescriptor where
  data : Bytes
  pos : Nat
  deriving DecidableEq, Repr

/-- The place for the length is not initialized. -/
def EncryptedDescriptor.create (uninitialized : Fin 4 → UInt8) : EncryptedDescriptor := ⟨List.ofFn uninitialized, 4⟩

def EncryptedDescriptor.write (s : EncryptedDescriptor) (bytes : Bytes) : EncryptedDescriptor :=
  ⟨s.data ++ bytes, s.pos + bytes.length⟩

section Code

variable (crypto : Crypto)

/-- The size of whole blocks. -/
def fullSizeOf (size : Nat) : Nat := if size % 16 ≠ 0 then size + (16 - size % 16) else size

/-- The hash is longer than the key, and what is encrypted is written over its end. `none` is an access outside of
the data, or an array that can not be that long. -/
def PrepareEncrypted (random : Nat → UInt8) (data : EncryptedDescriptor) (key : AuthKey) : Option Bytes :=
  let size := data.data.length
  let fullSize := fullSizeOf size
  if size < 4 ∨ 16 + fullSize ≥ 2 ^ 31 then none
  else
    let toEncrypt := data.data ++ (List.range (fullSize - size)).map random
    let toEncrypt := toLittleEndian 4 size ++ toEncrypt.drop 4
    let key128 := (crypto.sha1 toEncrypt).take 16
    some (key128 ++ crypto.aesEncryptLocal toEncrypt key key128)

def DecryptLocal (encrypted : Bytes) (key : AuthKey) : Option (Option EncryptedDescriptor) :=
  if encrypted.length ≤ 16 ∨ encrypted.length % 16 ≠ 0 then some none
  else do
    let fullLen := UInt32.ofNat (encrypted.length - 16)
    let encryptedKey ← subspan encrypted 0 16
    let encryptedData ← subspan encrypted 16 fullLen.toNat
    let decrypted := crypto.aesDecryptLocal encryptedData key encryptedKey
    if (crypto.sha1 decrypted).take 16 ≠ encryptedKey then some none
    else do
      let stored ← subspan decrypted 0 4
      let dataLen := UInt32.ofNat (fromLittleEndian stored)
      if dataLen > UInt32.ofNat decrypted.length ∨ dataLen ≤ fullLen - 16 ∨ dataLen < 4 then some none
      else some (some ⟨decrypted.take dataLen.toNat, 4⟩)

/-! ## Files that are written -/

/-- What the signature is made of is fed piece by piece. -/
structure FileWriteDescriptor where
  safeData : Bytes := []
  fed : Bytes := []
  fullSize : Nat := 0

structure WriteEntry where
  data : Bytes
  md5 : Bytes

def FileWriteDescriptor.writeData (s : FileWriteDescriptor) (data : QByteArray) : FileWriteDescriptor :=
  let len := match data with
    | none => 0xFFFFFFFF
    | some bytes => bytes.length
  { safeData := s.safeData ++ putByteArray data
    -- the length is swapped before it is fed
    fed := s.fed ++ (toLittleEndian 4 len).reverse ++ data.getD []
    fullSize := s.fullSize + (4 + (data.getD []).length) }

def FileWriteDescriptor.finish (s : FileWriteDescriptor) : WriteEntry where
  data := s.safeData
  md5 := crypto.md5 (s.fed ++ int32Bytes (Int32.ofNat s.fullSize) ++ int32Bytes AppVersion ++ TdfMagic)

/-- The header, the data and the signature. -/
def WriteEntry.bytes (entry : WriteEntry) : Bytes := TdfMagic ++ int32Bytes AppVersion ++ entry.data ++ entry.md5

/-- `s`, `0` and `1` at the end of the name. -/
inductive Postfix where
  | safe | simple | backup
  deriving DecidableEq, Repr

structure File where
  bytes : Bytes
  lastModified : Nat
  deriving DecidableEq, Repr

abbrev Files := Postfix → Option File

def Files.set (files : Files) (name : Postfix) (file : Option File) : Files :=
  fun other => if other = name then file else files other

/-- What works: the file that is saved at once, or another one, and that it gets the right name then. -/
structure Writing where
  saved : Bool
  opened : Bool
  renamed : Bool
  deriving DecidableEq, Repr

def writeNow (writing : Writing) (now : Nat) (entry : WriteEntry) (files : Files) : Files :=
  let file := some ⟨entry.bytes, now⟩
  if writing.saved then files.set .safe file |>.set .simple none |>.set .backup none
  else if writing.opened then
    let files := files.set .simple file |>.set .backup none
    if writing.renamed then files.set .safe file |>.set .simple none else files.set .safe none
  else files

/-! ## Files that are read -/

structure FileReadDescriptor where
  version : Int32
  data : Bytes
  pos : Nat
  deriving DecidableEq, Repr

/-- One of the files. -/
def readBytes (file : Bytes) : Option FileReadDescriptor :=
  let magic := file.take 4
  if magic.length ≠ 4 then none
  else if magic ≠ TdfMagic then none
  else
    let read := (file.drop 4).take 4
    if read.length ≠ 4 then none
    else
      let version := (UInt32.ofNat (fromLittleEndian read)).toInt32
      if version > AppVersion then none
      else
        -- no more is read than an array can have
        let bytes := (file.drop 8).take (min file.length (2 ^ 31 - 1))
        if bytes.length < 16 then none
        else
          let dataSize := bytes.length - 16
          let signed := bytes.take dataSize ++ int32Bytes (Int32.ofNat dataSize) ++ int32Bytes version ++ magic
          if crypto.md5 signed ≠ bytes.drop dataSize then none
          else some ⟨version, bytes.take dataSize, 0⟩

/-- The files to try, one after another. -/
def toTry (files : Files) : Postfix × Option Postfix :=
  if (files .safe).isSome then (.safe, none)
  else
    match files .simple, files .backup with
    | some simple, some backup =>
        if simple.lastModified < backup.lastModified then (.backup, some .simple) else (.simple, some .backup)
    | some _, none => (.simple, none)
    | none, _ => (.backup, none)

/-- The other file is removed when one is read. -/
def ReadFile (files : Files) : Option (FileReadDescriptor × Files) :=
  let (first, second) := toTry files
  match (files first).bind fun file => readBytes crypto file.bytes with
  | some result =>
      match second with
      | none => some (result, files)
      | some other => some (result, files.set other none)
  | none => do
      let other ← second
      let file ← files other
      let result ← readBytes crypto file.bytes
      some (result, files.set first none)

/-- An array that can not be read is null. -/
def ReadEncryptedFile (files : Files) (key : AuthKey) : Option (Option FileReadDescriptor) :=
  match ReadFile crypto files with
  | none => some none
  | some (result, _) => do
      let encrypted := ((getByteArray (result.data.drop result.pos)).bind fun read => read.1).getD []
      let data ← DecryptLocal crypto encrypted key
      some (data.map fun data => ⟨result.version, data.data, data.pos⟩)

end Code

end IMeDesktop.Storage.Details
