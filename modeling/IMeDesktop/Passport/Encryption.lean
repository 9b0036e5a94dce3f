import IMeDesktop.Lib.Mask
import Mathlib.Tactic.Common

/-! # Encryption of passport data

Data is encrypted behind a padding that tells its own length, with a key made of a secret and of the hash of all
that is encrypted. The bytes of a secret have a known sum modulo 255, and that is how a wrong key is told.

Hashes and `AES` in `CBC` mode are taken from outside. `none` is an assertion that does not hold.
-/

namespace IMeDesktop.Passport

open Lib

def kAesKeyLength : Nat := 32
def kAesIvLength : Nat := 16
def kSecretSize : Nat := 32
def kAesParamsHashSize : Nat := 64
def kMinPadding : Nat := 32
def kMaxPadding : Nat := 255
def kAlignTo : Nat := 16
def kDataHashSize : Nat := 32

/-- The code that is not part of the program. A key and an iv of the right sizes are never refused. -/
structure Crypto where
  sha256 : Bytes → Bytes
  sha512 : Bytes → Bytes
  cbcEncrypt : (key iv data : Bytes) → Bytes
  cbcDecrypt : (key iv data : Bytes) → Bytes
  sha256_width : ∀ data, (sha256 data).length = kDataHashSize
  sha512_width : ∀ data, (sha512 data).length = kAesParamsHashSize
  encrypt_width : ∀ key iv data, data.length % kAlignTo = 0 → (cbcEncrypt key iv data).length = data.length
  decrypt_encrypt : ∀ key iv data, data.length % kAlignTo = 0 → cbcDecrypt key iv (cbcEncrypt key iv data) = data

/-- Random bytes, as they are drawn one after another. -/
abbrev RandomBytes := Nat → UInt8

def RandomFill (random : RandomBytes) (size : Nat) : Bytes := (List.range size).map random

structure AesParams where
  key : Bytes
  iv : Bytes
  deriving DecidableEq, Repr

structure EncryptedData where
  secret : Bytes
  hash : Bytes
  bytes : Bytes
  deriving DecidableEq, Repr

section Code

variable (crypto : Crypto)

def PrepareAesParamsWithHash (hashForEncryptionKey : Bytes) : Option AesParams := do
  if hashForEncryptionKey.length ≠ kAesParamsHashSize then none
  let key ← subspan hashForEncryptionKey 0 kAesKeyLength
  let iv ← subspan hashForEncryptionKey kAesKeyLength kAesIvLength
  some ⟨key, iv⟩

def PrepareAesParams (bytesForEncryptionKey : Bytes) : Option AesParams :=
  PrepareAesParamsWithHash (crypto.sha512 bytesForEncryptionKey)

/-- With the function that encrypts or the one that decrypts. -/
def EncryptOrDecrypt (cbc : Bytes → Bytes → Bytes → Bytes) (initial : Bytes) (params : AesParams) : Option Bytes :=
  if initial.length % 16 = 0 ∧ params.key.length = kAesKeyLength ∧ params.iv.length = kAesIvLength then
    some (cbc params.key params.iv initial)
  else none

def Encrypt (decrypted : Bytes) (params : AesParams) : Option Bytes :=
  EncryptOrDecrypt crypto.cbcEncrypt decrypted params

def Decrypt (encrypted : Bytes) (params : AesParams) : Option Bytes :=
  EncryptOrDecrypt crypto.cbcDecrypt encrypted params

/-! ## Secrets -/

def sumOf (bytes : Bytes) : UInt64 := bytes.foldl (fun sum value => sum + value.toUInt64) 0

def CheckBytesMod255 (bytes : Bytes) : Bool := sumOf bytes % 255 = 239

def CheckSecretBytes (secret : Bytes) : Bool := CheckBytesMod255 secret

def GenerateSecretBytes (random : RandomBytes) : Bytes :=
  let result := RandomFill random kSecretSize
  let mod := sumOf result % 255
  let add := 255 + 239 - mod
  let first := ((result.headD 0).toUInt64 + add) % 255
  result.set 0 first.toUInt8

def DecryptSecretBytesWithHash (encryptedSecret hashForEncryptionKey : Bytes) : Option Bytes :=
  if encryptedSecret = [] then some []
  else if encryptedSecret.length ≠ kSecretSize then some []
  else do
    let params ← PrepareAesParamsWithHash hashForEncryptionKey
    let result ← Decrypt crypto encryptedSecret params
    if CheckSecretBytes result then some result else some []

def DecryptSecretBytes (encryptedSecret bytesForEncryptionKey : Bytes) : Option Bytes :=
  DecryptSecretBytesWithHash crypto encryptedSecret (crypto.sha512 bytesForEncryptionKey)

def EncryptSecretBytes (secret bytesForEncryptionKey : Bytes) : Option Bytes :=
  if secret.length = kSecretSize ∧ CheckSecretBytes secret then do
    let params ← PrepareAesParams crypto bytesForEncryptionKey
    Encrypt crypto secret params
  else none

/-! ## Data -/

def kFromPadding : Nat := kMinPadding + kAlignTo - 1
def kPaddingDelta : Nat := kMaxPadding - kFromPadding

/-- The padding in front of so many bytes. -/
def paddingOf (drawn : UInt32) (size : Nat) : Nat :=
  let randomPadding := kFromPadding + drawn.toNat % kPaddingDelta
  randomPadding - (size + randomPadding) % kAlignTo

def EncryptData (drawn : UInt32) (random : RandomBytes) (bytes dataSecret : Bytes) : Option EncryptedData := do
  let padding := paddingOf drawn bytes.length
  if ¬(kMinPadding ≤ padding ∧ padding ≤ kMaxPadding) then none
  if (padding + bytes.length) % kAlignTo ≠ 0 then none
  let unencrypted := UInt8.ofNat padding :: RandomFill random (padding - 1) ++ bytes
  let dataHash := crypto.sha256 unencrypted
  let params ← PrepareAesParams crypto (dataSecret ++ dataHash)
  let encrypted ← Encrypt crypto unencrypted params
  some ⟨dataSecret, dataHash, encrypted⟩

def DecryptData (encrypted dataHash dataSecret : Bytes) : Option Bytes :=
  if encrypted = [] then some []
  else if dataHash.length ≠ kDataHashSize then some []
  else if dataSecret.length ≠ kSecretSize then some []
  else do
    let params ← PrepareAesParams crypto (dataSecret ++ dataHash)
    let decrypted ← Decrypt crypto encrypted params
    if crypto.sha256 decrypted ≠ dataHash then some []
    else do
      let first ← decrypted.head?
      let padding := first.toNat
      if padding < kMinPadding ∨ padding > kMaxPadding ∨ padding > decrypted.length then some []
      else subspan decrypted padding (-1)

end Code

/-! ## Keys -/

variable {crypto : Crypto}

theorem prepareAesParamsWithHash_eq {hash : Bytes} (width : hash.length = kAesParamsHashSize) :
    ∃ params, PrepareAesParamsWithHash hash = some params ∧ params.key.length = kAesKeyLength ∧
      params.iv.length = kAesIvLength := by
  have long : hash.length = 64 := width
  have key := @subspan_first _ hash kAesKeyLength (by rw [long]; decide)
  have iv := @subspan_inside _ hash kAesKeyLength kAesIvLength (by rw [long]; decide)
  refine ⟨⟨hash.take kAesKeyLength, (hash.drop kAesKeyLength).take kAesIvLength⟩, ?_, ?_, ?_⟩
  · rw [PrepareAesParamsWithHash, if_neg (not_not.mpr width), key, iv]
    rfl
  · simp [long, kAesKeyLength]
  · simp [long, kAesKeyLength, kAesIvLength]

/-- Whatever the key is made of, what is encrypted with it is decrypted. -/
theorem decrypt_encrypt (crypto : Crypto) (bytesForEncryptionKey : Bytes) :
    ∃ params, PrepareAesParams crypto bytesForEncryptionKey = some params ∧
      ∀ data : Bytes, data.length % kAlignTo = 0 → ∃ encrypted, Encrypt crypto data params = some encrypted ∧
        encrypted.length = data.length ∧ Decrypt crypto encrypted params = some data := by
  obtain ⟨params, made, key, iv⟩ := prepareAesParamsWithHash_eq (crypto.sha512_width bytesForEncryptionKey)
  refine ⟨params, made, fun data aligned => ⟨_, if_pos ⟨aligned, key, iv⟩, ?_, ?_⟩⟩
  · exact crypto.encrypt_width _ _ _ aligned
  · have still := crypto.encrypt_width params.key params.iv data aligned
    rw [Decrypt, EncryptOrDecrypt, if_pos ⟨still ▸ aligned, key, iv⟩, crypto.decrypt_encrypt _ _ _ aligned]

/-! ## Sums -/

theorem sumOf_foldl (bytes : Bytes) (sum : UInt64) :
    bytes.foldl (fun sum value => sum + value.toUInt64) sum = sum + sumOf bytes := by
  induction bytes generalizing sum with
  | nil => simp [sumOf]
  | cons value rest ih =>
      rw [sumOf, List.foldl_cons, List.foldl_cons, ih, ih (0 + value.toUInt64), UInt64.zero_add, UInt64.add_assoc]

@[simp]
theorem sumOf_cons (value : UInt8) (rest : Bytes) : sumOf (value :: rest) = value.toUInt64 + sumOf rest := by
  rw [sumOf, List.foldl_cons, sumOf_foldl, UInt64.zero_add]

theorem sumOf_le {bytes : Bytes} (short : bytes.length < 2 ^ 56) : (sumOf bytes).toNat ≤ 255 * bytes.length := by
  induction bytes with
  | nil => simp [sumOf]
  | cons value rest ih =>
      rw [List.length_cons] at short ⊢
      have later := ih (by omega)
      have small := value.toNat_lt
      rw [sumOf_cons, UInt64.toNat_add, UInt8.toNat_toUInt64]
      omega

@[simp]
theorem length_randomFill (random : RandomBytes) (size : Nat) : (RandomFill random size).length = size := by
  simp [RandomFill]

theorem generateSecretBytes_spec (random : RandomBytes) :
    (GenerateSecretBytes random).length = kSecretSize ∧ CheckSecretBytes (GenerateSecretBytes random) = true := by
  obtain ⟨value, rest, split⟩ : ∃ value rest, RandomFill random kSecretSize = value :: rest :=
    List.exists_cons_of_ne_nil (List.ne_nil_of_length_pos (by rw [length_randomFill]; decide))
  have length := length_randomFill random kSecretSize
  rw [split, List.length_cons] at length
  have short : rest.length = 31 := Nat.succ.inj length
  have sum := @sumOf_le rest (by rw [short]; decide)
  rw [short] at sum
  rw [GenerateSecretBytes]
  simp only [split, List.headD_cons, List.set_cons_zero]
  refine ⟨length, ?_⟩
  have small := value.toNat_lt
  -- the first byte brings the sum to the wanted one, whatever it was
  rw [CheckSecretBytes, CheckBytesMod255, decide_eq_true_iff, sumOf_cons, sumOf_cons]
  apply UInt64.toNat_inj.mp
  generalize sumOf rest = others at *
  simp only [UInt64.toNat_mod, UInt64.toNat_add, UInt8.toNat_toUInt64, UInt64.toNat_sub, UInt64.toNat_toUInt8,
    UInt64.toNat_ofNat, Nat.reducePow, Nat.reduceMod, Nat.reduceAdd]
  have whole : (value.toNat + others.toNat) % 18446744073709551616 = value.toNat + others.toNat := by omega
  rw [whole]
  obtain ⟨mod, mod_eq⟩ : ∃ mod, (value.toNat + others.toNat) % 255 = mod := ⟨_, rfl⟩
  have add : (18446744073709551616 - mod + 494) % 18446744073709551616 = 494 - mod := by omega
  have low : mod < 255 := mod_eq ▸ Nat.mod_lt _ (by decide)
  have first : (value.toNat + (494 - mod)) % 18446744073709551616 = value.toNat + (494 - mod) := by omega
  rw [mod_eq, add, first, Nat.mod_eq_of_lt (show (value.toNat + (494 - mod)) % 255 < 256 by omega),
    Nat.mod_eq_of_lt (show (value.toNat + (494 - mod)) % 255 + others.toNat < 18446744073709551616 by omega)]
  omega

/-! ## Data that is decrypted again -/

theorem paddingOf_spec (drawn : UInt32) (size : Nat) :
    kMinPadding ≤ paddingOf drawn size ∧ paddingOf drawn size ≤ kMaxPadding ∧
      (paddingOf drawn size + size) % kAlignTo = 0 := by
  have low : 47 ≤ kFromPadding + drawn.toNat % kPaddingDelta := Nat.le_add_right _ _
  have high : kFromPadding + drawn.toNat % kPaddingDelta < 47 + 208 :=
    Nat.add_lt_add_left (Nat.mod_lt _ (by decide)) _
  rw [paddingOf]
  generalize kFromPadding + drawn.toNat % kPaddingDelta = randomPadding at *
  unfold kMinPadding kMaxPadding kAlignTo
  omega

theorem decryptSecretBytes_encrypted (crypto : Crypto) {secret : Bytes} (width : secret.length = kSecretSize)
    (checked : CheckSecretBytes secret = true) (bytesForEncryptionKey : Bytes) :
    ∃ encrypted, EncryptSecretBytes crypto secret bytesForEncryptionKey = some encrypted ∧
      DecryptSecretBytes crypto encrypted bytesForEncryptionKey = some secret := by
  obtain ⟨params, made, round⟩ := decrypt_encrypt crypto bytesForEncryptionKey
  obtain ⟨encrypted, encrypts, length, decrypts⟩ := round secret (by rw [width]; decide)
  refine ⟨encrypted, ?_, ?_⟩
  · rw [EncryptSecretBytes, if_pos ⟨width, checked⟩, made]
    exact encrypts
  · have some : encrypted ≠ [] := by
      apply List.ne_nil_of_length_pos
      rw [length, width]
      decide
    have params' : PrepareAesParamsWithHash (crypto.sha512 bytesForEncryptionKey) = .some params := made
    rw [DecryptSecretBytes, DecryptSecretBytesWithHash, if_neg some, if_neg (not_not.mpr (length.trans width)), params']
    simp only [Option.bind_eq_bind, Option.bind_some, decrypts, checked, if_true]

theorem decryptData_encrypted (crypto : Crypto) (drawn : UInt32) (random : RandomBytes) (bytes : Bytes) {secret : Bytes}
    (width : secret.length = kSecretSize) :
    ∃ encrypted, EncryptData crypto drawn random bytes secret = some encrypted ∧
      DecryptData crypto encrypted.bytes encrypted.hash encrypted.secret = some bytes := by
  obtain ⟨least, most, aligned⟩ := paddingOf_spec drawn bytes.length
  rw [EncryptData]
  simp only [if_neg (not_not.mpr (And.intro least most)), if_neg (not_not.mpr aligned)]
  generalize paddingOf drawn bytes.length = padding at *
  have low : 32 ≤ padding := least
  have high : padding ≤ 255 := most
  have front : (UInt8.ofNat padding :: RandomFill random (padding - 1)).length = padding := by
    rw [List.length_cons, length_randomFill]
    omega
  have total : (UInt8.ofNat padding :: RandomFill random (padding - 1) ++ bytes).length = padding + bytes.length := by
    rw [List.length_append, front]
  obtain ⟨unencrypted, same⟩ : ∃ unencrypted, UInt8.ofNat padding :: RandomFill random (padding - 1) ++ bytes = unencrypted :=
    ⟨_, rfl⟩
  have first : unencrypted.head? = some (UInt8.ofNat padding) := by rw [← same]; rfl
  have rest : unencrypted.drop padding = bytes := by rw [← same, List.drop_left' front]
  rw [same] at total ⊢
  obtain ⟨params, made, round⟩ := decrypt_encrypt crypto (secret ++ crypto.sha256 unencrypted)
  obtain ⟨encrypted, encrypts, length, decrypts⟩ := round unencrypted (by rw [total]; exact aligned)
  refine ⟨⟨secret, crypto.sha256 unencrypted, encrypted⟩, ?_, ?_⟩
  · simp only [Option.bind_eq_bind, made, encrypts, Option.bind_some]
  · have some : encrypted ≠ [] := by
      apply List.ne_nil_of_length_pos
      omega
    have padded : (UInt8.ofNat padding).toNat = padding := by
      rw [UInt8.toNat_ofNat']
      omega
    have fine : ¬(padding < kMinPadding ∨ padding > kMaxPadding ∨ padding > unencrypted.length) := by
      unfold kMinPadding kMaxPadding
      omega
    rw [DecryptData, if_neg some, if_neg (not_not.mpr (crypto.sha256_width _)), if_neg (not_not.mpr width), made]
    simp only [Option.bind_eq_bind, Option.bind_some, decrypts, first, padded, ne_eq, not_true, if_false, if_neg fine]
    rw [subspan_rest (by omega), rest]

/-- What is encrypted is decrypted again, whatever is drawn, and with the bytes of the key secrets as well. -/
theorem encrypted_is_decrypted (crypto : Crypto) (drawn : UInt32) (random secretRandom : RandomBytes)
    (bytes bytesForEncryptionKey : Bytes) {secret : Bytes} (width : secret.length = kSecretSize) :
    (kMinPadding ≤ paddingOf drawn bytes.length ∧ paddingOf drawn bytes.length ≤ kMaxPadding ∧
        (paddingOf drawn bytes.length + bytes.length) % kAlignTo = 0) ∧
      (∃ encrypted, EncryptData crypto drawn random bytes secret = some encrypted ∧
        DecryptData crypto encrypted.bytes encrypted.hash encrypted.secret = some bytes) ∧
      CheckSecretBytes (GenerateSecretBytes secretRandom) = true ∧
      ∃ encrypted, EncryptSecretBytes crypto (GenerateSecretBytes secretRandom) bytesForEncryptionKey = some encrypted ∧
        DecryptSecretBytes crypto encrypted bytesForEncryptionKey = some (GenerateSecretBytes secretRandom) := by
  obtain ⟨secretWidth, checked⟩ := generateSecretBytes_spec secretRandom
  refine ⟨paddingOf_spec drawn bytes.length, ?_, checked, ?_⟩
  · exact decryptData_encrypted crypto drawn random bytes width
  · exact decryptSecretBytes_encrypted crypto secretWidth checked bytesForEncryptionKey

/-! ## Three bytes -/

/-- The secret that is made of zeros. -/
def zeroSecret : Bytes := GenerateSecretBytes fun _ => 0

/-- Three bytes behind a padding of zeros. -/
def threePadded : Bytes := 45 :: List.replicate 44 0 ++ [1, 2, 3]

/-- `SHA-256` of the padded bytes. -/
def threeHash : Bytes :=
  [247, 199, 44, 145, 30, 158, 47, 85, 71, 126, 145, 21, 30, 141, 123, 117, 120, 216, 49, 42, 231, 188, 70, 30,
   192, 183, 224, 61, 107, 203, 91, 198]

/-- `SHA-512` of the secret and the hash. -/
def threeKey : Bytes :=
  [0, 158, 90, 178, 233, 251, 231, 94, 150, 185, 4, 253, 201, 53, 121, 173, 31, 208, 148, 148, 87, 251, 3, 0,
   42, 90, 117, 29, 162, 62, 19, 223, 131, 92, 184, 159, 46, 42, 154, 57, 56, 13, 199, 84, 8, 241, 125, 227,
   147, 255, 138, 246, 183, 252, 170, 47, 80, 111, 22, 210, 40, 66, 200, 113]

/-- The padded bytes, encrypted. -/
def threeEncrypted : Bytes :=
  [2, 89, 133, 146, 85, 32, 124, 83, 184, 205, 38, 47, 64, 6, 6, 144, 2, 164, 183, 159, 242, 146, 143, 17, 232,
   220, 76, 20, 63, 118, 251, 44, 123, 186, 126, 23, 223, 3, 195, 186, 193, 243, 223, 61, 208, 187, 132, 15]

/-- `SHA-512` of a byte that is one. -/
def oneKey : Bytes :=
  [123, 84, 182, 104, 54, 193, 251, 221, 19, 210, 68, 29, 158, 20, 52, 220, 98, 202, 103, 127, 182, 143, 95,
   230, 106, 70, 75, 170, 222, 205, 189, 0, 87, 111, 141, 107, 90, 195, 188, 200, 8, 68, 183, 213, 11, 28, 198,
   96, 52, 68, 187, 231, 207, 207, 143, 192, 170, 30, 227, 198, 54, 217, 227, 57]

/-- The secret, encrypted. -/
def secretEncrypted : Bytes :=
  [30, 161, 4, 53, 76, 6, 216, 34, 166, 124, 144, 212, 218, 46, 40, 45, 188, 224, 153, 237, 25, 214, 1, 17, 34,
   147, 176, 249, 143, 231, 35, 24]

/-- `AES-256` in `CBC` mode, where two strings are known with what they are encrypted to. -/
def knownCbc (key iv data : Bytes) : Bytes :=
  if key = threeKey.take 32 ∧ iv = (threeKey.drop 32).take 16 then Equiv.swap threePadded threeEncrypted data
  else if key = oneKey.take 32 ∧ iv = (oneKey.drop 32).take 16 then Equiv.swap zeroSecret secretEncrypted data
  else data

def knownCrypto : Crypto where
  sha256 data := if data = threePadded then threeHash else List.replicate 32 0
  sha512 data :=
    if data = zeroSecret ++ threeHash then threeKey else if data = [1] then oneKey else List.replicate 64 0
  cbcEncrypt := knownCbc
  cbcDecrypt := knownCbc
  sha256_width data := by
    split_ifs
    · rfl
    · rfl
  sha512_width data := by
    split_ifs
    · rfl
    · rfl
    · rfl
  encrypt_width key iv data _ := by
    unfold knownCbc
    split_ifs
    · exact length_swap (by decide) data
    · exact length_swap (generateSecretBytes_spec _).1 data
    · rfl
  decrypt_encrypt key iv data _ := by
    unfold knownCbc
    split_ifs
    · exact Equiv.swap_apply_self _ _ data
    · exact Equiv.swap_apply_self _ _ data
    · rfl

theorem three_bytes_decrypted :
    (∃ encrypted, EncryptData knownCrypto 0 (fun _ => 0) [1, 2, 3] zeroSecret = some encrypted ∧
        DecryptData knownCrypto encrypted.bytes encrypted.hash encrypted.secret = some [1, 2, 3]) ∧
      ∃ encrypted, EncryptSecretBytes knownCrypto zeroSecret [1] = some encrypted ∧
        DecryptSecretBytes knownCrypto encrypted [1] = some zeroSecret := by
  obtain ⟨_, data, _, secret⟩ := encrypted_is_decrypted knownCrypto 0 (fun _ => 0) (fun _ => 0) [1, 2, 3] [1]
    (generateSecretBytes_spec fun _ => 0).1
  exact ⟨data, secret⟩

example : EncryptData knownCrypto 0 (fun _ => 0) [1, 2, 3] zeroSecret = some ⟨zeroSecret, threeHash, threeEncrypted⟩ := by
  decide +kernel

end IMeDesktop.Passport
