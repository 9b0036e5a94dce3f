import IMeDesktop.Lib.Mask
import Mathlib.Logic.Function.Iterate

/-! # Encryption in counter mode

`CtrState` encrypts whole blocks at any offset: the iv is a counter of blocks, and a call
starts with the counter moved to the first block. Encryption is in place and the same as
decryption.

`AES` and the hash are taken from outside, and nothing is assumed of them. A block index
is less than `2 ^ 63`, so no sum in `incrementedIv` leaves a `uint64`.
-/

namespace IMeDesktop.Storage

open Lib

abbrev kSaltSize : Nat := 64
abbrev kBlockSize : Nat := 16

/-- The code that is not part of the program. -/
structure Crypto where
  encryptBlock : Bytes → Bytes → Bytes
  sha256 : Bytes → Bytes
  sha256_width : ∀ data, (sha256 data).length = 32

structure CtrState where
  key : Bytes
  iv : Bytes
  iv_width : iv.length = 16
  deriving DecidableEq

/-- The iv as a number, in big endian order. -/
def counterValue (iv : Bytes) : Nat := fromLittleEndian iv.reverse

/-- The last byte is the lowest one. -/
def addToCounter (iv : Bytes) (increment : Nat) : Bytes := (addCarry iv.reverse increment).reverse

namespace CtrState

variable (crypto : Crypto) (s : CtrState)

def incrementedIv (blockIndex : Nat) : Bytes := if blockIndex = 0 then s.iv else addToCounter s.iv blockIndex

/-- `CRYPTO_ctr128_encrypt`: byte by byte, with the counter raised by one for each block. -/
def ctr128Encrypt (block : Bytes → Bytes) (iv data : Bytes) : Bytes :=
  mask (fun position =>
    (block ((addToCounter · 1)^[position / kBlockSize] iv)).getD (position % kBlockSize) 0) 0 data

/-- Only whole blocks, at a block. -/
def process (data : Bytes) (offset : Nat) : Option Bytes :=
  if data.length % kBlockSize = 0 ∧ offset % kBlockSize = 0 then
    some (ctr128Encrypt (crypto.encryptBlock s.key) (s.incrementedIv (offset / kBlockSize)) data)
  else none

def encrypt (data : Bytes) (offset : Nat) : Option Bytes := s.process crypto data offset

def decrypt (data : Bytes) (offset : Nat) : Option Bytes := s.process crypto data offset

/-- What is put over the byte at a position of the whole. -/
def keystream (position : Nat) : UInt8 :=
  (crypto.encryptBlock s.key (addToCounter s.iv (position / kBlockSize))).getD (position % kBlockSize) 0

end CtrState

/-- `prepareCtrState`. -/
def prepareCtrState (crypto : Crypto) (data salt : Bytes) : CtrState where
  key := crypto.sha256 (data.take (data.length / 2) ++ salt.take (kSaltSize / 2))
  iv := (crypto.sha256 (data.drop (data.length / 2) ++ salt.drop (kSaltSize / 2))).take 16
  iv_width := by rw [List.length_take, crypto.sha256_width]; rfl

/-! ## The counter -/

theorem addToCounter_addToCounter (iv : Bytes) (m n : Nat) :
    addToCounter (addToCounter iv m) n = addToCounter iv (m + n) := by
  rw [addToCounter, addToCounter, List.reverse_reverse, addCarry_addCarry, addToCounter]

theorem counterValue_addToCounter (iv : Bytes) (n : Nat) :
    counterValue (addToCounter iv n) = (counterValue iv + n) % 256 ^ iv.length := by
  rw [counterValue, addToCounter, List.reverse_reverse, fromLittleEndian_addCarry, List.length_reverse, counterValue]

theorem iterate_addToCounter (iv : Bytes) (n : Nat) : (addToCounter · 1)^[n] iv = addToCounter iv n := by
  induction n with
  | zero =>
      rw [Function.iterate_zero_apply, addToCounter, addCarry_zero, List.reverse_reverse]
  | succ n ih =>
      rw [Function.iterate_succ_apply', ih, addToCounter_addToCounter]

namespace CtrState

variable {crypto : Crypto} {s : CtrState}

theorem incrementedIv_eq (blockIndex : Nat) : s.incrementedIv blockIndex = addToCounter s.iv blockIndex := by
  unfold incrementedIv
  split_ifs with first
  · rw [first, addToCounter, addCarry_zero, List.reverse_reverse]
  · rfl

/-- The iv goes up like a number of 128 bits. -/
theorem counterValue_incrementedIv (blockIndex : Nat) :
    counterValue (s.incrementedIv blockIndex) = (counterValue s.iv + blockIndex) % 2 ^ 128 := by
  have width : 256 ^ s.iv.length = 2 ^ 128 := (congrArg (256 ^ ·) s.iv_width).trans (by decide)
  rw [incrementedIv_eq, counterValue_addToCounter, width]

/-- A byte is put under what its position in the whole has, wherever the call starts. -/
theorem process_eq {data : Bytes} {offset : Nat} (whole : data.length % kBlockSize = 0)
    (aligned : offset % kBlockSize = 0) : s.process crypto data offset = some (mask (s.keystream crypto) offset data) := by
  rw [process, if_pos ⟨whole, aligned⟩, ctr128Encrypt]
  congr 1
  refine mask_congr fun i _ => ?_
  have block : (offset + i) / kBlockSize = offset / kBlockSize + (0 + i) / kBlockSize := by
    unfold kBlockSize at aligned ⊢
    omega
  have inside : (offset + i) % kBlockSize = (0 + i) % kBlockSize := by
    unfold kBlockSize at aligned ⊢
    omega
  rw [iterate_addToCounter, incrementedIv_eq, addToCounter_addToCounter, keystream, block, inside]

end CtrState

end IMeDesktop.Storage
