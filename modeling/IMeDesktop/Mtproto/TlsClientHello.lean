import IMeDesktop.Mtproto.TlsSocket

/-! # The client hello

A tree of rules is written to a buffer of a fixed length, each scope behind the number of its bytes. The rest
is padding, and the first 32 zeros get a digest of all.

`none` is a terminated program: a span outside of its buffer, or a sum of sizes that overflows. Random bytes,
the digest and the time come from outside, and so does the public key, of which only the size counts. Before
version 6 the sizes of Qt are of type `int`; either version is built with.
-/

namespace IMeDesktop.Mtproto.TlsClientHello

open Lib

def kMaxGrease : Nat := 8
def kClientHelloLength : Nat := 517

inductive Qt where
  | five
  | six
  deriving DecidableEq, Repr

/-- Where the sizes of a `QByteArray` end. -/
def Qt.sizes : Qt → Int
  | .five => 2 ^ 31
  | .six => 2 ^ 63

inductive TlsBlock where
  | string (data : Bytes)
  | random (length : Int32)
  | zero (length : Int32)
  | domain
  | grease (seed : Int32)
  | publicKey
  | scope (entries : List TlsBlock)

structure Outside where
  qt : Qt
  greaseRandom : Nat → UInt8
  random : Nat → UInt8
  publicKey : Nat → Bytes
  publicKey_length : ∀ position, (publicKey position).length = 32
  hmacSha256 : Bytes → Bytes → Bytes
  hmacSha256_length : ∀ key data, (hmacSha256 key data).length = 32
  httpNow : UInt32

/-- Of two bytes the second is made another one. -/
def pairsApart : Bytes → Bytes
  | first :: second :: rest => first :: (if first = second then second ^^^ 0x10 else second) :: pairsApart rest
  | rest => rest

def prepareGreases (random : Nat → UInt8) : Bytes :=
  pairsApart ((List.range kMaxGrease).map fun i => (random i &&& 0xF0) + 0x0A)

def Outside.greases (outside : Outside) : Bytes := prepareGreases outside.greaseRandom

structure ClientHello where
  data : Bytes
  digest : Bytes
  deriving DecidableEq, Repr

structure ClientHelloGenerator where
  result : Bytes := []
  digest : Bytes := []
  digestPosition : Int := -1
  error : Bool := false
  deriving DecidableEq, Repr

namespace ClientHelloGenerator

def fail (g : ClientHelloGenerator) : ClientHelloGenerator := { g with error := true }

variable (outside : Outside) (domain key : Bytes)

/-- The size of the storage, which is at the end. What is in it is written at once, but for the length of a scope. -/
def grow (g : ClientHelloGenerator) (size : Int) : Option (ClientHelloGenerator × Nat) :=
  if g.error ∨ size ≤ 0 then some (g.fail, 0)
  else if g.result.length + size ≥ outside.qt.sizes then none
  else if g.result.length + size > kClientHelloLength then some (g.fail, 0)
  else some ({ g with result := g.result ++ List.replicate size.toNat 0 }, size.toNat)

/-- Copy bytes to new storage. -/
def copy (g : ClientHelloGenerator) (size : Int) (bytes : Bytes) : Option ClientHelloGenerator := do
  let (grown, storage) ← grow outside g size
  if storage = 0 then pure grown
  else
    let result ← overwrite grown.result g.result.length bytes
    pure { grown with result := result }

mutual

def writeBlock (g : ClientHelloGenerator) : TlsBlock → Option ClientHelloGenerator
  | .string data => copy outside g (Int32.ofNat data.length).toInt data
  | .random length =>
      copy outside g length.toInt ((List.range length.toInt.toNat).map fun i => outside.random (g.result.length + i))
  | .zero length => do
      let already := g.result.length
      let (g, storage) ← grow outside g length.toInt
      if storage = 0 then pure g
      else
        let g :=
          if length.toInt = kHelloDigestLength ∧ g.digestPosition < 0 then { g with digestPosition := already } else g
        let result ← overwrite g.result already (List.replicate storage 0)
        pure { g with result := result }
  | .domain => copy outside g (Int32.ofNat domain.length).toInt domain
  | .grease seed =>
      if seed.toInt < 0 ∨ seed.toInt ≥ outside.greases.length then some g.fail
      else
        let grease := outside.greases.getD seed.toInt.toNat 0
        copy outside g 2 [grease, grease]
  | .publicKey =>
      let key := outside.publicKey g.result.length
      copy outside g key.length key
  | .scope entries => do
      let offset := g.result.length
      let (g, storage) ← grow outside g kLengthSize
      if storage = 0 then pure g
      else
        let already := g.result.length
        let g ← writeBlocks g entries
        let result ← overwrite g.result offset (toBigEndian ((g.result.length - already) % 2 ^ 16))
        pure { g with result := result }

def writeBlocks (g : ClientHelloGenerator) : List TlsBlock → Option ClientHelloGenerator
  | [] => some g
  | block :: rest => do
      let g ← writeBlock g block
      writeBlocks g rest

end

def paddingBlock (g : ClientHelloGenerator) : TlsBlock :=
  .scope [.zero (Int32.ofInt (kClientHelloLength - kLengthSize - g.result.length))]

def writePadding (g : ClientHelloGenerator) : Option ClientHelloGenerator :=
  writeBlock outside domain g g.paddingBlock

def writeDigest (g : ClientHelloGenerator) : Option ClientHelloGenerator :=
  if g.digestPosition < 0 then some g.fail
  else do
    let result ← overwrite g.result g.digestPosition.toNat (outside.hmacSha256 key g.result)
    pure { g with result := result }

def writeTimestamp (g : ClientHelloGenerator) : Option ClientHelloGenerator :=
  if g.digestPosition < 0 then some g.fail
  else do
    let position := g.digestPosition.toNat + kHelloDigestLength - 4
    let storage ← subspan g.result position 4
    let already := List.zipWith (· ^^^ ·) storage (toLittleEndian 4 outside.httpNow.toNat)
    let result ← overwrite g.result position already
    let digest ← subspan result g.digestPosition.toNat kHelloDigestLength
    pure { g with result := result, digest := digest }

end ClientHelloGenerator

open ClientHelloGenerator

def result (g : ClientHelloGenerator) : ClientHello := if g.error then ⟨[], []⟩ else ⟨g.result, g.digest⟩

def prepareClientHello (outside : Outside) (rules : List TlsBlock) (domain key : Bytes) : Option ClientHello := do
  let g ← writeBlocks outside domain {} rules
  let g ← writePadding outside domain g
  let g ← writeDigest outside key g
  let g ← writeTimestamp outside g
  pure (result g)

end IMeDesktop.Mtproto.TlsClientHello
