import IMeDesktop.Mtproto.DcOptions

/-! # The serialized form of the options

A `QDataStream` writes numbers with the highest byte first. One that is read stays at its
end when data are missing, and its status is asked for before anything is kept; so the
model stops where data are missing.

The counts that are written are counted in an `int`. Sizes are those of strings from the
server, which fit into one.
-/

namespace IMeDesktop.Mtproto.DcOptions

open Lib Handshake

def kVersion : Int32 := 2

/-! ## Writing -/

/-- The `operator<<` of 32 bit numbers. -/
def quint32 (value : UInt32) : Bytes := (toLittleEndian 4 value.toNat).reverse

def qint32 (value : Int32) : Bytes := quint32 value.toUInt32

def sizeBytes (data : Bytes) : Bytes := quint32 (UInt32.ofNat data.length)

/-- `Serialize::bytes`. -/
def serializeBytes (data : Bytes) : Bytes :=
  if data = [] then quint32 0xFFFFFFFF else sizeBytes data ++ data

def endpointBytes (endpoint : Endpoint) : Bytes :=
  qint32 endpoint.id ++ quint32 endpoint.flags ++ qint32 endpoint.port ++ sizeBytes endpoint.ip ++ endpoint.ip ++
    sizeBytes endpoint.secret ++ endpoint.secret

def keyBytes (entry : DcId × RSAPublicKey) : Bytes :=
  qint32 entry.1 ++ serializeBytes entry.2.getN ++ serializeBytes entry.2.getE

/-- The options that are written. -/
def serializedOptions (data : EndpointsMap) : List Endpoint :=
  (data.entries.filter fun item => !isTemporaryDcId item.1).flatMap Prod.snd

def serializedKeys (keys : SortedMap DcId (SortedMap (Fin (2 ^ 64)) RSAPublicKey)) : List (DcId × RSAPublicKey) :=
  keys.entries.flatMap fun keysInDc => keysInDc.2.entries.map fun entry => (keysInDc.1, entry.2)

/-- `none` if a count does not fit into an `int`. -/
def serialize (options : DcOptions) : Option Bytes :=
  let list := serializedOptions options.data
  let publicKeys := serializedKeys options.cdnPublicKeys
  if list.length < 2 ^ 31 ∧ publicKeys.length < 2 ^ 31 then
    some (qint32 (-kVersion) ++ quint32 (UInt32.ofNat list.length) ++ list.flatMap endpointBytes ++
      quint32 (UInt32.ofNat publicKeys.length) ++ publicKeys.flatMap keyBytes)
  else none

/-! ## Reading -/

abbrev Stream (α : Type) := StateT Bytes Option α

/-- `readRawData` -/
def readRawData (count : Nat) : Stream Bytes := fun data =>
  if count ≤ data.length then some (data.take count, data.drop count) else none

/-- The `operator>>` of 32 bit numbers. -/
def readUInt32 : Stream UInt32 := do
  let bytes ← readRawData 4
  pure (UInt32.ofNat (fromLittleEndian bytes.reverse))

def readInt32 : Stream Int32 := do
  let value ← readUInt32
  pure value.toInt32

def readBytes : Stream Bytes := do
  let len ← readUInt32
  if len = 0xFFFFFFFF then pure [] else readRawData len.toNat

/-- The return of `false`. -/
def bad {α : Type} : Stream α := fun _ => none

def kMaxIpSize : Int32 := 45
def kMaxSecretSize : Int32 := 32

def readSecret : Stream Bytes := do
  let secretSize ← readInt32
  if secretSize < 0 ∨ secretSize > kMaxSecretSize then bad
  else readRawData secretSize.toInt.toNat

def readEndpoint (version : Int) : Stream Endpoint := do
  let id ← readInt32
  let flags ← readUInt32
  let port ← readInt32
  let ipSize ← readInt32
  if ipSize ≤ 0 ∨ ipSize > kMaxIpSize then bad
  else do
    let ip ← readRawData ipSize.toInt.toNat
    let secret ← if version > 0 then readSecret else pure []
    pure ⟨id, flags, ip, port, secret⟩

def readKey : Stream (DcId × RSAPublicKey) := do
  let dcId ← readInt32
  let n ← readBytes
  let e ← readBytes
  match RSAPublicKey.ofBytes n e with
  | some key => pure (dcId, key)
  | none => bad

/-- Read so many items and keep each. There is no rest when the data are bad. A count that is negative
is more than there can be. -/
def readItems {α β : Type} (item : Stream α) (keep : β → α → β) : Nat → β → Bytes → β × Option Bytes
  | 0, kept, stream => (kept, some stream)
  | count + 1, kept, stream =>
      match item stream with
      | none => (kept, none)
      | some (value, rest) => readItems item keep count (keep kept value) rest

/-- The version, and the count of the options. -/
def readHeader : Stream (Int × UInt32) := do
  let minusVersion ← readInt32
  if minusVersion < 0 then do
    let count ← readUInt32
    pure (-minusVersion.toInt, count)
  else pure (0, minusVersion.toUInt32)

def constructFromSerialized (code : KeyCode) (options : DcOptions) (serialized : Bytes) : Bool × DcOptions :=
  match readHeader serialized with
  | none => (false, options)
  | some ((version, count), stream) =>
      match readItems (readEndpoint version) applyOneGuarded count.toNat { options with data := .empty } stream with
      | (options, none) => (false, unlocked options)
      | (options, some stream) =>
          if stream ≠ [] ∧ version > 1 then
            match readUInt32 stream with
            | none => (false, unlocked options)
            | some (count, stream) =>
                match readItems readKey (fun keys entry => emplaceKey code keys entry.1 entry.2) count.toNat
                    options.cdnPublicKeys stream with
                | (keys, none) => (false, unlocked { options with cdnPublicKeys := keys })
                | (keys, some _) => (true, unlocked { options with cdnPublicKeys := keys })
          else (true, unlocked options)

end IMeDesktop.Mtproto.DcOptions
