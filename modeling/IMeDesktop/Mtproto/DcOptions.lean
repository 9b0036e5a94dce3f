import IMeDesktop.Lib.SortedMap
import IMeDesktop.Lib.FlatSet
import IMeDesktop.Mtproto.DhUtils
import IMeDesktop.Mtproto.ProxyData

/-! # Addresses of data centres

`DcOptions` has the endpoints of every data centre and the public keys of CDNs. Both come
from the server, are written to the settings and are read from there at the next start.

The built in keys are not written and left out. So is `_immutable`, which only reading a
file of a developer sets, and with it `addFromOther`. What is asked of `openssl` is given
from outside: the numbers of a key in PEM, and the fingerprint of two numbers.
-/

namespace IMeDesktop.Mtproto

open Lib Handshake

instance instLinearOrderInt32 : LinearOrder Int32 where
  le_refl := Int32.le_refl
  le_trans _ _ _ := Int32.le_trans
  le_antisymm _ _ := Int32.le_antisymm
  le_total := Int32.le_total
  lt_iff_le_not_ge a b := by
    simp only [Int32.le_iff_toInt_le, Int32.lt_iff_toInt_lt]
    omega
  toDecidableLE := inferInstance
  toDecidableEq := inferInstance

abbrev DcId := Int32

def kDcShift : DcId := 10000
def kTemporaryMainDc : DcId := 1000

def BareDcId (shiftedDcId : DcId) : DcId := shiftedDcId % kDcShift

def isTemporaryDcId (shiftedDcId : DcId) : Bool := BareDcId shiftedDcId ≥ kTemporaryMainDc

/-! ## Keys -/

structure RSAPublicKey where
  n : Nat
  e : Nat
  deriving DecidableEq, Repr

namespace RSAPublicKey

def ToBytes (number : Nat) : Bytes := (getBytes number).map UInt8.ofNat

def fromBytes (bytes : Bytes) : Nat := bigNum (bytes.map UInt8.toNat)

def getN (key : RSAPublicKey) : Bytes := ToBytes key.n

def getE (key : RSAPublicKey) : Bytes := ToBytes key.e

/-- `BigNum` has nothing to give for no bytes, and then the key is not valid. -/
def ofBytes (nBytes eBytes : Bytes) : Option RSAPublicKey :=
  if nBytes = [] ∨ eBytes = [] then none else some ⟨fromBytes nBytes, fromBytes eBytes⟩

end RSAPublicKey

/-- The code that is not part of the program. -/
structure KeyCode where
  readPem : Bytes → Option RSAPublicKey
  readPem_width : ∀ data key, readPem data = some key →
    key.getN.length ≤ data.length ∧ key.getE.length ≤ data.length
  fingerprint : RSAPublicKey → Fin (2 ^ 64)

/-! ## Options -/

/-- A string or bytes from the server: the length is in three bytes. -/
abbrev MTPstring := { bytes : Bytes // bytes.length < 2 ^ 24 }

structure MTPDdcOption where
  vid : Int32
  vflags : UInt32
  vip_address : MTPstring
  vport : Int32
  vsecret : Option MTPstring

/-- `none` is an option of a wrong type. -/
abbrev MTPDcOption := Option MTPDdcOption

structure MTPDcdnPublicKey where
  vdc_id : Int32
  vpublic_key : MTPstring

def f_ipv6 : UInt32 := 1
def f_cdn : UInt32 := 8
def f_static : UInt32 := 16

structure Endpoint where
  id : DcId
  flags : UInt32
  ip : Bytes
  port : Int32
  secret : Bytes
  deriving DecidableEq, Repr

inductive Environment where
  | production
  | test
  deriving DecidableEq, Repr

structure BuiltInDc where
  id : Int32
  ip : String
  port : Int32 := 443

def kBuiltInDcs : List BuiltInDc :=
  [{ id := 1, ip := "149.154.175.50" }, { id := 2, ip := "149.154.167.51" }, { id := 2, ip := "95.161.76.100" },
    { id := 3, ip := "149.154.175.100" }, { id := 4, ip := "149.154.167.91" }, { id := 5, ip := "149.154.171.5" }]

def kBuiltInDcsIPv6 : List BuiltInDc :=
  [{ id := 1, ip := "2001:0b28:f23d:f001:0000:0000:0000:000a" },
    { id := 2, ip := "2001:067c:04e8:f002:0000:0000:0000:000a" },
    { id := 3, ip := "2001:0b28:f23d:f003:0000:0000:0000:000a" },
    { id := 4, ip := "2001:067c:04e8:f004:0000:0000:0000:000a" },
    { id := 5, ip := "2001:0b28:f23f:f005:0000:0000:0000:000a" }]

def kBuiltInDcsTest : List BuiltInDc :=
  [{ id := 1, ip := "149.154.175.10" }, { id := 2, ip := "149.154.167.40" }, { id := 3, ip := "149.154.175.117" }]

def kBuiltInDcsIPv6Test : List BuiltInDc :=
  [{ id := 1, ip := "2001:0b28:f23d:f001:0000:0000:0000:000e" },
    { id := 2, ip := "2001:067c:04e8:f002:0000:0000:0000:000e" },
    { id := 3, ip := "2001:0b28:f23d:f003:0000:0000:0000:000e" }]

def asciiBytes (text : String) : Bytes := text.toList.map fun c => UInt8.ofNat c.toNat

abbrev EndpointsMap := SortedMap DcId (List Endpoint)

structure DcOptions where
  environment : Environment
  data : EndpointsMap := .empty
  cdnDcIds : FlatSet DcId := .empty
  cdnPublicKeys : SortedMap DcId (SortedMap (Fin (2 ^ 64)) RSAPublicKey) := .empty

namespace DcOptions

/-- Whether the endpoint is new. -/
def ApplyOneOption (data : EndpointsMap) (endpoint : Endpoint) : EndpointsMap × Bool :=
  match data.find? endpoint.id with
  | some list =>
      if list.any fun other => other.ip = endpoint.ip && other.port = endpoint.port then (data, false)
      else (data.set endpoint.id (list ++ [endpoint]), true)
  | none => (data.emplace endpoint.id [endpoint], true)

def applyOneGuarded (options : DcOptions) (endpoint : Endpoint) : DcOptions :=
  { options with data := (ApplyOneOption options.data endpoint).1 }

/-- That there is a first endpoint is the assertion. -/
def isCdn (list : List Endpoint) : Bool := list.head?.any fun first => first.flags &&& f_cdn ≠ 0

def computeCdnDcIds (data : EndpointsMap) : FlatSet DcId :=
  FlatSet.ofList ((data.entries.filter fun item => isCdn item.2).map fun item => BareDcId item.1)

/-- The destructor of `WriteLocker`. -/
def unlocked (options : DcOptions) : DcOptions := { options with cdnDcIds := computeCdnDcIds options.data }

def builtIn (flags : UInt32) (list : List BuiltInDc) : List Endpoint :=
  list.map fun entry => ⟨entry.id, flags, asciiBytes entry.ip, entry.port, []⟩

def constructFromBuiltIn (options : DcOptions) : DcOptions :=
  let list := if options.environment = .test then kBuiltInDcsTest else kBuiltInDcs
  let listv6 := if options.environment = .test then kBuiltInDcsIPv6Test else kBuiltInDcsIPv6
  unlocked ((builtIn f_static list ++ builtIn (f_static ||| f_ipv6) listv6).foldl applyOneGuarded
    { options with data := .empty })

def new (environment : Environment) : DcOptions := constructFromBuiltIn { environment := environment }

/-- The lists have the same size, and all of the first is in the second. -/
def equal (m n : List Endpoint) : Bool :=
  m.length = n.length && m.all fun what => n.any fun endpoint => endpoint.ip = what.ip && endpoint.port = what.port

/-- The loop, with the most turns it can take. It has the greatest id for the end of a map; that an option
has this id too is not told apart. -/
def difference : Nat → List (DcId × List Endpoint) → List (DcId × List Endpoint) → List DcId
  | 0, _, _ => []
  | _ + 1, [], b => b.map Prod.fst
  | _ + 1, a, [] => a.map Prod.fst
  | turns + 1, i :: a, j :: b =>
      if i.1 < j.1 then i.1 :: difference turns a (j :: b)
      else if j.1 < i.1 then j.1 :: difference turns (i :: a) b
      else if equal i.2 j.2 then difference turns a b
      else i.1 :: difference turns a b

def CountOptionsDifference (a b : EndpointsMap) : List DcId := difference (a.size + b.size) a.entries b.entries

def endpointOf (option : MTPDdcOption) : Endpoint :=
  ⟨option.vid, option.vflags, option.vip_address, option.vport, (option.vsecret.map Subtype.val).getD []⟩

def processFromList (options : DcOptions) (list : List MTPDcOption) (overwriting : Bool) : DcOptions :=
  if list = [] then options
  else
    let data := list.reduceOption.foldl (fun data option => (ApplyOneOption data (endpointOf option)).1)
      (if overwriting then .empty else options.data)
    if CountOptionsDifference options.data data = [] then unlocked options
    else unlocked { options with data := data }

def setFromList (options : DcOptions) (list : List MTPDcOption) : DcOptions := options.processFromList list true

def addFromList (options : DcOptions) (list : List MTPDcOption) : DcOptions := options.processFromList list false

/-- `_cdnPublicKeys[dcId].emplace`. -/
def emplaceKey (code : KeyCode) (keys : SortedMap DcId (SortedMap (Fin (2 ^ 64)) RSAPublicKey)) (dcId : DcId)
    (key : RSAPublicKey) : SortedMap DcId (SortedMap (Fin (2 ^ 64)) RSAPublicKey) :=
  keys.set dcId (((keys.find? dcId).getD .empty).emplace (code.fingerprint key) key)

def addCdnKey (code : KeyCode) (keys : SortedMap DcId (SortedMap (Fin (2 ^ 64)) RSAPublicKey)) (key : MTPDcdnPublicKey) :
    SortedMap DcId (SortedMap (Fin (2 ^ 64)) RSAPublicKey) :=
  match code.readPem key.vpublic_key with
  | some parsed => emplaceKey code keys key.vdc_id parsed
  | none => keys

def setCDNConfig (code : KeyCode) (options : DcOptions) (config : List MTPDcdnPublicKey) : DcOptions :=
  unlocked { options with cdnPublicKeys := config.foldl (addCdnKey code) .empty }

end DcOptions

end IMeDesktop.Mtproto
