import IMeDesktop.Lib.Base64
import IMeDesktop.Ui.TextEntity

/-! # Secrets of proxies

The password of an MTProto proxy is a secret in hex or in base64. Its kind is told three
times: from the characters of the text, from the bytes by `DcOptions::ValidateSecret`, and
from the bytes again where the transport is made.

`none` is a terminated program: a failed assertion, or one of the branches that are not
expected. `QByteArray::fromBase64` and `toLatin1` are as they are documented.
-/

namespace IMeDesktop.Mtproto

open Lib Ui

def IsHexMtprotoPassword (password : QString) : Bool :=
  if password.length < 32 ∨ password.length % 2 = 1 then false
  else
    let bad (ch : QChar) : Bool :=
      (ch < 0x61 || ch > 0x66) && (ch < 0x41 || ch > 0x46) && (ch < 0x30 || ch > 0x39)
    !password.any bad

inductive ProxyStatus where
  | valid
  | unsupported
  | invalid
  deriving DecidableEq, Repr

/-- `QChar::toLower`, of a hex digit. -/
def toLower (ch : QChar) : QChar := if 0x41 ≤ ch ∧ ch ≤ 0x5A then ch + 0x20 else ch

def HexMtprotoPasswordStatus (password : QString) : ProxyStatus :=
  let size := password.length / 2
  let type1 := password[0]?.map toLower
  let type2 := password[1]?.map toLower
  let valid :=
    size = 16 ∨ (size = 17 ∧ type1 = some 0x64 ∧ type2 = some 0x64) ∨
      (size ≥ 21 ∧ type1 = some 0x65 ∧ type2 = some 0x65)
  if valid then .valid
  else if size < 16 then .invalid
  else .unsupported

def fromHex (ch : QChar) : Option Nat :=
  if 0x30 ≤ ch ∧ ch ≤ 0x39 then some (ch.toNat - 0x30)
  else if 0x41 ≤ ch ∧ ch ≤ 0x46 then some (10 + (ch.toNat - 0x41))
  else if 0x61 ≤ ch ∧ ch ≤ 0x66 then some (10 + (ch.toNat - 0x61))
  else none

/-- Two characters a byte; an odd character is the failed assertion. -/
def SecretFromHexMtprotoPassword : QString → Option Bytes
  | [] => some []
  | [_] => none
  | first :: second :: rest => do
      let high ← fromHex first
      let low ← fromHex second
      let others ← SecretFromHexMtprotoPassword rest
      some (UInt8.ofNat (high * 16 + low) :: others)

/-- Skip up to so many `=` at the end. -/
def skipPadding : Nat → QString → QString
  | 0, password => password
  | n + 1, password => if password.getLast? = some 0x3D then skipPadding n password.dropLast else password

def Base64UrlInner (password : QString) : QString := skipPadding 2 password

def IsBase64UrlMtprotoPassword (password : QString) : Bool :=
  if password.length < 22 ∨ password.length % 4 = 1 then false
  else
    let bad (ch : QChar) : Bool :=
      (ch < 0x61 || ch > 0x7A) && (ch < 0x41 || ch > 0x5A) && (ch < 0x30 || ch > 0x39) && ch != 0x5F && ch != 0x2D
    !(Base64UrlInner password).any bad

def Base64UrlMtprotoPasswordStatus (password : QString) : ProxyStatus :=
  let size := (Base64UrlInner password).length * 3 / 4
  let between (low high : QChar) : Bool := password[1]?.any fun ch => low ≤ ch && ch ≤ high
  let valid :=
    size = 16 ∨
      (size = 17 ∧ password[0]? = some 0x33 ∧ (between 0x51 0x5A ∨ between 0x61 0x66)) ∨
      (size ≥ 21 ∧ password[0]? = some 0x37 ∧ between 0x67 0x76)
  if size < 16 then .invalid
  else if valid then .valid
  else .unsupported

/-- A character that Latin-1 does not have becomes a question mark. -/
def toLatin1 (text : QString) : Bytes := text.map fun ch => if ch < 0x100 then ch.toUInt8 else 0x3F

def SecretFromBase64UrlMtprotoPassword (password : QString) : Bytes := Base64.decodeUrl (toLatin1 password)

inductive ProxyType where
  | none
  | socks5
  | http
  | mtproto
  deriving DecidableEq, Repr

structure ProxyData where
  type : ProxyType := .none
  host : QString := []
  port : UInt32 := 0
  password : QString := []
  deriving DecidableEq, Repr

namespace ProxyData

def MtprotoPasswordStatus (password : QString) : ProxyStatus :=
  if IsHexMtprotoPassword password then HexMtprotoPasswordStatus password
  else if IsBase64UrlMtprotoPassword password then Base64UrlMtprotoPasswordStatus password
  else .invalid

def status (proxy : ProxyData) : ProxyStatus :=
  if proxy.type = .none ∨ proxy.host = [] ∨ proxy.port = 0 then .invalid
  else if proxy.type = .mtproto then MtprotoPasswordStatus proxy.password
  else .valid

def secretFromMtprotoPassword (proxy : ProxyData) : Option Bytes :=
  if proxy.type ≠ .mtproto then .none
  else if IsHexMtprotoPassword proxy.password then SecretFromHexMtprotoPassword proxy.password
  else if IsBase64UrlMtprotoPassword proxy.password then some (SecretFromBase64UrlMtprotoPassword proxy.password)
  else some []

end ProxyData

/-- `DcOptions::ValidateSecret`. -/
def ValidateSecret (secret : Bytes) : Bool :=
  (secret.length ≥ 21 && secret.head? = some 0xEE) || (secret.length = 17 && secret.head? = some 0xDD) ||
    secret.length = 16 || secret.isEmpty

/-- The classes that `Protocol::Create` makes, with their key. -/
inductive CreatedProtocol where
  | version0
  | version1 (key : Bytes)
  | versionD (key : Bytes)
  deriving DecidableEq, Repr

namespace CreatedProtocol

def key : CreatedProtocol → Option Bytes
  | version0 => none
  | version1 key => some key
  | versionD key => some key

/-- `TcpConnection::Protocol::Create`. -/
def Create (secret : Bytes) : Option CreatedProtocol :=
  if (secret.length ≥ 21 ∧ secret.head? = some 0xEE) ∨ (secret.length = 17 ∧ secret.head? = some 0xDD) then
    (subspan secret 1 16).map .versionD
  else if secret.length = 16 then some (.version1 secret)
  else if secret = [] then some .version0
  else none

end CreatedProtocol

end IMeDesktop.Mtproto
