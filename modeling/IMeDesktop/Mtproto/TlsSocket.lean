import IMeDesktop.Lib.Span

/-! # The socket that looks like TLS

`TlsSocket` sends and receives inside records that look like TLS to an observer. It
first waits for a server hello, whose parts are checked only as far as their fixed
bytes, their lengths and one keyed digest, and then for application records.

`none` is a terminated program: a span outside of its buffer or a failed `Expects`.
The network socket below is the list of what its `readAll` calls return, and what
is written to it is a result. Loops carry fuel; that it is enough is proved with
their properties. The client hello is generated in a module of its own.
-/

namespace IMeDesktop.Mtproto

open Lib

def kHelloDigestLength : Nat := 32
def kLengthSize : Nat := 2
def kServerHelloPart1 : Bytes := [0x16, 0x03, 0x03]
def kServerHelloPart3 : Bytes := [0x14, 0x03, 0x03, 0x00, 0x01, 0x01, 0x17, 0x03, 0x03]
def kServerHelloDigestPosition : Nat := 11
def kServerHeader : Bytes := [0x17, 0x03, 0x03]
def kClientPartSize : Nat := 2878
def kClientPrefix : Bytes := [0x14, 0x03, 0x03, 0x00, 0x01, 0x01]
def kClientHeader : Bytes := [0x17, 0x03, 0x03]

def checkPart (data check : Bytes) : Bool :=
  if data.length < check.length then false else data.take check.length == check

def readPartLength (data : Bytes) (offset : Int) : Option Nat :=
  (subspan data offset kLengthSize).map fromBigEndian

inductive TlsState where
  | notConnected
  | connecting
  | waitingHello
  | connected
  | error
  deriving DecidableEq, Repr

structure TlsSocket where
  state : TlsState := .notConnected
  incoming : Bytes := []
  incomingGoodDataOffset : Nat := 0
  incomingGoodDataLimit : Nat := 0
  serverHelloLength : Int := 0
  deriving DecidableEq, Repr

namespace TlsSocket

def handleError (s : TlsSocket) : TlsSocket := { s with state := .error }

def isConnected (s : TlsSocket) : Bool := s.state = .connected

def append (s : TlsSocket) (chunk : Bytes) : TlsSocket := { s with incoming := s.incoming ++ chunk }

def shiftIncomingBy (s : TlsSocket) (amount : Nat) : Option TlsSocket :=
  if s.incomingGoodDataOffset = 0 ∧ s.incomingGoodDataLimit = 0 then
    some { s with incoming := if s.incoming.length > amount then s.incoming.drop amount else [] }
  else none

/-! ## Server hello -/

/-- How a check of the hello goes on. `readHello` is a call of it. -/
inductive HelloStep where
  | outside
  | readHello (s : TlsSocket)
  | error (s : TlsSocket)
  | connected (s : TlsSocket)
  deriving DecidableEq, Repr

/-- `_serverHelloLength` is an `int16`. -/
def int16 (x : Int) : Int := x.bmod (2 ^ 16)

def requiredHelloPartReady (s : TlsSocket) : Bool :=
  decide ((s.incoming.length : Int) ≥ kHelloDigestLength + s.serverHelloLength)

section Hello

variable (hmacSha256 : Bytes → Bytes → Bytes) (keyFromSecret : Bytes)

def checkHelloDigest (s : TlsSocket) : HelloStep :=
  match subspan s.incoming 0 (kHelloDigestLength + s.serverHelloLength) with
  | none => .outside
  | some fulldata =>
      let position := kHelloDigestLength + kServerHelloDigestPosition
      match subspan fulldata position kHelloDigestLength with
      | none => .outside
      | some digest =>
          -- the digest is zeroed in place, in `_incoming`
          let zeroed (data : Bytes) : Bytes :=
            data.take position ++ List.replicate kHelloDigestLength 0 ++
              data.drop (position + kHelloDigestLength)
          let s := { s with incoming := zeroed s.incoming }
          if digest ≠ hmacSha256 keyFromSecret (zeroed fulldata) then .error s.handleError
          else
            match s.shiftIncomingBy fulldata.length with
            | none => .outside
            | some s =>
                .connected
                  { s with incomingGoodDataOffset := 0, incomingGoodDataLimit := 0, state := .connected }

def checkHelloParts34 (s : TlsSocket) (parts123Size : Int) : HelloStep :=
  match subspan s.incoming kHelloDigestLength parts123Size with
  | none => .outside
  | some data =>
      match readPartLength data (parts123Size - kLengthSize) with
      | none => .outside
      | some part4Size =>
          let full := parts123Size + part4Size
          if s.serverHelloLength = parts123Size then
            match subspan data (parts123Size - kLengthSize - kServerHelloPart3.length) (-1) with
            | none => .outside
            | some part3 =>
                if !checkPart part3 kServerHelloPart3 then .error s.handleError
                else
                  let s := { s with serverHelloLength := int16 full }
                  if !s.requiredHelloPartReady then .readHello s
                  else checkHelloDigest hmacSha256 keyFromSecret s
          else checkHelloDigest hmacSha256 keyFromSecret s

def checkHelloParts12 (s : TlsSocket) (parts1Size : Int) : HelloStep :=
  match subspan s.incoming kHelloDigestLength parts1Size with
  | none => .outside
  | some data =>
      match readPartLength data (parts1Size - kLengthSize) with
      | none => .outside
      | some part2Size =>
          let parts123Size := parts1Size + part2Size + kServerHelloPart3.length + kLengthSize
          if s.serverHelloLength = parts1Size then
            match subspan data (parts1Size - kLengthSize - kServerHelloPart1.length) (-1) with
            | none => .outside
            | some part1 =>
                if !checkPart part1 kServerHelloPart1 then .error s.handleError
                else
                  let s := { s with serverHelloLength := int16 parts123Size }
                  if !s.requiredHelloPartReady then .readHello s
                  else checkHelloParts34 hmacSha256 keyFromSecret s parts123Size
          else checkHelloParts34 hmacSha256 keyFromSecret s parts123Size

/-- How a call of `readHello` ends; `unfinished` only when it runs out of fuel. -/
inductive HelloOutcome where
  | outside
  | unfinished
  | wait (s : TlsSocket)
  | error (s : TlsSocket)
  | connected (s : TlsSocket)
  deriving DecidableEq, Repr

/-- The loop of `readHello`: read until the required part is there or nothing is left. -/
def readUntilReady (s : TlsSocket) : List Bytes → TlsSocket × List Bytes
  | [] => (s, [])
  | chunk :: socket =>
      if s.requiredHelloPartReady then (s, chunk :: socket) else readUntilReady (s.append chunk) socket

def readHelloCalls : Nat → TlsSocket → List Bytes → HelloOutcome
  | 0, _, _ => .unfinished
  | fuel + 1, s, socket =>
      let parts1Size := kServerHelloPart1.length + kLengthSize
      let s := if s.serverHelloLength = 0 then { s with serverHelloLength := parts1Size } else s
      let (s, socket) := s.readUntilReady socket
      if !s.requiredHelloPartReady then .wait s
      else
        match checkHelloParts12 hmacSha256 keyFromSecret s parts1Size with
        | .outside => .outside
        | .error s => .error s
        | .connected s => .connected s
        | .readHello s => readHelloCalls fuel s socket

/-- `socket` is what the `readAll` calls return while there are bytes available. -/
def readHello (s : TlsSocket) (socket : List Bytes) : HelloOutcome :=
  readHelloCalls hmacSha256 keyFromSecret (socket.length + 2) s socket

/-- The hello over several `readyRead` signals. -/
def receiveHello (s : TlsSocket) : List (List Bytes) → HelloOutcome
  | [] => .wait s
  | socket :: signals =>
      match readHello hmacSha256 keyFromSecret s socket with
      | .wait s => receiveHello s signals
      | outcome => outcome

end Hello

/-! ## Records -/

def checkNextPacketLoop : Nat → TlsSocket → Nat → Option (Bool × TlsSocket)
  | 0, _, _ => none
  | fuel + 1, s, offset =>
      if s.incomingGoodDataLimit ≠ 0 then some (true, s)
      else
        let fullHeader := kServerHeader.length + kLengthSize
        if s.incoming.length ≤ offset + fullHeader then some (true, s)
        else
          match subspan s.incoming offset (-1), readPartLength s.incoming (offset + kServerHeader.length) with
          | some header, some length =>
              if !checkPart header kServerHeader then some (false, s)
              else if length > 0 then
                match (if offset > 0 then s.shiftIncomingBy offset else some s) with
                | none => none
                | some s =>
                    some (true,
                      { s with incomingGoodDataOffset := fullHeader, incomingGoodDataLimit := length })
              else checkNextPacketLoop fuel s (offset + kServerHeader.length + kLengthSize + length)
          | _, _ => none

def checkNextPacket (s : TlsSocket) : Option (Bool × TlsSocket) :=
  checkNextPacketLoop (s.incoming.length + 1) s 0

def hasBytesAvailable (s : TlsSocket) : Bool :=
  decide (s.incomingGoodDataLimit > 0 ∧ s.incomingGoodDataOffset < s.incoming.length)

/-- `chunk` is what `readAll` returns. -/
def readData (s : TlsSocket) (chunk : Bytes) : Option TlsSocket :=
  if !s.isConnected then some s
  else
    match (s.append chunk).checkNextPacket with
    | none => none
    | some (ok, s) => some (if ok then s else s.handleError)

/-- Bytes put in a buffer of `size` bytes. -/
def readLoop : Nat → TlsSocket → Nat → Option (Bytes × TlsSocket)
  | 0, _, _ => none
  | fuel + 1, s, size =>
      if s.incomingGoodDataLimit = 0 then some ([], s)
      else
        let available :=
          min s.incomingGoodDataLimit (s.incoming.length - s.incomingGoodDataOffset)
        if available = 0 then some ([], s)
        else
          let write := min available size
          if write = 0 then some ([], s)
          else
            match subspan s.incoming s.incomingGoodDataOffset write with
            | none => none
            | some bytes =>
                let s := { s with
                  incomingGoodDataLimit := s.incomingGoodDataLimit - write
                  incomingGoodDataOffset := s.incomingGoodDataOffset + write }
                if s.incomingGoodDataLimit ≠ 0 then some (bytes, s)
                else
                  let amount := s.incomingGoodDataOffset
                  match { s with incomingGoodDataOffset := 0 }.shiftIncomingBy amount with
                  | none => none
                  | some s =>
                      match s.checkNextPacket with
                      | none => none
                      | some (false, s) => some (bytes, { s with state := .error })
                      | some (true, s) =>
                          (readLoop fuel s (size - write)).map fun (more, s) => (bytes ++ more, s)

def read (s : TlsSocket) (size : Nat) : Option (Bytes × TlsSocket) := readLoop (size + 1) s size

/-- Size of what fits after the prefix, in `size_t`. -/
def partSizeAfter (prefixSize : Nat) : Nat := ((kClientPartSize - prefixSize : Int) % 2 ^ 64).toNat

def writeLoop : Nat → Bytes → Bytes → Option Bytes
  | 0, _, _ => none
  | fuel + 1, lead, buffer =>
      if buffer = [] then some []
      else
        let write := min (partSizeAfter lead.length) buffer.length
        (writeLoop fuel [] (buffer.drop write)).map fun rest =>
          kClientHeader ++ toBigEndian (lead.length + write) ++ lead ++ buffer.take write ++ rest

/-- What goes to the network socket; `lead` is the `prefix` of the source. -/
def write (s : TlsSocket) (lead buffer : Bytes) : Option Bytes :=
  if buffer = [] then none
  else if !s.isConnected then some []
  else
    (writeLoop (buffer.length + 2) lead buffer).map fun records =>
      (if lead = [] then [] else kClientPrefix) ++ records

end TlsSocket

end IMeDesktop.Mtproto
