import IMeDesktop.Lib.Span

/-! # The transport over TCP

A connection cuts the stream of a socket into packets. The two framings differ in how
a packet says its length; what is not yet a whole packet stays in one of two buffers.

`none` is a terminated program: a span outside of its buffer or a failed assertion.
The cipher is a key stream, the socket is the bytes that are still to be read from it
and, for every read, how many of them it would give. What the owner does when a signal
reaches it is a parameter: it either keeps the connection or closes it. Connecting and
sending are left out, apart from the form of a packet.
-/

namespace IMeDesktop.Mtproto

open Lib

def kPacketSizeMax : Nat := 0x01000000 * 4
def kSmallBufferSize : Nat := 256 * 1024
def kMinPacketBuffer : Nat := 256
def kErrorCodeOther : Int := -499

/-- The framings. `Version1` frames packets as `Version0` does. -/
inductive Protocol where
  | version0
  | versionD
  deriving DecidableEq, Repr

/-- `kUnknownSize`, `kInvalidSize` or a size. -/
inductive PacketLength where
  | unknownSize
  | invalidSize
  | size (n : Nat)
  deriving DecidableEq, Repr

namespace Protocol

def readPacketLength : Protocol → Bytes → PacketLength
  | .version0, [] => .unknownSize
  | .version0, first :: rest =>
      if first = 0x7F then
        if rest.length < 3 then .unknownSize
        else
          let ints := fromLittleEndian (rest.take 3)
          if ints ≥ 0x7F then .size (ints * 4 + 4) else .invalidSize
      -- from 0x80 on the `char` is negative
      else if 0 < first ∧ first < 0x7F then .size (first.toNat * 4 + 1)
      else .invalidSize
  | .versionD, bytes =>
      if bytes.length < 4 then .unknownSize
      else
        let value := (fromLittleEndian (bytes.take 4) + 4) % 2 ^ 32
        if value ≥ 8 ∧ value < kPacketSizeMax then .size value else .invalidSize

def readPacket (protocol : Protocol) (bytes : Bytes) : Option Bytes :=
  match protocol.readPacketLength bytes with
  | .unknownSize => none
  | .invalidSize => none
  | .size n =>
      if n ≤ bytes.length then
        let sizeLength :=
          match protocol with
          | .version0 => if bytes.head? = some 0x7F then 4 else 1
          | .versionD => 4
        subspan bytes sizeLength (n - sizeLength)
      else none

/-- The bytes of a packet. `VersionD` pads it before. -/
def finalizePacket : Protocol → Bytes → Bytes
  | .version0, packet =>
      let intsSize := packet.length / 4
      if intsSize < 0x7F then UInt8.ofNat intsSize :: packet
      else 0x7F :: toLittleEndian 3 intsSize ++ packet
  | .versionD, packet => toLittleEndian 4 packet.length ++ packet

/-- Sizes of the packets that a framing can carry. -/
def carries : Protocol → Nat → Prop
  | .version0, n => n % 4 = 0 ∧ 4 ≤ n ∧ n < 4 * 2 ^ 24
  | .versionD, n => 4 ≤ n ∧ n + 4 < kPacketSizeMax

instance (protocol : Protocol) (n : Nat) : Decidable (protocol.carries n) :=
  match protocol with
  | .version0 => inferInstanceAs (Decidable (_ ∧ _))
  | .versionD => inferInstanceAs (Decidable (_ ∧ _))

end Protocol

/-- What the peer sends in one packet. -/
structure Packet (protocol : Protocol) where
  packet : Bytes
  carried : protocol.carries packet.length

def Packet.bytes {protocol : Protocol} (p : Packet protocol) : Bytes := protocol.finalizePacket p.packet

inductive TcpStatus where
  | waiting
  | ready
  | finished
  deriving DecidableEq, Repr

inductive TcpSignal where
  | receivedData
  | connected
  | error (code : Int)
  deriving DecidableEq, Repr

/-- What a connection depends on: the key stream it receives with, the check of the first reply, and
whether its owner keeps it open after the signals so far. -/
structure TcpEnvironment where
  keyStream : Nat → UInt8
  validReply : List Int32 → Bool
  keeps : List TcpSignal → Bool

/-- The part of a connection that handles packets. `connected` is `_socket && _socket->isConnected()`,
`packets` are the calls of `socketPacket`. -/
structure TcpReceiver where
  protocol : Protocol
  connected : Bool := true
  status : TcpStatus := .waiting
  receivedQueue : List (List Int32) := []
  packets : List Bytes := []
  signals : List TcpSignal := []
  deriving DecidableEq

structure TcpConnection extends TcpReceiver where
  offsetBytes : Nat := 0
  readBytes : Nat := 0
  leftBytes : Nat := 0
  smallBuffer : Bytes := []
  largeBuffer : Bytes := []
  usingLargeBuffer : Bool := false
  receiveState : Nat := 0
  deriving DecidableEq

/-- Decryption in place, from a position of the key stream on. -/
def aesCtrEncrypt (keyStream : Nat → UInt8) (position : Nat) : Bytes → Bytes
  | [] => []
  | byte :: bytes => (byte ^^^ keyStream position) :: aesCtrEncrypt keyStream (position + 1) bytes

/-! ## Packets -/

def toInts : Bytes → List Int32
  | a :: b :: c :: d :: rest => Int32.ofNat (fromLittleEndian [a, b, c, d]) :: toInts rest
  | _ => []

def parsePacket (protocol : Protocol) (bytes : Bytes) : Option (List Int32) :=
  match protocol.readPacket bytes with
  | none => none
  | some packet =>
      match toInts packet with
      | [] => none
      -- nop or error or new quickack, latter is not yet supported
      | first :: rest => some (if rest.length < 2 then [first] else first :: rest)

namespace TcpReceiver

def emit (env : TcpEnvironment) (s : TcpReceiver) (signal : TcpSignal) : TcpReceiver :=
  { s with
    signals := s.signals ++ [signal]
    connected := s.connected && env.keeps (s.signals ++ [signal]) }

def error (env : TcpEnvironment) (s : TcpReceiver) (code : Int) : TcpReceiver :=
  s.emit env (.error code)

def socketPacket (env : TcpEnvironment) (s : TcpReceiver) (bytes : Bytes) : Option TcpReceiver :=
  if !s.connected then none
  else
    let s := { s with packets := s.packets ++ [bytes] }
    match parsePacket s.protocol bytes with
    | none => none
    | some [code] => some (if code ≠ 0 then s.error env code.toInt else s)
    | some data =>
        match s.status with
        | .ready => some ({ s with receivedQueue := s.receivedQueue ++ [data] }.emit env .receivedData)
        | .waiting =>
            if env.validReply data then some ({ s with status := .ready }.emit env .connected)
            else some (s.error env kErrorCodeOther)
        | .finished => some s

end TcpReceiver

namespace TcpConnection

def error (env : TcpEnvironment) (s : TcpConnection) (code : Int) : TcpConnection :=
  { s with toTcpReceiver := s.toTcpReceiver.error env code }

def socketPacket (env : TcpEnvironment) (s : TcpConnection) (bytes : Bytes) : Option TcpConnection :=
  (s.toTcpReceiver.socketPacket env bytes).map fun receiver => { s with toTcpReceiver := receiver }

/-! ## Buffers -/

def buffer (s : TcpConnection) : Bytes := if s.usingLargeBuffer then s.largeBuffer else s.smallBuffer

def ensureAvailableInBuffer (s : TcpConnection) (amount : Nat) : Option TcpConnection :=
  match subspan s.buffer s.offsetBytes (-1) with
  | none => none
  | some full =>
      if full.length ≥ amount then some s
      else
        match subspan full 0 s.readBytes with
        | none => none
        | some read =>
            if amount ≤ s.smallBuffer.length then
              (overwrite s.smallBuffer 0 read).map fun small =>
                if s.usingLargeBuffer then
                  { s with smallBuffer := small, usingLargeBuffer := false, largeBuffer := [], offsetBytes := 0 }
                else { s with smallBuffer := small, offsetBytes := 0 }
            else if amount ≤ s.largeBuffer.length then
              if s.usingLargeBuffer then
                (overwrite s.largeBuffer 0 read).map fun large =>
                  { s with largeBuffer := large, offsetBytes := 0 }
              else none
            else
              (overwrite (List.replicate amount 0) 0 read).map fun enough =>
                { s with largeBuffer := enough, usingLargeBuffer := true, offsetBytes := 0 }

/-! ## Reading -/

/-- Whether the loop of `socketRead` goes on. -/
inductive Reading where
  | goOn (s : TcpConnection)
  | stop (s : TcpConnection)

/-- The inner loop. `available` is the view `[start, start + size)` of the small buffer: it stays
where it is when `ensureAvailableInBuffer` moves the bytes. -/
def readPackets (env : TcpEnvironment) : Nat → TcpConnection → Nat → Nat → Option Reading
  | 0, _, _, _ => none
  | fuel + 1, s, start, size =>
      if s.readBytes = 0 then some (.goOn s)
      -- a view of the large buffer does not survive it
      else if s.usingLargeBuffer then none
      else
        match subspan s.smallBuffer start size with
        | none => none
        | some available =>
            match s.protocol.readPacketLength available with
            | .unknownSize => some (.goOn s)
            | .invalidSize => some (.stop (s.error env kErrorCodeOther))
            | .size packetSize =>
                if size ≥ packetSize then
                  match subspan available 0 packetSize with
                  | none => none
                  | some bytes =>
                      match s.socketPacket env bytes with
                      | none => none
                      | some s =>
                          if !s.connected then some (.stop s)
                          else
                            let s := { s with
                              offsetBytes := s.offsetBytes + packetSize
                              readBytes := s.readBytes - packetSize }
                            match s.ensureAvailableInBuffer kMinPacketBuffer with
                            | none => none
                            | some s => readPackets env fuel s (start + packetSize) (size - packetSize)
                else
                  ({ s with leftBytes := packetSize - size }.ensureAvailableInBuffer packetSize).map .goOn

def readLimit (s : TcpConnection) : Nat :=
  if s.leftBytes > 0 then s.leftBytes else kSmallBufferSize - s.offsetBytes - s.readBytes

/-- What the socket puts into the span `free.subspan(0, readLimit)`. -/
def readFrom (s : TcpConnection) (pending : Bytes) (wish : Nat) : Option Bytes :=
  if s.readLimit = 0 then none
  else
    match subspan s.buffer s.offsetBytes (-1) with
    | none => none
    | some full =>
        match subspan full s.readBytes (-1) with
        | none => none
        | some free =>
            (subspan free 0 s.readLimit).map fun target => pending.take (min wish target.length)

/-- The bytes that were read, decrypted in place. -/
def received (env : TcpEnvironment) (s : TcpConnection) (read : Bytes) : Option TcpConnection :=
  let decrypted := aesCtrEncrypt env.keyStream s.receiveState read
  (overwrite s.buffer (s.offsetBytes + s.readBytes) decrypted).map fun buffer =>
    { s with
      largeBuffer := if s.usingLargeBuffer then buffer else s.largeBuffer
      smallBuffer := if s.usingLargeBuffer then s.smallBuffer else buffer
      receiveState := s.receiveState + read.length
      readBytes := s.readBytes + read.length }

/-- One turn of the loop, with what was read. -/
def readSome (env : TcpEnvironment) (s : TcpConnection) (read : Bytes) : Option Reading :=
  if read = [] then some (.stop s)
  else
    match s.received env read with
    | none => none
    | some s =>
        if s.leftBytes > 0 then
          if read.length > s.leftBytes then none
          else
            let s := { s with leftBytes := s.leftBytes - read.length }
            if s.leftBytes = 0 then
              match subspan s.buffer s.offsetBytes s.readBytes with
              | none => none
              | some bytes =>
                  match s.socketPacket env bytes with
                  | none => none
                  | some s =>
                      if !s.connected then some (.stop s)
                      else
                        some (.goOn { s with
                          usingLargeBuffer := false, largeBuffer := [], offsetBytes := 0, readBytes := 0 })
            else some (.goOn s)
        else readPackets env (s.readBytes + 1) s s.offsetBytes s.readBytes

/-- The loop of `socketRead`, with how much each read would give (`none` is a failed read); it ends
when there are no bytes available. -/
def readLoop (env : TcpEnvironment) (s : TcpConnection) (pending : Bytes) :
    List (Option Nat) → Option (TcpConnection × Bytes)
  | [] => some (s, pending)
  | wish :: wishes =>
      match s.readFrom pending (wish.getD 0) with
      | none => none
      | some read =>
          if wish = none then some (s.error env kErrorCodeOther, pending)
          else
            match s.readSome env read with
            | none => none
            | some (.stop s) => some (s, pending.drop read.length)
            | some (.goOn s) => readLoop env s (pending.drop read.length) wishes

def socketRead (env : TcpEnvironment) (s : TcpConnection) (pending : Bytes) (wishes : List (Option Nat)) :
    Option (TcpConnection × Bytes) :=
  if s.leftBytes = 0 ∧ s.usingLargeBuffer then none
  else if !s.connected then some (s.error env kErrorCodeOther, pending)
  else
    let s := if s.smallBuffer = [] then { s with smallBuffer := List.replicate kSmallBufferSize 0 } else s
    readLoop env s pending wishes

/-- One `readyRead` signal after the other. A closed connection gets none: `disconnectFromServer`
drops the socket and ends the subscriptions. -/
def run (env : TcpEnvironment) (s : TcpConnection) (pending : Bytes) :
    List (List (Option Nat)) → Option (TcpConnection × Bytes)
  | [] => some (s, pending)
  | wishes :: signals =>
      if !s.connected then some (s, pending)
      else
        match s.socketRead env pending wishes with
        | none => none
        | some (s, pending) => run env s pending signals

end TcpConnection

end IMeDesktop.Mtproto
