import IMeDesktop.Mtproto.TcpConnection

/-! # Packets out of a fragmented stream

However a stream of packets is cut into reads, the connection handles it as if each
packet had come alone. The argument is about the bytes that wait in the buffer: they
are the beginning of the next packet, and the view that the inner loop reads from
shows the same bytes as the buffer does, also after these were moved.

What a packet means to the owner of the connection plays no part.
-/

namespace IMeDesktop.Mtproto

open Lib

namespace Packet

variable {protocol : Protocol}

def bytesAll (packets : List (Packet protocol)) : Bytes := packets.flatMap bytes

@[simp]
theorem bytesAll_nil : bytesAll ([] : List (Packet protocol)) = [] := rfl

@[simp]
theorem bytesAll_cons (p : Packet protocol) (packets : List (Packet protocol)) :
    bytesAll (p :: packets) = p.bytes ++ bytesAll packets := List.flatMap_cons

/-! ## Lengths -/

/-- A length that takes one byte. -/
theorem bytes_version0_short (p : Packet .version0) (short : p.packet.length / 4 < 0x7F) :
    p.bytes = UInt8.ofNat (p.packet.length / 4) :: p.packet := by
  simp only [bytes, Protocol.finalizePacket, if_pos short]

theorem bytes_version0_long (p : Packet .version0) (long : ¬ p.packet.length / 4 < 0x7F) :
    p.bytes = 0x7F :: (toLittleEndian 3 (p.packet.length / 4) ++ p.packet) := by
  simp only [bytes, Protocol.finalizePacket, if_neg long, List.cons_append]

theorem bytes_versionD (p : Packet .versionD) :
    p.bytes = toLittleEndian 4 p.packet.length ++ p.packet := rfl

/-- A field in front of a stream, when all of it was received. -/
theorem take_of_received {received later field rest : Bytes} {n : Nat} (size : field.length = n)
    (all : n ≤ received.length) (stream : received ++ later = field ++ rest) :
    received.take n = field := by
  rw [← List.take_append_of_le_length all, stream, List.take_left' size]

/-- What the length of a packet says of the bytes received from it: nothing, while they are too
few, and then the size of the whole packet. -/
theorem readPacketLength_received (p : Packet protocol) {received later rest : Bytes}
    (some : received ≠ []) (stream : received ++ later = p.bytes ++ rest) :
    (protocol.readPacketLength received = .unknownSize ∧ received.length < 4) ∨
      protocol.readPacketLength received = .size p.bytes.length := by
  cases protocol with
  | version0 =>
      obtain ⟨whole, least, most⟩ := p.carried
      cases received with
      | nil => exact absurd rfl some
      | cons first received =>
          by_cases short : p.packet.length / 4 < 0x7F
          · rw [bytes_version0_short p short] at stream ⊢
            obtain ⟨rfl, -⟩ := List.cons.inj stream
            have value : (UInt8.ofNat (p.packet.length / 4)).toNat = p.packet.length / 4 := by
              rw [UInt8.toNat_ofNat']
              omega
            have other : UInt8.ofNat (p.packet.length / 4) ≠ 0x7F := by
              intro same
              have := congrArg UInt8.toNat same
              rw [value] at this
              have : (0x7F : UInt8).toNat = 127 := rfl
              omega
            have range : 0 < UInt8.ofNat (p.packet.length / 4) ∧
                UInt8.ofNat (p.packet.length / 4) < 0x7F := by
              rw [UInt8.lt_iff_toNat_lt, UInt8.lt_iff_toNat_lt, value]
              exact ⟨by change 0 < _; omega, short⟩
            right
            rw [Protocol.readPacketLength, if_neg other, if_pos range, value, List.length_cons]
            congr 1
            omega
          · rw [bytes_version0_long p short] at stream ⊢
            rw [List.cons_append, List.cons_append, List.append_assoc] at stream
            obtain ⟨rfl, follows⟩ := List.cons.inj stream
            rw [Protocol.readPacketLength, if_pos rfl]
            by_cases few : received.length < 3
            · rw [if_pos few, List.length_cons]
              exact .inl ⟨rfl, by omega⟩
            · right
              have value : fromLittleEndian (received.take 3) = p.packet.length / 4 := by
                rw [take_of_received (length_toLittleEndian _ _) (by omega) follows]
                exact fromLittleEndian_toLittleEndian (by omega)
              rw [if_neg few]
              simp only [value, List.length_cons, List.length_append, length_toLittleEndian]
              rw [if_pos (by omega)]
              congr 1
              omega
  | versionD =>
      obtain ⟨least, most⟩ := p.carried
      rw [Protocol.readPacketLength]
      by_cases few : received.length < 4
      · rw [if_pos few]
        exact .inl ⟨rfl, few⟩
      · right
        rw [bytes_versionD, List.append_assoc] at stream
        rw [if_neg few, take_of_received (length_toLittleEndian _ _) (by omega) stream,
          fromLittleEndian_toLittleEndian (by simp only [kPacketSizeMax] at most; omega)]
        have small : p.packet.length + 4 < 2 ^ 32 := Nat.lt_trans most (by decide)
        simp only [Nat.mod_eq_of_lt small]
        rw [if_pos ⟨by omega, most⟩, bytes_versionD, List.length_append, length_toLittleEndian, Nat.add_comm]

theorem five_le_length (p : Packet protocol) : 5 ≤ p.bytes.length := by
  cases protocol with
  | version0 =>
      have least := p.carried.2.1
      by_cases short : p.packet.length / 4 < 0x7F
      · rw [bytes_version0_short p short, List.length_cons]
        omega
      · rw [bytes_version0_long p short, List.length_cons, List.length_append]
        omega
  | versionD =>
      have least := p.carried.1
      rw [bytes_versionD, List.length_append, length_toLittleEndian]
      omega

theorem bytes_ne_nil (p : Packet protocol) : p.bytes ≠ [] := by
  intro empty
  have least := p.five_le_length
  rw [empty] at least
  cases least

theorem readPacketLength_bytes (p : Packet protocol) :
    protocol.readPacketLength p.bytes = .size p.bytes.length := by
  have stream : p.bytes ++ [] = p.bytes ++ [] := rfl
  obtain ⟨-, few⟩ | known := readPacketLength_received p p.bytes_ne_nil stream
  · have least := p.five_le_length
    omega
  · exact known

/-- The receiver takes off what the sender put in front. -/
theorem readPacket_bytes (p : Packet protocol) : protocol.readPacket p.bytes = some p.packet := by
  have whole : ∀ (field : Bytes) {n : Nat}, field.length = n → p.bytes = field ++ p.packet →
      subspan p.bytes n (p.bytes.length - n) = some p.packet := by
    intro field n size form
    have length := congrArg List.length form
    rw [List.length_append, size] at length
    have rest : (p.bytes.length : Int) - n = (p.packet.length : Nat) := by omega
    have inside : n + p.packet.length ≤ p.bytes.length := Nat.le_of_eq length.symm
    rw [rest, subspan_inside inside, form, List.drop_left' size, List.take_length]
  unfold Protocol.readPacket
  rw [readPacketLength_bytes]
  simp only [Nat.le_refl, if_true]
  cases protocol with
  | version0 =>
      by_cases short : p.packet.length / 4 < 0x7F
      · have form := bytes_version0_short p short
        have other : p.bytes.head? ≠ some 0x7F := by
          intro same
          rw [form, List.head?_cons, Option.some.injEq, ← UInt8.toNat_inj, UInt8.toNat_ofNat'] at same
          change _ = 127 at same
          omega
        simp only [if_neg other]
        exact whole [UInt8.ofNat (p.packet.length / 4)] rfl form
      · have form := bytes_version0_long p short
        have first : p.bytes.head? = some 0x7F := by
          rw [form]
          rfl
        simp only [if_pos first]
        exact whole (0x7F :: toLittleEndian 3 (p.packet.length / 4)) rfl form
  | versionD => exact whole (toLittleEndian 4 p.packet.length) rfl rfl

/-- A packet has at least one number. -/
theorem parsePacket_bytes (p : Packet protocol) : ∃ data, parsePacket protocol p.bytes = some data := by
  have least : 4 ≤ p.packet.length := by
    cases protocol with
    | version0 => exact p.carried.2.1
    | versionD => exact p.carried.1
  rw [parsePacket, readPacket_bytes]
  match p.packet, least with
  | _ :: _ :: _ :: _ :: _, _ => exact ⟨_, rfl⟩

end Packet

/-! ## The cipher -/

section Cipher

variable (keyStream : Nat → UInt8)

@[simp]
theorem length_aesCtrEncrypt (position : Nat) (bytes : Bytes) :
    (aesCtrEncrypt keyStream position bytes).length = bytes.length := by
  induction bytes generalizing position with
  | nil => rfl
  | cons byte bytes ih => rw [aesCtrEncrypt, List.length_cons, ih, List.length_cons]

/-- Decrypting what was encrypted at the same position. -/
theorem aesCtrEncrypt_twice (position : Nat) (bytes : Bytes) :
    aesCtrEncrypt keyStream position (aesCtrEncrypt keyStream position bytes) = bytes := by
  induction bytes generalizing position with
  | nil => rfl
  | cons byte bytes ih =>
      rw [aesCtrEncrypt, aesCtrEncrypt, ih, UInt8.xor_assoc, UInt8.xor_self, UInt8.xor_zero]

theorem aesCtrEncrypt_append (position : Nat) (front back : Bytes) :
    aesCtrEncrypt keyStream position (front ++ back) =
      aesCtrEncrypt keyStream position front ++
        aesCtrEncrypt keyStream (position + front.length) back := by
  induction front generalizing position with
  | nil => rfl
  | cons byte front ih =>
      rw [List.cons_append, aesCtrEncrypt, ih, aesCtrEncrypt, List.length_cons, List.cons_append,
        Nat.add_assoc position 1, Nat.add_comm 1]

/-- Bytes taken from an encrypted stream. -/
theorem take_aesCtrEncrypt (position n : Nat) (bytes : Bytes) :
    (aesCtrEncrypt keyStream position bytes).take n = aesCtrEncrypt keyStream position (bytes.take n) := by
  induction bytes generalizing position n with
  | nil => rw [List.take_nil, aesCtrEncrypt, List.take_nil]
  | cons byte bytes ih =>
      cases n with
      | zero => rfl
      | succ n => rw [aesCtrEncrypt, List.take_succ_cons, List.take_succ_cons, ih, aesCtrEncrypt]

theorem drop_aesCtrEncrypt {position n : Nat} {bytes : Bytes} (inside : n ≤ bytes.length) :
    (aesCtrEncrypt keyStream position bytes).drop n =
      aesCtrEncrypt keyStream (position + n) (bytes.drop n) := by
  have size : (bytes.take n).length = n := by
    rw [List.length_take]
    omega
  conv_lhs => rw [← List.take_append_drop n bytes, aesCtrEncrypt_append, size]
  rw [List.drop_left' (by rw [length_aesCtrEncrypt, size])]

end Cipher

/-! ## One packet after the other -/

namespace TcpReceiver

variable {env : TcpEnvironment} {protocol : Protocol}

/-- What handling packets that come alone leaves. -/
def deliver (env : TcpEnvironment) (s : TcpReceiver) : List Bytes → Option TcpReceiver
  | [] => some s
  | bytes :: rest =>
      match s.socketPacket env bytes with
      | none => none
      | some s => deliver env s rest

theorem deliver_snoc {s s' s'' : TcpReceiver} {packets : List Bytes} {bytes : Bytes}
    (before : s.deliver env packets = some s') (last : s'.socketPacket env bytes = some s'') :
    s.deliver env (packets ++ [bytes]) = some s'' := by
  induction packets generalizing s with
  | nil =>
      cases before
      simp only [List.nil_append, deliver, last]
  | cons first packets ih =>
      simp only [List.cons_append, deliver] at before ⊢
      cases handled : s.socketPacket env first with
      | none => simp only [handled] at before; cases before
      | some next =>
          simp only [handled] at before
          exact ih before

/-- Handling a packet counts as one call of `socketPacket`. -/
theorem socketPacket_kept {s s' : TcpReceiver} {bytes : Bytes} (handled : s.socketPacket env bytes = some s') :
    s'.protocol = s.protocol ∧ s'.packets = s.packets ++ [bytes] := by
  unfold socketPacket at handled
  split at handled
  · cases handled
  · simp only at handled
    split at handled
    · cases handled
    · cases handled
      split_ifs
      · exact ⟨rfl, rfl⟩
      · exact ⟨rfl, rfl⟩
    · split at handled
      · cases handled
        exact ⟨rfl, rfl⟩
      · split_ifs at handled
        · cases handled
          exact ⟨rfl, rfl⟩
        · cases handled
          exact ⟨rfl, rfl⟩
      · cases handled
        exact ⟨rfl, rfl⟩

/-- A packet of the peer can always be handled. -/
theorem socketPacket_bytes {s : TcpReceiver} (connected : s.connected = true)
    (same : s.protocol = protocol) (p : Packet protocol) :
    ∃ s', s.socketPacket env p.bytes = some s' := by
  obtain ⟨data, parsed⟩ := p.parsePacket_bytes
  have on : (!s.connected) = false := by rw [connected]; rfl
  rw [socketPacket, on, same]
  simp only [parsed, if_false, Bool.false_eq_true]
  split
  · contradiction
  · exact ⟨_, rfl⟩
  · cases s.status with
    | ready => exact ⟨_, rfl⟩
    | finished => exact ⟨_, rfl⟩
    | waiting =>
        simp only
        split_ifs
        · exact ⟨_, rfl⟩
        · exact ⟨_, rfl⟩

theorem deliver_kept {s s' : TcpReceiver} {packets : List Bytes} (handled : s.deliver env packets = some s') :
    s'.protocol = s.protocol ∧ s'.packets = s.packets ++ packets := by
  induction packets generalizing s with
  | nil =>
      cases handled
      exact ⟨rfl, (List.append_nil _).symm⟩
  | cons bytes packets ih =>
      simp only [deliver] at handled
      cases first : s.socketPacket env bytes with
      | none => simp only [first] at handled; cases handled
      | some next =>
          simp only [first] at handled
          obtain ⟨protocol', packets'⟩ := ih handled
          obtain ⟨protocol'', packets''⟩ := socketPacket_kept first
          refine ⟨protocol'.trans protocol'', ?_⟩
          rw [packets', packets'', List.append_assoc, List.singleton_append]

/-- The receiver handled all packets but `todo`, one by one. -/
def Handled (env : TcpEnvironment) (packets : List (Packet protocol)) (s : TcpReceiver)
    (todo : List (Packet protocol)) : Prop :=
  ∃ done, packets = done ++ todo ∧
    deliver env { protocol := protocol } (done.map Packet.bytes) = some s

variable {packets todo : List (Packet protocol)} {s s' : TcpReceiver} {p : Packet protocol}

theorem handled_protocol (h : Handled env packets s todo) : s.protocol = protocol := by
  obtain ⟨done, -, delivered⟩ := h
  exact (deliver_kept delivered).1

theorem handled_next (h : Handled env packets s (p :: todo)) (next : s.socketPacket env p.bytes = some s') :
    Handled env packets s' todo := by
  obtain ⟨done, rfl, delivered⟩ := h
  refine ⟨done ++ [p], by rw [List.append_assoc, List.singleton_append], ?_⟩
  rw [List.map_append]
  exact deliver_snoc delivered next

end TcpReceiver

namespace TcpConnection

/-! ## Buffered bytes -/

/-- The bytes that wait for the rest of their packet. -/
def buffered (s : TcpConnection) : Bytes := window s.buffer s.offsetBytes s.readBytes

/-- No packet has begun, as far as can be seen. -/
structure Idle (s : TcpConnection) : Prop where
  left : s.leftBytes = 0
  small : s.usingLargeBuffer = false
  noLarge : s.largeBuffer = []
  size : s.smallBuffer.length = kSmallBufferSize
  room : s.offsetBytes + kMinPacketBuffer ≤ kSmallBufferSize
  few : s.readBytes < 4

/-- A packet has begun and there is room for the rest of it. -/
structure Begun (s : TcpConnection) : Prop where
  left : 0 < s.leftBytes
  room : s.offsetBytes + (s.readBytes + s.leftBytes) ≤ s.buffer.length
  size : s.smallBuffer.length = kSmallBufferSize

/-- The view of the inner loop shows what the buffer holds, where it is or where it was. -/
structure View (s : TcpConnection) (start size : Nat) : Prop where
  left : s.leftBytes = 0
  small : s.usingLargeBuffer = false
  noLarge : s.largeBuffer = []
  whole : s.smallBuffer.length = kSmallBufferSize
  same : size = s.readBytes
  inside : start + size ≤ kSmallBufferSize
  held : s.offsetBytes + size ≤ kSmallBufferSize
  shows : window s.smallBuffer start size = window s.smallBuffer s.offsetBytes size
  moved : start = s.offsetBytes ∨ s.offsetBytes + size < kMinPacketBuffer

section Buffers

variable {s : TcpConnection} {start size : Nat}

theorem buffer_small (small : s.usingLargeBuffer = false) : s.buffer = s.smallBuffer := by
  simp only [buffer, small, Bool.false_eq_true, if_false]

theorem view_buffered (view : View s start size) :
    window s.smallBuffer start size = s.buffered := by
  rw [buffered, buffer_small view.small, view.shows, view.same]

/-- Skipping a packet in the view and in the buffer. -/
theorem view_skip (view : View s start size) {n : Nat} (inside : n ≤ size) (receiver : TcpReceiver) :
    View { s with
      toTcpReceiver := receiver
      offsetBytes := s.offsetBytes + n
      readBytes := s.readBytes - n } (start + n) (size - n) := by
  have := view.inside
  have := view.held
  have rest : n + (size - n) = size := by omega
  refine ⟨view.left, view.small, view.noLarge, view.whole, ?_, by omega, ?_, ?_, ?_⟩
  · simp only [view.same]
  · simp only
    omega
  · have behind : ∀ position, window s.smallBuffer (position + n) (size - n) =
        window (window s.smallBuffer position size) n (size - n) :=
      fun position => (window_window (by omega)).symm
    simp only [behind, view.shows]
  · cases view.moved with
    | inl same => exact .inl (by rw [same])
    | inr near =>
        right
        simp only
        omega

theorem buffered_skip (n : Nat) (receiver : TcpReceiver) :
    buffered { s with
      toTcpReceiver := receiver
      offsetBytes := s.offsetBytes + n
      readBytes := s.readBytes - n } = s.buffered.drop n := by
  rw [buffered, buffered, window, window, List.drop_take, List.drop_drop]
  rfl

/-- Making room moves the bytes, but not over those that the view shows. -/
theorem view_ensure (view : View s start size) :
    ∃ s', s.ensureAvailableInBuffer kMinPacketBuffer = some s' ∧ View s' start size ∧
      s'.buffered = s.buffered ∧ s'.offsetBytes + kMinPacketBuffer ≤ kSmallBufferSize ∧ s'.toTcpReceiver = s.toTcpReceiver ∧
      s'.receiveState = s.receiveState := by
  have held := view.held
  have buffer := buffer_small view.small
  have inside : s.offsetBytes ≤ s.smallBuffer.length := by
    rw [view.whole]
    omega
  rw [ensureAvailableInBuffer, buffer, subspan_rest inside]
  simp only [List.length_drop, view.whole]
  by_cases enough : kSmallBufferSize - s.offsetBytes ≥ kMinPacketBuffer
  · rw [if_pos enough]
    refine ⟨s, rfl, view, rfl, ?_, rfl, rfl⟩
    simp only [kSmallBufferSize, kMinPacketBuffer] at *
    omega
  · have full : s.readBytes ≤ (s.smallBuffer.drop s.offsetBytes).length := by
      rw [List.length_drop, view.whole, ← view.same]
      omega
    have read : subspan (s.smallBuffer.drop s.offsetBytes) 0 s.readBytes =
        some (window s.smallBuffer s.offsetBytes s.readBytes) := subspan_first full
    have length : (window s.smallBuffer s.offsetBytes s.readBytes).length = s.readBytes := by
      rw [length_window]
      rw [view.whole, ← view.same]
      exact held
    have fits : 0 + (window s.smallBuffer s.offsetBytes s.readBytes).length ≤ s.smallBuffer.length := by
      rw [length, view.whole, ← view.same]
      omega
    obtain ⟨result, written⟩ := overwrite_inside fits
    have here : start = s.offsetBytes := by
      cases view.moved with
      | inl same => exact same
      | inr near =>
          simp only [kSmallBufferSize, kMinPacketBuffer] at *
          omega
    have after : 0 + (window s.smallBuffer s.offsetBytes s.readBytes).length ≤ start := by
      rw [length, ← view.same, here]
      simp only [kSmallBufferSize, kMinPacketBuffer] at *
      omega
    rw [if_neg enough, read]
    simp only [if_pos (show kMinPacketBuffer ≤ kSmallBufferSize by decide), written, Option.map_some,
      view.small, Bool.false_eq_true, if_false]
    have moved := window_overwrite written
    rw [length] at moved
    refine ⟨_, rfl, ⟨view.left, rfl, view.noLarge, ?_, view.same, view.inside, ?_, ?_, .inr ?_⟩,
      ?_, ?_, rfl, rfl⟩
    · exact (length_overwrite written).trans view.whole
    · simp only
      omega
    · simp only
      rw [window_overwrite_after written after, view.shows, view.same, moved]
    · simp only [kSmallBufferSize, kMinPacketBuffer] at *
      omega
    · rw [buffered, buffered, buffer]
      exact moved
    · simp only
      decide

/-- Room for a packet that has begun, in whichever buffer has it. -/
theorem begun_ensure (view : View s start size) {n : Nat} (more : size < n) :
    ∃ s', { s with leftBytes := n - size }.ensureAvailableInBuffer n = some s' ∧ Begun s' ∧
      s'.buffered = s.buffered ∧ s'.leftBytes = n - s'.readBytes ∧ s'.readBytes = size ∧
      s'.toTcpReceiver = s.toTcpReceiver ∧ s'.receiveState = s.receiveState := by
  have held := view.held
  have same := view.same
  have buffer := buffer_small view.small
  have inside : s.offsetBytes ≤ s.smallBuffer.length := by
    rw [view.whole]
    omega
  have bytes : s.buffered = window s.smallBuffer s.offsetBytes s.readBytes := by
    rw [buffered, buffer]
  have read : subspan (s.smallBuffer.drop s.offsetBytes) 0 s.readBytes = some s.buffered := by
    rw [bytes]
    refine subspan_first ?_
    rw [List.length_drop, view.whole]
    omega
  have length : s.buffered.length = s.readBytes := by
    rw [bytes, length_window]
    rw [view.whole, ← same]
    exact held
  unfold ensureAvailableInBuffer
  rw [show TcpConnection.buffer { s with leftBytes := n - size } = s.smallBuffer from buffer]
  simp only [subspan_rest inside, List.length_drop, view.whole, read, view.noLarge, List.length_nil,
    view.small, Bool.false_eq_true, if_false]
  by_cases enough : kSmallBufferSize - s.offsetBytes ≥ n
  · rw [if_pos enough]
    refine ⟨_, rfl, ⟨?_, ?_, view.whole⟩, bytes.symm, by rw [← same], same.symm, rfl, rfl⟩
    · simp only
      omega
    · simp only [TcpConnection.buffer, Bool.false_eq_true, if_false, view.whole]
      omega
  · rw [if_neg enough]
    by_cases small : n ≤ kSmallBufferSize
    · obtain ⟨result, written⟩ : ∃ result, overwrite s.smallBuffer 0 s.buffered = some result :=
        overwrite_inside (by rw [length, view.whole]; omega)
      have shows := window_overwrite written
      rw [length] at shows
      have result_length := (length_overwrite written).trans view.whole
      simp only [if_pos small, written, Option.map_some]
      refine ⟨_, rfl, ⟨?_, ?_, result_length⟩, shows, by rw [← same], same.symm, rfl, rfl⟩
      · simp only
        omega
      · simp only [TcpConnection.buffer, Bool.false_eq_true, if_false, result_length]
        omega
    · obtain ⟨result, written⟩ :
          ∃ result, overwrite (List.replicate n (0 : UInt8)) 0 s.buffered = some result :=
        overwrite_inside (by rw [length, List.length_replicate]; omega)
      have shows := window_overwrite written
      rw [length] at shows
      have result_length := length_overwrite written
      rw [List.length_replicate] at result_length
      simp only [if_neg small, if_neg (show ¬ n ≤ 0 by omega), written, Option.map_some]
      refine ⟨_, rfl, ⟨?_, ?_, view.whole⟩, shows, by rw [← same], same.symm, rfl, rfl⟩
      · simp only
        omega
      · simp only [TcpConnection.buffer, if_true, result_length]
        omega

end Buffers

/-! ## The inner loop -/

section Loop

variable {env : TcpEnvironment} {protocol : Protocol} {packets todo : List (Packet protocol)}
  {rest : Bytes} {s : TcpConnection}

/-- Either no packet is known to have begun, or the first one has and the rest of it is awaited. -/
inductive Waiting (s : TcpConnection) : List (Packet protocol) → Prop where
  | idle {todo : List (Packet protocol)} (idle : Idle s) : Waiting s todo
  | begun {p : Packet protocol} {todo : List (Packet protocol)} (begun : Begun s) (total : s.readBytes + s.leftBytes = p.bytes.length) :
      Waiting s (p :: todo)

/-- Between reads the buffered bytes and those that are still to come are the packets still to be
handled. -/
structure Synced (env : TcpEnvironment) (packets : List (Packet protocol)) (s : TcpConnection)
    (rest : Bytes) (todo : List (Packet protocol)) : Prop where
  connected : s.connected = true
  waiting : Waiting s todo
  handled : TcpReceiver.Handled env packets s.toTcpReceiver todo
  stream : Packet.bytesAll todo = s.buffered ++ rest

/-- What a turn of the loop can end with, at a position of the key stream. -/
inductive Outcome (env : TcpEnvironment) (packets : List (Packet protocol)) (rest : Bytes)
    (position : Nat) : Reading → Prop where
  | goOn {s : TcpConnection} {todo : List (Packet protocol)}
      (synced : Synced env packets s rest todo) (same : s.receiveState = position) :
      Outcome env packets rest position (.goOn s)
  | closed {s : TcpConnection} {todo : List (Packet protocol)} (closed : s.connected = false)
      (handled : TcpReceiver.Handled env packets s.toTcpReceiver todo) :
      Outcome env packets rest position (.stop s)

theorem readPackets_spec {fuel start size : Nat} (view : View s start size)
    (room : s.offsetBytes + kMinPacketBuffer ≤ kSmallBufferSize) (enough : size < fuel)
    (connected : s.connected = true) (handled : TcpReceiver.Handled env packets s.toTcpReceiver todo)
    (stream : Packet.bytesAll todo = s.buffered ++ rest) :
    ∃ reading, readPackets env fuel s start size = some reading ∧
      Outcome env packets rest s.receiveState reading := by
  induction fuel generalizing s start size todo with
  | zero => omega
  | succ fuel ih =>
      have idle : s.readBytes < 4 → Outcome env packets rest s.receiveState (.goOn s) := fun few =>
        .goOn ⟨connected, .idle ⟨view.left, view.small, view.noLarge, view.whole, room, few⟩, handled,
          stream⟩ rfl
      have shows := view_buffered view
      have inside : start + size ≤ s.smallBuffer.length := by
        rw [view.whole]
        exact view.inside
      have length := length_window inside
      rw [shows] at length
      rw [readPackets]
      by_cases empty : s.readBytes = 0
      · rw [if_pos empty]
        exact ⟨_, rfl, idle (by omega)⟩
      · have busy : s.buffered ≠ [] := by
          intro none
          rw [none, List.length_nil, view.same] at length
          exact empty length.symm
        rw [if_neg empty, if_neg (by rw [view.small]; decide), subspan_window inside, shows]
        simp only
        cases todo with
        | nil =>
            rw [Packet.bytesAll_nil] at stream
            exact absurd (List.append_eq_nil_iff.mp stream.symm).1 busy
        | cons p todo =>
            have same := TcpReceiver.handled_protocol handled
            rw [Packet.bytesAll_cons] at stream
            rw [same]
            obtain ⟨unknown, few⟩ | known := p.readPacketLength_received busy stream.symm
            · rw [unknown]
              exact ⟨_, rfl, idle (by rw [← view.same]; omega)⟩
            · rw [known]
              simp only
              by_cases whole : size ≥ p.bytes.length
              · -- the first packet is all there
                have form : s.buffered = p.bytes ++ s.buffered.drop p.bytes.length := by
                  have front := Packet.take_of_received rfl (by rw [length]; exact whole) stream.symm
                  conv_lhs => rw [← List.take_append_drop p.bytes.length s.buffered, front]
                have bytes : subspan s.buffered 0 p.bytes.length = some p.bytes := by
                  rw [subspan_first (by omega)]
                  conv_lhs => rw [form, List.take_left]
                have least := p.five_le_length
                obtain ⟨receiver, next⟩ := TcpReceiver.socketPacket_bytes connected same p
                have handled' := TcpReceiver.handled_next handled next
                rw [if_pos whole, bytes]
                simp only [socketPacket, next, Option.map_some]
                cases open' : receiver.connected with
                | false => exact ⟨_, rfl, .closed open' handled'⟩
                | true =>
                    obtain ⟨s', ensured, view', bytes', room', receiver', position⟩ :=
                      view_ensure (view_skip view whole receiver)
                    simp only [Bool.not_true, Bool.false_eq_true, if_false, ensured]
                    rw [buffered_skip] at bytes'
                    change s'.toTcpReceiver = receiver at receiver'
                    rw [← receiver'] at open' handled'
                    have stream' : Packet.bytesAll todo = s'.buffered ++ rest := by
                      rw [form, List.append_assoc] at stream
                      rw [bytes']
                      exact List.append_cancel_left stream
                    have result := ih view' room' (by omega) open' handled' stream'
                    rw [position] at result
                    exact result
              · rw [if_neg whole]
                obtain ⟨s', ensured, begun, bytes, left, read, receiver, position⟩ :=
                  begun_ensure view (Nat.lt_of_not_le whole)
                rw [ensured]
                have total : s'.readBytes + s'.leftBytes = p.bytes.length := by omega
                rw [← receiver] at connected handled
                have synced : Synced env packets s' rest (p :: todo) :=
                  ⟨connected, .begun begun total, handled, by rw [bytes]; exact stream⟩
                exact ⟨_, rfl, .goOn synced position⟩

/-! ## The outer loop -/

/-- There is room for what is asked of the socket. -/
theorem waiting_room (waiting : Waiting s todo) :
    0 < s.readLimit ∧ s.offsetBytes + (s.readBytes + s.readLimit) ≤ s.buffer.length := by
  cases waiting with
  | idle idle =>
      have room := idle.room
      have few := idle.few
      rw [readLimit, if_neg (by rw [idle.left]; decide), buffer_small idle.small, idle.size]
      simp only [kSmallBufferSize, kMinPacketBuffer] at *
      omega
  | begun begun =>
      rw [readLimit, if_pos begun.left]
      exact ⟨begun.left, begun.room⟩

theorem readFrom_spec (waiting : Waiting s todo) (pending : Bytes) (wish : Nat) :
    s.readFrom pending wish = some (pending.take (min wish s.readLimit)) := by
  obtain ⟨positive, room⟩ := waiting_room waiting
  have read : s.readBytes ≤ (s.buffer.drop s.offsetBytes).length := by
    rw [List.length_drop]
    omega
  have limit : s.readLimit ≤ ((s.buffer.drop s.offsetBytes).drop s.readBytes).length := by
    rw [List.length_drop, List.length_drop]
    omega
  rw [readFrom, if_neg (by omega), subspan_rest (by omega)]
  simp only [subspan_rest read, subspan_first limit, Option.map_some, List.length_take,
    Nat.min_eq_left limit]

/-- Received bytes are decrypted behind those that wait. -/
theorem received_spec (env : TcpEnvironment) {s : TcpConnection} {read : Bytes}
    (room : s.offsetBytes + (s.readBytes + read.length) ≤ s.buffer.length) :
    ∃ s', s.received env read = some s' ∧
      s'.buffered = s.buffered ++ aesCtrEncrypt env.keyStream s.receiveState read ∧
      s'.toTcpReceiver = s.toTcpReceiver ∧ s'.leftBytes = s.leftBytes ∧ s'.offsetBytes = s.offsetBytes ∧
      s'.usingLargeBuffer = s.usingLargeBuffer ∧ s'.readBytes = s.readBytes + read.length ∧
      s'.receiveState = s.receiveState + read.length ∧ s'.buffer.length = s.buffer.length ∧
      s'.smallBuffer.length = s.smallBuffer.length ∧
      (s.usingLargeBuffer = false → s'.largeBuffer = s.largeBuffer) := by
  have fits : s.offsetBytes + s.readBytes + (aesCtrEncrypt env.keyStream s.receiveState read).length ≤
      s.buffer.length := by
    rw [length_aesCtrEncrypt]
    omega
  obtain ⟨result, written⟩ := overwrite_inside fits
  have extended := window_overwrite_extend written
  rw [length_aesCtrEncrypt] at extended
  have length := length_overwrite written
  rw [received, written]
  refine ⟨_, rfl, ?_, rfl, rfl, rfl, rfl, rfl, rfl, ?_, ?_, ?_⟩
  · cases large : s.usingLargeBuffer with
    | false => simpa [buffered, buffer, large] using extended
    | true => simpa [buffered, buffer, large] using extended
  · cases large : s.usingLargeBuffer with
    | false => simpa [buffer, large] using length
    | true => simpa [buffer, large] using length
  · cases large : s.usingLargeBuffer with
    | false => simpa [buffer, large] using length
    | true => rfl
  · intro small
    simp only [small, Bool.false_eq_true, if_false]

theorem readSome_spec {read : Bytes}
    (synced : Synced env packets s (aesCtrEncrypt env.keyStream s.receiveState read ++ rest) todo)
    (busy : read ≠ []) (limited : read.length ≤ s.readLimit) :
    ∃ reading, s.readSome env read = some reading ∧
      Outcome env packets rest (s.receiveState + read.length) reading := by
  obtain ⟨connected, waiting, handled, stream⟩ := synced
  have room := (waiting_room waiting).2
  have room' : s.offsetBytes + (s.readBytes + read.length) ≤
      s.offsetBytes + (s.readBytes + s.readLimit) := by omega
  obtain ⟨s', done, bytes, receiver, left, offset, large, total, position, length, small, kept⟩ :=
    received_spec env (Nat.le_trans room' room)
  rw [← List.append_assoc, ← bytes] at stream
  rw [← receiver] at connected handled
  rw [readSome, if_neg busy, done, ← position]
  simp only [left]
  cases waiting with
  | idle idle =>
      rw [if_neg (by rw [idle.left]; decide)]
      have inside : s'.offsetBytes + s'.readBytes ≤ kSmallBufferSize := by
        rw [buffer_small idle.small, idle.size] at room
        omega
      have view : View s' s'.offsetBytes s'.readBytes :=
        ⟨left.trans idle.left, large.trans idle.small, (kept idle.small).trans idle.noLarge,
          small.trans idle.size, rfl, inside, inside, rfl, .inl rfl⟩
      exact readPackets_spec view (by rw [offset]; exact idle.room) (Nat.lt_succ_self _) connected handled
        stream
  | @begun p todo begun whole =>
      have positive := begun.left
      rw [readLimit, if_pos positive] at limited
      have inside : s'.offsetBytes + s'.readBytes ≤ s'.buffer.length := by
        have := begun.room
        omega
      have size : s'.buffered.length = s'.readBytes := length_window inside
      rw [if_pos positive, if_neg (by omega)]
      by_cases complete : s.leftBytes - read.length = 0
      · rw [Packet.bytesAll_cons] at stream
        obtain ⟨same, rest'⟩ := List.append_inj stream (by omega)
        have bytes' : subspan (TcpConnection.buffer { s' with leftBytes := s.leftBytes - read.length })
            s'.offsetBytes s'.readBytes = some p.bytes := by
          rw [same]
          exact subspan_window inside
        obtain ⟨receiver', next⟩ :=
          TcpReceiver.socketPacket_bytes connected (TcpReceiver.handled_protocol handled) p
        have handled' := TcpReceiver.handled_next handled next
        rw [if_pos complete]
        simp only [bytes', socketPacket, next, Option.map_some]
        cases open' : receiver'.connected with
        | false => exact ⟨_, rfl, .closed open' handled'⟩
        | true =>
            refine ⟨_, rfl, .goOn ⟨open', .idle ⟨complete, rfl, rfl, ?_, ?_, ?_⟩, handled', ?_⟩ rfl⟩
            · exact small.trans begun.size
            · simp only
              decide
            · simp only
              decide
            · exact rest'
      · rw [if_neg complete]
        have more : Begun { s' with leftBytes := s.leftBytes - read.length } := by
          refine ⟨by simp only; omega, ?_, small.trans begun.size⟩
          have := begun.room
          change s'.offsetBytes + (s'.readBytes + (s.leftBytes - read.length)) ≤ s'.buffer.length
          omega
        have synced : Synced env packets { s' with leftBytes := s.leftBytes - read.length } rest (p :: todo) :=
          ⟨connected, .begun more (by simp only; omega), handled, stream⟩
        exact ⟨_, rfl, .goOn synced rfl⟩

/-- The connection after `socketRead` made its small buffer. -/
def withBuffer (s : TcpConnection) : TcpConnection :=
  if s.smallBuffer = [] then { s with smallBuffer := List.replicate kSmallBufferSize 0 } else s

theorem withBuffer_kept (s : TcpConnection) :
    s.withBuffer.leftBytes = s.leftBytes ∧ s.withBuffer.usingLargeBuffer = s.usingLargeBuffer ∧
      s.withBuffer.toTcpReceiver = s.toTcpReceiver ∧ s.withBuffer.receiveState = s.receiveState := by
  unfold withBuffer
  split_ifs
  · exact ⟨rfl, rfl, rfl, rfl⟩
  · exact ⟨rfl, rfl, rfl, rfl⟩

theorem withBuffer_of_waiting (waiting : Waiting s todo) : s.withBuffer = s := by
  have size : s.smallBuffer.length = kSmallBufferSize := by
    cases waiting with
    | idle idle => exact idle.size
    | begun begun => exact begun.size
  have some : s.smallBuffer ≠ [] := by
    intro none
    rw [none] at size
    cases size
  rw [withBuffer, if_neg some]

/-- Where a run stands: in the stream, or closed after one of the packets. -/
inductive Reads (env : TcpEnvironment) (packets : List (Packet protocol)) :
    TcpConnection → Bytes → Prop where
  | live {s : TcpConnection} {rest : Bytes} {todo : List (Packet protocol)}
      (synced : Synced env packets s.withBuffer rest todo) (same : s.withBuffer.buffered = s.buffered) :
      Reads env packets s (aesCtrEncrypt env.keyStream s.receiveState rest)
  | closed {s : TcpConnection} {pending : Bytes} {todo : List (Packet protocol)}
      (closed : s.connected = false) (handled : TcpReceiver.Handled env packets s.toTcpReceiver todo) :
      Reads env packets s pending

theorem reads_of_synced (synced : Synced env packets s rest todo) :
    Reads env packets s (aesCtrEncrypt env.keyStream s.receiveState rest) := by
  have same := withBuffer_of_waiting synced.waiting
  exact .live (by rw [same]; exact synced) (by rw [same])

theorem readLoop_spec (synced : Synced env packets s rest todo) (wishes : List Nat) :
    ∃ s' pending, readLoop env s (aesCtrEncrypt env.keyStream s.receiveState rest) (wishes.map some) =
      some (s', pending) ∧ Reads env packets s' pending := by
  induction wishes generalizing s rest todo with
  | nil => exact ⟨_, _, rfl, reads_of_synced synced⟩
  | cons wish wishes ih =>
      rw [List.map_cons, readLoop, readFrom_spec synced.waiting]
      simp only [Option.getD_some, reduceCtorEq, if_false, take_aesCtrEncrypt]
      generalize amount : min wish s.readLimit = n
      by_cases none : aesCtrEncrypt env.keyStream s.receiveState (rest.take n) = []
      · rw [readSome, if_pos none]
        simp only [none, List.length_nil, List.drop_zero]
        exact ⟨_, _, rfl, reads_of_synced synced⟩
      · have size : (rest.take n).length ≤ rest.length := by
          rw [List.length_take]
          omega
        have whole : rest.take (rest.take n).length ++ rest.drop (rest.take n).length = rest :=
          List.take_append_drop _ _
        have front : rest.take (rest.take n).length = rest.take n := by
          rw [List.length_take, ← List.take_eq_take_min]
        have twice : Synced env packets s
            (aesCtrEncrypt env.keyStream s.receiveState
              (aesCtrEncrypt env.keyStream s.receiveState (rest.take n)) ++
              rest.drop (rest.take n).length) todo := by
          rw [aesCtrEncrypt_twice, ← front, List.length_take_of_le size, whole]
          exact synced
        obtain ⟨reading, some, outcome⟩ := readSome_spec twice none (by
          rw [length_aesCtrEncrypt, List.length_take]
          omega)
        rw [some]
        simp only [length_aesCtrEncrypt]
        rw [length_aesCtrEncrypt] at outcome
        cases outcome with
        | goOn synced' position =>
            simp only [drop_aesCtrEncrypt _ size, ← position]
            exact ih synced'
        | closed closed handled =>
            exact ⟨_, _, rfl, .closed closed handled⟩

theorem socketRead_spec (synced : Synced env packets s.withBuffer rest todo) (wishes : List Nat) :
    ∃ s' pending, s.socketRead env (aesCtrEncrypt env.keyStream s.receiveState rest) (wishes.map some) =
      some (s', pending) ∧ Reads env packets s' pending := by
  obtain ⟨left, large, receiver, position⟩ := withBuffer_kept s
  have expects : ¬ (s.leftBytes = 0 ∧ s.usingLargeBuffer = true) := by
    rw [← left, ← large]
    rintro ⟨none, large⟩
    cases synced.waiting with
    | idle idle => rw [idle.small] at large; cases large
    | begun begun => exact absurd none (by have := begun.left; omega)
  have on : (!s.connected) = false := by rw [← receiver, synced.connected]; rfl
  have looped := readLoop_spec synced wishes
  rw [position] at looped
  rw [socketRead, if_neg expects, on]
  exact looped

theorem run_spec {pending : Bytes} (reads : Reads env packets s pending) (signals : List (List Nat)) :
    ∃ s' pending', s.run env pending (signals.map (List.map some)) = some (s', pending') ∧
      Reads env packets s' pending' := by
  induction signals generalizing s pending with
  | nil => exact ⟨_, _, rfl, reads⟩
  | cons wishes signals ih =>
      rw [List.map_cons, run]
      cases reads with
      | closed closed handled =>
          have off : (!s.connected) = true := by rw [closed]; rfl
          rw [if_pos off]
          exact ⟨_, _, rfl, .closed closed handled⟩
      | live synced same =>
          have on : (!s.connected) = false := by
            rw [← (withBuffer_kept s).2.2.1, synced.connected]
            rfl
          obtain ⟨s', pending', read, reads'⟩ := socketRead_spec synced wishes
          rw [on, read]
          exact ih reads'

theorem synced_initial (env : TcpEnvironment) (packets : List (Packet protocol)) :
    Synced env packets (withBuffer { protocol := protocol }) (Packet.bytesAll packets) packets := by
  have size : (List.replicate kSmallBufferSize (0 : UInt8)).length = kSmallBufferSize :=
    List.length_replicate
  have idle : Idle (withBuffer { protocol := protocol }) :=
    ⟨rfl, rfl, rfl, size, by change 0 + _ ≤ _; decide, by change 0 < 4; decide⟩
  exact ⟨rfl, .idle idle, ⟨[], rfl, rfl⟩, rfl⟩

theorem reads_initial (env : TcpEnvironment) (packets : List (Packet protocol)) :
    Reads env packets { protocol := protocol } (aesCtrEncrypt env.keyStream 0 (Packet.bytesAll packets)) :=
  .live (synced_initial env packets) rfl

/-- A stream that comes in one read is read as a whole. -/
theorem run_whole (env : TcpEnvironment) (packets : List (Packet protocol))
    (busy : Packet.bytesAll packets ≠ []) (small : (Packet.bytesAll packets).length ≤ kSmallBufferSize) :
    ∃ s todo, run env { protocol := protocol } (aesCtrEncrypt env.keyStream 0 (Packet.bytesAll packets))
        [[some (Packet.bytesAll packets).length]] = some (s, []) ∧
      TcpReceiver.Handled env packets s.toTcpReceiver todo := by
  obtain ⟨-, -, -, position⟩ := withBuffer_kept { protocol := protocol }
  have limit : readLimit (withBuffer { protocol := protocol }) = kSmallBufferSize := by
    rw [withBuffer, if_pos rfl, readLimit]
    simp only [gt_iff_lt, Nat.lt_irrefl, if_false, Nat.sub_zero]
  have synced := synced_initial env packets
  have once : ∀ pending wishes, socketRead env { protocol := protocol } pending wishes =
      readLoop env (withBuffer { protocol := protocol }) pending wishes := fun _ _ => rfl
  generalize withBuffer { protocol := protocol } = s at *
  generalize Packet.bytesAll packets = bytes at *
  have whole : (aesCtrEncrypt env.keyStream 0 bytes).take (min bytes.length s.readLimit) =
      aesCtrEncrypt env.keyStream 0 bytes := by
    rw [limit, Nat.min_eq_left small]
    exact List.take_of_length_le (Nat.le_of_eq (length_aesCtrEncrypt _ _ _))
  have twice : Synced env packets s
      (aesCtrEncrypt env.keyStream s.receiveState (aesCtrEncrypt env.keyStream 0 bytes) ++ []) packets := by
    rw [position, aesCtrEncrypt_twice, List.append_nil]
    exact synced
  have some : aesCtrEncrypt env.keyStream 0 bytes ≠ [] := by
    rw [← List.length_pos_iff, length_aesCtrEncrypt]
    exact List.length_pos_iff.mpr busy
  obtain ⟨reading, done, outcome⟩ := readSome_spec twice some (by
    rw [length_aesCtrEncrypt, limit]
    exact small)
  rw [run, once, readLoop, Option.getD_some, readFrom_spec synced.waiting, whole]
  simp only [Bool.not_true, Bool.false_eq_true, reduceCtorEq, if_false, done, List.drop_length]
  cases outcome with
  | goOn synced' _ => exact ⟨_, _, rfl, synced'.handled⟩
  | closed _ handled => exact ⟨_, _, rfl, handled⟩

end Loop

/-- What waits is a beginning of the next packet, and shorter than it. -/
theorem waiting_incomplete {protocol : Protocol} {todo : List (Packet protocol)} {s : TcpConnection}
    {rest : Bytes} (waiting : Waiting s todo) (stream : Packet.bytesAll todo = s.buffered ++ rest) :
    s.buffered = [] ∨ ∃ p later, todo = p :: later ∧ s.buffered.length < p.bytes.length := by
  have size : s.buffered.length ≤ s.readBytes := by
    rw [buffered, window, List.length_take]
    omega
  cases todo with
  | nil => exact .inl (List.append_eq_nil_iff.mp stream.symm).1
  | cons p later =>
      refine .inr ⟨p, later, rfl, ?_⟩
      cases waiting with
      | idle idle =>
          have few := idle.few
          have least := p.five_le_length
          omega
      | begun begun total =>
          have left := begun.left
          omega

/-- However a stream of packets is cut into reads, the connection is where handling the packets one
by one would bring it, with less than one packet in its buffer. -/
theorem socketRead_reassembles (env : TcpEnvironment) (protocol : Protocol)
    (packets : List (Packet protocol)) (signals : List (List Nat)) :
    (∀ p ∈ packets, protocol.readPacket p.bytes = some p.packet) ∧
    ∃ s pending, run env { protocol := protocol }
        (aesCtrEncrypt env.keyStream 0 (Packet.bytesAll packets)) (signals.map (List.map some)) =
        some (s, pending) ∧
      ∃ done todo, packets = done ++ todo ∧ s.packets = done.map Packet.bytes ∧
        TcpReceiver.deliver env { protocol := protocol } (done.map Packet.bytes) = some s.toTcpReceiver ∧
        (s.connected = true →
          Packet.bytesAll todo = s.buffered ++ aesCtrEncrypt env.keyStream s.receiveState pending ∧
          (s.buffered = [] ∨ ∃ p later, todo = p :: later ∧ s.buffered.length < p.bytes.length) ∧
          (pending = [] → todo = [])) := by
  refine ⟨fun p _ => p.readPacket_bytes, ?_⟩
  obtain ⟨s, pending, ran, reads⟩ := run_spec (reads_initial env packets) signals
  refine ⟨s, pending, ran, ?_⟩
  cases reads with
  | closed closed handled =>
      obtain ⟨done, split, delivered⟩ := handled
      refine ⟨done, _, split, (TcpReceiver.deliver_kept delivered).2, delivered, ?_⟩
      intro connected
      rw [closed] at connected
      cases connected
  | @live rest todo synced same =>
      obtain ⟨-, waiting, ⟨done, split, delivered⟩, stream⟩ := synced
      rw [(withBuffer_kept s).2.2.1] at delivered
      refine ⟨done, todo, split, (TcpReceiver.deliver_kept delivered).2, delivered, fun _ => ?_⟩
      obtain incomplete := waiting_incomplete waiting stream
      rw [same] at stream incomplete
      rw [aesCtrEncrypt_twice]
      refine ⟨stream, incomplete, fun empty => ?_⟩
      have none : rest = [] := by
        rw [← List.length_eq_zero_iff, ← length_aesCtrEncrypt env.keyStream, empty, List.length_nil]
      rw [none, List.append_nil] at stream
      cases incomplete with
      | inl nothing =>
          rw [nothing] at stream
          cases todo with
          | nil => rfl
          | cons p later => exact absurd (List.append_eq_nil_iff.mp stream).1 p.bytes_ne_nil
      | inr begun =>
          obtain ⟨p, later, rfl, less⟩ := begun
          rw [← stream, Packet.bytesAll_cons, List.length_append] at less
          omega

/-- An owner that closes the connection when it gets an error, as `SessionPrivate` does. -/
def closingOnError : TcpEnvironment where
  keyStream _ := 0
  validReply _ := false
  keeps signals := signals.all fun signal => !signal matches .error _

/-- The packets behind an error packet are not handled, though they were read with it. -/
theorem error_packet_ends_reading :
    ¬ ∀ (env : TcpEnvironment) (protocol : Protocol) (packets : List (Packet protocol))
      (signals : List (List Nat)) (s : TcpConnection),
      run env { protocol := protocol } (aesCtrEncrypt env.keyStream 0 (Packet.bytesAll packets))
        (signals.map (List.map some)) = some (s, []) → s.packets = packets.map Packet.bytes := by
  intro every
  let packets : List (Packet .version0) := [⟨[0x6C, 0xFE, 0xFF, 0xFF], by decide⟩, ⟨[0, 0, 0, 0], by decide⟩]
  obtain ⟨s, todo, ran, done, split, delivered⟩ := run_whole closingOnError packets (by decide) (by decide)
  have all := every closingOnError .version0 packets [[_]] s ran
  have handled := (TcpReceiver.deliver_kept delivered).2
  rw [all, List.nil_append] at handled
  rw [← handled] at delivered
  have none : TcpReceiver.deliver closingOnError { protocol := .version0 } (packets.map Packet.bytes) = none := by
    decide
  rw [none] at delivered
  cases delivered

end TcpConnection

end IMeDesktop.Mtproto
