import IMeDesktop.Mtproto.TcpReassembly

/-! # Framing of a buffer

The sender keeps two numbers free in front of a packet and writes its length there. The largest buffer
that it takes is one number longer than three bytes can say, and padding takes a packet above what the
receiver admits.
-/

namespace IMeDesktop.Mtproto

open Lib

namespace Protocol

/-- The bytes of a number in memory. -/
def intBytes (n : Int32) : Bytes := toLittleEndian 4 n.toUInt32.toNat

/-- `bytes::make_span` of an `mtpBuffer`. -/
def bufferBytes (buffer : List Int32) : Bytes := buffer.flatMap intBytes

/-- What is behind the room for the length. -/
def payload (buffer : List Int32) : Bytes := bufferBytes (buffer.drop 2)

/-- What `finalizePacket` expects. -/
def Admitted (buffer : List Int32) : Prop := 2 < buffer.length ∧ buffer.length < 0x1000003

instance (buffer : List Int32) : Decidable (Admitted buffer) := inferInstanceAs (Decidable (_ ∧ _))

def Version0.finalizePacket (buffer : List Int32) : Option Bytes :=
  if Admitted buffer then
    let intsSize := buffer.length - 2
    let bytesSize := intsSize * 4
    let data := bufferBytes buffer
    if intsSize < 0x7F then subspan (data.set 7 (UInt8.ofNat intsSize)) (8 - 1) (1 + bytesSize)
    else
      let data := ((data.set 4 0x7F).set 5 (UInt8.ofNat (intsSize % 256))).set 6 (UInt8.ofNat (intsSize / 2 ^ 8 % 256))
      subspan (data.set 7 (UInt8.ofNat (intsSize / 2 ^ 16 % 256))) (8 - 4) (4 + bytesSize)
  else none

/-- The padding is chosen at random, and so are the numbers it is taken from, one for each four bytes
    begun. -/
def VersionD.finalizePacket (random : UInt32) (added : Nat → Int32) (buffer : List Int32) : Option Bytes :=
  if Admitted buffer then
    let intsSize := buffer.length - 2
    let padding := (random &&& 0x0F).toNat
    let bytesSize := intsSize * 4 + padding
    let buffer := buffer.set 1 (Int32.ofNat bytesSize) ++ (List.range ((padding + 3) / 4)).map added
    subspan (bufferBytes buffer) 4 (4 + bytesSize)
  else none

/-- The receiver gets as many bytes as were produced, and the payload in front of them. -/
def Restores (protocol : Protocol) (buffer : List Int32) (bytes : Bytes) : Prop :=
  protocol.readPacketLength bytes = .size bytes.length ∧
    ∃ packet, protocol.readPacket bytes = some packet ∧ packet.take (4 * (buffer.length - 2)) = payload buffer ∧
      (protocol = .version0 → packet = payload buffer)

/-! ## Bytes of a buffer -/

theorem length_bufferBytes (buffer : List Int32) : (bufferBytes buffer).length = 4 * buffer.length := by
  induction buffer with
  | nil => rfl
  | cons n rest ih =>
      rw [bufferBytes, List.flatMap_cons, List.length_append, ← bufferBytes, ih, intBytes, length_toLittleEndian,
        List.length_cons]
      omega

theorem length_payload (buffer : List Int32) : (payload buffer).length = 4 * (buffer.length - 2) := by
  rw [payload, length_bufferBytes, List.length_drop]

/-- The numbers in front of the payload. -/
theorem admitted_form {buffer : List Int32} (admitted : Admitted buffer) :
    ∃ first second rest, buffer = first :: second :: rest := by
  obtain ⟨least, -⟩ := admitted
  match buffer with
  | first :: second :: rest => exact ⟨first, second, rest, rfl⟩

theorem version0_finalizePacket {buffer : List Int32} (admitted : Admitted buffer) :
    Version0.finalizePacket buffer = some (Protocol.finalizePacket .version0 (payload buffer)) := by
  have size := length_payload buffer
  rw [Version0.finalizePacket, if_pos admitted]
  obtain ⟨first, second, rest, rfl⟩ := admitted_form admitted
  have ints : (first :: second :: rest).length - 2 = rest.length := rfl
  rw [ints] at size ⊢
  have data : bufferBytes (first :: second :: rest) =
      intBytes first ++ (intBytes second ++ payload (first :: second :: rest)) := by
    simp [bufferBytes, payload]
  rw [Protocol.finalizePacket, size, data, Nat.mul_div_cancel_left _ (by decide)]
  generalize payload (first :: second :: rest) = packet at size ⊢
  simp only [intBytes, toLittleEndian, List.cons_append, List.nil_append, List.set_cons_succ, List.set_cons_zero]
  split
  · apply @subspan_back _ [_, _, _, _, _, _, _]
    · rfl
    · rw [List.length_cons, size]
      omega
  · have bytes (n : Nat) : UInt8.ofNat (n % 256) = UInt8.ofNat n := by
      rw [← UInt8.toNat_inj, UInt8.toNat_ofNat', UInt8.toNat_ofNat']
      omega
    rw [bytes, bytes, bytes, show rest.length / 2 ^ 16 = rest.length / 256 / 256 by omega]
    apply @subspan_back _ [_, _, _, _]
    · rfl
    · simp only [List.length_cons, size]
      omega

/-- What `VersionD` sends behind the length. -/
def padded (random : UInt32) (added : Nat → Int32) (buffer : List Int32) : Bytes :=
  payload buffer ++
    (bufferBytes ((List.range (((random &&& 0x0F).toNat + 3) / 4)).map added)).take (random &&& 0x0F).toNat

theorem length_padded (random : UInt32) (added : Nat → Int32) (buffer : List Int32) :
    (padded random added buffer).length = 4 * (buffer.length - 2) + (random &&& 0x0F).toNat := by
  rw [padded, List.length_append, length_payload, List.length_take, length_bufferBytes, List.length_map,
    List.length_range]
  omega

theorem padding_le (random : UInt32) : (random &&& 0x0F).toNat ≤ 15 := by
  rw [UInt32.toNat_and]
  exact Nat.and_le_right

theorem intBytes_ofNat {n : Nat} (small : n < 2 ^ 32) : intBytes (Int32.ofNat n) = toLittleEndian 4 n := by
  have value : (Int32.ofNat n).toUInt32.toNat = n := by
    change (UInt32.ofNat n).toNat = n
    rw [UInt32.toNat_ofNat', Nat.mod_eq_of_lt small]
  rw [intBytes, value]

theorem versionD_finalizePacket (random : UInt32) (added : Nat → Int32) {buffer : List Int32}
    (admitted : Admitted buffer) :
    VersionD.finalizePacket random added buffer =
      some (Protocol.finalizePacket .versionD (padded random added buffer)) := by
  have size := length_padded random added buffer
  have most := admitted.2
  have few := padding_le random
  rw [VersionD.finalizePacket, if_pos admitted, Protocol.finalizePacket, size]
  obtain ⟨first, second, rest, rfl⟩ := admitted_form admitted
  have ints : (first :: second :: rest).length - 2 = rest.length := rfl
  unfold padded at size ⊢
  rw [ints] at size ⊢
  rw [List.length_cons, List.length_cons] at most
  dsimp only
  generalize (random &&& 0x0F).toNat = padding at *
  generalize (List.range ((padding + 3) / 4)).map added = numbers at *
  have data : bufferBytes ((first :: second :: rest).set 1 (Int32.ofNat (rest.length * 4 + padding)) ++ numbers) =
      intBytes first ++ (toLittleEndian 4 (4 * rest.length + padding) ++
        (payload (first :: second :: rest) ++ (bufferBytes numbers).take padding) ++
          (bufferBytes numbers).drop padding) := by
    rw [← intBytes_ofNat (n := 4 * rest.length + padding) (by omega), Nat.mul_comm 4]
    simp [bufferBytes, payload, List.append_assoc]
  rw [data]
  apply subspan_middle
  · rw [intBytes, length_toLittleEndian]
    rfl
  · rw [List.length_append, length_toLittleEndian, size]
    omega

/-! ## What is received -/

/-- The receiver takes the length of what was produced for it just where the framing carries the packet. -/
theorem readPacketLength_finalizePacket_iff (protocol : Protocol) {packet : Bytes} (least : 4 ≤ packet.length)
    (most : packet.length ≤ 4 * 2 ^ 24 + 15)
    (whole : protocol = .version0 → packet.length % 4 = 0 ∧ packet.length ≤ 4 * 2 ^ 24) :
    protocol.readPacketLength (protocol.finalizePacket packet) = .size (protocol.finalizePacket packet).length ↔
      protocol.carries packet.length := by
  constructor
  · intro known
    cases protocol with
    | version0 =>
        refine ⟨(whole rfl).1, least, ?_⟩
        by_contra large
        have ints : packet.length / 4 = 2 ^ 24 := by
          have := whole rfl
          omega
        rw [Protocol.finalizePacket, ints] at known
        cases known
    | versionD =>
        refine ⟨least, ?_⟩
        by_contra large
        have front : (toLittleEndian 4 packet.length ++ packet).take 4 = toLittleEndian 4 packet.length :=
          List.take_left' (length_toLittleEndian _ _)
        have value : (packet.length + 4) % 2 ^ 32 = packet.length + 4 := Nat.mod_eq_of_lt (by omega)
        have few : ¬(toLittleEndian 4 packet.length ++ packet).length < 4 := by
          rw [List.length_append, length_toLittleEndian]
          omega
        rw [Protocol.finalizePacket, Protocol.readPacketLength, if_neg few, front,
          fromLittleEndian_toLittleEndian (by omega), value, if_neg fun fits => large fits.2] at known
        cases known
  · exact fun carried => Packet.readPacketLength_bytes ⟨packet, carried⟩

theorem restores_version0_iff {buffer : List Int32} (admitted : Admitted buffer) :
    (∃ bytes, Version0.finalizePacket buffer = some bytes ∧ Restores .version0 buffer bytes) ↔
      buffer.length - 2 < 2 ^ 24 := by
  have size := length_payload buffer
  obtain ⟨least, most⟩ := admitted
  have carried : Protocol.carries .version0 (payload buffer).length ↔ buffer.length - 2 < 2 ^ 24 := by
    rw [size]
    unfold Protocol.carries
    dsimp only
    omega
  have known := @readPacketLength_finalizePacket_iff .version0 (payload buffer) (by omega) (by omega)
    (fun _ => ⟨by omega, by omega⟩)
  simp only [version0_finalizePacket ⟨least, most⟩, Option.some.injEq, exists_eq_left']
  rw [← carried, ← known]
  constructor
  · exact And.left
  · intro length
    have packet := Packet.readPacket_bytes ⟨payload buffer, known.mp length⟩
    exact ⟨length, payload buffer, packet, List.take_of_length_le (by omega), fun _ => rfl⟩

theorem restores_versionD_iff (random : UInt32) (added : Nat → Int32) {buffer : List Int32}
    (admitted : Admitted buffer) :
    (∃ bytes, VersionD.finalizePacket random added buffer = some bytes ∧ Restores .versionD buffer bytes) ↔
      4 * (buffer.length - 2) + (random &&& 0x0F).toNat + 4 < kPacketSizeMax := by
  have size := length_padded random added buffer
  have few := padding_le random
  have front : (padded random added buffer).take (4 * (buffer.length - 2)) = payload buffer :=
    List.take_left' (length_payload buffer)
  obtain ⟨least, most⟩ := admitted
  have carried : Protocol.carries .versionD (padded random added buffer).length ↔
      4 * (buffer.length - 2) + (random &&& 0x0F).toNat + 4 < kPacketSizeMax := by
    rw [size]
    unfold Protocol.carries
    dsimp only
    omega
  have known := @readPacketLength_finalizePacket_iff .versionD (padded random added buffer) (by omega)
    (by omega) nofun
  simp only [versionD_finalizePacket random added ⟨least, most⟩, Option.some.injEq, exists_eq_left']
  rw [← carried, ← known]
  constructor
  · exact And.left
  · intro length
    have packet := Packet.readPacket_bytes ⟨padded random added buffer, known.mp length⟩
    exact ⟨length, padded random added buffer, packet, front, nofun⟩

/-- What is sent can be read if and only if it is shorter than the longest that the sender takes: with
    three bytes for the numbers, or with the padding below the largest packet. -/
theorem finalizePacket_restores_iff {buffer : List Int32} (admitted : Admitted buffer) :
    ((∃ bytes, Version0.finalizePacket buffer = some bytes ∧ Restores .version0 buffer bytes) ↔
      buffer.length - 2 < 2 ^ 24) ∧
    ∀ random added,
      (∃ bytes, VersionD.finalizePacket random added buffer = some bytes ∧ Restores .versionD buffer bytes) ↔
        4 * (buffer.length - 2) + (random &&& 0x0F).toNat + 4 < kPacketSizeMax :=
  ⟨restores_version0_iff admitted, fun random added => restores_versionD_iff random added admitted⟩

theorem finalizePacket_restores_three :
    Admitted [0, 0, 7] ∧
      (∃ bytes, Version0.finalizePacket [0, 0, 7] = some bytes ∧ Restores .version0 [0, 0, 7] bytes) ∧
      ∃ bytes, VersionD.finalizePacket 5 (fun _ => 0) [0, 0, 7] = some bytes ∧ Restores .versionD [0, 0, 7] bytes := by
  have admitted : Admitted [0, 0, 7] := by decide
  obtain ⟨version0, versionD⟩ := finalizePacket_restores_iff admitted
  exact ⟨admitted, version0.mpr (by decide), (versionD 5 fun _ => 0).mpr (by decide)⟩

/-- The longest buffer is sent with a length that is not valid. -/
theorem longest_not_restored :
    Admitted (List.replicate 0x1000002 0) ∧
      (¬∃ bytes, Version0.finalizePacket (List.replicate 0x1000002 0) = some bytes ∧
        Restores .version0 (List.replicate 0x1000002 0) bytes) ∧
      ¬∃ bytes, VersionD.finalizePacket 0 (fun _ => 0) (List.replicate 0x1000002 0) = some bytes ∧
        Restores .versionD (List.replicate 0x1000002 0) bytes := by
  have admitted : Admitted (List.replicate 0x1000002 0) := by
    unfold Admitted
    rw [List.length_replicate]
    decide
  refine ⟨admitted, ?_, ?_⟩
  · rw [restores_version0_iff admitted, List.length_replicate]
    decide
  · rw [restores_versionD_iff 0 _ admitted, List.length_replicate]
    decide

end Protocol

end IMeDesktop.Mtproto
