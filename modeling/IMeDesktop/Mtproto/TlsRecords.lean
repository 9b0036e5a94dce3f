import IMeDesktop.Mtproto.TlsSocket

/-! # Application records of the TLS-like socket

After the hello every byte is part of a record: a fixed header, a 16-bit length and a
payload. Reading returns payload bytes in order, wherever chunks and reads begin and
end; writing cuts what it is given into records of limited size.

A header is looked at only when more than its five bytes are there, so a bad header
is noticed one byte later than it could be, and an empty record at the end is left
in the buffer.
-/

namespace IMeDesktop.Mtproto

open Lib

/-- A record whose length fits in its header. -/
structure TlsRecord where
  payload : Bytes
  fits : payload.length < 2 ^ 16

namespace TlsRecord

def empty : TlsRecord := ⟨[], by decide⟩

/-- Server and client records have the same header. -/
def encode (r : TlsRecord) : Bytes := kServerHeader ++ toBigEndian r.payload.length ++ r.payload

def encodeAll (rs : List TlsRecord) : Bytes := rs.flatMap encode

def payloads (rs : List TlsRecord) : Bytes := rs.flatMap payload

@[simp]
theorem encodeAll_nil : encodeAll [] = [] := rfl

@[simp]
theorem encodeAll_cons (r : TlsRecord) (rs : List TlsRecord) :
    encodeAll (r :: rs) = r.encode ++ encodeAll rs := List.flatMap_cons

@[simp]
theorem encodeAll_append (rs rs' : List TlsRecord) :
    encodeAll (rs ++ rs') = encodeAll rs ++ encodeAll rs' := List.flatMap_append

@[simp]
theorem payloads_nil : payloads [] = [] := rfl

@[simp]
theorem payloads_cons (r : TlsRecord) (rs : List TlsRecord) :
    payloads (r :: rs) = r.payload ++ payloads rs := List.flatMap_cons

@[simp]
theorem payloads_append (rs rs' : List TlsRecord) :
    payloads (rs ++ rs') = payloads rs ++ payloads rs' := List.flatMap_append

theorem length_encode (r : TlsRecord) : r.encode.length = 5 + r.payload.length := by
  simp only [encode, kServerHeader, List.length_append, List.length_cons, List.length_nil,
    length_toBigEndian]

@[simp]
theorem payloads_empties (k : Nat) : payloads (List.replicate k empty) = [] := by
  induction k with
  | zero => rfl
  | succ k ih =>
      rw [List.replicate_succ, payloads_cons, ih]
      rfl

theorem length_empties (k : Nat) : (encodeAll (List.replicate k empty)).length = 5 * k := by
  induction k with
  | zero => rfl
  | succ k ih =>
      rw [List.replicate_succ, encodeAll_cons, List.length_append, ih, length_encode]
      simp only [empty, List.length_nil]
      omega

/-- A buffer that begins with the header of an `n`-byte record. -/
def header (n : Nat) : Bytes := kServerHeader ++ toBigEndian n

theorem length_header (n : Nat) : (header n).length = 5 := rfl

theorem encode_eq (r : TlsRecord) : r.encode = header r.payload.length ++ r.payload := rfl

theorem checkPart_header (n : Nat) (rest : Bytes) : checkPart (header n ++ rest) kServerHeader = true := by
  simp [checkPart, header, kServerHeader, toBigEndian]

theorem header_injective {m n : Nat} {rest rest' : Bytes} (hm : m < 2 ^ 16) (hn : n < 2 ^ 16)
    (same : header m ++ rest = header n ++ rest') : m = n ∧ rest = rest' := by
  obtain ⟨left, right⟩ := List.append_inj same rfl
  obtain ⟨-, lengths⟩ := List.append_inj left rfl
  exact ⟨toBigEndian_injective hm hn lengths, right⟩

/-- Bytes are cut into records in one way only. -/
theorem encodeAll_unique {done rs : List TlsRecord} {rest tail : Bytes}
    (bad : checkPart tail kServerHeader = false)
    (same : encodeAll done ++ rest = encodeAll rs ++ tail) :
    ∃ left, rs = done ++ left ∧ rest = encodeAll left ++ tail := by
  induction done generalizing rs with
  | nil => exact ⟨rs, rfl, same⟩
  | cons d done ih =>
      rw [encodeAll_cons, encode_eq, List.append_assoc, List.append_assoc] at same
      cases rs with
      | nil =>
          rw [encodeAll_nil, List.nil_append] at same
          rw [← same, checkPart_header] at bad
          cases bad
      | cons r rs =>
          rw [encodeAll_cons, encode_eq, List.append_assoc, List.append_assoc] at same
          obtain ⟨size, same⟩ := header_injective d.fits r.fits same
          obtain ⟨payload, same⟩ := List.append_inj same size
          obtain ⟨left, rfl, rest⟩ := ih same
          have record : d = r := by
            obtain ⟨payload₁, fits₁⟩ := d
            obtain ⟨payload₂, fits₂⟩ := r
            simp only at payload
            subst payload
            rfl
          exact ⟨left, by rw [record, List.cons_append], rest⟩

end TlsRecord

namespace TlsSocket

open TlsRecord

/-! ## Looking for the next record -/

theorem checkPart_take_of_le {data part : Bytes} {count : Nat} (inside : count ≤ data.length)
    (fits : part.length ≤ count) : checkPart (data.take count) part = checkPart data part := by
  have long : ¬ (data.take count).length < part.length := by
    rw [List.length_take]
    omega
  have long' : ¬ data.length < part.length := by omega
  rw [checkPart, checkPart, if_neg long, if_neg long', List.take_take, Nat.min_eq_left fits]

/-- Five bytes with the right first three are a header. -/
theorem header_of_checkPart {data : Bytes} (long : 5 ≤ data.length)
    (good : checkPart data kServerHeader = true) :
    data = header (fromBigEndian ((data.drop 3).take 2)) ++ data.drop 5 := by
  obtain ⟨a, b, c, high, low, rest, rfl⟩ : ∃ a b c high low rest, data = a :: b :: c :: high :: low :: rest := by
    match data, long with
    | a :: b :: c :: high :: low :: rest, _ => exact ⟨a, b, c, high, low, rest, rfl⟩
  have first : [a, b, c] = kServerHeader := by
    unfold checkPart at good
    split_ifs at good
    exact eq_of_beq good
  change a :: b :: c :: high :: low :: rest = header (fromBigEndian [high, low]) ++ rest
  rw [header, toBigEndian_fromBigEndian, ← first]
  rfl

/-- What `checkNextPacket` can find behind the empty records: too little, a bad header,
    or the beginning of a record. -/
inductive Found (s : TlsSocket) : Option (Bool × TlsSocket) → Prop
  | starved (k : Nat) (short : Bytes) (split : s.incoming = encodeAll (List.replicate k .empty) ++ short)
      (few : short.length ≤ 5) : Found s (some (true, s))
  | bad (k : Nat) (rest : Bytes) (split : s.incoming = encodeAll (List.replicate k .empty) ++ rest)
      (many : 5 < rest.length) (wrong : checkPart rest kServerHeader = false) : Found s (some (false, s))
  | record (k n : Nat) (rest : Bytes)
      (split : s.incoming = encodeAll (List.replicate k .empty) ++ (header n ++ rest))
      (positive : 0 < n) (small : n < 2 ^ 16) :
      Found s (some (true, { s with
        incoming := header n ++ rest, incomingGoodDataOffset := 5, incomingGoodDataLimit := n }))

theorem checkNextPacketLoop_found {s : TlsSocket} {fuel k : Nat} {rest : Bytes}
    (offset : s.incomingGoodDataOffset = 0) (limit : s.incomingGoodDataLimit = 0)
    (split : s.incoming = encodeAll (List.replicate k .empty) ++ rest) (enough : rest.length < fuel) :
    Found s (checkNextPacketLoop fuel s (5 * k)) := by
  induction fuel generalizing k rest with
  | zero => omega
  | succ fuel ih =>
      have total : s.incoming.length = 5 * k + rest.length := by
        rw [split, List.length_append, length_empties]
      have dropped : s.incoming.drop (5 * k) = rest := by
        rw [split, ← length_empties k, List.drop_left]
      have fullHeader : kServerHeader.length + kLengthSize = 5 := rfl
      rw [checkNextPacketLoop, if_neg (by omega)]
      simp only [fullHeader]
      by_cases few : rest.length ≤ 5
      · rw [if_pos (by omega)]
        exact .starved k rest split few
      · have whole : subspan s.incoming (5 * k : Nat) (-1) = some rest := by
          rw [subspan_rest (by omega), dropped]
        have length : readPartLength s.incoming ((5 * k : Nat) + kServerHeader.length) =
            some (fromBigEndian ((rest.drop 3).take 2)) := by
          have inside : 5 * k + 3 + 2 ≤ s.incoming.length := by omega
          change (subspan s.incoming (5 * k + 3 : Nat) (2 : Nat)).map fromBigEndian = _
          rw [subspan_inside inside, ← List.drop_drop, dropped]
          rfl
        rw [if_neg (by omega), whole, length]
        cases good : checkPart rest kServerHeader with
        | false =>
            simp only [good, Bool.not_false, if_true]
            exact .bad k rest split (by omega) good
        | true =>
            have form := header_of_checkPart (by omega) good
            have small := fromBigEndian_lt ((rest.drop 3).take 2)
            generalize fromBigEndian ((rest.drop 3).take 2) = n at form small ⊢
            simp only [good, Bool.not_true, Bool.false_eq_true, if_false]
            by_cases positive : n > 0
            · rw [if_pos positive]
              have shifted : (if 5 * k > 0 then s.shiftIncomingBy (5 * k) else some s) =
                  some { s with incoming := rest } := by
                split_ifs with skipped
                · rw [shiftIncomingBy, if_pos ⟨offset, limit⟩, if_pos (by omega), dropped]
                · have none : k = 0 := by omega
                  subst none
                  rw [List.replicate_zero, encodeAll_nil, List.nil_append] at split
                  rw [← split]
              rw [shifted]
              simp only
              rw [form] at split ⊢
              exact .record k n (rest.drop 5) split positive small
            · have zero : n = 0 := by omega
              subst zero
              rw [if_neg positive]
              have next : 5 * k + kServerHeader.length + kLengthSize + 0 = 5 * (k + 1) := by
                change 5 * k + 3 + 2 + 0 = _
                omega
              rw [next]
              have shorter : (rest.drop 5).length < fuel := by
                rw [List.length_drop]
                omega
              refine ih ?_ shorter
              rw [split, List.replicate_succ', encodeAll_append, encodeAll_cons, encodeAll_nil,
                List.append_nil, List.append_assoc]
              congr 1

theorem checkNextPacket_found {s : TlsSocket} (offset : s.incomingGoodDataOffset = 0)
    (limit : s.incomingGoodDataLimit = 0) : Found s s.checkNextPacket := by
  have split : s.incoming = encodeAll (List.replicate 0 .empty) ++ s.incoming := rfl
  exact checkNextPacketLoop_found offset limit split (Nat.lt_succ_self _)

theorem checkNextPacket_busy {s : TlsSocket} (limit : s.incomingGoodDataLimit ≠ 0) :
    s.checkNextPacket = some (true, s) := by
  rw [checkNextPacket, checkNextPacketLoop, if_pos limit]

/-! ## Where reading stands -/

/-- Of the bytes `taken`, the records `done` have been read, and of the next one what
    is in front of the good data offset; `out` is what was read. -/
structure ReadUpTo (taken out : Bytes) (done : List TlsRecord) (s : TlsSocket) : Prop where
  taken : taken = encodeAll done ++ s.incoming
  between : s.incomingGoodDataLimit = 0 → s.incomingGoodDataOffset = 0 ∧ out = payloads done
  within : s.incomingGoodDataLimit ≠ 0 → ∃ n rest, s.incoming = header n ++ rest ∧ n < 2 ^ 16 ∧
    5 ≤ s.incomingGoodDataOffset ∧ s.incomingGoodDataOffset ≤ s.incoming.length ∧
    s.incomingGoodDataOffset + s.incomingGoodDataLimit = 5 + n ∧
    out = payloads done ++ rest.take (s.incomingGoodDataOffset - 5)

/-- Between two events the socket has looked at the next header as far as it can. -/
inductive Settled (s : TlsSocket) : Prop
  | busy (connected : s.state = .connected) (limit : s.incomingGoodDataLimit ≠ 0)
  | starved (connected : s.state = .connected) (limit : s.incomingGoodDataLimit = 0)
      (k : Nat) (short : Bytes) (split : s.incoming = encodeAll (List.replicate k .empty) ++ short)
      (few : short.length ≤ 5)
  | failed (error : s.state = .error) (limit : s.incomingGoodDataLimit = 0)
      (k : Nat) (rest : Bytes) (split : s.incoming = encodeAll (List.replicate k .empty) ++ rest)
      (many : 5 < rest.length) (wrong : checkPart rest kServerHeader = false)

theorem shiftIncomingBy_eq {s : TlsSocket} (offset : s.incomingGoodDataOffset = 0)
    (limit : s.incomingGoodDataLimit = 0) (amount : Nat) :
    s.shiftIncomingBy amount = some { s with incoming := s.incoming.drop amount } := by
  rw [shiftIncomingBy, if_pos ⟨offset, limit⟩]
  split_ifs with longer
  · rfl
  · rw [List.drop_eq_nil_of_le (by omega)]

/-- What a check leaves, between records: settled, and as far as before. -/
theorem readUpTo_check {taken out : Bytes} {done : List TlsRecord} {s : TlsSocket}
    (h : ReadUpTo taken out done s) (connected : s.state = .connected)
    (limit : s.incomingGoodDataLimit = 0) :
    ∃ ok s', s.checkNextPacket = some (ok, s') ∧ s'.state = .connected ∧
      (∃ done', ReadUpTo taken out done' s') ∧
      (ok = true → Settled s') ∧ (ok = false → s' = s ∧ Settled s.handleError) := by
  obtain ⟨offset, same⟩ := h.between limit
  generalize result : s.checkNextPacket = answer
  have found := checkNextPacket_found offset limit
  rw [result] at found
  cases found with
  | starved k short split few =>
      exact ⟨true, s, rfl, connected, ⟨done, h⟩, fun _ => .starved connected limit k short split few,
        nofun⟩
  | bad k rest split many wrong =>
      exact ⟨false, s, rfl, connected, ⟨done, h⟩, nofun,
        fun _ => ⟨rfl, .failed rfl limit k rest split many wrong⟩⟩
  | record k n rest split positive small =>
      have busy : n ≠ 0 := by omega
      refine ⟨true, _, rfl, connected, ⟨done ++ List.replicate k .empty, ?_, ?_, ?_⟩,
        fun _ => .busy connected busy, nofun⟩
      · rw [encodeAll_append, List.append_assoc, ← split]
        exact h.taken
      · exact fun zero => absurd zero busy
      · intro _
        refine ⟨n, rest, rfl, small, Nat.le_refl _, ?_, rfl, ?_⟩
        · change 5 ≤ (header n ++ rest).length
          rw [List.length_append, length_header]
          omega
        · rw [payloads_append, payloads_empties, same]
          simp

/-! ## Reading -/

/-- Nothing to return: no record is open, or nothing of it is there. -/
def Dry (s : TlsSocket) : Prop :=
  s.incomingGoodDataLimit = 0 ∨ s.incoming.length ≤ s.incomingGoodDataOffset

/-- The part of a record behind the offset. -/
theorem drop_header {n offset : Nat} {rest : Bytes} (inside : 5 ≤ offset) :
    (header n ++ rest).drop offset = rest.drop (offset - 5) := by
  rw [List.drop_append, length_header, List.drop_eq_nil_of_le (by rw [length_header]; exact inside),
    List.nil_append]

/-- Taking some of an open record. -/
theorem readUpTo_within {taken out : Bytes} {done : List TlsRecord} {s : TlsSocket}
    (h : ReadUpTo taken out done s) {write : Nat}
    (inside : s.incomingGoodDataOffset + write ≤ s.incoming.length)
    (less : write < s.incomingGoodDataLimit) :
    ReadUpTo taken (out ++ (s.incoming.drop s.incomingGoodDataOffset).take write) done
      { s with
        incomingGoodDataLimit := s.incomingGoodDataLimit - write
        incomingGoodDataOffset := s.incomingGoodDataOffset + write } := by
  obtain ⟨n, rest, form, small, least, -, total, same⟩ := h.within (by omega)
  refine ⟨h.taken, fun zero => ?_, fun _ => ⟨n, rest, form, small, ?_, inside, ?_, ?_⟩⟩
  · simp only at zero
    omega
  · simp only
    omega
  · simp only
    omega
  · simp only
    have position : s.incomingGoodDataOffset + write - 5 = s.incomingGoodDataOffset - 5 + write := by
      omega
    rw [same, form, drop_header least, List.append_assoc, position, List.take_add]

/-- Taking the rest of an open record. -/
theorem readUpTo_end {taken out : Bytes} {done : List TlsRecord} {s : TlsSocket}
    (h : ReadUpTo taken out done s) (busy : s.incomingGoodDataLimit ≠ 0)
    (inside : s.incomingGoodDataOffset + s.incomingGoodDataLimit ≤ s.incoming.length) :
    ∃ done', ReadUpTo taken
      (out ++ (s.incoming.drop s.incomingGoodDataOffset).take s.incomingGoodDataLimit) done'
      { s with
        incoming := s.incoming.drop (s.incomingGoodDataOffset + s.incomingGoodDataLimit)
        incomingGoodDataLimit := 0
        incomingGoodDataOffset := 0 } := by
  obtain ⟨n, rest, form, small, least, -, total, same⟩ := h.within busy
  have long : n ≤ rest.length := by
    rw [form, List.length_append, length_header] at inside
    omega
  have size : (rest.take n).length = n := by
    rw [List.length_take]
    omega
  refine ⟨done ++ [⟨rest.take n, by omega⟩], ⟨?_, fun _ => ⟨rfl, ?_⟩, nofun⟩⟩
  · rw [encodeAll_append, encodeAll_cons, encodeAll_nil, List.append_nil, encode_eq, List.append_assoc]
    simp only [size]
    rw [total, form, drop_header (by omega), Nat.add_sub_cancel_left, List.append_assoc,
      List.take_append_drop, ← form]
    exact h.taken
  · have position : s.incomingGoodDataOffset - 5 + s.incomingGoodDataLimit = n := by omega
    rw [same, form, drop_header least, List.append_assoc, ← List.take_add, position, payloads_append,
      payloads_cons, payloads_nil, List.append_nil]

theorem readLoop_spec {taken out : Bytes} {done : List TlsRecord} {s : TlsSocket} {fuel size : Nat}
    (h : ReadUpTo taken out done s) (settled : Settled s) (enough : size < fuel) :
    ∃ bytes s', readLoop fuel s size = some (bytes, s') ∧
      (∃ done', ReadUpTo taken (out ++ bytes) done' s') ∧ Settled s' ∧
      (bytes = [] → 0 < size → s' = s ∧ Dry s) := by
  induction fuel generalizing out done s size with
  | zero => omega
  | succ fuel ih =>
      rw [readLoop]
      by_cases idle : s.incomingGoodDataLimit = 0
      · rw [if_pos idle]
        exact ⟨[], s, rfl, ⟨done, by rwa [List.append_nil]⟩, settled, fun _ _ => ⟨rfl, .inl idle⟩⟩
      · have connected : s.state = .connected := by
          cases settled with
          | busy connected => exact connected
          | starved _ limit => exact absurd limit idle
          | failed _ limit => exact absurd limit idle
        rw [if_neg idle]
        simp only
        by_cases dry : min s.incomingGoodDataLimit (s.incoming.length - s.incomingGoodDataOffset) = 0
        · rw [if_pos dry]
          exact ⟨[], s, rfl, ⟨done, by rwa [List.append_nil]⟩, settled,
            fun _ _ => ⟨rfl, .inr (by omega)⟩⟩
        · rw [if_neg dry]
          generalize amount :
            min (min s.incomingGoodDataLimit (s.incoming.length - s.incomingGoodDataOffset)) size = write
          by_cases none : write = 0
          · rw [if_pos none]
            exact ⟨[], s, rfl, ⟨done, by rwa [List.append_nil]⟩, settled, fun _ positive => by omega⟩
          · have inside : s.incomingGoodDataOffset + write ≤ s.incoming.length := by omega
            have some : (s.incoming.drop s.incomingGoodDataOffset).take write ≠ [] := by
              intro empty
              have length := congrArg List.length empty
              rw [List.length_take, List.length_drop, List.length_nil] at length
              omega
            rw [if_neg none, subspan_inside inside]
            simp only
            by_cases less : write < s.incomingGoodDataLimit
            · have left : s.incomingGoodDataLimit - write ≠ 0 := by omega
              rw [if_pos left]
              exact ⟨_, _, rfl, ⟨done, readUpTo_within h inside less⟩, .busy connected left,
                fun empty => absurd empty some⟩
            · have all : write = s.incomingGoodDataLimit := by omega
              subst all
              rw [if_neg (by omega), shiftIncomingBy_eq rfl (by simp only; omega)]
              simp only [Nat.sub_self]
              obtain ⟨done', next⟩ := readUpTo_end h idle inside
              obtain ⟨ok, s', check, connected', ⟨done'', kept⟩, good, bad⟩ :=
                readUpTo_check next connected rfl
              rw [check]
              cases ok with
              | false =>
                  obtain ⟨rfl, failed⟩ := bad rfl
                  exact ⟨_, _, rfl, ⟨done'', kept.taken, kept.between, kept.within⟩, failed,
                    fun empty => absurd empty some⟩
              | true =>
                  have left : size - s.incomingGoodDataLimit < fuel := by omega
                  obtain ⟨more, last, loop, ⟨done₃, final⟩, settled', -⟩ := ih kept (good rfl) left
                  simp only [loop, Option.map_some]
                  refine ⟨_, last, rfl, ⟨done₃, ?_⟩, settled', fun empty => ?_⟩
                  · rw [← List.append_assoc]
                    exact final
                  · exact absurd (List.append_eq_nil_iff.mp empty).1 some

theorem read_spec {taken out : Bytes} {done : List TlsRecord} {s : TlsSocket}
    (h : ReadUpTo taken out done s) (settled : Settled s) (size : Nat) :
    ∃ bytes s', s.read size = some (bytes, s') ∧
      (∃ done', ReadUpTo taken (out ++ bytes) done' s') ∧ Settled s' ∧
      (bytes = [] → 0 < size → s' = s ∧ Dry s) :=
  readLoop_spec h settled (Nat.lt_succ_self size)

/-- More bytes change nothing about what was read. -/
theorem readUpTo_append {taken out : Bytes} {done : List TlsRecord} {s : TlsSocket}
    (h : ReadUpTo taken out done s) (chunk : Bytes) :
    ReadUpTo (taken ++ chunk) out done (s.append chunk) := by
  refine ⟨?_, h.between, fun busy => ?_⟩
  · rw [h.taken, List.append_assoc]
    rfl
  · obtain ⟨n, rest, form, small, least, inside, total, same⟩ := h.within busy
    refine ⟨n, rest ++ chunk, ?_, small, least, ?_, total, ?_⟩
    · rw [append, form, List.append_assoc]
    · exact Nat.le_trans inside (by rw [append, List.length_append]; omega)
    · have short : s.incomingGoodDataOffset - 5 ≤ rest.length := by
        rw [form, List.length_append, length_header] at inside
        omega
      rw [same]
      exact congrArg _ (List.take_append_of_le_length short).symm

theorem readData_spec {taken out : Bytes} {done : List TlsRecord} {s : TlsSocket}
    (h : ReadUpTo taken out done s) (settled : Settled s) (chunk : Bytes) :
    ∃ s', s.readData chunk = some s' ∧ Settled s' ∧
      ((s.state = .connected ∧ ∃ done', ReadUpTo (taken ++ chunk) out done' s') ∨
        (s.state = .error ∧ s' = s)) := by
  have grown := readUpTo_append h chunk
  have checked : ∀ connected : s.state = .connected,
      (∃ s', s.readData chunk = some s' ∧ Settled s' ∧ ∃ done', ReadUpTo (taken ++ chunk) out done' s') := by
    intro connected
    have on : (!s.isConnected) = false := by rw [isConnected, connected]; rfl
    by_cases limit : s.incomingGoodDataLimit = 0
    · obtain ⟨ok, s', check, connected', ⟨done', kept⟩, good, bad⟩ := readUpTo_check grown connected limit
      rw [readData, on, check]
      cases ok with
      | true => exact ⟨s', rfl, good rfl, done', kept⟩
      | false =>
          obtain ⟨rfl, failed⟩ := bad rfl
          exact ⟨_, rfl, failed, done', kept.taken, kept.between, kept.within⟩
    · have busy : (s.append chunk).incomingGoodDataLimit ≠ 0 := limit
      rw [readData, on, checkNextPacket_busy busy]
      exact ⟨_, rfl, .busy connected limit, done, grown⟩
  cases settled with
  | busy connected limit =>
      obtain ⟨s', data, settled', kept⟩ := checked connected
      exact ⟨s', data, settled', .inl ⟨connected, kept⟩⟩
  | starved connected limit k short split few =>
      obtain ⟨s', data, settled', kept⟩ := checked connected
      exact ⟨s', data, settled', .inl ⟨connected, kept⟩⟩
  | failed error limit k rest split many wrong =>
      have off : (!s.isConnected) = true := by rw [isConnected, error]; rfl
      refine ⟨s, ?_, .failed error limit k rest split many wrong, .inr ⟨error, rfl⟩⟩
      rw [readData, if_pos off]

/-! ## Whole runs -/

inductive TlsEvent where
  | readData (chunk : Bytes)
  | read (size : Nat)

/-- The bytes that came from the network. -/
def arrived : List TlsEvent → Bytes
  | [] => []
  | .readData chunk :: events => chunk ++ arrived events
  | .read _ :: events => arrived events

/-- What all reads of a run return, and the socket after it. -/
def run (s : TlsSocket) : List TlsEvent → Option (Bytes × TlsSocket)
  | [] => some ([], s)
  | .readData chunk :: events =>
      match s.readData chunk with
      | none => none
      | some s => run s events
  | .read size :: events =>
      match s.read size with
      | none => none
      | some (bytes, s) => (run s events).map fun (more, s) => (bytes ++ more, s)

theorem read_idle {s : TlsSocket} (limit : s.incomingGoodDataLimit = 0) (size : Nat) :
    s.read size = some ([], s) := by
  rw [read, readLoop, if_pos limit]

/-- A run never fails, and stands somewhere in what it took from the network. -/
theorem run_spec {taken out : Bytes} {done : List TlsRecord} {s : TlsSocket}
    (h : ReadUpTo taken out done s) (settled : Settled s) (events : List TlsEvent) :
    ∃ bytes s', s.run events = some (bytes, s') ∧ Settled s' ∧
      ∃ more left done', arrived events = more ++ left ∧
        (s'.state = .error ∨ left = []) ∧ (s.state = .error → s'.state = .error ∧ more = []) ∧
        ReadUpTo (taken ++ more) (out ++ bytes) done' s' := by
  induction events generalizing taken out done s with
  | nil =>
      exact ⟨[], s, rfl, settled, [], [], done, rfl, .inr rfl, fun error => ⟨error, rfl⟩,
        by rwa [List.append_nil, List.append_nil]⟩
  | cons event events ih =>
      cases event with
      | readData chunk =>
          obtain ⟨s₁, data, settled₁, ⟨connected, done₁, kept⟩ | ⟨error, rfl⟩⟩ :=
            readData_spec h settled chunk
          · obtain ⟨bytes, s₂, rest, settled₂, more, left, done₂, split, all, -, final⟩ :=
              ih kept settled₁
            refine ⟨bytes, s₂, ?_, settled₂, chunk ++ more, left, done₂, ?_, all, ?_, ?_⟩
            · rw [run, data]
              exact rest
            · rw [arrived, split, List.append_assoc]
            · intro error
              rw [connected] at error
              cases error
            · rw [← List.append_assoc]
              exact final
          · obtain ⟨bytes, s₂, rest, settled₂, more, left, done₂, split, -, stays, final⟩ :=
              ih h settled₁
            obtain ⟨failed, rfl⟩ := stays error
            refine ⟨bytes, s₂, ?_, settled₂, [], chunk ++ left, done₂, ?_, .inl failed,
              fun _ => ⟨failed, rfl⟩, final⟩
            · rw [run, data]
              exact rest
            · rw [arrived, split, List.nil_append, List.nil_append]
      | read size =>
          obtain ⟨bytes₁, s₁, read, ⟨done₁, kept⟩, settled₁, -⟩ := read_spec h settled size
          obtain ⟨bytes, s₂, rest, settled₂, more, left, done₂, split, all, stays, final⟩ :=
            ih kept settled₁
          refine ⟨bytes₁ ++ bytes, s₂, ?_, settled₂, more, left, done₂, split, all, ?_, ?_⟩
          · rw [run, read]
            simp only [rest, Option.map_some]
          · intro error
            have limit : s.incomingGoodDataLimit = 0 := by
              cases settled with
              | busy connected => rw [connected] at error; cases error
              | starved connected => rw [connected] at error; cases error
              | failed _ limit => exact limit
            rw [read_idle limit] at read
            cases read
            exact stays error
          · rw [← List.append_assoc]
            exact final

/-- The socket right after the hello, with nothing left over. -/
def afterHello : TlsSocket := { state := .connected }

theorem readUpTo_afterHello : ReadUpTo [] [] [] afterHello :=
  ⟨rfl, fun _ => ⟨rfl, rfl⟩, fun busy => absurd rfl busy⟩

theorem settled_afterHello : Settled afterHello := .starved rfl rfl 0 [] rfl (Nat.zero_le _)

/-! ## What a server stream gives -/

section Stream

variable {rs done : List TlsRecord} {taken out tail later : Bytes} {s : TlsSocket}

/-- Wherever reading stands in a stream of records, only their payloads were read. -/
theorem readUpTo_payloads (h : ReadUpTo taken out done s)
    (bad : checkPart tail kServerHeader = false) (stream : taken ++ later = encodeAll rs ++ tail) :
    out <+: payloads rs := by
  rw [h.taken, List.append_assoc] at stream
  obtain ⟨left, rfl, rest⟩ := encodeAll_unique bad stream
  rw [payloads_append]
  by_cases limit : s.incomingGoodDataLimit = 0
  · rw [(h.between limit).2]
    exact List.prefix_append _ _
  · obtain ⟨n, data, form, small, least, inside, total, same⟩ := h.within limit
    rw [form, List.append_assoc] at rest
    cases left with
    | nil =>
        rw [encodeAll_nil, List.nil_append] at rest
        rw [← rest, checkPart_header] at bad
        cases bad
    | cons r left =>
        rw [encodeAll_cons, encode_eq, List.append_assoc, List.append_assoc] at rest
        obtain ⟨size, rest⟩ := header_injective small r.fits rest
        have short : s.incomingGoodDataOffset - 5 ≤ data.length := by
          rw [form, List.length_append, length_header] at inside
          omega
        have shared : data.take (s.incomingGoodDataOffset - 5) =
            r.payload.take (s.incomingGoodDataOffset - 5) := by
          rw [← List.take_append_of_le_length short, rest, List.take_append_of_le_length (by omega)]
        rw [same, shared, payloads_cons]
        exact (List.prefix_append_right_inj _).mpr
          ((List.take_prefix _ _).trans (List.prefix_append _ _))

/-- Five bytes hold no record with a payload. -/
theorem payloads_short {left : List TlsRecord} (short : (encodeAll left).length ≤ 5) :
    payloads left = [] := by
  induction left with
  | nil => rfl
  | cons r left ih =>
      rw [encodeAll_cons, List.length_append, length_encode] at short
      have none : r.payload = [] := List.length_eq_zero_iff.mp (by omega)
      rw [payloads_cons, none, ih (by omega)]
      rfl

/-- A failed socket stands right before the bad header. -/
theorem failed_payloads (h : ReadUpTo taken out done s) (limit : s.incomingGoodDataLimit = 0)
    {k : Nat} {rest : Bytes} (split : s.incoming = encodeAll (List.replicate k .empty) ++ rest)
    (many : 5 < rest.length) (wrong : checkPart rest kServerHeader = false)
    (bad : checkPart tail kServerHeader = false) (stream : taken ++ later = encodeAll rs ++ tail) :
    out = payloads rs ∧ 5 < tail.length := by
  have same : encodeAll (done ++ List.replicate k .empty) ++ (rest ++ later) = encodeAll rs ++ tail := by
    rw [← stream, h.taken, split, encodeAll_append]
    simp only [List.append_assoc]
  obtain ⟨left, rfl, follows⟩ := encodeAll_unique bad same
  have none : left = [] := by
    cases left with
    | nil => rfl
    | cons r left =>
        have good : checkPart (rest ++ later) kServerHeader = true := by
          rw [follows, encodeAll_cons, encode_eq, List.append_assoc, List.append_assoc]
          exact checkPart_header _ _
        have whole : checkPart ((rest ++ later).take rest.length) kServerHeader =
            checkPart (rest ++ later) kServerHeader :=
          checkPart_take_of_le (by rw [List.length_append]; omega) (by change 3 ≤ _; omega)
        rw [List.take_left, wrong, good] at whole
        cases whole
  subst none
  refine ⟨?_, ?_⟩
  · rw [(h.between limit).2, payloads_append, payloads_append, payloads_empties, payloads_nil,
      List.append_nil, List.append_nil]
  · rw [encodeAll_nil, List.nil_append] at follows
    rw [← follows, List.length_append]
    omega

/-- A dry socket has read everything there is to read. -/
theorem dry_payloads (h : ReadUpTo taken out done s) (settled : Settled s) (dry : Dry s)
    (bad : checkPart tail kServerHeader = false) (stream : taken ++ later = encodeAll rs ++ tail)
    (all : s.state = .error ∨ later = []) :
    out = payloads rs ∧ (5 < tail.length → s.state = .error) := by
  cases settled with
  | failed error limit k rest split many wrong =>
      exact ⟨(failed_payloads h limit split many wrong bad stream).1, fun _ => error⟩
  | starved connected limit k short split few =>
      have none : later = [] := all.resolve_left (by rw [connected]; decide)
      have same : encodeAll (done ++ List.replicate k .empty) ++ short = encodeAll rs ++ tail := by
        rw [← stream, none, h.taken, split, encodeAll_append]
        simp only [List.append_assoc, List.append_nil]
      obtain ⟨left, rfl, follows⟩ := encodeAll_unique bad same
      rw [follows, List.length_append] at few
      have nothing : payloads left = [] := payloads_short (by omega)
      refine ⟨?_, fun long => by omega⟩
      rw [(h.between limit).2, payloads_append, payloads_append, payloads_empties, nothing,
        List.append_nil, List.append_nil]
  | busy connected limit =>
      have none : later = [] := all.resolve_left (by rw [connected]; decide)
      obtain ⟨n, data, form, small, least, inside, total, same⟩ := h.within limit
      have ends : s.incoming.length ≤ s.incomingGoodDataOffset := dry.resolve_left limit
      rw [none, List.append_nil, h.taken] at stream
      obtain ⟨left, rfl, rest⟩ := encodeAll_unique bad stream
      rw [form] at rest
      -- the open record is complete, so it cannot be dry
      cases left with
      | nil =>
          rw [encodeAll_nil, List.nil_append] at rest
          rw [← rest, checkPart_header] at bad
          cases bad
      | cons r left =>
          rw [encodeAll_cons, encode_eq, List.append_assoc, List.append_assoc] at rest
          obtain ⟨size, rest⟩ := header_injective small r.fits rest
          rw [form, List.length_append, length_header, rest, List.length_append] at ends
          omega

/-- A short rest is no reason to fail. -/
theorem short_stays_connected (h : ReadUpTo taken out done s) (settled : Settled s)
    (bad : checkPart tail kServerHeader = false) (stream : taken ++ later = encodeAll rs ++ tail)
    (short : tail.length ≤ 5) : s.state = .connected := by
  cases settled with
  | busy connected => exact connected
  | starved connected => exact connected
  | failed _ limit k rest split many wrong =>
      have long := (failed_payloads h limit split many wrong bad stream).2
      omega

end Stream

/-! ## Writing -/

theorem partSizeAfter_eq {n : Nat} (small : n ≤ kClientPartSize) :
    partSizeAfter n = kClientPartSize - n := by
  simp only [partSizeAfter, kClientPartSize] at small ⊢
  omega

/-- The records of a client message: none is empty and none exceeds the part size. -/
structure Cut (records : List TlsRecord) (message : Bytes) : Prop where
  sizes : ∀ r ∈ records, 1 ≤ r.payload.length ∧ r.payload.length ≤ kClientPartSize
  same : payloads records = message

theorem cut_nil : Cut [] [] := ⟨nofun, rfl⟩

theorem cut_cons {payload message : Bytes} {records : List TlsRecord} (h : Cut records message)
    (some : 1 ≤ payload.length) (small : payload.length ≤ kClientPartSize)
    (fits : payload.length < 2 ^ 16) : Cut (⟨payload, fits⟩ :: records) (payload ++ message) := by
  refine ⟨fun r member => ?_, ?_⟩
  · cases List.mem_cons.mp member with
    | inl first => exact first ▸ ⟨some, small⟩
    | inr later => exact h.sizes r later
  · rw [payloads_cons, h.same]

/-- One turn of the loop writes one record, and all of `lead` with it. -/
theorem writeLoop_cons {fuel : Nat} {lead buffer : Bytes} (busy : buffer ≠ [])
    (small : lead.length ≤ kClientPartSize) (room : lead ≠ [] ∨ lead.length < kClientPartSize)
    (later : ∃ records,
      writeLoop fuel [] (buffer.drop (kClientPartSize - lead.length)) = some (encodeAll records) ∧
        Cut records (buffer.drop (kClientPartSize - lead.length))) :
    ∃ records, writeLoop (fuel + 1) lead buffer = some (encodeAll records) ∧
      Cut records (lead ++ buffer) := by
  obtain ⟨records, rest, cut⟩ := later
  have size : (lead ++ buffer.take (kClientPartSize - lead.length)).length =
      lead.length + min (kClientPartSize - lead.length) buffer.length := by
    rw [List.length_append, List.length_take]
  have positive : 0 < buffer.length := List.length_pos_iff.mpr busy
  have some : 1 ≤ (lead ++ buffer.take (kClientPartSize - lead.length)).length := by
    rw [size]
    cases room with
    | inl written =>
        have := List.length_pos_iff.mpr written
        omega
    | inr room => omega
  have limited : (lead ++ buffer.take (kClientPartSize - lead.length)).length ≤ kClientPartSize := by
    omega
  have fits : (lead ++ buffer.take (kClientPartSize - lead.length)).length < 2 ^ 16 :=
    Nat.lt_of_le_of_lt limited (by decide)
  refine ⟨⟨_, fits⟩ :: records, ?_, ?_⟩
  · have same : buffer.drop (min (kClientPartSize - lead.length) buffer.length) =
        buffer.drop (kClientPartSize - lead.length) := List.drop_eq_drop_min.symm
    rw [writeLoop, if_neg busy]
    simp only [partSizeAfter_eq small, same, rest, Option.map_some, encodeAll_cons, encode, size]
    rw [← List.take_eq_take_min]
    simp only [kClientHeader, kServerHeader, List.append_assoc]
  · have whole := cut_cons cut some limited fits
    rwa [List.append_assoc, List.take_append_drop] at whole

theorem writeLoop_spec {fuel : Nat} {buffer : Bytes} (enough : buffer.length < fuel) :
    ∃ records, writeLoop fuel [] buffer = some (encodeAll records) ∧ Cut records buffer := by
  induction fuel generalizing buffer with
  | zero => omega
  | succ fuel ih =>
      by_cases empty : buffer = []
      · subst empty
        exact ⟨[], rfl, cut_nil⟩
      · have positive : 0 < buffer.length := List.length_pos_iff.mpr empty
        have less : (buffer.drop (kClientPartSize - ([] : Bytes).length)).length < fuel := by
          rw [List.length_drop]
          simp only [kClientPartSize, List.length_nil]
          omega
        exact writeLoop_cons empty (Nat.zero_le _) (.inr (by decide)) (ih less)

theorem write_spec {s : TlsSocket} {lead buffer : Bytes} (connected : s.state = .connected)
    (busy : buffer ≠ []) (small : lead.length ≤ kClientPartSize) :
    ∃ records, s.write lead buffer = some ((if lead = [] then [] else kClientPrefix) ++ encodeAll records) ∧
      Cut records (lead ++ buffer) := by
  have room : lead ≠ [] ∨ lead.length < kClientPartSize := by
    cases lead with
    | nil => exact .inr (by decide)
    | cons byte lead => exact .inl (by simp)
  have shorter : (buffer.drop (kClientPartSize - lead.length)).length < buffer.length + 1 := by
    rw [List.length_drop]
    omega
  obtain ⟨records, loop, cut⟩ := writeLoop_cons busy small room (writeLoop_spec shorter)
  have on : (!s.isConnected) = false := by rw [isConnected, connected]; rfl
  refine ⟨records, ?_, cut⟩
  rw [write, if_neg busy, on, loop]
  rfl

/-- Reading gives the payloads of the records in front of a bad header, whatever the
chunks and the buffers are, and writing gives records of limited size. -/
theorem records_transparent :
    (∀ (rs : List TlsRecord) (tail : Bytes) (events : List TlsEvent),
      checkPart tail kServerHeader = false → arrived events <+: encodeAll rs ++ tail →
      ∃ out s, afterHello.run events = some (out, s) ∧ out <+: payloads rs ∧
        (tail.length ≤ 5 → s.state = .connected) ∧
        (arrived events = encodeAll rs ++ tail → ∀ size s', 0 < size → s.read size = some ([], s') →
          out = payloads rs ∧ (5 < tail.length → s.state = .error))) ∧
    (∀ (s : TlsSocket) (lead buffer : Bytes), s.state = .connected → buffer ≠ [] →
      lead.length ≤ kClientPartSize →
      ∃ records, s.write lead buffer =
          some ((if lead = [] then [] else kClientPrefix) ++ encodeAll records) ∧
        (∀ r ∈ records, 1 ≤ r.payload.length ∧ r.payload.length ≤ kClientPartSize) ∧
        payloads records = lead ++ buffer) := by
  refine ⟨?_, ?_⟩
  · intro rs tail events bad ⟨missing, stream⟩
    obtain ⟨out, s, whole, settled, more, left, done, split, all, -, final⟩ :=
      run_spec readUpTo_afterHello settled_afterHello events
    rw [List.nil_append, List.nil_append] at final
    have follows : more ++ (left ++ missing) = encodeAll rs ++ tail := by
      rw [← List.append_assoc, ← split, stream]
    refine ⟨out, s, whole, readUpTo_payloads final bad follows,
      short_stays_connected final settled bad follows, ?_⟩
    intro complete size s' positive read
    obtain ⟨bytes, s'', again, -, -, dry⟩ := read_spec final settled size
    rw [read] at again
    cases again
    exact dry_payloads final settled (dry rfl positive).2 bad (split ▸ complete) all
  · intro s lead buffer connected busy small
    obtain ⟨records, written, cut⟩ := write_spec connected busy small
    exact ⟨records, written, cut.sizes, cut.same⟩

/-- A record in two chunks and a foreign record behind it. -/
theorem records_transparent_torn :
    (∃ out s, afterHello.run [.readData [0x17, 3, 3, 0], .read 4, .readData [2, 7, 8, 0x16, 3, 3, 0, 1, 5],
        .read 1, .read 4] = some (out, s) ∧ out = [7, 8] ∧ s.state = .error) ∧
    ∃ records, write afterHello [1] [2, 3] = some (kClientPrefix ++ encodeAll records) ∧
      payloads records = [1, 2, 3] := by
  obtain ⟨reading, writing⟩ := records_transparent
  refine ⟨?_, ?_⟩
  · obtain ⟨out, s, whole, -, -, finished⟩ :=
      reading [⟨[7, 8], by decide⟩] [0x16, 3, 3, 0, 1, 5]
        [.readData [0x17, 3, 3, 0], .read 4, .readData [2, 7, 8, 0x16, 3, 3, 0, 1, 5], .read 1, .read 4]
        (by decide) (by decide)
    have dry : s.read 1 = some ([], s) := by
      have known : s.incomingGoodDataLimit = 0 := by
        have value := congrArg (Option.map fun (_, s) => s.incomingGoodDataLimit) whole
        exact (Option.some.inj value).symm
      exact read_idle known 1
    obtain ⟨same, error⟩ := finished (by decide) 1 s (by decide) dry
    exact ⟨out, s, whole, same, error (by decide)⟩
  · obtain ⟨records, written, -, same⟩ := writing afterHello [1] [2, 3] rfl (by decide) (by decide)
    exact ⟨records, written, same⟩

/-- A prefix longer than a part goes out in one record with what follows it. -/
theorem write_long {lead : Bytes} {byte : UInt8} (long : kClientPartSize < lead.length)
    (fits : lead.length < 2 ^ 16) :
    afterHello.write lead [byte] =
      some (kClientPrefix ++ (header (lead.length + 1) ++ (lead ++ [byte]))) := by
  have least : min (partSizeAfter lead.length) 1 = 1 := by
    simp only [partSizeAfter, kClientPartSize] at long ⊢
    omega
  have written : lead ≠ [] := by
    intro empty
    rw [empty] at long
    cases long
  have loop : writeLoop 3 lead [byte] = some (header (lead.length + 1) ++ (lead ++ [byte])) := by
    rw [writeLoop, if_neg (by simp)]
    simp only [List.length_cons, List.length_nil, Nat.zero_add, least, List.drop_succ_cons,
      List.drop_nil, writeLoop, header, kClientHeader, kServerHeader]
    simp
  simp only [write, afterHello, isConnected, List.length_cons, List.length_nil, loop, if_neg written]
  simp

/-- Reading into an empty buffer returns nothing before everything was read, and a prefix longer
than a part is not cut. -/
theorem records_not_transparent :
    ¬ (∀ (r : TlsRecord) (events : List TlsEvent) (out : Bytes) (s s' : TlsSocket) (size : Nat),
        r.payload ≠ [] → arrived events = r.encode → afterHello.run events = some (out, s) →
        s.read size = some ([], s') → out = r.payload) ∧
    ¬ (∀ lead buffer : Bytes, buffer ≠ [] → ∃ records,
        afterHello.write lead buffer =
          some ((if lead = [] then [] else kClientPrefix) ++ encodeAll records) ∧
        ∀ r ∈ records, 1 ≤ r.payload.length ∧ r.payload.length ≤ kClientPartSize) := by
  refine ⟨fun every => ?_, fun every => ?_⟩
  · have same := every ⟨[1], by decide⟩ [.readData [0x17, 3, 3, 0, 1, 1]] []
      ⟨.connected, [0x17, 3, 3, 0, 1, 1], 5, 1, 0⟩ ⟨.connected, [0x17, 3, 3, 0, 1, 1], 5, 1, 0⟩ 0
      (by decide) (by decide) (by decide) (by decide)
    cases same
  · obtain ⟨records, written, sizes⟩ := every (List.replicate 2879 0) [0] (by decide)
    have long : (List.replicate 2879 (0 : UInt8)).length = 2879 := List.length_replicate
    rw [write_long (by rw [long]; decide) (by rw [long]; decide), long, if_neg (by simp)] at written
    have same := List.append_cancel_left (Option.some.inj written)
    cases records with
    | nil => cases same
    | cons r records =>
        rw [encodeAll_cons, encode_eq, List.append_assoc] at same
        obtain ⟨size, -⟩ := header_injective (by decide) r.fits same
        have limited := (sizes r List.mem_cons_self).2
        simp only [kClientPartSize] at limited
        omega

end TlsSocket

end IMeDesktop.Mtproto
