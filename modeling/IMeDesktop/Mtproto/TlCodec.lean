import IMeDesktop.Mtproto.TlTypes

/-! # What is written is read again

The ints of a value, which are what is written of it and what the counter counts, and
which are read as the value whatever follows them. Both hold where the 32 bits of sizes
and lengths are enough.

A reader fails on data that end inside of a value, and when a length or a count it finds
is more than what is left.
-/

namespace IMeDesktop.Mtproto.TlType

open Lib

/-! ## The ints of a value -/

def encodeInt128 (v : Int128) : List Nat := longInts v.l.toNat ++ longInts v.h.toNat

def encodeString (v : Bytes) : List Nat :=
  match v with
  | [] => [0]
  | [a] => [1 + a.toNat * 2 ^ 8]
  | [a, b] => [2 + a.toNat * 2 ^ 8 + b.toNat * 2 ^ 16]
  | a :: b :: c :: rest =>
      if v.length < 254 then
        (v.length + a.toNat * 2 ^ 8 + b.toNat * 2 ^ 16 + c.toNat * 2 ^ 24) :: bytesInts rest
      else (v.length * 2 ^ 8 + 254) :: bytesInts v

def encode : (t : TlType) → t.Value → List Nat
  | int, v => [v.toNat]
  | long, v => longInts v.toNat
  | double, v => longInts v.toNat
  | int128, v => encodeInt128 v
  | int256, v => encodeInt128 v.l ++ encodeInt128 v.h
  | string, v => encodeString v
  | vector item, v => (v.length % 2 ^ 32) :: v.flatMap fun value => encode item value

/-- No string is too long. -/
def Writable : (t : TlType) → t.Value → Prop
  | int, _ => True
  | long, _ => True
  | double, _ => True
  | int128, _ => True
  | int256, _ => True
  | string, v => v.length < 2 ^ 24
  | vector item, v => ∀ value ∈ v, Writable item value

/-- No vector has more elements than its count can say. -/
def Countable : (t : TlType) → t.Value → Prop
  | int, _ => True
  | long, _ => True
  | double, _ => True
  | int128, _ => True
  | int256, _ => True
  | string, _ => True
  | vector item, v => v.length < 2 ^ 32 ∧ ∀ value ∈ v, Countable item value

/-! ## Writing -/

theorem length_bytesInts (bytes : Bytes) : (bytesInts bytes).length = primesOf bytes.length := by
  induction bytes using bytesInts.induct with
  | case1 a b c d rest ih =>
      rw [bytesInts, List.length_cons, ih]
      simp only [primesOf, List.length_cons]
      split_ifs
      · omega
      · omega
      · omega
      · omega
  | case2 => rfl
  | case3 last few some_left =>
      match last with
      | [] => exact absurd rfl some_left
      | [_] => simp [bytesInts, primesOf]
      | [_, _] => simp [bytesInts, primesOf]
      | [_, _, _] => simp [bytesInts, primesOf]
      | a :: b :: c :: d :: rest => exact (few a b c d rest rfl).elim

theorem writeString_buffer {v : Bytes} (short : v.length < 2 ^ 24) (out : List Nat) :
    writeString buffer v out = some (out ++ encodeString v) := by
  unfold writeString encodeString
  rw [if_pos short]
  match v with
  | [] => rfl
  | [_] => rfl
  | [_, _] => rfl
  | a :: b :: c :: rest =>
      simp only
      split_ifs
      · simp [buffer]
      · simp [buffer]

theorem writeString_lengthCounter {v : Bytes} (short : v.length < 2 ^ 24) (out : Nat) :
    writeString lengthCounter v out = some ((out + 4 * (encodeString v).length) % 2 ^ 32) := by
  unfold writeString encodeString
  rw [if_pos short]
  match v with
  | [] => rfl
  | [_] => rfl
  | [_, _] => rfl
  | a :: b :: c :: rest =>
      simp only
      split_ifs
      · simp only [lengthCounter, List.length_cons, length_bytesInts]
        congr 1
        omega
      · simp only [lengthCounter, List.length_cons, length_bytesInts]
        congr 1
        omega

/-- What is written is put behind what was there. -/
theorem write_buffer {t : TlType} {v : t.Value} (writable : t.Writable v) (out : List Nat) :
    t.write buffer v out = some (out ++ t.encode v) := by
  induction t generalizing out with
  | int => rfl
  | long => simp [write, writeLong, buffer, encode, longInts]
  | double => simp [write, writeLong, buffer, encode, longInts]
  | int128 => simp [write, writeInt128, writeLong, buffer, encode, encodeInt128, longInts]
  | int256 => simp [write, writeInt128, writeLong, buffer, encode, encodeInt128, longInts]
  | string => exact writeString_buffer writable out
  | vector item ih =>
      have items : ∀ values : List item.Value, (∀ value ∈ values, item.Writable value) → ∀ out,
          values.foldlM (fun out value => item.write buffer value out) out =
            some (out ++ values.flatMap item.encode) := by
        intro values
        induction values with
        | nil => simp
        | cons value values ih' =>
            intro writable out
            obtain ⟨first, others⟩ := List.forall_mem_cons.mp writable
            rw [List.foldlM_cons, ih first]
            simp only [Option.bind_eq_bind, Option.bind_some]
            rw [ih' others, List.flatMap_cons, List.append_assoc]
      rw [write, items v writable, encode]
      simp [buffer]

/-- And it is counted, as far as 32 bits count. -/
theorem write_lengthCounter {t : TlType} {v : t.Value} (writable : t.Writable v) (out : Nat) :
    t.write lengthCounter v out = some ((out + 4 * (t.encode v).length) % 2 ^ 32) := by
  induction t generalizing out with
  | int => rfl
  | long => simp [write, writeLong, lengthCounter, encode, longInts, Nat.add_assoc]
  | double => simp [write, writeLong, lengthCounter, encode, longInts, Nat.add_assoc]
  | int128 => simp [write, writeInt128, writeLong, lengthCounter, encode, encodeInt128, longInts, Nat.add_assoc]
  | int256 => simp [write, writeInt128, writeLong, lengthCounter, encode, encodeInt128, longInts, Nat.add_assoc]
  | string => exact writeString_lengthCounter writable out
  | vector item ih =>
      have items : ∀ values : List item.Value, (∀ value ∈ values, item.Writable value) → ∀ out,
          values.foldlM (fun out value => item.write lengthCounter value out) (out % 2 ^ 32) =
            some ((out + 4 * (values.flatMap item.encode).length) % 2 ^ 32) := by
        intro values
        induction values with
        | nil => simp
        | cons value values ih' =>
            intro writable out
            obtain ⟨first, others⟩ := List.forall_mem_cons.mp writable
            rw [List.foldlM_cons, ih first, Nat.mod_add_mod]
            simp only [Option.bind_eq_bind, Option.bind_some]
            rw [ih' others, List.flatMap_cons, List.length_append, Nat.mul_add, Nat.add_assoc]
      rw [write]
      simp only [lengthCounter] at items ⊢
      rw [items v writable, encode, List.length_cons, Nat.mul_add, Nat.add_comm (4 * _), Nat.add_assoc]

/-! ## Reading -/

section Steps

variable {α β γ : Type} {reader : Reader α β} {next : β → Reader α γ}

theorem bind_done {data rest : List α} {value : β} (read : reader data = .done value rest) :
    (reader >>= next) data = next value rest := by
  simp only [Bind.bind, read]

theorem require_bind {count : Nat} {next : Unit → Reader α γ} {data : List α} (enough : count ≤ data.length) :
    (Reader.require count >>= next) data = next () data := by
  refine bind_done ?_
  rw [Reader.require, if_pos enough]

theorem get_bind {next : α → Reader α γ} (a : α) (rest : List α) : (Reader.get >>= next) (a :: rest) = next a rest :=
  rfl

theorem times_get (front rest : List α) : (Reader.get.times front.length) (front ++ rest) = .done front rest := by
  induction front with
  | nil => rfl
  | cons a front ih =>
      rw [List.length_cons, Reader.times, List.cons_append, get_bind, bind_done ih]
      rfl

/-- Values that are read one after another. -/
theorem times_flatMap {encode : β → List α} {values : List β}
    (read : ∀ value ∈ values, ∀ rest, reader (encode value ++ rest) = .done value rest) (rest : List α) :
    reader.times values.length (values.flatMap encode ++ rest) = .done values rest := by
  induction values with
  | nil => rfl
  | cons value values ih =>
      obtain ⟨first, others⟩ := List.forall_mem_cons.mp read
      rw [List.length_cons, Reader.times, List.flatMap_cons, List.append_assoc, bind_done (first _),
        bind_done (ih others)]
      rfl

end Steps

theorem readLong_longInts (v : UInt64) (rest : List Nat) :
    readLong (longInts v.toNat ++ rest) = .done v.toNat rest := by
  rw [readLong, require_bind (by simp)]
  simp only [longInts, List.cons_append, List.nil_append, get_bind, longOf_longInts]
  rfl

theorem readInt128Words_encode (v : Int128) (rest : List Nat) :
    readInt128Words (encodeInt128 v ++ rest) = .done v rest := by
  have both : readInt128 (encodeInt128 v ++ rest) = .done (v.l.toNat + 2 ^ 64 * v.h.toNat) rest := by
    rw [readInt128, require_bind (by rw [List.length_append]; exact Nat.le_add_right 4 _)]
    simp only [encodeInt128, longInts, List.cons_append, List.nil_append, get_bind, longOf_longInts]
    rfl
  rw [readInt128Words, bind_done both]
  have low : UInt64.ofNat (v.l.toNat + 2 ^ 64 * v.h.toNat) = v.l := by
    rw [← UInt64.toNat_inj, UInt64.toNat_ofNat']
    have := v.l.toNat_lt
    omega
  have high : UInt64.ofNat ((v.l.toNat + 2 ^ 64 * v.h.toNat) / 2 ^ 64) = v.h := by
    rw [← UInt64.toNat_inj, UInt64.toNat_ofNat']
    have := v.l.toNat_lt
    have := v.h.toNat_lt
    omega
  rw [low, high]
  rfl

theorem intBytes_four (a b c d : UInt8) :
    intBytes (fromLittleEndian [a, b, c, d]) = [a.toNat, b.toNat, c.toNat, d.toNat] := by
  have := a.toNat_lt
  have := b.toNat_lt
  have := c.toNat_lt
  have := d.toNat_lt
  simp only [intBytes, fromLittleEndian, List.cons.injEq, and_true]
  omega

theorem flatMap_bytesInts (bytes : Bytes) :
    ((bytesInts bytes).flatMap intBytes).take bytes.length = bytes.map UInt8.toNat := by
  induction bytes using bytesInts.induct with
  | case1 a b c d rest ih => simp [bytesInts, intBytes_four, ih]
  | case2 => rfl
  | case3 last few some_left =>
      match last with
      | [] => exact absurd rfl some_left
      | [a] => simp [bytesInts, intBytes, fromLittleEndian]
      | [a, b] =>
          have := a.toNat_lt
          have := b.toNat_lt
          simp [bytesInts, intBytes, fromLittleEndian]
          omega
      | [a, b, c] =>
          have := a.toNat_lt
          have := b.toNat_lt
          have := c.toNat_lt
          simp [bytesInts, intBytes, fromLittleEndian]
          omega
      | a :: b :: c :: d :: rest => exact (few a b c d rest rfl).elim

theorem readBytes_bytesInts (bytes : Bytes) (rest : List Nat) :
    readBytes bytes.length (bytesInts bytes ++ rest) = .done (bytes.map UInt8.toNat) rest := by
  have length := length_bytesInts bytes
  rw [readBytes, require_bind (by rw [List.length_append]; omega), ← length, bind_done (times_get _ _),
    flatMap_bytesInts]
  rfl

theorem readString_encode {v : Bytes} (short : v.length < 2 ^ 24) (rest : List Nat) :
    readString (encodeString v ++ rest) = .done (v.map UInt8.toNat) rest := by
  unfold encodeString
  match v with
  | [] => rfl
  | [a] =>
      have := a.toNat_lt
      have last : (1 + a.toNat * 2 ^ 8) % 2 ^ 8 = 1 := by omega
      have byte : (1 + a.toNat * 2 ^ 8) / 2 ^ 8 % 2 ^ 8 = a.toNat := by omega
      rw [readString, List.cons_append, require_bind (by simp), get_bind]
      simp only [last, byte]
      rfl
  | [a, b] =>
      have := a.toNat_lt
      have := b.toNat_lt
      have last : (2 + a.toNat * 2 ^ 8 + b.toNat * 2 ^ 16) % 2 ^ 8 = 2 := by omega
      have first : (2 + a.toNat * 2 ^ 8 + b.toNat * 2 ^ 16) / 2 ^ 8 % 2 ^ 8 = a.toNat := by omega
      have second : (2 + a.toNat * 2 ^ 8 + b.toNat * 2 ^ 16) / 2 ^ 16 % 2 ^ 8 = b.toNat := by omega
      rw [readString, List.cons_append, require_bind (by simp), get_bind]
      simp only [last, first, second]
      rfl
  | a :: b :: c :: others =>
      have := a.toNat_lt
      have := b.toNat_lt
      have := c.toNat_lt
      simp only [List.length_cons] at short ⊢
      split_ifs with small
      · generalize int : others.length + 1 + 1 + 1 + a.toNat * 2 ^ 8 + b.toNat * 2 ^ 16 + c.toNat * 2 ^ 24 = first
        have last : first % 2 ^ 8 = others.length + 3 := by omega
        have firstByte : first / 2 ^ 8 % 2 ^ 8 = a.toNat := by omega
        have secondByte : first / 2 ^ 16 % 2 ^ 8 = b.toNat := by omega
        have thirdByte : first / 2 ^ 24 % 2 ^ 8 = c.toNat := by omega
        rw [readString, List.cons_append, require_bind (by simp), get_bind]
        simp only [last, firstByte, secondByte, thirdByte, Nat.add_sub_cancel]
        rw [if_neg (by omega), if_neg (by omega), if_neg (by omega), if_neg (by omega), if_pos (by omega),
          bind_done (readBytes_bytesInts others rest)]
        rfl
      · generalize int : (others.length + 1 + 1 + 1) * 2 ^ 8 + 254 = first
        have last : first % 2 ^ 8 = 254 := by omega
        have size : first / 2 ^ 8 % 2 ^ 24 = (a :: b :: c :: others).length := by
          simp only [List.length_cons]
          omega
        rw [readString, List.cons_append, require_bind (by simp), get_bind]
        simp only [last, size]
        exact readBytes_bytesInts _ rest

theorem map_ofNat_toNat (v : Bytes) : (v.map UInt8.toNat).map UInt8.ofNat = v := by
  simp [Function.comp_def]

/-- A value is read from its ints, whatever follows. -/
theorem read_encode {t : TlType} {v : t.Value} (writable : t.Writable v) (countable : t.Countable v)
    (rest : List Nat) : t.read (t.encode v ++ rest) = .done v rest := by
  induction t generalizing rest with
  | int =>
      have int : readInt (v.toNat :: rest) = .done v.toNat rest := by
        rw [readInt, require_bind (by simp)]
        rfl
      rw [read, encode, List.cons_append, List.nil_append, bind_done int, UInt32.ofNat_toNat]
      rfl
  | long =>
      rw [read, encode, bind_done (readLong_longInts v rest), UInt64.ofNat_toNat]
      rfl
  | double =>
      rw [read, encode, bind_done (readLong_longInts v rest), UInt64.ofNat_toNat]
      rfl
  | int128 => exact readInt128Words_encode v rest
  | int256 =>
      rw [read, encode, List.append_assoc, bind_done (readInt128Words_encode v.l _),
        bind_done (readInt128Words_encode v.h rest)]
      rfl
  | string =>
      rw [read, encode, bind_done (readString_encode writable rest), map_ofNat_toNat]
      rfl
  | vector item ih =>
      rw [read, encode, List.cons_append, require_bind (by simp), get_bind, Nat.mod_eq_of_lt countable.1]
      exact times_flatMap (fun value member => ih (writable value member) (countable.2 value member)) rest

/-! ## Failing -/

theorem require_failed {α γ : Type} {count : Nat} {next : Unit → Reader α γ} {data : List α}
    (few : data.length < count) : (Reader.require count >>= next) data = .failed := by
  simp only [Bind.bind, Reader.require]
  rw [if_neg (by omega)]

theorem bind_failed {α β γ : Type} {reader : Reader α β} {next : β → Reader α γ} {data : List α}
    (failed : reader data = .failed) : (reader >>= next) data = .failed := by
  simp only [Bind.bind, failed]

/-- A length or a count that is found in the data is more than what is left then. -/
inductive Exceeds : TlType → List Nat → Prop
  | short {first : Nat} {rest : List Nat} (three : 3 ≤ first % 2 ^ 8) (small : first % 2 ^ 8 < 254)
      (less : rest.length < primesOf (first % 2 ^ 8 - 3)) : Exceeds string (first :: rest)
  | long {first : Nat} {rest : List Nat} (large : first % 2 ^ 8 = 254)
      (less : rest.length < primesOf (first / 2 ^ 8 % 2 ^ 24)) : Exceeds string (first :: rest)
  | count {item : TlType} {count : Nat} {rest : List Nat} (less : rest.length < count) :
      Exceeds (vector item) (count :: rest)
  | item {item : TlType} {count before : Nat} {rest rest' : List Nat} {values : List item.Value} (inside : before < count)
      (read : item.read.times before rest = .done values rest') (exceeds : Exceeds item rest') :
      Exceeds (vector item) (count :: rest)

theorem readBytes_failed {count : Nat} {data : List Nat} (less : data.length < primesOf count) :
    readBytes count data = .failed := require_failed less

/-- Where values were read up to one that fails, they are not read. -/
theorem times_failed {α β : Type} {reader : Reader α β} {before count : Nat} {data rest : List α} {values : List β}
    (inside : before < count) (read : reader.times before data = .done values rest) (failed : reader rest = .failed) :
    reader.times count data = .failed := by
  obtain ⟨more, rfl⟩ : ∃ more, count = more + 1 := ⟨count - 1, by omega⟩
  induction before generalizing data values more with
  | zero =>
      cases read
      exact bind_failed failed
  | succ before ih =>
      rw [Reader.times] at read ⊢
      cases first : reader data with
      | fault => simp [Bind.bind, first] at read
      | failed => exact bind_failed first
      | done value rest' =>
          rw [bind_done first] at read ⊢
          cases others : reader.times before rest' with
          | fault => simp [Bind.bind, others] at read
          | failed => simp [Bind.bind, others] at read
          | done values' rest'' =>
              rw [bind_done others] at read
              cases read
              obtain ⟨more, rfl⟩ : ∃ more', more = more' + 1 := ⟨more - 1, by omega⟩
              exact bind_failed (ih others more (by omega))

theorem exceeds_failed {t : TlType} {data : List Nat} (exceeds : Exceeds t data) : t.read data = .failed := by
  induction exceeds with
  | @short first rest three small less =>
      refine bind_failed ?_
      rw [readString, require_bind (by simp), get_bind]
      rw [if_neg (by omega), if_neg (by omega), if_neg (by omega), if_neg (by omega), if_pos small]
      exact bind_failed (readBytes_failed less)
  | @long first rest large less =>
      refine bind_failed ?_
      rw [readString, require_bind (by simp), get_bind]
      rw [if_neg (by omega), if_neg (by omega), if_neg (by omega), if_neg (by omega), if_neg (by omega)]
      exact readBytes_failed less
  | @count item count rest less =>
      rw [read, require_bind (by simp), get_bind]
      exact (takes_read item).times_failed (safe_read item) less
  | @item item count before rest rest' values inside read exceeds ih =>
      rw [TlType.read, require_bind (by simp), get_bind]
      exact times_failed inside read ih

/-! ## The codec -/

/-- A vector whose count is `2 ^ 32` is counted as one int, and is read as an empty one. -/
theorem long_ints_lost {v : List UInt32} (long : v.length = 2 ^ 32) : ∃ ints,
    (vector int).write buffer v [] = some ints ∧ (vector int).countLength v ≠ some (4 * ints.length) ∧
      (vector int).read ints ≠ .done v [] := by
  have writable : (vector int).Writable v := fun _ _ => trivial
  have first : (vector int).encode v = 0 :: v.flatMap int.encode := by
    rw [encode, long, Nat.mod_self]
  have length : ((vector int).encode v).length = 2 ^ 32 + 1 := by
    rw [first, List.length_cons, List.length_flatMap, ← long]
    simp [encode]
  refine ⟨_, write_buffer writable [], ?_, ?_⟩
  · rw [countLength, write_lengthCounter writable, List.nil_append, length]
    decide
  · rw [List.nil_append, first, read, require_bind (by simp), get_bind, Reader.times]
    rintro ⟨⟩
    cases long

end IMeDesktop.Mtproto.TlType
