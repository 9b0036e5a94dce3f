import IMeDesktop.Mtproto.TlsClientHello

/-! # What is written to the client hello

The sizes that are asked of the buffer, one after another, tell how the writing goes: it ends in a failure, in
a sum that does not fit in an `int`, or with so many bytes. The bytes have the shape of the blocks, and keep
it when the digest is put in its place.
-/

namespace IMeDesktop.Mtproto.TlsClientHello

open Lib ClientHelloGenerator

/-! ## Shapes -/

mutual

/-- Bytes of a block: behind its length are the entries of a scope. -/
def Shape (domain : Bytes) : TlsBlock → Bytes → Prop
  | .string text, data => data = text
  | .random length, data => data.length = length.toInt
  | .zero length, data => data.length = length.toInt
  | .domain, data => data = domain
  | .grease _, data => ∃ grease, data = [grease, grease]
  | .publicKey, data => data.length = 32
  | .scope entries, data =>
      ∃ inner, data = toBigEndian inner.length ++ inner ∧ inner.length < 2 ^ 16 ∧ Shapes domain entries inner

def Shapes (domain : Bytes) : List TlsBlock → Bytes → Prop
  | [], data => data = []
  | block :: rest, data => ∃ first later, data = first ++ later ∧ Shape domain block first ∧ Shapes domain rest later

end

/-- A place for the digest: what is put there does not change the shape. -/
structure Hole (shape : Bytes → Prop) (data : Bytes) (position : Nat) : Prop where
  inside : position + kHelloDigestLength ≤ data.length
  keeps : ∀ patch : Bytes, patch.length = kHelloDigestLength →
    shape (data.take position ++ patch ++ data.drop (position + kHelloDigestLength))

variable {shape first second : Bytes → Prop} {a b : Bytes} {position : Nat}

theorem Hole.left (hole : Hole first a position) (there : second b) :
    Hole (fun data => ∃ x y, data = x ++ y ∧ first x ∧ second y) (a ++ b) position := by
  have inside := hole.inside
  constructor
  · rw [List.length_append]
    omega
  · intro patch length
    refine ⟨_, b, ?_, hole.keeps patch length, there⟩
    rw [List.take_append_of_le_length (by omega), List.drop_append_of_le_length inside, ← List.append_assoc]

theorem Hole.right (hole : Hole second b position) (there : first a) :
    Hole (fun data => ∃ x y, data = x ++ y ∧ first x ∧ second y) (a ++ b) (a.length + position) := by
  constructor
  · have inside := hole.inside
    rw [List.length_append]
    omega
  · intro patch length
    refine ⟨a, _, ?_, there, hole.keeps patch length⟩
    rw [List.take_append, List.take_of_length_le (by omega), Nat.add_sub_cancel_left, Nat.add_assoc, List.drop_append,
      List.drop_eq_nil_of_le (by omega), Nat.add_sub_cancel_left, List.nil_append, List.append_assoc, List.append_assoc,
      List.append_assoc]

/-- Behind the length of a scope, which stays as it is. -/
theorem Hole.scope {inner : Bytes} (hole : Hole shape inner position) (small : inner.length < 2 ^ 16) :
    Hole (fun data => ∃ inner, data = toBigEndian inner.length ++ inner ∧ inner.length < 2 ^ 16 ∧ shape inner)
      (toBigEndian inner.length ++ inner) (kLengthSize + position) := by
  have inside := hole.inside
  have width : (toBigEndian inner.length).length = kLengthSize := length_toBigEndian _
  constructor
  · rw [List.length_append, width]
    omega
  · intro patch length
    have same : (inner.take position ++ patch ++ inner.drop (position + kHelloDigestLength)).length = inner.length := by
      rw [List.length_append, List.length_append, List.length_take, List.length_drop, length]
      omega
    refine ⟨_, ?_, same ▸ small, hole.keeps patch length⟩
    rw [same, List.take_append, List.take_of_length_le (by omega), width, Nat.add_sub_cancel_left, Nat.add_assoc,
      List.drop_append, List.drop_eq_nil_of_le (by omega), width, Nat.add_sub_cancel_left, List.nil_append,
      List.append_assoc, List.append_assoc, List.append_assoc]

/-! ## Requests for storage -/

/-- What the buffer grows by, and how many bytes are copied there. -/
structure Request where
  size : Int
  bytes : Nat

mutual

/-- `none` is a seed without a grease. -/
def requests (domain : Nat) : TlsBlock → List (Option Request)
  | .string text => [some ⟨(Int32.ofNat text.length).toInt, text.length⟩]
  | .random length => [some ⟨length.toInt, length.toInt.toNat⟩]
  | .zero length => [some ⟨length.toInt, length.toInt.toNat⟩]
  | .domain => [some ⟨(Int32.ofNat domain).toInt, domain⟩]
  | .grease seed => if seed.toInt < 0 ∨ seed.toInt ≥ kMaxGrease then [none] else [some ⟨2, 2⟩]
  | .publicKey => [some ⟨32, 32⟩]
  | .scope entries => some ⟨kLengthSize, kLengthSize⟩ :: requestsOf domain entries

def requestsOf (domain : Nat) : List TlsBlock → List (Option Request)
  | [] => []
  | block :: rest => requests domain block ++ requestsOf domain rest

end

inductive Course where
  | crashed
  | failed
  | size (total : Nat)
  deriving DecidableEq

/-- How far the requests are met, from a size of the buffer on. -/
def course (sizes : Int) (total : Nat) : List (Option Request) → Course
  | [] => .size total
  | none :: _ => .failed
  | some request :: rest =>
      if request.size ≤ 0 then .failed
      else if total + request.size ≥ sizes then .crashed
      else if total + request.size > kClientHelloLength then .failed
      else if request.size < request.bytes then .crashed
      else course sizes (total + request.size.toNat) rest

theorem course_append (sizes : Int) (total : Nat) (before later : List (Option Request)) :
    course sizes total (before ++ later) = match course sizes total before with
      | .crashed => .crashed
      | .failed => .failed
      | .size total => course sizes total later := by
  induction before generalizing total with
  | nil => rfl
  | cons request before ih =>
      cases request with
      | none => rfl
      | some request =>
          simp only [List.cons_append, course, ih]
          split_ifs <;> rfl

/-! ## Writing -/

/-- Bytes of a shape were written, with a place for the digest among them if there was none before. -/
structure Wrote (shape : Bytes → Prop) (g g' : ClientHelloGenerator) (new : Bytes) : Prop where
  fine : g'.error = false
  result : g'.result = g.result ++ new
  there : shape new
  place : g'.digestPosition = g.digestPosition ∨
    g.digestPosition < 0 ∧ ∃ position : Nat, g'.digestPosition = g.result.length + position ∧ Hole shape new position
  fits : g'.result.length ≤ kClientHelloLength

/-- What comes of writing, by how far the requests are met. -/
inductive Goes (shape : Bytes → Prop) (g : ClientHelloGenerator) : Course → Option ClientHelloGenerator → Prop where
  | crashed : Goes shape g .crashed none
  | failed {g' : ClientHelloGenerator} (error : g'.error = true) (longer : g.result.length ≤ g'.result.length)
      (fits : g'.result.length ≤ kClientHelloLength)
      (place : g'.digestPosition = g.digestPosition ∨ g'.digestPosition + kHelloDigestLength ≤ g'.result.length) :
      Goes shape g .failed (some g')
  | wrote {g' : ClientHelloGenerator} {new : Bytes} (wrote : Wrote shape g g' new) :
      Goes shape g (.size g'.result.length) (some g')

variable {g g' : ClientHelloGenerator} {new : Bytes} {taken : Course} {made : Option ClientHelloGenerator}

theorem Wrote.longer (wrote : Wrote shape g g' new) : g.result.length ≤ g'.result.length := by
  rw [wrote.result, List.length_append]
  omega

theorem Wrote.place_inside (wrote : Wrote shape g g' new) :
    g'.digestPosition = g.digestPosition ∨ g'.digestPosition + kHelloDigestLength ≤ g'.result.length := by
  refine wrote.place.imp_right fun ⟨_, position, begins, hole⟩ => ?_
  have inside := hole.inside
  rw [begins, wrote.result, List.length_append]
  push_cast
  omega

theorem Goes.imp {other : Bytes → Prop} (same : ∀ data, shape data ↔ other data) (goes : Goes shape g taken made) :
    Goes other g taken made := by
  have eq : shape = other := funext fun data => propext (same data)
  exact eq ▸ goes

/-- One thing is written behind another. -/
theorem Goes.andThen (goes : Goes first g taken made) {sizes : Int} {later : List (Option Request)}
    {next : ClientHelloGenerator → Option ClientHelloGenerator} (stays : ∀ g', g'.error = true → next g' = some g')
    (goesOn : ∀ g', g'.error = false → g'.result.length ≤ kClientHelloLength →
      Goes second g' (course sizes g'.result.length later) (next g')) :
    Goes (fun data => ∃ x y, data = x ++ y ∧ first x ∧ second y) g
      (match taken with
        | .crashed => .crashed
        | .failed => .failed
        | .size total => course sizes total later) (made.bind next) := by
  cases goes with
  | crashed => exact .crashed
  | failed error longer fits place =>
      rw [Option.bind_some, stays _ error]
      exact .failed error longer fits place
  | @wrote middle new wrote =>
      have goes := goesOn middle wrote.fine wrote.fits
      rw [Option.bind_some]
      dsimp only
      generalize course sizes middle.result.length later = taken at goes ⊢
      generalize next middle = made at goes ⊢
      have before := wrote.longer
      cases goes with
      | crashed => exact .crashed
      | failed error longer fits place =>
          refine .failed error (by omega) fits ?_
          rcases place with same | inside
          · rw [same]
            refine wrote.place_inside.imp_right fun inside => ?_
            omega
          · exact .inr inside
      | @wrote g' more wroteMore =>
          have bytes : g'.result = g.result ++ (new ++ more) := by
            rw [wroteMore.result, wrote.result, List.append_assoc]
          have place : g'.digestPosition = g.digestPosition ∨ g.digestPosition < 0 ∧ ∃ position : Nat,
              g'.digestPosition = g.result.length + position ∧
                Hole (fun data => ∃ x y, data = x ++ y ∧ first x ∧ second y) (new ++ more) position := by
            rcases wroteMore.place with same | ⟨unset, position, begins, hole⟩
            · rw [same]
              exact wrote.place.imp_right fun ⟨unset, position, begins, hole⟩ =>
                ⟨unset, position, begins, hole.left wroteMore.there⟩
            · rcases wrote.place with same | ⟨_, before, begins', _⟩
              · rw [same] at unset
                refine .inr ⟨unset, new.length + position, ?_, hole.right wrote.there⟩
                rw [begins, wrote.result, List.length_append]
                push_cast
                omega
              · omega
          exact .wrote ⟨wroteMore.fine, bytes, ⟨new, more, rfl, wrote.there, wroteMore.there⟩, place, wroteMore.fits⟩

/-! ## One block -/

theorem goes_fail (shape : Bytes → Prop) (fits : g.result.length ≤ kClientHelloLength) :
    Goes shape g .failed (some g.fail) := .failed rfl (Nat.le_refl _) fits (.inl rfl)

theorem overwrite_part (start : Bytes) {old bytes : Bytes} (rest : Bytes) (same : bytes.length = old.length) :
    overwrite (start ++ (old ++ rest)) start.length bytes = some (start ++ (bytes ++ rest)) := by
  have inside : start.length + bytes.length ≤ (start ++ (old ++ rest)).length := by
    rw [List.length_append, List.length_append]
    omega
  rw [overwrite, if_pos inside, List.take_left, same, ← List.append_assoc start old, ← List.length_append, List.drop_left,
    List.append_assoc]

theorem overwrite_grown (start : Bytes) {size : Nat} {bytes : Bytes} (same : bytes.length = size) :
    overwrite (start ++ List.replicate size 0) start.length bytes = some (start ++ bytes) := by
  have written := @overwrite_part start (List.replicate size 0) bytes [] (by rw [List.length_replicate, same])
  rw [List.append_nil, List.append_nil] at written
  exact written

variable {outside : Outside} {domain : Bytes}

/-- New storage, for a request that may be met. -/
theorem grow_goes (fine : g.error = false) (fits : g.result.length ≤ kClientHelloLength) {size : Int} {bytes : Nat}
    {later : List (Option Request)} {next : ClientHelloGenerator × Nat → Option ClientHelloGenerator}
    (empty : next (g.fail, 0) = some g.fail)
    (short : 0 < size → g.result.length + size ≤ kClientHelloLength → size < bytes →
      next ({ g with result := g.result ++ List.replicate size.toNat 0 }, size.toNat) = none)
    (goes : 0 < size → g.result.length + size ≤ kClientHelloLength → (bytes : Int) ≤ size →
      Goes shape g (course outside.qt.sizes (g.result.length + size.toNat) later)
        (next ({ g with result := g.result ++ List.replicate size.toNat 0 }, size.toNat))) :
    Goes shape g (course outside.qt.sizes g.result.length (some ⟨size, bytes⟩ :: later))
      ((grow outside g size).bind next) := by
  rw [course, grow]
  dsimp only
  by_cases positive : size ≤ 0
  · rw [if_pos positive, if_pos (.inr positive), Option.bind_some, empty]
    exact goes_fail shape fits
  · have goesOn : ¬ (g.error = true ∨ size ≤ 0) := by
      rw [fine]
      exact not_or.mpr ⟨Bool.false_ne_true, positive⟩
    rw [if_neg positive, if_neg goesOn]
    by_cases overflows : g.result.length + size ≥ outside.qt.sizes
    · rw [if_pos overflows, if_pos overflows]
      exact .crashed
    · rw [if_neg overflows, if_neg overflows]
      by_cases long : g.result.length + size > kClientHelloLength
      · rw [if_pos long, if_pos long, Option.bind_some, empty]
        exact goes_fail shape fits
      · rw [if_neg long, if_neg long, Option.bind_some]
        by_cases less : size < bytes
        · rw [if_pos less, short (by omega) (by omega) less]
          exact .crashed
        · rw [if_neg less]
          exact goes (by omega) (by omega) (by omega)

theorem copy_goes (shape : Bytes → Prop) (fine : g.error = false) (fits : g.result.length ≤ kClientHelloLength)
    {size : Int} {bytes : Bytes} (enough : 0 < size → size ≤ bytes.length) (there : size = bytes.length → shape bytes) :
    Goes shape g (course outside.qt.sizes g.result.length [some ⟨size, bytes.length⟩]) (copy outside g size bytes) := by
  apply grow_goes fine fits
  · rfl
  · intro positive inside less
    have past : ¬ g.result.length + bytes.length ≤ (g.result ++ List.replicate size.toNat 0).length := by
      rw [List.length_append, List.length_replicate]
      omega
    dsimp only
    rw [if_neg (by omega), overwrite, if_neg past]
    rfl
  · intro positive inside least
    have same := enough positive
    have written := overwrite_grown g.result (show bytes.length = size.toNat by omega)
    dsimp only
    rw [if_neg (by omega), written]
    have wrote : Wrote shape g { g with result := g.result ++ bytes } bytes :=
      ⟨fine, rfl, there (by omega), .inl rfl, by rw [List.length_append]; omega⟩
    have goes := Goes.wrote wrote
    rw [List.length_append, show bytes.length = size.toNat by omega] at goes
    exact goes

theorem zero_goes (fine : g.error = false) (fits : g.result.length ≤ kClientHelloLength) (length : Int32) :
    Goes (Shape domain (.zero length)) g (course outside.qt.sizes g.result.length (requests domain.length (.zero length)))
      (writeBlock outside domain g (.zero length)) := by
  rw [requests, writeBlock]
  apply grow_goes fine fits
  · rfl
  · intro positive inside less
    omega
  · intro positive inside least
    have written := overwrite_grown g.result (@List.length_replicate UInt8 length.toInt.toNat 0)
    have placed : ∀ position : Int, (position = g.digestPosition ∨ length.toInt = kHelloDigestLength ∧
        g.digestPosition < 0 ∧ position = g.result.length) →
        Goes (Shape domain (.zero length)) g (.size (g.result.length + length.toInt.toNat))
          (some { g with
            result := g.result ++ List.replicate length.toInt.toNat 0
            digestPosition := position }) := by
      intro position place
      have size : ((List.replicate length.toInt.toNat 0 : Bytes).length : Int) = length.toInt := by
        rw [List.length_replicate]
        omega
      have wrote : Wrote (Shape domain (.zero length)) g { g with
          result := g.result ++ List.replicate length.toInt.toNat 0
          digestPosition := position } (List.replicate length.toInt.toNat 0) := by
        refine ⟨fine, rfl, size, ?_, by rw [List.length_append]; omega⟩
        refine place.imp id fun ⟨whole, unset, begins⟩ => ⟨unset, 0, begins.trans (Int.add_zero _).symm, ?_, ?_⟩
        · omega
        · intro patch filled
          rw [List.take_zero, List.nil_append, List.drop_eq_nil_of_le (by omega), List.append_nil]
          exact (congrArg Nat.cast filled).trans whole.symm
      have goes := Goes.wrote wrote
      rw [List.length_append, List.length_replicate] at goes
      exact goes
    dsimp only
    rw [if_neg (by omega)]
    by_cases first : length.toInt = kHelloDigestLength ∧ g.digestPosition < 0
    · rw [if_pos first]
      dsimp only
      rw [written]
      exact placed _ (.inr ⟨first.1, first.2, rfl⟩)
    · rw [if_neg first]
      dsimp only
      rw [written]
      exact placed _ (.inl rfl)

/-- The length of a scope is put in front of what was written for its entries. -/
theorem scope_goes (fine : g.error = false) (fits : g.result.length ≤ kClientHelloLength) {inner : List (Option Request)}
    {entries : ClientHelloGenerator → Option ClientHelloGenerator}
    (goes : ∀ g', g'.error = false → g'.result.length ≤ kClientHelloLength →
      Goes shape g' (course outside.qt.sizes g'.result.length inner) (entries g')) :
    Goes (fun data => ∃ inner, data = toBigEndian inner.length ++ inner ∧ inner.length < 2 ^ 16 ∧ shape inner) g
      (course outside.qt.sizes g.result.length (some ⟨kLengthSize, kLengthSize⟩ :: inner))
      ((grow outside g kLengthSize).bind fun (grown, storage) =>
        if storage = 0 then some grown
        else (entries grown).bind fun made =>
          (overwrite made.result g.result.length
            (toBigEndian ((made.result.length - grown.result.length) % 2 ^ 16))).bind fun result =>
            some { made with result := result }) := by
  apply grow_goes fine fits
  · rfl
  · intro positive inside less
    omega
  · intro positive inside least
    have length : (g.result ++ List.replicate kLengthSize (0 : UInt8)).length = g.result.length + kLengthSize := by
      rw [List.length_append, List.length_replicate]
    have wentOn := goes { g with result := g.result ++ List.replicate kLengthSize 0 } fine (by
      dsimp only
      omega)
    dsimp only at wentOn ⊢
    rw [length] at wentOn
    rw [show (kLengthSize : Int).toNat = kLengthSize from rfl, if_neg (by decide), length]
    generalize course outside.qt.sizes (g.result.length + kLengthSize) inner = taken at wentOn ⊢
    generalize entries _ = made at wentOn ⊢
    cases wentOn with
    | crashed => exact .crashed
    | @failed made error longer fits place =>
        dsimp only at longer place
        rw [length] at longer
        obtain ⟨result, written⟩ := @overwrite_inside UInt8 made.result
          (toBigEndian ((made.result.length - (g.result.length + kLengthSize)) % 2 ^ 16)) g.result.length longer
        have same := length_overwrite written
        have further : g.result.length ≤ result.length := by omega
        rw [Option.bind_some, written, Option.bind_some]
        refine .failed error further (same ▸ fits) ?_
        dsimp only
        rw [same]
        exact place
    | @wrote made new wrote =>
        have bytes : made.result = g.result ++ List.replicate kLengthSize 0 ++ new := wrote.result
        have fits := wrote.fits
        have total : made.result.length = g.result.length + kLengthSize + new.length := by
          rw [bytes, List.length_append, length]
        have small : new.length < 2 ^ 16 := by
          have bound : kClientHelloLength < 2 ^ 16 := by decide
          omega
        have inner : (made.result.length - (g.result.length + kLengthSize)) % 2 ^ 16 = new.length := by
          rw [total, Nat.add_sub_cancel_left, Nat.mod_eq_of_lt small]
        have written : overwrite made.result g.result.length (toBigEndian new.length) =
            some (g.result ++ (toBigEndian new.length ++ new)) := by
          rw [bytes, List.append_assoc]
          exact overwrite_part g.result new rfl
        have same : (g.result ++ (toBigEndian new.length ++ new)).length = made.result.length := by
          rw [List.length_append, List.length_append, length_toBigEndian, total, Nat.add_assoc]
          rfl
        rw [Option.bind_some, inner, written, Option.bind_some]
        have whole : Wrote (fun data => ∃ inner, data = toBigEndian inner.length ++ inner ∧ inner.length < 2 ^ 16 ∧
            shape inner) g { made with result := g.result ++ (toBigEndian new.length ++ new) }
            (toBigEndian new.length ++ new) := by
          refine ⟨wrote.fine, rfl, ⟨new, rfl, small, wrote.there⟩, ?_, same ▸ fits⟩
          refine wrote.place.imp_right fun ⟨unset, position, begins, hole⟩ =>
            ⟨unset, kLengthSize + position, ?_, hole.scope small⟩
          dsimp only at begins ⊢
          rw [begins, length]
          push_cast
          omega
        have goes := Goes.wrote whole
        rw [same] at goes
        exact goes

theorem writeBlock_failed (failed : g.error = true) (block : TlsBlock) : writeBlock outside domain g block = some g := by
  have same : g.fail = g := by
    rw [fail, ← failed]
  have stays : ∀ size, grow outside g size = some (g, 0) := by
    intro size
    rw [grow, if_pos (.inl failed), same]
  cases block with
  | string text => rw [writeBlock, copy, stays]; rfl
  | random length => rw [writeBlock, copy, stays]; rfl
  | zero length => rw [writeBlock, stays]; rfl
  | domain => rw [writeBlock, copy, stays]; rfl
  | grease seed =>
      rw [writeBlock, copy, stays, same]
      split
      · rfl
      · rfl
  | publicKey => rw [writeBlock, copy, stays]; rfl
  | scope entries => rw [writeBlock, stays]; rfl

theorem writeBlocks_failed (failed : g.error = true) (blocks : List TlsBlock) :
    writeBlocks outside domain g blocks = some g := by
  induction blocks with
  | nil => rw [writeBlocks]
  | cons block rest ih =>
      rw [writeBlocks, writeBlock_failed failed]
      exact ih

theorem toInt_ofNat_le (n : Nat) : (Int32.ofNat n).toInt ≤ n := by
  rw [Int32.toInt_ofNat', Int.bmod_def, show ((Int32.size : Nat) : Int) = 2 ^ 32 from rfl]
  omega

theorem length_greases (outside : Outside) : outside.greases.length = kMaxGrease := by
  rfl

mutual

theorem writeBlock_goes (block : TlsBlock) (g : ClientHelloGenerator) (fine : g.error = false)
    (fits : g.result.length ≤ kClientHelloLength) :
    Goes (Shape domain block) g (course outside.qt.sizes g.result.length (requests domain.length block))
      (writeBlock outside domain g block) := by
  cases block with
  | string text =>
      rw [requests, writeBlock]
      exact copy_goes _ fine fits (fun _ => toInt_ofNat_le _) fun _ => rfl
  | random length =>
      rw [requests, writeBlock]
      have goes := @copy_goes g outside (Shape domain (.random length)) fine fits length.toInt
        ((List.range length.toInt.toNat).map fun i => outside.random (g.result.length + i))
      rw [List.length_map, List.length_range] at goes
      refine goes (by omega) fun same => ?_
      change (((List.range length.toInt.toNat).map _).length : Int) = _
      rw [List.length_map, List.length_range]
      exact same.symm
  | zero length => exact zero_goes fine fits length
  | domain =>
      rw [requests, writeBlock]
      exact copy_goes _ fine fits (fun _ => toInt_ofNat_le _) fun _ => rfl
  | grease seed =>
      rw [requests, writeBlock, length_greases]
      split
      · exact goes_fail _ fits
      · have there : ∀ grease, Shape domain (.grease seed) [grease, grease] := fun grease => ⟨grease, rfl⟩
        exact @copy_goes g outside _ fine fits 2 _ (fun _ => Int.le_refl _) fun _ => there _
  | publicKey =>
      rw [requests, writeBlock]
      have length := outside.publicKey_length g.result.length
      have goes := @copy_goes g outside (Shape domain .publicKey) fine fits 32 (outside.publicKey g.result.length)
      rw [length] at goes ⊢
      exact goes (fun _ => Int.le_refl _) fun _ => length
  | scope entries =>
      rw [requests, writeBlock]
      exact scope_goes fine fits fun g' fine fits => writeBlocks_goes entries g' fine fits

theorem writeBlocks_goes (blocks : List TlsBlock) (g : ClientHelloGenerator) (fine : g.error = false)
    (fits : g.result.length ≤ kClientHelloLength) :
    Goes (Shapes domain blocks) g (course outside.qt.sizes g.result.length (requestsOf domain.length blocks))
      (writeBlocks outside domain g blocks) := by
  cases blocks with
  | nil =>
      rw [requestsOf, writeBlocks]
      have wrote : Wrote (Shapes domain []) g g [] := ⟨fine, (List.append_nil _).symm, rfl, .inl rfl, fits⟩
      exact .wrote wrote
  | cons block rest =>
      rw [requestsOf, writeBlocks, course_append]
      exact (writeBlock_goes block g fine fits).andThen (fun g' failed => writeBlocks_failed failed rest)
        fun g' fine fits => writeBlocks_goes rest g' fine fits

end

end IMeDesktop.Mtproto.TlsClientHello
