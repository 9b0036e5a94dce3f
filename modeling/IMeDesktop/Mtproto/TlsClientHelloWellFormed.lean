import IMeDesktop.Mtproto.TlsClientHelloShape

/-! # Well-formed client hellos

A client hello is empty, or has the fixed length and the shape of its rules with a padding behind them. One is
always made, unless the program is terminated while the rules are written: the check of the length overflows,
or text of at least `2 ^ 32` bytes is copied to the storage that its truncated size got.
-/

namespace IMeDesktop.Mtproto.TlsClientHello

open Lib ClientHelloGenerator

/-! ## Terminated programs -/

def written (requests : List Request) : Nat := (requests.map (·.size.toNat)).sum

/-- Requests before this one are met, and this one terminates the program. -/
structure Overrun (sizes : Int) (total : Nat) (before : List Request) (request : Request) : Prop where
  met : ∀ earlier ∈ before, 0 < earlier.size ∧ earlier.bytes ≤ earlier.size
  room : total + written before ≤ kClientHelloLength
  positive : 0 < request.size
  overruns : sizes ≤ total + written before + request.size ∨
    total + written before + request.size ≤ kClientHelloLength ∧ request.size < request.bytes

def Overruns (sizes : Int) (total : Nat) (requests : List (Option Request)) : Prop :=
  ∃ before request after, requests = before.map some ++ some request :: after ∧ Overrun sizes total before request

variable {sizes : Int} {total : Nat} {request : Request} {rest : List (Option Request)}

theorem overruns_nil : ¬ Overruns sizes total [] := by
  intro ⟨before, request, after, split, _⟩
  cases before with
  | nil => cases split
  | cons first before => cases split

theorem overruns_none : ¬ Overruns sizes total (none :: rest) := by
  intro ⟨before, request, after, split, _⟩
  cases before with
  | nil => cases split
  | cons first before => cases split

/-- The first request terminates the program, or it is met and a later one does. -/
theorem overruns_cons : Overruns sizes total (some request :: rest) ↔
    (total ≤ kClientHelloLength ∧ 0 < request.size ∧ (sizes ≤ total + request.size ∨
      total + request.size ≤ kClientHelloLength ∧ request.size < request.bytes)) ∨
    (0 < request.size ∧ request.bytes ≤ request.size ∧ Overruns sizes (total + request.size.toNat) rest) := by
  constructor
  · intro ⟨before, last, after, split, overrun⟩
    cases before with
    | nil =>
        cases split
        exact .inl ⟨overrun.room, overrun.positive, overrun.overruns⟩
    | cons first before =>
        obtain ⟨rfl, rfl⟩ : request = first ∧ rest = before.map some ++ some last :: after := by
          simpa only [List.map_cons, List.cons_append, List.cons.injEq, Option.some.injEq] using split
        obtain ⟨positive, same⟩ := overrun.met request List.mem_cons_self
        have sum : written (request :: before) = request.size.toNat + written before := rfl
        have room := overrun.room
        have overruns := overrun.overruns
        rw [sum] at room overruns
        refine .inr ⟨positive, same, before, last, after, rfl, fun earlier known => ?_, by omega, overrun.positive, ?_⟩
        · exact overrun.met earlier (List.mem_cons_of_mem _ known)
        · push_cast at overruns ⊢
          omega
  · rintro (⟨room, positive, overruns⟩ | ⟨positive, same, before, last, after, rfl, overrun⟩)
    · exact ⟨[], request, rest, rfl, nofun, room, positive, overruns⟩
    · have sum : written (request :: before) = request.size.toNat + written before := rfl
      have room := overrun.room
      have overruns := overrun.overruns
      refine ⟨request :: before, last, after, rfl, fun earlier known => ?_, by omega, overrun.positive, ?_⟩
      · cases known with
        | head => exact ⟨positive, same⟩
        | tail _ known => exact overrun.met earlier known
      · rw [sum]
        push_cast at overruns ⊢
        omega

theorem course_crashed_iff (requests : List (Option Request)) (total : Nat)
    (room : total ≤ kClientHelloLength) : course sizes total requests = .crashed ↔ Overruns sizes total requests := by
  induction requests generalizing total with
  | nil =>
      rw [course]
      exact iff_of_false (fun same => by cases same) overruns_nil
  | cons request rest ih =>
      cases request with
      | none =>
          rw [course]
          exact iff_of_false (fun same => by cases same) overruns_none
      | some request =>
          rw [course, overruns_cons]
          split_ifs with empty overflows long short
          · exact iff_of_false (fun same => by cases same) (by omega)
          · exact iff_of_true rfl (.inl ⟨room, by omega, .inl overflows⟩)
          · refine iff_of_false (fun same => by cases same) ?_
            rintro (⟨_, _, first⟩ | ⟨_, same, before, last, after, _, overrun⟩)
            · omega
            · have room := overrun.room
              omega
          · exact iff_of_true rfl (.inl ⟨room, by omega, .inr ⟨by omega, short⟩⟩)
          · rw [ih _ (by omega)]
            constructor
            · exact fun overruns => .inr ⟨by omega, by omega, overruns⟩
            · rintro (⟨_, _, first⟩ | ⟨_, _, overruns⟩)
              · omega
              · exact overruns

/-! ## Padding -/

variable {outside : Outside} {domain key : Bytes}

theorem sizes_large (qt : Qt) : kClientHelloLength + kLengthSize < qt.sizes := by
  cases qt <;> decide

/-- What is left is filled, if there is room for a scope with a byte in it. -/
theorem padding_course (large : kClientHelloLength + kLengthSize < sizes) (g : ClientHelloGenerator)
    (room : g.result.length ≤ kClientHelloLength) :
    course sizes g.result.length (requestsOf domain.length [g.paddingBlock]) = .failed ∨
      course sizes g.result.length (requestsOf domain.length [g.paddingBlock]) = .size kClientHelloLength := by
  have scope : kLengthSize = 2 := rfl
  have whole : kClientHelloLength = 517 := rfl
  have padding : (Int32.ofInt (kClientHelloLength - kLengthSize - g.result.length)).toInt =
      kClientHelloLength - kLengthSize - g.result.length := Int32.toInt_ofInt_of_le (by omega) (by omega)
  have asked : requestsOf domain.length [g.paddingBlock] = [some ⟨kLengthSize, kLengthSize⟩,
      some ⟨kClientHelloLength - kLengthSize - g.result.length,
        (kClientHelloLength - kLengthSize - g.result.length : Int).toNat⟩] := by
    simp only [paddingBlock, requestsOf, requests, List.append_nil, padding]
  rw [asked, course, course, course]
  dsimp only
  split_ifs with _ _ _ _ empty
  · omega
  · omega
  · exact .inl rfl
  · omega
  · exact .inl rfl
  · omega
  · omega
  · omega
  · refine .inr (congrArg Course.size ?_)
    omega

theorem writeBlocks_append (g : ClientHelloGenerator) (blocks more : List TlsBlock) :
    writeBlocks outside domain g (blocks ++ more) =
      (writeBlocks outside domain g blocks).bind fun g => writeBlocks outside domain g more := by
  induction blocks generalizing g with
  | nil =>
      rw [writeBlocks]
      rfl
  | cons block rest ih =>
      rw [List.cons_append, writeBlocks, writeBlocks]
      cases writeBlock outside domain g block with
      | none => rfl
      | some g => exact ih g

theorem requestsOf_append (blocks more : List TlsBlock) :
    requestsOf domain.length (blocks ++ more) = requestsOf domain.length blocks ++ requestsOf domain.length more := by
  induction blocks with
  | nil =>
      rw [requestsOf]
      rfl
  | cons block rest ih => rw [List.cons_append, requestsOf, requestsOf, ih, List.append_assoc]

/-- The rules are written as if the padding was one of them. -/
theorem padded_goes (rules : List TlsBlock) (safe : ¬ Overruns outside.qt.sizes 0 (requestsOf domain.length rules)) :
    ∃ padding taken, (taken = .failed ∨ taken = .size kClientHelloLength) ∧
      Goes (Shapes domain (rules ++ [.scope [.zero padding]])) {} taken
        ((writeBlocks outside domain {} rules).bind (writePadding outside domain)) := by
  have begun := @writeBlocks_goes outside domain rules {} rfl (Nat.zero_le _)
  have large := sizes_large outside.qt
  have fine := mt (course_crashed_iff (requestsOf domain.length rules) 0 (Nat.zero_le _)).mp safe
  have start : ({} : ClientHelloGenerator).result.length = 0 := rfl
  rw [start] at begun
  generalize met : course outside.qt.sizes 0 (requestsOf domain.length rules) = taken at begun fine
  generalize made : writeBlocks outside domain {} rules = g at begun
  cases begun with
  | crashed => exact absurd rfl fine
  | @failed g error longer fits place =>
      rw [Option.bind_some, writePadding, writeBlock_failed error]
      exact ⟨0, .failed, .inl rfl, .failed error longer fits place⟩
  | @wrote g new wrote =>
      have goes := @writeBlocks_goes outside domain (rules ++ [g.paddingBlock]) {} rfl
        (Nat.zero_le _)
      have padding : requestsOf domain.length (rules ++ [g.paddingBlock]) =
          requestsOf domain.length rules ++ requestsOf domain.length [g.paddingBlock] := requestsOf_append _ _
      rw [start, padding, course_append, met, writeBlocks_append, made] at goes
      have last : writeBlocks outside domain g [g.paddingBlock] = writePadding outside domain g := by
        rw [writeBlocks, writePadding]
        cases writeBlock outside domain g g.paddingBlock with
        | none => rfl
        | some g => exact writeBlocks.eq_1 outside domain g
      rw [Option.bind_some, last] at goes
      exact ⟨_, _, padding_course large g wrote.fits, goes⟩

/-! ## Digest and time -/

/-- Only bytes at the place for the digest are different. -/
structure Patched (position : Nat) (data result : Bytes) : Prop where
  length : result.length = data.length
  before : result.take position = data.take position
  after : result.drop (position + kHelloDigestLength) = data.drop (position + kHelloDigestLength)

variable {shape : Bytes → Prop} {data result later bytes : Bytes} {position start : Nat}

theorem Patched.trans (patched : Patched position data result) (again : Patched position result later) :
    Patched position data later :=
  ⟨again.length.trans patched.length, again.before.trans patched.before, again.after.trans patched.after⟩

theorem Hole.patched (hole : Hole shape data position) (patched : Patched position data result) : shape result := by
  have inside := hole.inside
  have size : (window result position kHelloDigestLength).length = kHelloDigestLength :=
    length_window (by rw [patched.length]; exact inside)
  have kept := hole.keeps _ size
  rw [← patched.before, ← patched.after, window, ← List.drop_drop, List.append_assoc, List.take_append_drop,
    List.take_append_drop] at kept
  exact kept

theorem overwrite_patched (written : overwrite data start bytes = some result) (first : position ≤ start)
    (last : start + bytes.length ≤ position + kHelloDigestLength) : Patched position data result := by
  refine ⟨length_overwrite written, ?_, drop_overwrite_after written last⟩
  have before := congrArg (List.take position) (take_overwrite written)
  rw [List.take_take, List.take_take, Nat.min_eq_left first] at before
  exact before

variable {g : ClientHelloGenerator}

theorem writeDigest_set (set : g.digestPosition = position)
    (inside : position + kHelloDigestLength ≤ g.result.length) :
    ∃ result, writeDigest outside key g = some { g with result := result } ∧ Patched position g.result result := by
  have length := outside.hmacSha256_length key g.result
  obtain ⟨result, written⟩ := @overwrite_inside _ g.result (outside.hmacSha256 key g.result) position (by
    rw [length]
    exact inside)
  have same : g.digestPosition.toNat = position := by omega
  refine ⟨result, ?_, overwrite_patched written (Nat.le_refl _) (by rw [length]; exact Nat.le_refl _)⟩
  rw [writeDigest, if_neg (by omega), same, written]
  rfl

theorem writeTimestamp_set (set : g.digestPosition = position)
    (inside : position + kHelloDigestLength ≤ g.result.length) :
    ∃ result, writeTimestamp outside g =
        some { g with result := result, digest := window result position kHelloDigestLength } ∧
      Patched position g.result result := by
  have digest : kHelloDigestLength = 32 := rfl
  have same : g.digestPosition.toNat = position := by omega
  have timeInside : position + kHelloDigestLength - 4 + 4 ≤ g.result.length := by omega
  have time : (window g.result (position + kHelloDigestLength - 4) 4).length = 4 := length_window timeInside
  have mixed : (List.zipWith (· ^^^ ·) (window g.result (position + kHelloDigestLength - 4) 4)
      (toLittleEndian 4 outside.httpNow.toNat)).length = 4 := by
    rw [List.length_zipWith, time, length_toLittleEndian]
    rfl
  obtain ⟨result, written⟩ := @overwrite_inside _ g.result (List.zipWith (· ^^^ ·)
    (window g.result (position + kHelloDigestLength - 4) 4) (toLittleEndian 4 outside.httpNow.toNat))
    (position + kHelloDigestLength - 4) (by omega)
  have length := length_overwrite written
  refine ⟨result, ?_, overwrite_patched written (by omega) (by omega)⟩
  have read : subspan g.result ((position + kHelloDigestLength - 4 : Nat) : Int) 4 =
      some (window g.result (position + kHelloDigestLength - 4) 4) := subspan_window timeInside
  have whole : subspan result position kHelloDigestLength = some (window result position kHelloDigestLength) :=
    subspan_window (by omega)
  rw [writeTimestamp, if_neg (by omega), same]
  dsimp only
  rw [read]
  simp only [Option.bind_eq_bind, Option.bind_some, written, whole, Option.pure_def]

/-- Both are written to the same place. -/
theorem sealed_set (set : g.digestPosition = position)
    (inside : position + kHelloDigestLength ≤ g.result.length) :
    ∃ result, (writeDigest outside key g).bind (writeTimestamp outside) =
        some { g with result := result, digest := window result position kHelloDigestLength } ∧
      Patched position g.result result := by
  obtain ⟨digested, wrote, patched⟩ := @writeDigest_set outside key position g set inside
  obtain ⟨result, timed, again⟩ := @writeTimestamp_set outside position { g with result := digested } set (by
    rw [patched.length]
    exact inside)
  rw [wrote, Option.bind_some, timed]
  exact ⟨result, rfl, patched.trans again⟩

theorem sealed_unset (unset : g.digestPosition < 0) :
    (writeDigest outside key g).bind (writeTimestamp outside) = some g.fail := by
  have still : g.fail.digestPosition < 0 := unset
  rw [writeDigest, if_pos unset, Option.bind_some, writeTimestamp, if_pos still]
  rfl

/-! ## The whole hello -/

/-- Nothing at all, or the rules and a padding, with the digest among them. -/
def WellFormed (domain : Bytes) (rules : List TlsBlock) (hello : ClientHello) : Prop :=
  hello.data = [] ∧ hello.digest = [] ∨
  hello.data.length = kClientHelloLength ∧
    (∃ padding, Shapes domain (rules ++ [.scope [.zero padding]]) hello.data) ∧
    ∃ position, position + kHelloDigestLength ≤ hello.data.length ∧
      hello.digest = window hello.data position kHelloDigestLength

theorem result_failed {rules : List TlsBlock} (error : g.error = true) :
    WellFormed domain rules (TlsClientHello.result g) := by
  rw [TlsClientHello.result, if_pos error]
  exact .inl ⟨rfl, rfl⟩

theorem sealed_wellFormed {rules : List TlsBlock} {padding : Int32} {taken : Course}
    {made : Option ClientHelloGenerator} (last : taken = .failed ∨ taken = .size kClientHelloLength)
    (goes : Goes (Shapes domain (rules ++ [.scope [.zero padding]])) {} taken made) :
    ∃ g, made.bind (fun g => (writeDigest outside key g).bind (writeTimestamp outside)) = some g ∧
      WellFormed domain rules (TlsClientHello.result g) := by
  cases goes with
  | crashed => exact absurd last (by decide)
  | @failed g error longer fits place =>
      by_cases unset : g.digestPosition < 0
      · exact ⟨_, sealed_unset unset, result_failed rfl⟩
      · have nowhere : ({} : ClientHelloGenerator).digestPosition = -1 := rfl
        obtain ⟨position, set⟩ := Int.eq_ofNat_of_zero_le (Int.not_lt.mp unset)
        obtain ⟨result, made, _⟩ := @sealed_set outside key position g set (by omega)
        exact ⟨_, made, result_failed error⟩
  | @wrote g new wrote =>
      have whole : g.result.length = kClientHelloLength := by
        simpa only [reduceCtorEq, false_or, Course.size.injEq] using last
      rcases wrote.place with unset | ⟨_, position, set, hole⟩
      · exact ⟨_, sealed_unset (unset ▸ by decide), result_failed rfl⟩
      · have bytes : g.result = new := wrote.result
        rw [← bytes] at hole
        have start : ((([] : Bytes).length : Nat) : Int) + position = position := Int.zero_add _
        obtain ⟨result, made, patched⟩ := @sealed_set outside key position g (set.trans start) hole.inside
        refine ⟨_, made, .inr ?_⟩
        have fine : ¬ g.error = true := by rw [wrote.fine]; exact Bool.false_ne_true
        have length := patched.length
        rw [TlsClientHello.result, if_neg fine]
        refine ⟨length.trans whole, ⟨padding, hole.patched patched⟩, position, ?_, rfl⟩
        exact le_of_le_of_eq hole.inside length.symm

theorem prepareClientHello_eq (rules : List TlsBlock) : prepareClientHello outside rules domain key =
    (((writeBlocks outside domain {} rules).bind (writePadding outside domain)).bind fun g =>
      (writeDigest outside key g).bind (writeTimestamp outside)).map TlsClientHello.result := by
  rw [prepareClientHello]
  cases writeBlocks outside domain {} rules with
  | none => rfl
  | some g =>
      simp only [Option.bind_eq_bind, Option.bind_some]
      cases writePadding outside domain g with
      | none => rfl
      | some g =>
          simp only [Option.bind_some]
          cases writeDigest outside key g with
          | none => rfl
          | some g =>
              simp only [Option.bind_some]
              cases writeTimestamp outside g with
              | none => rfl
              | some g => rfl

/-- Only zeros come from outside. -/
def quiet (qt : Qt) : Outside where
  qt := qt
  greaseRandom _ := 0
  random _ := 0
  publicKey _ := List.replicate 32 0
  publicKey_length _ := List.length_replicate
  hmacSha256 _ _ := List.replicate 32 0
  hmacSha256_length _ _ := List.length_replicate
  httpNow := 0

example : (prepareClientHello (quiet .six) [.string [1], .zero 32, .scope [.domain]] [2, 3] []).map
    (fun hello => (hello.data.length, hello.data.drop 33 |>.take 8)) = some (517, [0, 2, 2, 3, 1, 222, 0, 0]) := by
  decide +kernel

end IMeDesktop.Mtproto.TlsClientHello
