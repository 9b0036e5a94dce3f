import IMeDesktop.Mtproto.TlsSocket

/-! # When the server hello is read inside its buffer

The hello carries two lengths chosen by the server. Both go through the 16-bit
`_serverHelloLength`, so a hello of 32768 bytes or more is read with a wrong length,
and the digest is taken at a fixed place even of a shorter hello. `HelloFits` is
the exact condition on what arrives under which no span leaves the buffer.

The digest itself decides only between an error and a connection, so nothing is
assumed about it.
-/

namespace IMeDesktop.Mtproto.TlsSocket

open Lib

variable {hmacSha256 : Bytes → Bytes → Bytes} {keyFromSecret : Bytes}

/-! ## What has arrived -/

/-- Read whole chunks until there are at least `need` bytes. -/
def reach (need : Int) (got : Bytes) : List Bytes → Option (Bytes × List Bytes)
  | [] => if need ≤ got.length then some (got, []) else none
  | chunk :: chunks =>
      if need ≤ got.length then some (got, chunk :: chunks) else reach need (got ++ chunk) chunks

/-- The bytes received when there are at least `need` of them for the first time. -/
def received (need : Int) (chunks : List Bytes) : Option Bytes :=
  (reach need [] chunks).map Prod.fst

theorem reach_enough {need : Int} {got : Bytes} (enough : need ≤ got.length) (chunks : List Bytes) :
    reach need got chunks = some (got, chunks) := by
  cases chunks with
  | nil => rw [reach, if_pos enough]
  | cons chunk chunks => rw [reach, if_pos enough]

theorem reach_le {need : Int} {got got' : Bytes} {chunks rest : List Bytes}
    (h : reach need got chunks = some (got', rest)) : need ≤ got'.length := by
  induction chunks generalizing got with
  | nil =>
      rw [reach] at h
      split_ifs at h with enough
      cases h
      exact enough
  | cons chunk chunks ih =>
      rw [reach] at h
      split_ifs at h with enough
      · cases h
        exact enough
      · exact ih h

/-- Waiting for more passes through every smaller amount. -/
theorem reach_trans {need more : Int} (least : need ≤ more) (got : Bytes) (chunks : List Bytes) :
    reach more got chunks = (reach need got chunks).bind fun (got, rest) => reach more got rest := by
  induction chunks generalizing got with
  | nil =>
      by_cases enough : need ≤ got.length
      · rw [reach_enough enough]
        rfl
      · have notMore : ¬ more ≤ got.length := by omega
        rw [reach, reach, if_neg enough, if_neg notMore]
        rfl
  | cons chunk chunks ih =>
      by_cases enough : need ≤ got.length
      · rw [reach_enough enough]
        rfl
      · have notMore : ¬ more ≤ got.length := by omega
        rw [reach, if_neg notMore, ih, reach, if_neg enough]

/-! ## The checks on a hello in progress -/

/-- The buffer starts with the client's digest. -/
def helloState (digest got : Bytes) (length : Int) : TlsSocket :=
  { state := .waitingHello, incoming := digest ++ got, serverHelloLength := length }

/-- A length field at a position. -/
def lengthAt (got : Bytes) (position : Nat) : Nat := fromBigEndian ((got.drop position).take 2)

theorem lengthAt_lt (got : Bytes) (position : Nat) : lengthAt got position < 2 ^ 16 :=
  fromBigEndian_lt _

variable {digest got : Bytes} {length : Int}

theorem ready_eq (digestSize : digest.length = 32) :
    (helloState digest got length).requiredHelloPartReady = decide (length ≤ got.length) := by
  simp only [requiredHelloPartReady, helloState, kHelloDigestLength, List.length_append, digestSize,
    decide_eq_decide]
  omega

theorem subspan_hello (digestSize : digest.length = 32) {count : Nat} (inside : count ≤ got.length) :
    subspan (helloState digest got length).incoming kHelloDigestLength count = some (got.take count) := by
  have bound : 32 + count ≤ (digest ++ got).length := by
    rw [List.length_append]
    omega
  have span := subspan_inside bound
  rw [← digestSize, List.drop_left] at span
  rw [digestSize] at span
  exact span

theorem subspan_hello_outside (digestSize : digest.length = 32) {count : Nat}
    (outside : got.length < count) :
    subspan (helloState digest got length).incoming kHelloDigestLength count = none := by
  refine subspan_outside 32 (by omega) (.inr ?_)
  simp only [helloState, List.length_append, digestSize]
  omega

theorem readPartLength_take {count position : Nat} (inside : count ≤ got.length)
    (fits : position + 2 ≤ count) :
    readPartLength (got.take count) position = some (lengthAt got position) := by
  have bound : position + 2 ≤ (got.take count).length := by
    rw [List.length_take]
    omega
  rw [readPartLength, kLengthSize, subspan_inside bound, Option.map_some, lengthAt, List.drop_take,
    List.take_take]
  congr 3
  omega

theorem checkPart_take {count position : Nat} {part : Bytes} (inside : count ≤ got.length)
    (fits : position + part.length ≤ count) :
    checkPart ((got.take count).drop position) part = checkPart (got.drop position) part := by
  have long : ¬ ((got.take count).drop position).length < part.length := by
    rw [List.length_drop, List.length_take]
    omega
  have long' : ¬ (got.drop position).length < part.length := by
    rw [List.length_drop]
    omega
  rw [checkPart, checkPart, if_neg long, if_neg long', List.drop_take, List.take_take]
  congr 2
  omega

/-- The digest is inside of what the length asks for. A length of -33 asks for
    `size_t(-1)` bytes, which is everything received. -/
def DigestInside (count : Nat) (length : Int) : Prop := 43 ≤ length ∨ (length = -33 ∧ 43 ≤ count)

/-- The end of the checks: an error or a connection. -/
def HelloStep.Decided : HelloStep → Prop
  | .error _ => True
  | .connected _ => True
  | _ => False

/-- With the hello cut out, only a short one leaves the digest outside. -/
theorem checkHelloDigest_of_span {s : TlsSocket} {fulldata : Bytes}
    (fresh : s.incomingGoodDataOffset = 0 ∧ s.incomingGoodDataLimit = 0)
    (span : subspan s.incoming 0 (kHelloDigestLength + s.serverHelloLength) = some fulldata) :
    (75 ≤ fulldata.length ∧ (checkHelloDigest hmacSha256 keyFromSecret s).Decided) ∨
    (fulldata.length < 75 ∧ checkHelloDigest hmacSha256 keyFromSecret s = .outside) := by
  rcases Nat.lt_or_ge fulldata.length 75 with short | long
  · right
    have inner : subspan fulldata (kHelloDigestLength + kServerHelloDigestPosition : Nat)
        kHelloDigestLength = none :=
      subspan_outside 43 (by decide) (.inr (by simp only [kHelloDigestLength]; omega))
    refine ⟨short, ?_⟩
    rw [checkHelloDigest, span]
    simp only [inner]
  · left
    have inner : subspan fulldata (kHelloDigestLength + kServerHelloDigestPosition : Nat)
        kHelloDigestLength = some ((fulldata.drop 43).take 32) := subspan_inside long
    refine ⟨long, ?_⟩
    rw [checkHelloDigest, span]
    simp only [inner]
    split_ifs
    · trivial
    · simp only [shiftIncomingBy, fresh, and_self, if_true]
      trivial

theorem checkHelloDigest_cases (hmacSha256 : Bytes → Bytes → Bytes) (keyFromSecret : Bytes)
    (digestSize : digest.length = 32) (ready : length ≤ got.length) :
    (DigestInside got.length length ∧
      (checkHelloDigest hmacSha256 keyFromSecret (helloState digest got length)).Decided) ∨
    (¬ DigestInside got.length length ∧
      checkHelloDigest hmacSha256 keyFromSecret (helloState digest got length) = .outside) := by
  have total : (digest ++ got).length = 32 + got.length := by rw [List.length_append, digestSize]
  rcases Int.lt_or_le length (-32) with negative | small
  · by_cases rest : length = -33
    · -- `size_t(-1)`: the whole buffer
      subst rest
      have all : (kHelloDigestLength : Int) + -33 = -1 := by decide
      have span : subspan (digest ++ got) (0 : Nat) (kHelloDigestLength + -33) =
          some (digest ++ got) := by
        rw [all]
        exact subspan_rest (Nat.zero_le _)
      rcases checkHelloDigest_of_span (s := helloState digest got (-33)) ⟨rfl, rfl⟩ span with
        ⟨long, decided⟩ | ⟨short, outside⟩
      · exact .inl ⟨.inr ⟨rfl, by omega⟩, decided⟩
      · refine .inr ⟨?_, outside⟩
        rintro (large | ⟨-, enough⟩) <;> omega
    · have span : subspan (digest ++ got) (0 : Nat) (32 + length) = none :=
        subspan_outside 0 (by omega) (.inl (by omega))
      refine .inr ⟨?_, ?_⟩
      · rintro (large | ⟨same, -⟩) <;> omega
      · have opened : subspan (helloState digest got length).incoming 0
            (kHelloDigestLength + (helloState digest got length).serverHelloLength) = none := span
        rw [checkHelloDigest, opened]
  · obtain ⟨count, same⟩ := Int.eq_ofNat_of_zero_le (by omega : 0 ≤ 32 + length)
    have inside : 0 + count ≤ (digest ++ got).length := by omega
    have span : subspan (digest ++ got) (0 : Nat) (32 + length) =
        some ((digest ++ got).take count) := by
      rw [same]
      exact subspan_inside inside
    have size : ((digest ++ got).take count).length = count := by
      rw [List.length_take]
      omega
    rcases checkHelloDigest_of_span (s := helloState digest got length) ⟨rfl, rfl⟩ span with
      ⟨long, decided⟩ | ⟨short, outside⟩
    · exact .inl ⟨.inl (by omega), decided⟩
    · refine .inr ⟨?_, outside⟩
      rintro (large | ⟨same, -⟩) <;> omega

theorem helloState_with (next : Int) :
    { helloState digest got length with serverHelloLength := next } = helloState digest got next := rfl

theorem checkHelloParts34_outside (digestSize : digest.length = 32) {parts123Size : Nat}
    (short : got.length < parts123Size) :
    checkHelloParts34 hmacSha256 keyFromSecret (helloState digest got length) parts123Size =
      .outside := by
  rw [checkHelloParts34, subspan_hello_outside digestSize short]

theorem checkHelloParts34_eq (digestSize : digest.length = 32) {parts123Size : Nat}
    (inside : parts123Size ≤ got.length) (least : 16 ≤ parts123Size) :
    checkHelloParts34 hmacSha256 keyFromSecret (helloState digest got length) parts123Size =
      if length = parts123Size then
        if checkPart (got.drop (parts123Size - 11)) kServerHelloPart3 then
          if int16 (parts123Size + lengthAt got (parts123Size - 2)) ≤ got.length then
            checkHelloDigest hmacSha256 keyFromSecret
              (helloState digest got (int16 (parts123Size + lengthAt got (parts123Size - 2))))
          else .readHello
            (helloState digest got (int16 (parts123Size + lengthAt got (parts123Size - 2))))
        else .error (helloState digest got length).handleError
      else checkHelloDigest hmacSha256 keyFromSecret (helloState digest got length) := by
  have lengthPosition : (parts123Size : Int) - kLengthSize = (parts123Size - 2 : Nat) := by
    simp only [kLengthSize]
    omega
  have partPosition : ((parts123Size - 2 : Nat) : Int) - kServerHelloPart3.length =
      (parts123Size - 11 : Nat) := by
    simp only [kServerHelloPart3, List.length_cons, List.length_nil]
    omega
  have size : parts123Size - 11 ≤ (got.take parts123Size).length := by
    rw [List.length_take]
    omega
  have part : checkPart ((got.take parts123Size).drop (parts123Size - 11)) kServerHelloPart3 =
      checkPart (got.drop (parts123Size - 11)) kServerHelloPart3 := by
    refine checkPart_take inside ?_
    simp only [kServerHelloPart3, List.length_cons, List.length_nil]
    omega
  rw [checkHelloParts34, subspan_hello digestSize inside]
  simp only [lengthPosition, partPosition, readPartLength_take inside (by omega :
    parts123Size - 2 + 2 ≤ parts123Size), subspan_rest size, part, helloState_with]
  by_cases first : length = parts123Size
  · rw [if_pos first]
    refine (if_pos first).trans ?_
    cases checkPart (got.drop (parts123Size - 11)) kServerHelloPart3 with
    | false => simp only [Bool.not_false, if_true, Bool.false_eq_true, if_false]
    | true =>
        by_cases ready : int16 (parts123Size + lengthAt got (parts123Size - 2)) ≤ got.length <;>
          simp [ready, ready_eq digestSize]
  · rw [if_neg first]
    exact if_neg first

theorem checkHelloParts12_eq (digestSize : digest.length = 32) (inside : 5 ≤ got.length) :
    checkHelloParts12 hmacSha256 keyFromSecret (helloState digest got length) 5 =
      if length = 5 then
        if checkPart got kServerHelloPart1 then
          if int16 (16 + lengthAt got 3 : Nat) ≤ got.length then
            checkHelloParts34 hmacSha256 keyFromSecret
              (helloState digest got (int16 (16 + lengthAt got 3 : Nat))) (16 + lengthAt got 3 : Nat)
          else .readHello (helloState digest got (int16 (16 + lengthAt got 3 : Nat)))
        else .error (helloState digest got length).handleError
      else
        checkHelloParts34 hmacSha256 keyFromSecret (helloState digest got length)
          (16 + lengthAt got 3 : Nat) := by
  have lengthPosition : (5 : Int) - kLengthSize = (3 : Nat) := by decide
  have partPosition : ((3 : Nat) : Int) - kServerHelloPart1.length = (0 : Nat) := by decide
  have size : 0 ≤ (got.take 5).length := Nat.zero_le _
  have part : checkPart ((got.take 5).drop 0) kServerHelloPart1 = checkPart got kServerHelloPart1 :=
    checkPart_take inside (by decide : 0 + kServerHelloPart1.length ≤ 5)
  have parts123Size : (5 : Int) + lengthAt got 3 + kServerHelloPart3.length + kLengthSize =
      (16 + lengthAt got 3 : Nat) := by
    simp only [kLengthSize, kServerHelloPart3, List.length_cons, List.length_nil]
    omega
  have span : subspan (helloState digest got length).incoming kHelloDigestLength 5 =
      some (got.take 5) := subspan_hello digestSize inside
  rw [checkHelloParts12, span]
  simp only [lengthPosition, partPosition, readPartLength_take inside (by decide : 3 + 2 ≤ 5),
    subspan_rest size, part, parts123Size, helloState_with]
  clear parts123Size
  generalize 16 + lengthAt got 3 = parts123Size
  by_cases first : length = 5
  · rw [if_pos first]
    refine (if_pos first).trans ?_
    cases checkPart got kServerHelloPart1 with
    | false => simp only [Bool.not_false, if_true, Bool.false_eq_true, if_false]
    | true =>
        by_cases ready : int16 parts123Size ≤ got.length <;>
          simp [ready, ready_eq digestSize]
  · rw [if_neg first]
    exact if_neg first

/-! ## Chunk by chunk -/

/-- What comes after a check, given what a call of `readHello` does. -/
def HelloStep.finish (readHello : TlsSocket → HelloOutcome) : HelloStep → HelloOutcome
  | .outside => .outside
  | .readHello s => readHello s
  | .error s => .error s
  | .connected s => .connected s

/-- The length that a call of `readHello` waits for. -/
def required (length : Int) : Int := if length = 0 then 5 else length

section Chunks

variable (hmacSha256 : Bytes → Bytes → Bytes) (keyFromSecret digest : Bytes)

/-- `readHello` with nothing left to read: the next chunk is needed, or a check is made. -/
def lookAt (got : Bytes) (length : Int) : HelloStep :=
  if required length ≤ got.length then
    checkHelloParts12 hmacSha256 keyFromSecret (helloState digest got (required length)) 5
  else .readHello (helloState digest got (required length))

/-- `readHello` without its inner calls: a call that finds too little reads the next chunk. -/
def helloFrom (got : Bytes) (length : Int) : List Bytes → HelloOutcome
  | [] => (lookAt hmacSha256 keyFromSecret digest got length).finish .wait
  | chunk :: chunks =>
      (lookAt hmacSha256 keyFromSecret digest got length).finish fun s =>
        helloFrom (got ++ chunk) s.serverHelloLength chunks

end Chunks

theorem checkHelloDigest_ne_readHello {s : TlsSocket} (digestSize : digest.length = 32)
    (ready : length ≤ got.length) :
    checkHelloDigest hmacSha256 keyFromSecret (helloState digest got length) ≠ .readHello s := by
  intro same
  rcases checkHelloDigest_cases hmacSha256 keyFromSecret digestSize ready with
    ⟨-, decided⟩ | ⟨-, outside⟩
  · rw [same] at decided
    exact decided
  · rw [same] at outside
    cases outside

theorem checkHelloParts34_readHello {s : TlsSocket} (digestSize : digest.length = 32)
    (ready : length ≤ got.length) {parts123Size : Nat} (least : 16 ≤ parts123Size)
    (more : checkHelloParts34 hmacSha256 keyFromSecret (helloState digest got length) parts123Size =
      .readHello s) : ∃ next : Int, got.length < next ∧ s = helloState digest got next := by
  rcases Nat.lt_or_ge got.length parts123Size with short | inside
  · rw [checkHelloParts34_outside digestSize short] at more
    cases more
  · rw [checkHelloParts34_eq digestSize inside least] at more
    split_ifs at more with first part enough
    · exact absurd more (checkHelloDigest_ne_readHello digestSize enough)
    · cases more
      exact ⟨_, by omega, rfl⟩
    · exact absurd more (checkHelloDigest_ne_readHello digestSize ready)

/-- A check asks for more only when more is needed. -/
theorem checkHelloParts12_readHello {s : TlsSocket} (digestSize : digest.length = 32)
    (inside : 5 ≤ got.length) (ready : length ≤ got.length)
    (more : checkHelloParts12 hmacSha256 keyFromSecret (helloState digest got length) 5 = .readHello s) :
    ∃ next : Int, got.length < next ∧ s = helloState digest got next := by
  rw [checkHelloParts12_eq digestSize inside] at more
  split_ifs at more with first part enough
  · exact checkHelloParts34_readHello digestSize enough (by omega) more
  · cases more
    exact ⟨_, by omega, rfl⟩
  · exact checkHelloParts34_readHello digestSize ready (by omega) more

theorem required_required (length : Int) : required (required length) = required length := by
  unfold required
  split_ifs <;> omega

theorem readUntilReady_ready (digestSize : digest.length = 32) (ready : length ≤ got.length)
    (chunks : List Bytes) :
    (helloState digest got length).readUntilReady chunks = (helloState digest got length, chunks) := by
  cases chunks with
  | nil => rfl
  | cons chunk chunks =>
      rw [readUntilReady, ready_eq digestSize, decide_eq_true ready]
      rfl

theorem readHelloCalls_succ (fuel : Nat) (chunks : List Bytes) :
    readHelloCalls hmacSha256 keyFromSecret (fuel + 1) (helloState digest got length) chunks =
      if !((helloState digest got (required length)).readUntilReady chunks).1.requiredHelloPartReady then
        .wait ((helloState digest got (required length)).readUntilReady chunks).1
      else
        (checkHelloParts12 hmacSha256 keyFromSecret
          ((helloState digest got (required length)).readUntilReady chunks).1 5).finish
          fun s => readHelloCalls hmacSha256 keyFromSecret fuel s
            ((helloState digest got (required length)).readUntilReady chunks).2 := by
  have init : (if (helloState digest got length).serverHelloLength = 0 then
      { helloState digest got length with
        serverHelloLength := (kServerHelloPart1.length + kLengthSize : Nat) }
      else helloState digest got length) = helloState digest got (required length) := by
    unfold required
    by_cases zero : length = 0
    · rw [if_pos zero]
      exact if_pos zero
    · rw [if_neg zero]
      exact if_neg zero
  rw [readHelloCalls]
  simp only [init]
  split_ifs with late
  · rfl
  · generalize step : checkHelloParts12 hmacSha256 keyFromSecret
      ((helloState digest got (required length)).readUntilReady chunks).1 5 = next
    have stepped : checkHelloParts12 hmacSha256 keyFromSecret
      ((helloState digest got (required length)).readUntilReady chunks).1
      ((kServerHelloPart1.length + kLengthSize : Nat) : Int) = next := step
    rw [stepped]
    cases next <;> rfl

theorem readHelloCalls_ready (digestSize : digest.length = 32) (ready : required length ≤ got.length)
    (fuel : Nat) (chunks : List Bytes) :
    readHelloCalls hmacSha256 keyFromSecret (fuel + 1) (helloState digest got length) chunks =
      (checkHelloParts12 hmacSha256 keyFromSecret (helloState digest got (required length)) 5).finish
        fun s => readHelloCalls hmacSha256 keyFromSecret fuel s chunks := by
  rw [readHelloCalls_succ, readUntilReady_ready digestSize ready, ready_eq digestSize,
    decide_eq_true ready]
  rfl

theorem readHelloCalls_read (digestSize : digest.length = 32) (late : got.length < required length)
    (fuel : Nat) (chunk : Bytes) (chunks : List Bytes) :
    readHelloCalls hmacSha256 keyFromSecret (fuel + 1) (helloState digest got length) (chunk :: chunks) =
      readHelloCalls hmacSha256 keyFromSecret (fuel + 1)
        (helloState digest (got ++ chunk) (required length)) chunks := by
  have next : (helloState digest got (required length)).readUntilReady (chunk :: chunks) =
      (helloState digest (got ++ chunk) (required length)).readUntilReady chunks := by
    rw [readUntilReady, ready_eq digestSize, decide_eq_false (by omega)]
    simp only [Bool.false_eq_true, if_false, append, helloState, List.append_assoc]
  rw [readHelloCalls_succ, readHelloCalls_succ, required_required, next]

theorem readHelloCalls_wait (digestSize : digest.length = 32) (late : got.length < required length)
    (fuel : Nat) :
    readHelloCalls hmacSha256 keyFromSecret (fuel + 1) (helloState digest got length) [] =
      .wait (helloState digest got (required length)) := by
  rw [readHelloCalls_succ, readUntilReady, ready_eq digestSize, decide_eq_false (by omega)]
  rfl

theorem required_eq_self {next : Int} (late : got.length < next) : required next = next := by
  rw [required, if_neg (by omega)]

/-- The calls of `readHello` need one chunk each, so the fuel never runs out. -/
theorem readHelloCalls_eq_helloFrom (digestSize : digest.length = 32) {fuel : Nat} {chunks : List Bytes}
    (enough : chunks.length + 2 ≤ fuel) (begun : 5 ≤ required length ∨ 5 ≤ got.length) :
    readHelloCalls hmacSha256 keyFromSecret fuel (helloState digest got length) chunks =
      helloFrom hmacSha256 keyFromSecret digest got length chunks := by
  obtain ⟨rest, rfl⟩ : ∃ rest, fuel = rest + 2 := ⟨fuel - 2, by omega⟩
  induction chunks generalizing got length rest with
  | nil =>
      rw [helloFrom, lookAt]
      by_cases ready : required length ≤ got.length
      · rw [readHelloCalls_ready digestSize ready, if_pos ready]
        cases check : checkHelloParts12 hmacSha256 keyFromSecret
            (helloState digest got (required length)) 5 with
        | readHello s =>
            obtain ⟨next, late, rfl⟩ := checkHelloParts12_readHello digestSize (by omega) ready check
            have same := required_eq_self late
            rw [HelloStep.finish, HelloStep.finish, readHelloCalls_wait digestSize (by omega), same]
        | outside => rfl
        | error s => rfl
        | connected s => rfl
      · rw [readHelloCalls_wait digestSize (by omega), if_neg ready]
        rfl
  | cons chunk chunks ih =>
      have longer : got.length ≤ (got ++ chunk).length := by rw [List.length_append]; omega
      rw [List.length_cons] at enough
      rw [helloFrom, lookAt]
      by_cases ready : required length ≤ got.length
      · rw [readHelloCalls_ready digestSize ready, if_pos ready]
        cases check : checkHelloParts12 hmacSha256 keyFromSecret
            (helloState digest got (required length)) 5 with
        | readHello s =>
            obtain ⟨next, late, rfl⟩ := checkHelloParts12_readHello digestSize (by omega) ready check
            have same := required_eq_self late
            rw [HelloStep.finish, HelloStep.finish, readHelloCalls_read digestSize (by omega), same]
            obtain ⟨less, rfl⟩ : ∃ less, rest = less + 1 := ⟨rest - 1, by omega⟩
            exact ih (.inr (by omega)) less (by omega)
        | outside => rfl
        | error s => rfl
        | connected s => rfl
      · rw [readHelloCalls_read digestSize (by omega), if_neg ready, HelloStep.finish]
        refine ih ?_ rest (by omega)
        rw [required_required]
        omega

theorem helloFrom_wait {next : Int} (late : got.length < next) :
    helloFrom hmacSha256 keyFromSecret digest got next [] = .wait (helloState digest got next) := by
  rw [helloFrom, lookAt, required_eq_self late, if_neg (by omega), HelloStep.finish]

theorem helloFrom_read {next : Int} (late : got.length < next) (chunk : Bytes) (chunks : List Bytes) :
    helloFrom hmacSha256 keyFromSecret digest got next (chunk :: chunks) =
      helloFrom hmacSha256 keyFromSecret digest (got ++ chunk) next chunks := by
  rw [helloFrom, lookAt, required_eq_self late, if_neg (by omega), HelloStep.finish]
  rfl

theorem helloFrom_required (chunks : List Bytes) :
    helloFrom hmacSha256 keyFromSecret digest got length chunks =
      helloFrom hmacSha256 keyFromSecret digest got (required length) chunks := by
  cases chunks <;> rw [helloFrom, helloFrom, lookAt, lookAt, required_required]

theorem helloFrom_ready (digestSize : digest.length = 32) (ready : required length ≤ got.length)
    (inside : 5 ≤ got.length) (chunks : List Bytes) :
    helloFrom hmacSha256 keyFromSecret digest got length chunks =
      (checkHelloParts12 hmacSha256 keyFromSecret (helloState digest got (required length)) 5).finish
        fun s => helloFrom hmacSha256 keyFromSecret digest got s.serverHelloLength chunks := by
  cases check : checkHelloParts12 hmacSha256 keyFromSecret
      (helloState digest got (required length)) 5 with
  | readHello s =>
      obtain ⟨next, late, rfl⟩ := checkHelloParts12_readHello digestSize inside ready check
      cases chunks with
      | nil =>
          rw [helloFrom, lookAt, if_pos ready, check, HelloStep.finish, HelloStep.finish]
          exact (helloFrom_wait late).symm
      | cons chunk chunks =>
          rw [helloFrom, lookAt, if_pos ready, check, HelloStep.finish, HelloStep.finish]
          exact (helloFrom_read late chunk chunks).symm
  | outside => cases chunks <;> rw [helloFrom, lookAt, if_pos ready, check] <;> rfl
  | error s => cases chunks <;> rw [helloFrom, lookAt, if_pos ready, check] <;> rfl
  | connected s => cases chunks <;> rw [helloFrom, lookAt, if_pos ready, check] <;> rfl

/-- A hello that has not been given up: an outcome that the callers know. -/
def HelloOutcome.Safe : HelloOutcome → Prop
  | .outside => False
  | .unfinished => False
  | _ => True

instance : DecidablePred HelloOutcome.Safe
  | .outside => .isFalse id
  | .unfinished => .isFalse id
  | .wait _ => .isTrue trivial
  | .error _ => .isTrue trivial
  | .connected _ => .isTrue trivial

/-- A call of `readHello` on `chunks` waits in a state from which `more` goes on as if
    everything had come at once, or it does not wait. -/
def GoesOn (hmacSha256 : Bytes → Bytes → Bytes) (keyFromSecret digest got : Bytes) (length : Int)
    (chunks more : List Bytes) : Prop :=
  (∃ got' : Bytes, ∃ next : Int, got'.length < next ∧ (5 ≤ next ∨ 5 ≤ got'.length) ∧
    helloFrom hmacSha256 keyFromSecret digest got length chunks = .wait (helloState digest got' next) ∧
    helloFrom hmacSha256 keyFromSecret digest got length (chunks ++ more) =
      helloFrom hmacSha256 keyFromSecret digest got' next more) ∨
  ((∀ s, helloFrom hmacSha256 keyFromSecret digest got length chunks ≠ .wait s) ∧
    helloFrom hmacSha256 keyFromSecret digest got length (chunks ++ more) =
      helloFrom hmacSha256 keyFromSecret digest got length chunks)

/-- Where a check is made, the call goes on as it does after the check. -/
theorem goesOn_ready (digestSize : digest.length = 32) (ready : required length ≤ got.length)
    (inside : 5 ≤ got.length) {chunks more : List Bytes}
    (late : ∀ next : Int, got.length < next →
      GoesOn hmacSha256 keyFromSecret digest got next chunks more) :
    GoesOn hmacSha256 keyFromSecret digest got length chunks more := by
  unfold GoesOn
  rw [helloFrom_ready digestSize ready inside chunks, helloFrom_ready digestSize ready inside
    (chunks ++ more)]
  cases check : checkHelloParts12 hmacSha256 keyFromSecret
      (helloState digest got (required length)) 5 with
  | readHello s =>
      obtain ⟨next, less, rfl⟩ := checkHelloParts12_readHello digestSize inside ready check
      exact late next less
  | outside => exact .inr ⟨fun s => nofun, rfl⟩
  | error s => exact .inr ⟨fun s => nofun, rfl⟩
  | connected s => exact .inr ⟨fun s => nofun, rfl⟩

theorem helloFrom_goesOn (digestSize : digest.length = 32)
    (begun : 5 ≤ required length ∨ 5 ≤ got.length) (chunks more : List Bytes) :
    GoesOn hmacSha256 keyFromSecret digest got length chunks more := by
  induction chunks generalizing got length with
  | nil =>
      have late : ∀ next : Int, (5 ≤ next ∨ 5 ≤ got.length) → got.length < next →
          GoesOn hmacSha256 keyFromSecret digest got next [] more :=
        fun next begun less => .inl ⟨got, next, less, begun, helloFrom_wait less, rfl⟩
      by_cases ready : required length ≤ got.length
      · have inside : 5 ≤ got.length := by omega
        exact goesOn_ready digestSize ready inside fun next => late next (.inr inside)
      · have waits := late (required length) begun (by omega)
        unfold GoesOn at waits ⊢
        rw [helloFrom_required, helloFrom_required ([] ++ more)]
        exact waits
  | cons chunk chunks ih =>
      have longer : got.length ≤ (got ++ chunk).length := by rw [List.length_append]; omega
      have late : ∀ next : Int, (5 ≤ next ∨ 5 ≤ got.length) → got.length < next →
          GoesOn hmacSha256 keyFromSecret digest got next (chunk :: chunks) more := by
        intro next begun less
        have goesOn : GoesOn hmacSha256 keyFromSecret digest (got ++ chunk) next chunks more :=
          ih (by rw [required_eq_self less]; omega)
        unfold GoesOn at goesOn ⊢
        rw [helloFrom_read less, List.cons_append, helloFrom_read less]
        exact goesOn
      by_cases ready : required length ≤ got.length
      · have inside : 5 ≤ got.length := by omega
        exact goesOn_ready digestSize ready inside fun next => late next (.inr inside)
      · have waits := late (required length) begun (by omega)
        unfold GoesOn at waits ⊢
        rw [helloFrom_required, helloFrom_required (chunk :: chunks ++ more)]
        exact waits

/-- Signals make no difference: only the chunks do. -/
theorem receiveHello_safe_iff (digestSize : digest.length = 32)
    (late : got.length < required length) (begun : 5 ≤ required length ∨ 5 ≤ got.length)
    (signals : List (List Bytes)) :
    (receiveHello hmacSha256 keyFromSecret (helloState digest got length) signals).Safe ↔
      (helloFrom hmacSha256 keyFromSecret digest got length signals.flatten).Safe := by
  induction signals generalizing got length with
  | nil =>
      rw [receiveHello, List.flatten_nil, helloFrom_required, helloFrom_wait late]
      exact Iff.rfl
  | cons socket signals ih =>
      have read : readHello hmacSha256 keyFromSecret (helloState digest got length) socket =
          helloFrom hmacSha256 keyFromSecret digest got length socket :=
        readHelloCalls_eq_helloFrom digestSize (Nat.le_refl _) begun
      rw [receiveHello, read, List.flatten_cons]
      have outcome : GoesOn hmacSha256 keyFromSecret digest got length socket signals.flatten :=
        helloFrom_goesOn digestSize begun socket signals.flatten
      rcases outcome with ⟨got', next, less, begun', waits, goesOn⟩ | ⟨decided, same⟩
      · rw [waits, goesOn]
        have keeps := required_eq_self less
        exact ih (by omega) (by omega)
      · rw [same]
        split
        · rename_i s waits
          exact absurd waits (decided s)
        · exact Iff.rfl

/-! ## The condition -/

theorem reach_grown {need : Int} {got' : Bytes} {chunks rest : List Bytes}
    (h : reach need got chunks = some (got', rest)) : got <+: got' := by
  induction chunks generalizing got with
  | nil =>
      rw [reach] at h
      split_ifs at h
      cases h
      exact List.prefix_rfl
  | cons chunk chunks ih =>
      rw [reach] at h
      split_ifs at h
      · cases h
        exact List.prefix_rfl
      · exact (List.prefix_append got chunk).trans (ih h)

theorem lengthAt_grown {got' : Bytes} {position : Nat} (grown : got <+: got')
    (inside : position + 2 ≤ got.length) : lengthAt got' position = lengthAt got position := by
  obtain ⟨more, rfl⟩ := grown
  rw [lengthAt, lengthAt, List.drop_append_of_le_length (by omega),
    List.take_append_of_le_length (by rw [List.length_drop]; omega)]

/-- A call of `readHello` is as safe as the check it makes once enough has arrived. -/
theorem helloFrom_safe_iff (digestSize : digest.length = 32)
    (begun : 5 ≤ required length ∨ 5 ≤ got.length) (chunks : List Bytes) :
    (helloFrom hmacSha256 keyFromSecret digest got length chunks).Safe ↔
      ∀ got' rest, reach (required length) got chunks = some (got', rest) →
        ((checkHelloParts12 hmacSha256 keyFromSecret (helloState digest got' (required length)) 5).finish
          fun s => helloFrom hmacSha256 keyFromSecret digest got' s.serverHelloLength rest).Safe := by
  induction chunks generalizing got with
  | nil =>
      by_cases ready : required length ≤ got.length
      · rw [helloFrom_ready digestSize ready (by omega), reach_enough ready]
        simp
      · rw [helloFrom_required, helloFrom_wait (by omega), reach, if_neg ready]
        simp [HelloOutcome.Safe]
  | cons chunk chunks ih =>
      by_cases ready : required length ≤ got.length
      · rw [helloFrom_ready digestSize ready (by omega), reach_enough ready]
        simp
      · have begun' : 5 ≤ required length ∨ 5 ≤ (got ++ chunk).length := by
          rw [List.length_append]
          omega
        rw [helloFrom_required, helloFrom_read (by omega), ← helloFrom_required, reach, if_neg ready]
        exact ih begun'

/-- After a part has been checked: go on at once, or once the next part is there. -/
theorem finish_safe_iff (digestSize : digest.length = 32) (inside : 5 ≤ got.length) {next : Int}
    (check : Bytes → HelloStep) (rest : List Bytes)
    (again : ∀ got', got <+: got' → got.length < next → next ≤ got'.length →
      checkHelloParts12 hmacSha256 keyFromSecret (helloState digest got' next) 5 = check got') :
    ((if next ≤ got.length then check got else .readHello (helloState digest got next)).finish
      fun s => helloFrom hmacSha256 keyFromSecret digest got s.serverHelloLength rest).Safe ↔
      ∀ got' rest', reach next got rest = some (got', rest') →
        ((check got').finish
          fun s => helloFrom hmacSha256 keyFromSecret digest got' s.serverHelloLength rest').Safe := by
  by_cases ready : next ≤ got.length
  · rw [if_pos ready, reach_enough ready]
    simp
  · have same : required next = next := required_eq_self (by omega : got.length < next)
    rw [if_neg ready, HelloStep.finish]
    change (helloFrom hmacSha256 keyFromSecret digest got next rest).Safe ↔ _
    rw [helloFrom_safe_iff digestSize (.inr inside), same]
    refine forall₂_congr fun got' rest' => ?_
    refine imp_congr_right fun reached => ?_
    rw [again got' (reach_grown reached) (by omega) (reach_le reached)]

theorem finish_digest_safe_iff (digestSize : digest.length = 32) (ready : length ≤ got.length)
    (readHello : TlsSocket → HelloOutcome) :
    ((checkHelloDigest hmacSha256 keyFromSecret (helloState digest got length)).finish readHello).Safe ↔
      DigestInside got.length length := by
  rcases checkHelloDigest_cases hmacSha256 keyFromSecret digestSize ready with
    ⟨inside, decided⟩ | ⟨notInside, outside⟩
  · refine iff_of_true ?_ inside
    generalize checkHelloDigest hmacSha256 keyFromSecret (helloState digest got length) = step
      at decided
    cases step with
    | error s => trivial
    | connected s => trivial
    | outside => exact decided
    | readHello s => cases decided
  · rw [outside]
    exact iff_of_false id notInside

/-- Both lengths fit: the first part must leave the hello below 2^15 bytes, and what is
    left of the whole length in 16 bits must reach past the digest. -/
def HelloFits (chunks : List Bytes) : Prop :=
  ∀ got ∈ received 5 chunks, checkPart got kServerHelloPart1 = true →
    let parts123Size := 16 + lengthAt got 3
    if parts123Size < 2 ^ 15 then
      ∀ got ∈ received parts123Size chunks,
        checkPart (got.drop (parts123Size - 11)) kServerHelloPart3 = true →
        let full := int16 (parts123Size + lengthAt got (parts123Size - 2))
        ∀ got ∈ received (max parts123Size full) chunks, DigestInside got.length full
    else
      ∀ got ∈ received (max 5 (int16 parts123Size)) chunks,
        parts123Size ≤ got.length ∧ DigestInside got.length (int16 parts123Size)

theorem mem_received {need : Int} {chunks : List Bytes} :
    got ∈ received need chunks ↔ ∃ rest, reach need [] chunks = some (got, rest) := by
  simp [received]

theorem reach_max {need : Int} (enough : need ≤ got.length) (next : Int) (chunks : List Bytes) :
    reach (max need next) got chunks = reach next got chunks := by
  have same : max need next ≤ got.length ↔ next ≤ got.length := by omega
  induction chunks generalizing got with
  | nil => rw [reach, reach, if_congr same rfl rfl]
  | cons chunk chunks ih =>
      have longer : need ≤ (got ++ chunk).length := by
        rw [List.length_append]
        omega
      rw [reach, reach, if_congr same rfl (ih longer (by omega))]

/-- What has arrived later, seen from what had arrived before. -/
theorem forall_received {need next : Int} {chunks rest : List Bytes} {property : Bytes → Prop}
    (reached : reach need [] chunks = some (got, rest)) :
    (∀ got' ∈ received (max need next) chunks, property got') ↔
      ∀ got' rest', reach next got rest = some (got', rest') → property got' := by
  have later : reach (max need next) [] chunks = reach next got rest := by
    rw [reach_trans (Int.le_max_left need next), reached]
    exact reach_max (reach_le reached) next rest
  simp only [mem_received, later]
  exact ⟨fun h got' rest' found => h got' ⟨rest', found⟩, fun h got' ⟨rest', found⟩ => h got' rest' found⟩

theorem int16_small {n : Nat} (small : n < 2 ^ 15) : int16 n = n := by
  unfold int16
  exact Int.bmod_eq_of_le (by omega) (by omega)

theorem int16_large {n : Nat} (large : 2 ^ 15 ≤ n) (bound : n < 2 ^ 16 + 2 ^ 15) :
    int16 n = n - 2 ^ 16 := by
  unfold int16
  rw [← Int.sub_bmod_right]
  exact Int.bmod_eq_of_le (by omega) (by omega)

section Main

variable {rest : List Bytes} {readHello : TlsSocket → HelloOutcome} {parts123Size : Nat}

/-- Everything after the first part, for a hello whose length fits in 16 bits. -/
theorem parts34_safe_iff (digestSize : digest.length = 32) (least : 16 ≤ parts123Size)
    (small : parts123Size < 2 ^ 15) (same : 16 + lengthAt got 3 = parts123Size)
    (inside : parts123Size ≤ got.length) :
    ((checkHelloParts34 hmacSha256 keyFromSecret (helloState digest got parts123Size)
      parts123Size).finish
      fun s => helloFrom hmacSha256 keyFromSecret digest got s.serverHelloLength rest).Safe ↔
    (checkPart (got.drop (parts123Size - 11)) kServerHelloPart3 = true →
      ∀ got' rest', reach (int16 (parts123Size + lengthAt got (parts123Size - 2))) got rest =
        some (got', rest') →
        DigestInside got'.length (int16 (parts123Size + lengthAt got (parts123Size - 2)))) := by
  rw [checkHelloParts34_eq digestSize inside least, if_pos rfl]
  cases part : checkPart (got.drop (parts123Size - 11)) kServerHelloPart3 with
  | false => simp [HelloStep.finish, HelloOutcome.Safe]
  | true =>
      generalize int16 (parts123Size + lengthAt got (parts123Size - 2)) = full
      -- a later call checks both parts again, and then only the digest
      have again : ∀ got', got <+: got' → got.length < full → full ≤ got'.length →
          checkHelloParts12 hmacSha256 keyFromSecret (helloState digest got' full) 5 =
            checkHelloDigest hmacSha256 keyFromSecret (helloState digest got' full) := by
        intro got' grown late ready
        rw [checkHelloParts12_eq digestSize (by omega), if_neg (by omega),
          lengthAt_grown grown (by omega), same, checkHelloParts34_eq digestSize (by omega) least,
          if_neg (by omega)]
      simp only [if_true, true_imp_iff]
      rw [finish_safe_iff digestSize (by omega)
        (fun got => checkHelloDigest hmacSha256 keyFromSecret (helloState digest got full)) rest again]
      refine forall₂_congr fun got' rest' => imp_congr_right fun reached => ?_
      exact finish_digest_safe_iff digestSize (reach_le reached) _

/-- The same for a hello whose length does not fit. -/
theorem parts34_wrapped_safe_iff (digestSize : digest.length = 32) (least : 16 ≤ parts123Size)
    (wrapped : length ≠ parts123Size) (ready : length ≤ got.length) :
    ((checkHelloParts34 hmacSha256 keyFromSecret (helloState digest got length)
      parts123Size).finish readHello).Safe ↔
    (parts123Size ≤ got.length ∧ DigestInside got.length length) := by
  rcases Nat.lt_or_ge got.length parts123Size with short | inside
  · rw [checkHelloParts34_outside digestSize short]
    refine iff_of_false id ?_
    rintro ⟨inside, -⟩
    omega
  · rw [checkHelloParts34_eq digestSize inside least, if_neg wrapped,
      finish_digest_safe_iff digestSize ready]
    exact (and_iff_right inside).symm

end Main

/-- Whatever the server sends and however it is cut into chunks and signals, reading the
    hello ends in an error, a connection or a wait for more, with every span inside what
    was received, exactly when the announced lengths fit. -/
theorem receiveHello_safe_iff_fits (hmacSha256 : Bytes → Bytes → Bytes) (keyFromSecret : Bytes)
    {digest : Bytes} (digestSize : digest.length = kHelloDigestLength) (signals : List (List Bytes)) :
    (receiveHello hmacSha256 keyFromSecret (helloState digest [] 0) signals).Safe ↔
      HelloFits signals.flatten := by
  have size : digest.length = 32 := digestSize
  have five : required 0 = 5 := rfl
  rw [receiveHello_safe_iff size (by decide) (.inl (by decide)),
    helloFrom_safe_iff size (.inl (by decide)), five]
  generalize signals.flatten = chunks
  have first : HelloFits chunks ↔ ∀ got rest, reach 5 [] chunks = some (got, rest) → _ :=
    ⟨fun h got rest found => h got (mem_received.mpr ⟨rest, found⟩),
      fun h got found => (mem_received.mp found).elim fun rest reached => h got rest reached⟩
  rw [first]
  refine forall₂_congr fun got rest => imp_congr_right fun reached => ?_
  have inside : 5 ≤ got.length := by
    have := reach_le reached
    omega
  rw [checkHelloParts12_eq size inside, if_pos rfl]
  cases part : checkPart got kServerHelloPart1 with
  | false => simp [HelloStep.finish, HelloOutcome.Safe]
  | true =>
      have bound := lengthAt_lt got 3
      simp only [if_true, true_imp_iff]
      generalize parts : 16 + lengthAt got 3 = parts123Size
      have again : ∀ got', got <+: got' → got.length < int16 parts123Size →
          int16 parts123Size ≤ got'.length →
          checkHelloParts12 hmacSha256 keyFromSecret (helloState digest got' (int16 parts123Size)) 5 =
            checkHelloParts34 hmacSha256 keyFromSecret
              (helloState digest got' (int16 parts123Size)) parts123Size := by
        intro got' grown late ready
        rw [checkHelloParts12_eq size (by omega), if_neg (by omega), lengthAt_grown grown inside, parts]
      rw [finish_safe_iff size inside (fun got => checkHelloParts34 hmacSha256 keyFromSecret
        (helloState digest got (int16 parts123Size)) parts123Size) rest again]
      by_cases small : parts123Size < 2 ^ 15
      · have wide : received parts123Size chunks = received (max 5 parts123Size) chunks := by
          rw [Int.max_eq_right (by omega)]
        rw [if_pos small, int16_small small, wide, forall_received reached]
        refine forall₂_congr fun got' rest' => imp_congr_right fun reached' => ?_
        have grown := reach_grown reached'
        have ready := reach_le reached'
        rw [parts34_safe_iff size (by omega) small ((lengthAt_grown grown inside).symm ▸ parts) (by omega)]
        refine imp_congr_right fun _ => ?_
        have both : reach parts123Size [] chunks = some (got', rest') := by
          rw [reach_trans (by omega : (5 : Int) ≤ parts123Size), reached]
          exact reached'
        exact (forall_received both).symm
      · have wrapped : int16 parts123Size = parts123Size - 2 ^ 16 := int16_large (by omega) (by omega)
        rw [if_neg small, forall_received reached]
        refine forall₂_congr fun got' rest' => imp_congr_right fun reached' => ?_
        exact parts34_wrapped_safe_iff size (by omega) (by omega) (reach_le reached')

/-- The shortest hello that holds a digest, in three chunks. -/
theorem receiveHello_safe_iff_fits_shortest :
    HelloFits [[0x16, 0x03], [0x03, 0, 0, 0x14, 0x03, 0x03, 0x00, 0x01],
      [0x01, 0x17, 0x03, 0x03, 0, 27] ++ List.replicate 27 0] :=
  (receiveHello_safe_iff_fits (fun _ _ => List.replicate 32 0) []
    (List.length_replicate (n := 32) (a := (0 : UInt8)))
    [[[0x16, 0x03], [0x03, 0, 0, 0x14, 0x03, 0x03, 0x00, 0x01]],
      [[0x01, 0x17, 0x03, 0x03, 0, 27] ++ List.replicate 27 0]]).mp (by decide)

/-- A hello with two empty parts is too short for its digest. -/
theorem empty_hello_outside :
    ¬ ∀ (hmacSha256 : Bytes → Bytes → Bytes) (keyFromSecret digest : Bytes)
      (signals : List (List Bytes)), digest.length = kHelloDigestLength →
      (receiveHello hmacSha256 keyFromSecret (helloState digest [] 0) signals).Safe := by
  intro claim
  have safe := claim (fun _ _ => []) [] (List.replicate 32 0)
    [[[0x16, 0x03, 0x03, 0, 0, 0x14, 0x03, 0x03, 0x00, 0x01, 0x01, 0x17, 0x03, 0x03, 0, 0]]]
    List.length_replicate
  exact absurd safe (by decide)

end IMeDesktop.Mtproto.TlsSocket
