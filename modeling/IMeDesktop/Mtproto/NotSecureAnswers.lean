import IMeDesktop.Mtproto.TlReader

/-! # Answers that are not encrypted

While a key is created, answers come in the open. `parseNotSecureResponse` gives the span
of ints with the answer, and the readers of the key creator and of the connection
test take it from there.

A span may end behind its buffer: what lies there is given as a list of its own, so that a
reader that stays in the buffer is one that finds the same whatever that list is.
-/

namespace IMeDesktop.Mtproto.Handshake

open Lib

def mtpcResPQ : Nat := 0x05162463
def mtpcServerDHParamsFail : Nat := 0x79cb045d
def mtpcServerDHParamsOk : Nat := 0xd0e8075c
def mtpcDhGenOk : Nat := 0x3bcbf734
def mtpcDhGenRetry : Nat := 0x46dc1fb9
def mtpcDhGenFail : Nat := 0xa69dae02

/-- What a server answers: `MTPResPQ`, `MTPServer_DH_Params` and `MTPSet_client_DH_params_answer`. -/
inductive Answer where
  | resPQ (nonce serverNonce : Nat) (pq : List Nat) (fingerprints : List Nat)
  | serverDHParamsFail (nonce serverNonce newNonceHash : Nat)
  | serverDHParamsOk (nonce serverNonce : Nat) (encryptedAnswer : List Nat)
  | dhGenOk (nonce serverNonce newNonceHash1 : Nat)
  | dhGenRetry (nonce serverNonce newNonceHash2 : Nat)
  | dhGenFail (nonce serverNonce newNonceHash3 : Nat)
  deriving DecidableEq, Repr

def readResPQ : Reader Nat Answer :=
  readOnly mtpcResPQ do
    let nonce ← readInt128
    let serverNonce ← readInt128
    let pq ← readString
    let fingerprints ← readVector readLong
    pure (.resPQ nonce serverNonce pq fingerprints)

/-- Two nonces and a hash, which most answers are. -/
def readHashed (answer : Nat → Nat → Nat → Answer) : Reader Nat Answer := do
  let nonce ← readInt128
  let serverNonce ← readInt128
  let hash ← readInt128
  pure (answer nonce serverNonce hash)

def readServerDHParams : Reader Nat Answer :=
  readBoxed fun cons =>
    if cons = mtpcServerDHParamsFail then readHashed .serverDHParamsFail
    else if cons = mtpcServerDHParamsOk then do
      let nonce ← readInt128
      let serverNonce ← readInt128
      let encryptedAnswer ← readString
      pure (.serverDHParamsOk nonce serverNonce encryptedAnswer)
    else Reader.fail

def readSetClientDHParamsAnswer : Reader Nat Answer :=
  readBoxed fun cons =>
    if cons = mtpcDhGenOk then readHashed .dhGenOk
    else if cons = mtpcDhGenRetry then readHashed .dhGenRetry
    else if cons = mtpcDhGenFail then readHashed .dhGenFail
    else Reader.fail

/-- `handleAnswer` tries one type after the other. -/
def readAnswer : Reader Nat Answer := fun ints =>
  match readResPQ ints with
  | .failed =>
      match readServerDHParams ints with
      | .failed => readSetClientDHParamsAnswer ints
      | found => found
  | found => found

theorem safe_readResPQ : readResPQ.Safe 0 :=
  safe_readOnly (safe_readInt128.bind fun _ => safe_readInt128.bind fun _ => safe_readString.bind fun _ =>
    (safe_readVector safe_readLong).bind fun _ => Reader.safe_pure _)

theorem safe_readHashed (answer : Nat → Nat → Nat → Answer) : (readHashed answer).Safe 0 :=
  safe_readInt128.bind fun _ => safe_readInt128.bind fun _ => safe_readInt128.bind fun _ => Reader.safe_pure _

theorem safe_readServerDHParams : readServerDHParams.Safe 0 := by
  refine safe_readBoxed fun cons => ?_
  split_ifs
  · exact safe_readHashed _
  · exact safe_readInt128.bind fun _ => safe_readInt128.bind fun _ => safe_readString.bind fun _ => Reader.safe_pure _
  · exact Reader.safe_fail

theorem safe_readSetClientDHParamsAnswer : readSetClientDHParamsAnswer.Safe 0 := by
  refine safe_readBoxed fun cons => ?_
  split_ifs
  · exact safe_readHashed _
  · exact safe_readHashed _
  · exact safe_readHashed _
  · exact Reader.safe_fail

theorem safe_readAnswer : readAnswer.Safe 0 := by
  intro ints _
  rw [readAnswer]
  split
  · split
    · exact safe_readSetClientDHParamsAnswer ints (Nat.zero_le _)
    · exact safe_readServerDHParams ints (Nat.zero_le _)
  · exact safe_readResPQ ints (Nat.zero_le _)

/-! ## Spans -/

/-- Ints of a buffer: where they start, and how many they are said to be. -/
structure IntSpan where
  start : Nat
  count : Nat
  deriving DecidableEq, Repr

/-- The ints of a span over a buffer with something behind it. -/
def IntSpan.ints (span : IntSpan) (buffer behind : List Nat) : List Nat :=
  ((buffer ++ behind).drop span.start).take span.count

/-- The length of the answer, in bytes. -/
def announced (buffer : List Nat) : Nat := buffer.getD 4 0

/-- `none` is the empty span. -/
def parseNotSecureResponse (buffer : List Nat) : Option IntSpan :=
  if buffer.length < 6 then none
  else if buffer.getD 0 0 ≠ 0 ∨ buffer.getD 1 0 ≠ 0 ∨ buffer.getD 2 0 % 4 ≠ 1 then none
  else if announced buffer < 1 ∨ announced buffer > (buffer.length - 5) * 4 then none
  else some { start := 5, count := announced buffer }

/-- The answer that is read by the connection test. -/
def readPQFakeReply (buffer behind : List Nat) : Option (Reading Nat Answer) :=
  (parseNotSecureResponse buffer).map fun span => readResPQ (span.ints buffer behind)

/-- The answer that is read by the key creator. -/
def readNotSecureAnswer (buffer behind : List Nat) : Option (Reading Nat Answer) :=
  (parseNotSecureResponse buffer).map fun span => readAnswer (span.ints buffer behind)

theorem IntSpan.ints_inside {span : IntSpan} {buffer : List Nat} (inside : span.start + span.count ≤ buffer.length)
    (behind : List Nat) : span.ints buffer behind = span.ints buffer [] := by
  have start : span.start ≤ buffer.length := Nat.le_of_add_right_le inside
  have rest : span.count ≤ (buffer.drop span.start).length := by
    rw [List.length_drop]
    omega
  rw [IntSpan.ints, IntSpan.ints, List.drop_append_of_le_length start, List.drop_append_of_le_length start,
    List.take_append_of_le_length rest, List.take_append_of_le_length rest]

/-- The packet is too short, or it starts or announces something wrong. -/
def Refused (buffer : List Nat) : Prop :=
  buffer.length < 6 ∨ (buffer.getD 0 0 ≠ 0 ∨ buffer.getD 1 0 ≠ 0 ∨ buffer.getD 2 0 % 4 ≠ 1) ∨
    (announced buffer < 1 ∨ announced buffer > (buffer.length - 5) * 4)

theorem parseNotSecureResponse_eq_none {buffer : List Nat} : parseNotSecureResponse buffer = none ↔ Refused buffer := by
  rw [parseNotSecureResponse, Refused]
  split_ifs with short start length
  · exact iff_of_true rfl (.inl short)
  · exact iff_of_true rfl (.inr (.inl start))
  · exact iff_of_true rfl (.inr (.inr length))
  · exact iff_of_false nofun (by rintro (h | h | h) <;> contradiction)

theorem parseNotSecureResponse_eq_some {buffer : List Nat} {span : IntSpan}
    (parsed : parseNotSecureResponse buffer = some span) : span = { start := 5, count := announced buffer } := by
  rw [parseNotSecureResponse] at parsed
  split_ifs at parsed
  exact (Option.some.inj parsed).symm

/-- The span of an answer is in the buffer, and so is all that is read of it. -/
structure InsideBuffer (buffer : List Nat) : Prop where
  span : ∀ span, parseNotSecureResponse buffer = some span → span.start + span.count ≤ buffer.length
  noFault : ∀ behind, readPQFakeReply buffer behind ≠ some .fault ∧ readNotSecureAnswer buffer behind ≠ some .fault
  fakeReply : ∀ behind, readPQFakeReply buffer behind = readPQFakeReply buffer []
  answer : ∀ behind, readNotSecureAnswer buffer behind = readNotSecureAnswer buffer []

theorem insideBuffer_of_span {buffer : List Nat}
    (inside : ∀ span, parseNotSecureResponse buffer = some span → span.start + span.count ≤ buffer.length) :
    InsideBuffer buffer := by
  cases parsed : parseNotSecureResponse buffer with
  | none =>
      refine ⟨inside, fun behind => ?_, fun behind => ?_, fun behind => ?_⟩
      · simp [readPQFakeReply, readNotSecureAnswer, parsed]
      · simp only [readPQFakeReply, parsed, Option.map_none]
      · simp only [readNotSecureAnswer, parsed, Option.map_none]
  | some span =>
      have same := IntSpan.ints_inside (inside span parsed)
      refine ⟨inside, fun behind => ?_, fun behind => ?_, fun behind => ?_⟩
      · simp only [readPQFakeReply, readNotSecureAnswer, parsed, Option.map_some, ne_eq, Option.some.injEq]
        exact ⟨safe_readResPQ.ne_fault _, safe_readAnswer.ne_fault _⟩
      · simp only [readPQFakeReply, parsed, Option.map_some, same behind]
      · simp only [readNotSecureAnswer, parsed, Option.map_some, same behind]

/-- An answer is read inside of its buffer exactly when it is refused, or when the bytes it announces are not more than
the ints that are left: they are taken for a number of ints. -/
theorem insideBuffer_iff (buffer : List Nat) :
    InsideBuffer buffer ↔ Refused buffer ∨ announced buffer ≤ buffer.length - 5 := by
  constructor
  · intro inside
    cases parsed : parseNotSecureResponse buffer with
    | none => exact .inl (parseNotSecureResponse_eq_none.mp parsed)
    | some span =>
        have ends := inside.span span parsed
        rw [parseNotSecureResponse_eq_some parsed] at ends
        exact .inr (Nat.le_sub_of_add_le' ends)
  · intro small
    refine insideBuffer_of_span fun span parsed => ?_
    have accepted : ¬ Refused buffer := by
      rw [← parseNotSecureResponse_eq_none, parsed]
      nofun
    have long : ¬ buffer.length < 6 := fun short => accepted (.inl short)
    have fits := small.resolve_left accepted
    rw [parseNotSecureResponse_eq_some parsed]
    dsimp only
    omega

/-- An answer of five ints, as many bytes as it has. A `resPQ` that breaks off behind its nonce is read on behind the
buffer: the nonce of the server is whatever lies there. -/
theorem resPQ_read_behind :
    let buffer := [0, 0, 1, 0, 20, mtpcResPQ, 7, 0, 0, 0]
    ¬ InsideBuffer buffer ∧
      readPQFakeReply buffer [1, 0, 0, 0, 0, mtpcVector, 0] = some (.done (.resPQ 7 1 [] []) []) ∧
      readPQFakeReply buffer [2, 0, 0, 0, 0, mtpcVector, 0] = some (.done (.resPQ 7 2 [] []) []) := by
  refine ⟨fun inside => absurd (inside.span { start := 5, count := 20 } (by decide)) (by decide), ?_, ?_⟩
  · decide
  · decide

end IMeDesktop.Mtproto.Handshake
