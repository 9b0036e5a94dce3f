import IMeDesktop.Mtproto.DcKeyCreator

/-! # What an answer can lead to

Each answer ends the creation or takes one attempt further, with a request that is sent. What
holds of whole runs is derived from the cases given here, without looking at the code of
the answers again.
-/

namespace IMeDesktop.Mtproto.Handshake

/-! ## Whole blocks -/

theorem aesLengths_encryptPQInnerLoop (crypto : Crypto) (key : RSAPublicKey) (dataWithPadding : List Nat)
    (tempKeys : List (List Nat)) :
    ∀ length ∈ (encryptPQInnerLoop crypto key dataWithPadding tempKeys).aesLengths,
      length = dataWithPadding.length + 32 := by
  have hashed : ∀ tempKey, (dataWithPadding.reverse ++ crypto.sha256 (tempKey ++ dataWithPadding)).length =
      dataWithPadding.length + 32 := by
    intro tempKey
    rw [List.length_append, List.length_reverse, crypto.length_sha256]
  induction tempKeys with
  | nil => nofun
  | cons tempKey others ih =>
      rw [encryptPQInnerLoop]
      dsimp only
      split
      · exact List.forall_mem_singleton.mpr (hashed tempKey)
      · exact List.forall_mem_cons.mpr ⟨hashed tempKey, ih⟩

/-- Data is filled up to 192 bytes, and a hash of 32 is added. -/
theorem aesLengths_encryptPQInnerRSA (crypto : Crypto) (draw : Draw) (key : RSAPublicKey) (data : List Nat) :
    ∀ length ∈ (encryptPQInnerRSA crypto draw key data).aesLengths, length % 16 = 0 := by
  rw [encryptPQInnerRSA]
  split
  · nofun
  · rename_i short
    intro length member
    rw [aesLengths_encryptPQInnerLoop crypto key _ draw.tempKeys length member, List.length_append,
      draw.length_random]
    omega

theorem encFullSize_mod (data : ClientDHInnerData) : data.encFullSize * 4 % 16 = 0 := by
  rw [ClientDHInnerData.encFullSize]
  split <;> omega

namespace DcKeyCreator

variable {crypto : Crypto} {draw : Draw} {c later : DcKeyCreator} {kind : Kind}

/-! ## The two outcomes -/

/-- What is told on the way, with no block cut off. -/
def aesDeeds (lengths : List Nat) : List Deed := lengths.map .aesIge

/-- The creator does not go on. The callback may have been called with an error. -/
structure Ends (c later : DcKeyCreator) : Prop where
  stopped : later.running = false
  log : ∃ lengths : List Nat, (∀ length ∈ lengths, length % 16 = 0) ∧
    (later.log = aesDeeds lengths ++ c.log ∨ ∃ error, later.log = .done (.error error) :: (aesDeeds lengths ++ c.log))

/-- One attempt is changed, and a request is sent for it. -/
structure Proceeds (c later : DcKeyCreator) (kind : Kind) (request : Request) : Prop where
  running : later.running = c.running
  others : ∀ other, other ≠ kind → later.attempt other = c.attempt other
  log : ∃ lengths : List Nat, (∀ length ∈ lengths, length % 16 = 0) ∧
    later.log = .sent kind request :: (aesDeeds lengths ++ c.log)

theorem ends_stop : Ends c c.stop := ⟨rfl, [], nofun, .inl rfl⟩

theorem ends_failed (error : DcKeyError) : Ends c (c.failed error) := ⟨rfl, [], nofun, .inr ⟨error, rfl⟩⟩

/-- Only the log in front matters for how it ends. -/
theorem Ends.of_log {first : DcKeyCreator} (ends : Ends first later) {lengths : List Nat}
    (whole : ∀ length ∈ lengths, length % 16 = 0) (told : first.log = aesDeeds lengths ++ c.log) : Ends c later := by
  obtain ⟨stopped, others, wholeOthers, log⟩ := ends
  refine ⟨stopped, others ++ lengths, List.forall_mem_append.mpr ⟨wholeOthers, whole⟩, ?_⟩
  rw [told] at log
  rw [aesDeeds, List.map_append, List.append_assoc]
  exact log

theorem Ends.setAttempt {attempt : Attempt} (ends : Ends (c.setAttempt attempt kind) later) : Ends c later :=
  @Ends.of_log c later _ ends [] nofun (log_setAttempt c attempt kind)

theorem proceeds_setAttempt (attempt : Attempt) (request : Request) :
    Proceeds c ((c.setAttempt attempt kind).tell (.sent kind request)) kind request := by
  refine ⟨running_setAttempt c attempt kind, fun other ne => ?_, [], nofun, ?_⟩
  · rw [attempt_tell, attempt_setAttempt_ne c attempt kind ne]
  · rw [log_tell, log_setAttempt]
    rfl

theorem Proceeds.setAttempt {attempt : Attempt} {request : Request}
    (proceeds : Proceeds (c.setAttempt attempt kind) later kind request) : Proceeds c later kind request := by
  obtain ⟨running, others, log⟩ := proceeds
  rw [running_setAttempt] at running
  rw [log_setAttempt] at log
  refine ⟨running, fun other ne => ?_, log⟩
  rw [others other ne, attempt_setAttempt_ne c attempt kind ne]

theorem Proceeds.of_log {first : DcKeyCreator} {request : Request} (proceeds : Proceeds first later kind request)
    {lengths : List Nat} (whole : ∀ length ∈ lengths, length % 16 = 0)
    (same : first = { c with log := aesDeeds lengths ++ c.log }) : Proceeds c later kind request := by
  subst same
  obtain ⟨running, others, more, wholeMore, log⟩ := proceeds
  refine ⟨running, ?_, more ++ lengths, List.forall_mem_append.mpr ⟨wholeMore, whole⟩, ?_⟩
  · intro other ne
    rw [others other ne]
    cases other <;> rfl
  · rw [log, aesDeeds, aesDeeds, aesDeeds, List.map_append, List.append_assoc]

/-! ## The answers -/

theorem atStage_cases {stage : Stage} {next : DcKeyCreator → DcKeyCreator} :
    Ends c (c.atStage kind stage next) ∨ (c.attempt kind).stage = stage ∧ c.atStage kind stage next = next c := by
  rw [atStage]
  split
  · exact .inr ⟨‹_›, rfl⟩
  · exact .inl (ends_failed _)

theorem pqAnswered_cases (crypto : Crypto) (draw : Draw) (c : DcKeyCreator) (kind : Kind) (serverNonce : Nat)
    (pq fingerprints : List Nat) :
    Ends c (c.pqAnswered crypto draw kind serverNonce pq fingerprints) ∨
      (c.attempt kind).stage = .waitingPQ ∧
        ((c.pqAnswered crypto draw kind serverNonce pq fingerprints).attempt kind).stage = .waitingDH ∧
        ∃ nonce p q fingerprint encrypted, Proceeds c (c.pqAnswered crypto draw kind serverNonce pq fingerprints) kind
          (.reqDHParams nonce serverNonce p q fingerprint encrypted) := by
  rw [pqAnswered]
  rcases @atStage_cases c kind .waitingPQ _ with ends | ⟨stage, same⟩
  · exact .inl ends
  rw [same]
  cases draw.getDcRSAKey fingerprints with
  | none => exact .inl (ends_failed _)
  | some rsaKey =>
      dsimp only
      split
      · exact .inl (ends_failed _).setAttempt
      · rw [aesIges_whole (aesLengths_encryptPQInnerRSA crypto draw rsaKey _)]
        generalize encryption : encryptPQInnerRSA crypto draw rsaKey _ = encrypted
        have whole : ∀ length ∈ encrypted.aesLengths.reverse, length % 16 = 0 := by
          intro length member
          rw [← encryption] at member
          exact aesLengths_encryptPQInnerRSA crypto draw rsaKey _ length (List.mem_reverse.mp member)
        split
        · exact .inl (ends_stop.of_log whole rfl).setAttempt
        · exact .inl ((ends_failed _).of_log whole rfl).setAttempt
        · refine .inr ⟨stage, ?_, _, _, _, _, _, ((proceeds_setAttempt _ _).of_log whole rfl).setAttempt⟩
          rw [attempt_tell, attempt_setAttempt]

/-- `g_b`, as the client offers it. -/
def offer (attempt : Attempt) (power : List Nat) : ClientDHInnerData :=
  { nonce := attempt.data.nonce, serverNonce := attempt.data.serverNonce, retryId := attempt.data.retryId
    gB := getBytes (attempt.data.g ^ bigNum power % bigNum attempt.dhPrime) }

def offerRequest (crypto : Crypto) (draw : Draw) (attempt : Attempt) (power : List Nat) : Request :=
  .setClientDHParams attempt.data.nonce attempt.data.serverNonce
    (encryptClientDHInner crypto draw (offer attempt power) attempt.data.aesKey attempt.data.aesIV)

/-- The key of an attempt is made from a power, and its hash is put into the buffer. -/
structure Offered (crypto : Crypto) (before after : Attempt) (power : List Nat) : Prop where
  goodB : isGoodModExpFirst (before.data.g ^ bigNum power % bigNum before.dhPrime) (bigNum before.dhPrime) = true
  goodA : isGoodModExpFirst (bigNum before.gA) (bigNum before.dhPrime) = true
  authKey : after.authKey = fillData (getBytes (bigNum before.gA ^ bigNum power % bigNum before.dhPrime))
  data : after.data = { before.data with
    newNonceBuf := { before.data.newNonceBuf with authKeyAuxHash := (crypto.sha1 after.authKey).take 8 } }
  dhPrime : after.dhPrime = before.dhPrime
  gA : after.gA = before.gA
  stage : after.stage = .waitingDone

theorem dhClientParamsSend_cases (crypto : Crypto) (draw : Draw) (c : DcKeyCreator) (kind : Kind) :
    Ends c (c.dhClientParamsSend crypto draw kind) ∨
      ∃ power, Offered crypto (c.attempt kind) ((c.dhClientParamsSend crypto draw kind).attempt kind) power ∧
        Proceeds c (c.dhClientParamsSend crypto draw kind) kind (offerRequest crypto draw (c.attempt kind) power) := by
  rw [dhClientParamsSend]
  dsimp only
  split
  · exact .inl (ends_failed _).setAttempt
  · split
    · exact .inl ends_stop.setAttempt
    · rename_i first created
      obtain ⟨modexp, goodB⟩ := createModExp_good created
      split
      · exact .inl (ends_failed _).setAttempt
      · split
        · exact .inl (ends_failed _).setAttempt
        · rename_i computed
          obtain ⟨goodA, authKey⟩ := createAuthKey_good computed
          have whole : ∀ inner : ClientDHInnerData, ∀ length ∈ [inner.encFullSize * 4], length % 16 = 0 :=
            fun inner => List.forall_mem_singleton.mpr (encFullSize_mod inner)
          rw [aesIge_whole (encFullSize_mod _), modexp, authKey, attempt_tell, attempt_setAttempt]
          refine .inr ⟨first.randomPower, ?_, ?_⟩
          · exact { goodB, goodA, authKey := rfl, data := rfl, dhPrime := rfl, gA := rfl, stage := rfl }
          · exact ((proceeds_setAttempt _ _).of_log (whole _) rfl).setAttempt

/-- The answer is decrypted: it is expected, and long enough and a number of ints. -/
structure Decrypts (c : DcKeyCreator) (kind : Kind) (serverNonce : Nat) (encryptedAnswer : List Nat) : Prop where
  stage : (c.attempt kind).stage = .waitingDH
  serverNonce : serverNonce = (c.attempt kind).data.serverNonce
  ints : encryptedAnswer.length % 4 = 0
  long : 6 ≤ encryptedAnswer.length / 4

def attemptAesKey (crypto : Crypto) (attempt : Attempt) : List Nat :=
  tempAesKey crypto attempt.data.newNonceBuf.newNonce attempt.data.serverNonce

def attemptAesIV (crypto : Crypto) (attempt : Attempt) : List Nat :=
  tempAesIV crypto attempt.data.newNonceBuf.newNonce attempt.data.serverNonce

def decryptedAnswer (crypto : Crypto) (attempt : Attempt) (encryptedAnswer : List Nat) : List Nat :=
  crypto.aesIgeDecryptRaw encryptedAnswer (attemptAesKey crypto attempt) (attemptAesIV crypto attempt)

/-- The attempt with what the server gave. -/
def withInner (crypto : Crypto) (attempt : Attempt) (inner : ServerDHInnerData) : Attempt :=
  { attempt with
    data := { attempt.data with
      aesKey := attemptAesKey crypto attempt, aesIV := attemptAesIV crypto attempt
      g := inner.g, retryId := List.replicate 8 0 }
    dhPrime := inner.dhPrime, gA := inner.gA, retries := 0 }

theorem dhParamsOkAnswered_cases (crypto : Crypto) (draw : Draw) (c : DcKeyCreator) (kind : Kind) (serverNonce : Nat)
    (encryptedAnswer : List Nat) :
    (Ends c (c.dhParamsOkAnswered crypto draw kind serverNonce encryptedAnswer) ∧
      (Decrypts c kind serverNonce encryptedAnswer → encryptedAnswer.length % 16 = 0)) ∨
    (Decrypts c kind serverNonce encryptedAnswer ∧ encryptedAnswer.length % 16 ≠ 0 ∧
      c.dhParamsOkAnswered crypto draw kind serverNonce encryptedAnswer =
        (c.tell (.aesIge encryptedAnswer.length)).stop) ∨
    (Decrypts c kind serverNonce encryptedAnswer ∧ encryptedAnswer.length % 16 = 0 ∧ ∃ inner power,
      serverDHInner crypto (c.attempt kind).data (decryptedAnswer crypto (c.attempt kind) encryptedAnswer) =
        some inner ∧
      Offered crypto (withInner crypto (c.attempt kind) inner)
        ((c.dhParamsOkAnswered crypto draw kind serverNonce encryptedAnswer).attempt kind) power ∧
      Proceeds c (c.dhParamsOkAnswered crypto draw kind serverNonce encryptedAnswer) kind
        (offerRequest crypto draw (withInner crypto (c.attempt kind) inner) power)) := by
  rw [dhParamsOkAnswered]
  rw [atStage]
  split
  · rename_i stage
    dsimp only
    split
    · rename_i other
      exact .inl ⟨ends_failed _, fun decrypts => absurd decrypts.serverNonce other⟩
    · rename_i same
      split
      · rename_i bad
        refine .inl ⟨ends_failed _, fun decrypts => ?_⟩
        rcases bad with cut | short
        · exact absurd decrypts.ints cut
        · exact absurd decrypts.long (Nat.not_le.mpr short)
      · rename_i good
        have decrypts : Decrypts c kind serverNonce encryptedAnswer := by
          refine ⟨stage, not_not.mp same, ?_, ?_⟩ <;> omega
        by_cases whole : encryptedAnswer.length % 16 = 0
        · have told : ∀ length ∈ [encryptedAnswer.length], length % 16 = 0 := List.forall_mem_singleton.mpr whole
          rw [aesIge_whole whole]
          split
          · exact .inl ⟨(ends_failed _).of_log told rfl, fun _ => whole⟩
          · rename_i inner found
            rcases dhClientParamsSend_cases crypto draw
              (((c.tell (.aesIge encryptedAnswer.length)).setAttempt (withInner crypto (c.attempt kind) inner) kind))
              kind with ends | ⟨power, offered, proceeds⟩
            · exact .inl ⟨ends.setAttempt.of_log told rfl, fun _ => whole⟩
            · rw [attempt_setAttempt] at offered proceeds
              exact .inr (.inr ⟨decrypts, whole, inner, power, found, offered, proceeds.setAttempt.of_log told rfl⟩)
        · exact .inr (.inl ⟨decrypts, whole, if_neg whole⟩)
  · rename_i stage
    exact .inl ⟨ends_failed _, fun decrypts => absurd decrypts.stage stage⟩

theorem dhParamsFailAnswered_ends (crypto : Crypto) (c : DcKeyCreator) (kind : Kind) (serverNonce newNonceHash : Nat) :
    Ends c (c.dhParamsFailAnswered crypto kind serverNonce newNonceHash) := by
  rw [dhParamsFailAnswered, atStage]
  split
  · dsimp only
    split
    · exact ends_failed _
    · split <;> exact ends_failed _
  · exact ends_failed _

/-- The buffer with the byte of an answer in it. -/
def checked (check : Nat) (attempt : Attempt) : Attempt :=
  { attempt with data := { attempt.data with newNonceBuf := { attempt.data.newNonceBuf with check := check } } }

/-- The answer names the attempt, and carries the hash with the byte. -/
structure Acknowledges (crypto : Crypto) (check : Nat) (attempt : Attempt) (nonce serverNonce newNonceHash : Nat) :
    Prop where
  stage : attempt.stage = .waitingDone
  nonce : nonce = attempt.data.nonce
  serverNonce : serverNonce = attempt.data.serverNonce
  hash : newNonceHash = nonceDigest crypto (checked check attempt).data.newNonceBuf.bytes

theorem dhGenAnswered_cases (crypto : Crypto) (check : Nat) (c : DcKeyCreator) (kind : Kind)
    (nonce serverNonce newNonceHash : Nat) (next : DcKeyCreator → DcKeyCreator) :
    Ends c (dhGenAnswered crypto check c kind nonce serverNonce newNonceHash next) ∨
      Acknowledges crypto check (c.attempt kind) nonce serverNonce newNonceHash ∧
        dhGenAnswered crypto check c kind nonce serverNonce newNonceHash next =
          next (c.setAttempt (checked check (c.attempt kind)) kind) := by
  rw [dhGenAnswered, atStage]
  split
  · rename_i stage
    dsimp only
    split
    · exact .inl (ends_failed _)
    · rename_i sameNonce
      split
      · exact .inl (ends_failed _)
      · rename_i sameServerNonce
        split
        · exact .inl (ends_failed _).setAttempt
        · rename_i sameHash
          exact .inr ⟨⟨stage, not_not.mp sameNonce, not_not.mp sameServerNonce, not_not.mp sameHash⟩, rfl⟩
  · exact .inl (ends_failed _)

/-- The attempt after `dh_gen_ok`. -/
def confirmed (attempt : Attempt) : Attempt :=
  { checked 1 attempt with
    data := { (checked 1 attempt).data with
      doneSalt := Nat.ofDigits 256 (attempt.data.newNonceBuf.newNonce.take 8) ^^^ attempt.data.serverNonce % 2 ^ 64 }
    stage := .ready }

theorem dhGenOkAnswered_cases (crypto : Crypto) (draw : Draw) (c : DcKeyCreator) (kind : Kind)
    (nonce serverNonce newNonceHash1 : Nat) :
    Ends c (c.dhGenOkAnswered crypto draw kind nonce serverNonce newNonceHash1) ∨
      Acknowledges crypto 1 (c.attempt kind) nonce serverNonce newNonceHash1 ∧
        c.dhGenOkAnswered crypto draw kind nonce serverNonce newNonceHash1 =
          (c.setAttempt (confirmed (c.attempt kind)) kind).done draw := by
  rw [dhGenOkAnswered]
  rcases dhGenAnswered_cases crypto 1 c kind nonce serverNonce newNonceHash1 _ with ends | ⟨acknowledges, same⟩
  · exact .inl ends
  · refine .inr ⟨acknowledges, same.trans ?_⟩
    dsimp only
    rw [attempt_setAttempt, setAttempt_setAttempt]
    rfl

/-- The attempt after `dh_gen_retry`: the hash of the key it had is the id of the retry. -/
def retried (attempt : Attempt) : Attempt :=
  { checked 2 attempt with
    data := { (checked 2 attempt).data with retryId := attempt.data.newNonceBuf.authKeyAuxHash } }

theorem dhGenRetryAnswered_cases (crypto : Crypto) (draw : Draw) (c : DcKeyCreator) (kind : Kind)
    (nonce serverNonce newNonceHash2 : Nat) :
    Ends c (c.dhGenRetryAnswered crypto draw kind nonce serverNonce newNonceHash2) ∨
      Acknowledges crypto 2 (c.attempt kind) nonce serverNonce newNonceHash2 ∧ ∃ power,
        Offered crypto (retried (c.attempt kind))
          ((c.dhGenRetryAnswered crypto draw kind nonce serverNonce newNonceHash2).attempt kind) power ∧
        Proceeds c (c.dhGenRetryAnswered crypto draw kind nonce serverNonce newNonceHash2) kind
          (offerRequest crypto draw (retried (c.attempt kind)) power) := by
  rw [dhGenRetryAnswered]
  rcases dhGenAnswered_cases crypto 2 c kind nonce serverNonce newNonceHash2 _ with ends | ⟨acknowledges, same⟩
  · exact .inl ends
  · rw [same]
    dsimp only
    rw [attempt_setAttempt, setAttempt_setAttempt]
    rcases dhClientParamsSend_cases crypto draw (c.setAttempt (retried (c.attempt kind)) kind) kind with
      ends | ⟨power, offered, proceeds⟩
    · exact .inl ends.setAttempt
    · rw [attempt_setAttempt] at offered proceeds
      exact .inr ⟨acknowledges, power, offered, proceeds.setAttempt⟩

theorem dhGenFailAnswered_ends (crypto : Crypto) (c : DcKeyCreator) (kind : Kind)
    (nonce serverNonce newNonceHash3 : Nat) :
    Ends c (c.dhGenFailAnswered crypto kind nonce serverNonce newNonceHash3) := by
  rw [dhGenFailAnswered]
  rcases dhGenAnswered_cases crypto 3 c kind nonce serverNonce newNonceHash3 _ with ends | ⟨-, same⟩
  · exact ends
  · rw [same]
    exact (ends_failed _).setAttempt

/-! ## The end -/

/-- What the callback is given. -/
def result (c : DcKeyCreator) : DcKeyResult :=
  let persistent : Bool := c.persistent.stage = .ready
  { temporaryKey := c.temporary.authKey
    temporaryServerSalt := c.temporary.data.doneSalt
    persistentKey := if persistent then some c.persistent.authKey else none
    persistentServerSalt := if persistent then c.persistent.data.doneSalt else 0 }

theorem done_next (temporary : c.temporary.stage = .none) :
    c.done draw = c.pqSend draw .temporary c.request.temporaryExpiresIn := if_pos temporary

theorem asserts_true (next : DcKeyCreator → DcKeyCreator) : c.asserts true next = next (c.tell (.asserted true)) := rfl

theorem done_finish (temporary : c.temporary.stage = .ready)
    (persistent : c.persistent.stage = .none ∨ c.persistent.stage = .ready) :
    c.done draw = ((c.tell (.asserted true)).tell (.asserted true)).finish (.ok c.result) := by
  have started : ¬ c.temporary.stage = .none := by
    rw [temporary]
    decide
  have persistentReady : (decide ((c.tell (.asserted true)).persistent.stage = .ready) ||
      decide ((c.tell (.asserted true)).persistent.stage = .none)) = true := by
    rcases persistent with stage | stage <;> simp only [tell, stage] <;> rfl
  rw [done, if_neg started, decide_eq_true temporary, asserts_true, persistentReady, asserts_true]
  rfl

end DcKeyCreator

end IMeDesktop.Mtproto.Handshake
