import IMeDesktop.Mtproto.DcKeyAnswers

/-! # Keys that the server confirmed

The key of an attempt, its hash and the id of a retry are written over with each offer. What
the log holds last about an attempt is tied here to what the attempt holds: the parameters
it took from the server, its last offer, and the answer that confirmed it.
-/

namespace IMeDesktop.Mtproto.Handshake

/-! ## What the log says about an attempt -/

/-- The attempt that a deed is about. -/
def Deed.about : Deed → Option Kind
  | .received kind _ => some kind
  | .sent kind _ => some kind
  | _ => none

def Deed.isParams (kind : Kind) : Deed → Bool
  | .received k (.serverDHParamsOk _ _ _) => k = kind
  | .received k (.serverDHParamsFail _ _ _) => k = kind
  | _ => false

def Deed.isOffer (kind : Kind) : Deed → Bool
  | .sent k (.setClientDHParams _ _ _) => k = kind
  | _ => false

def Deed.isGenOk (kind : Kind) : Deed → Bool
  | .received k (.dhGenOk _ _ _) => k = kind
  | _ => false

/-- Two logs whose last entries about an attempt are the same. -/
structure SameView (kind : Kind) (log later : List Deed) : Prop where
  params : later.find? (Deed.isParams kind) = log.find? (Deed.isParams kind)
  offer : later.find? (Deed.isOffer kind) = log.find? (Deed.isOffer kind)
  genOk : later.find? (Deed.isGenOk kind) = log.find? (Deed.isGenOk kind)

theorem SameView.refl (kind : Kind) (log : List Deed) : SameView kind log log := ⟨rfl, rfl, rfl⟩

theorem SameView.cons {kind : Kind} {log later : List Deed} (same : SameView kind log later) {deed : Deed}
    (other : deed.about ≠ some kind) : SameView kind log (deed :: later) := by
  have skipped : deed.isParams kind = false ∧ deed.isOffer kind = false ∧ deed.isGenOk kind = false := by
    cases deed with
    | received k answer =>
        have ne : k ≠ kind := fun eq => other (eq ▸ rfl)
        cases answer <;> simp [Deed.isParams, Deed.isOffer, Deed.isGenOk, ne]
    | sent k request =>
        have ne : k ≠ kind := fun eq => other (eq ▸ rfl)
        cases request <;> simp [Deed.isParams, Deed.isOffer, Deed.isGenOk, ne]
    | _ => exact ⟨rfl, rfl, rfl⟩
  obtain ⟨params, offer, genOk⟩ := same
  refine ⟨?_, ?_, ?_⟩
  · rw [List.find?_cons_of_neg (by simp [skipped.1]), params]
  · rw [List.find?_cons_of_neg (by simp [skipped.2.1]), offer]
  · rw [List.find?_cons_of_neg (by simp [skipped.2.2]), genOk]

namespace DcKeyCreator

variable {crypto : Crypto} {draw : Draw} {c later : DcKeyCreator} {kind : Kind} {request : Request}

theorem sameView_aesDeeds {log view : List Deed} (same : SameView kind log view) (lengths : List Nat) :
    SameView kind log (aesDeeds lengths ++ view) := by
  induction lengths with
  | nil => exact same
  | cons length lengths ih => exact ih.cons nofun

/-! ## Agreement -/

/-- The parameters of an attempt come from one answer, which was decrypted with the nonces of the attempt. -/
structure Parsed (crypto : Crypto) (kind : Kind) (attempt : Attempt) (log : List Deed) (encryptedAnswer : List Nat)
    (inner : ServerDHInnerData) : Prop where
  params : log.find? (Deed.isParams kind) =
    some (.received kind (.serverDHParamsOk attempt.data.nonce attempt.data.serverNonce encryptedAnswer))
  decrypted : serverDHInner crypto attempt.data (decryptedAnswer crypto attempt encryptedAnswer) = some inner
  g : attempt.data.g = inner.g
  dhPrime : attempt.dhPrime = inner.dhPrime
  gA : attempt.gA = inner.gA
  aesKey : attempt.data.aesKey = attemptAesKey crypto attempt
  aesIV : attempt.data.aesIV = attemptAesIV crypto attempt

/-- The key of an attempt belongs to its last offer. -/
structure Keyed (crypto : Crypto) (kind : Kind) (attempt : Attempt) (log : List Deed) (draw : Draw)
    (power : List Nat) : Prop where
  goodB : isGoodModExpFirst (attempt.data.g ^ bigNum power % bigNum attempt.dhPrime) (bigNum attempt.dhPrime) = true
  goodA : isGoodModExpFirst (bigNum attempt.gA) (bigNum attempt.dhPrime) = true
  authKey : attempt.authKey = fillData (getBytes (bigNum attempt.gA ^ bigNum power % bigNum attempt.dhPrime))
  auxHash : attempt.data.newNonceBuf.authKeyAuxHash = (crypto.sha1 attempt.authKey).take 8
  offer : log.find? (Deed.isOffer kind) = some (.sent kind (offerRequest crypto draw attempt power))

/-- The server confirmed the key with its hash. -/
structure Acked (crypto : Crypto) (kind : Kind) (attempt : Attempt) (log : List Deed) : Prop where
  genOk : log.find? (Deed.isGenOk kind) = some (.received kind (.dhGenOk attempt.data.nonce attempt.data.serverNonce
    (nonceDigest crypto (attempt.data.newNonceBuf.newNonce ++ [1] ++ (crypto.sha1 attempt.authKey).take 8))))
  salt : attempt.data.doneSalt =
    Nat.ofDigits 256 (attempt.data.newNonceBuf.newNonce.take 8) ^^^ attempt.data.serverNonce % 2 ^ 64

def Agreed (crypto : Crypto) (kind : Kind) (attempt : Attempt) (log : List Deed) : Prop :=
  (∃ encryptedAnswer inner, Parsed crypto kind attempt log encryptedAnswer inner) ∧
    ∃ draw power, Keyed crypto kind attempt log draw power

/-- What an attempt has come to, by its stage. -/
structure Kept (crypto : Crypto) (kind : Kind) (attempt : Attempt) (log : List Deed) : Prop where
  agreed : attempt.stage = .waitingDone ∨ attempt.stage = .ready → Agreed crypto kind attempt log
  acked : attempt.stage = .ready → Acked crypto kind attempt log

theorem Kept.sameView {attempt : Attempt} {log view : List Deed} (kept : Kept crypto kind attempt log)
    (same : SameView kind log view) : Kept crypto kind attempt view := by
  obtain ⟨params, offer, genOk⟩ := same
  refine ⟨fun stage => ?_, fun stage => ?_⟩
  · obtain ⟨⟨encryptedAnswer, inner, parsed⟩, draw, power, keyed⟩ := kept.agreed stage
    exact ⟨⟨encryptedAnswer, inner, { parsed with params := params.trans parsed.params }⟩,
      draw, power, { keyed with offer := offer.trans keyed.offer }⟩
  · have acked := kept.acked stage
    exact { acked with genOk := genOk.trans acked.genOk }

/-- An offer is for the parameters that the attempt has. -/
theorem Offered.kept {before after : Attempt} {power : List Nat} {log : List Deed} {encryptedAnswer : List Nat}
    {inner : ServerDHInnerData} (offered : Offered crypto before after power)
    (parsed : Parsed crypto kind before log encryptedAnswer inner) (lengths : List Nat) :
    Kept crypto kind after (.sent kind (offerRequest crypto draw before power) :: (aesDeeds lengths ++ log)) := by
  obtain ⟨goodB, goodA, authKey, data, dhPrime, gA, stage⟩ := offered
  refine ⟨fun _ => ?_, fun ready => absurd ready (by rw [stage]; decide)⟩
  have view := sameView_aesDeeds (.refl kind log) lengths
  refine ⟨⟨encryptedAnswer, inner, ?_⟩, draw, power, ?_⟩
  · refine ⟨?_, ?_, ?_, dhPrime.trans parsed.dhPrime, gA.trans parsed.gA, ?_, ?_⟩
    · rw [List.find?_cons_of_neg (by simp [Deed.isParams]), view.params, parsed.params, data]
    · rw [decryptedAnswer, attemptAesKey, attemptAesIV, data]
      exact parsed.decrypted
    · rw [data]
      exact parsed.g
    · rw [attemptAesKey, data]
      exact parsed.aesKey
    · rw [attemptAesIV, data]
      exact parsed.aesIV
  · refine ⟨?_, ?_, ?_, ?_, ?_⟩
    · rw [data, dhPrime]
      exact goodB
    · rw [gA, dhPrime]
      exact goodA
    · rw [gA, dhPrime]
      exact authKey
    · rw [data]
    · rw [List.find?_cons_of_pos (by simp [offerRequest, Deed.isOffer]), offerRequest, offerRequest, offer, offer, data,
        dhPrime]

theorem Agreed.confirmed {attempt : Attempt} {log : List Deed} (agreed : Agreed crypto kind attempt log)
    {nonce serverNonce hash : Nat} (acknowledges : Acknowledges crypto 1 attempt nonce serverNonce hash) :
    Kept crypto kind (confirmed attempt) (.received kind (.dhGenOk nonce serverNonce hash) :: log) := by
  obtain ⟨⟨encryptedAnswer, inner, parsed⟩, draw, power, keyed⟩ := agreed
  refine ⟨fun _ => ⟨⟨encryptedAnswer, inner, { parsed with params := ?_ }⟩, draw, power, { keyed with offer := ?_ }⟩,
    fun _ => ⟨?_, rfl⟩⟩
  · rw [List.find?_cons_of_neg (by simp [Deed.isParams])]
    exact parsed.params
  · rw [List.find?_cons_of_neg (by simp [Deed.isOffer])]
    exact keyed.offer
  · have bytes : (checked 1 attempt).data.newNonceBuf.bytes =
        attempt.data.newNonceBuf.newNonce ++ [1] ++ (crypto.sha1 attempt.authKey).take 8 := by
      rw [← keyed.auxHash]
      rfl
    rw [List.find?_cons_of_pos (by simp [Deed.isGenOk]), acknowledges.nonce, acknowledges.serverNonce,
      acknowledges.hash, bytes]
    rfl

/-! ## Whole runs -/

/-- The data stands behind its hash in what was decrypted. -/
def Reads (crypto : Crypto) (decrypted : List Nat) (inner : ServerDHInnerData) : Prop :=
  ∃ used rest, readServerDHInnerData.consumed ((intsOf decrypted).drop 5) = .done (inner, used) rest ∧
    crypto.sha1 ((decrypted.drop 20).take (used.length * 4)) = decrypted.take 20

/-- What a key is confirmed by: the answer with the parameters, what it holds, and the power and the padding of the
last offer. -/
structure Evidence where
  encryptedAnswer : List Nat
  inner : ServerDHInnerData
  power : List Nat
  draw : Draw

/-- The key is the one both sides computed from one answer, and the server confirmed it with its hash. -/
structure Evidence.Confirms (evidence : Evidence) (crypto : Crypto) (c : DcKeyCreator) (kind : Kind) (key : List Nat)
    (salt : Nat) : Prop where
  params : c.log.find? (Deed.isParams kind) = some (.received kind (.serverDHParamsOk (c.attempt kind).data.nonce
    (c.attempt kind).data.serverNonce evidence.encryptedAnswer))
  read : Reads crypto (decryptedAnswer crypto (c.attempt kind) evidence.encryptedAnswer) evidence.inner
  nonce : evidence.inner.nonce = (c.attempt kind).data.nonce
  serverNonce : evidence.inner.serverNonce = (c.attempt kind).data.serverNonce
  good : isPrimeAndGood crypto.isPrime evidence.inner.dhPrime evidence.inner.g = true
  goodA : isGoodModExpFirst (bigNum evidence.inner.gA) (bigNum evidence.inner.dhPrime) = true
  goodB : isGoodModExpFirst (evidence.inner.g ^ bigNum evidence.power % bigNum evidence.inner.dhPrime)
    (bigNum evidence.inner.dhPrime) = true
  offer : c.log.find? (Deed.isOffer kind) = some (.sent kind (.setClientDHParams (c.attempt kind).data.nonce
    (c.attempt kind).data.serverNonce (encryptClientDHInner crypto evidence.draw
      { nonce := (c.attempt kind).data.nonce, serverNonce := (c.attempt kind).data.serverNonce
        retryId := (c.attempt kind).data.retryId
        gB := getBytes (evidence.inner.g ^ bigNum evidence.power % bigNum evidence.inner.dhPrime) }
      (attemptAesKey crypto (c.attempt kind)) (attemptAesIV crypto (c.attempt kind)))))
  length : key.length = 256
  value : bigNum key = bigNum evidence.inner.gA ^ bigNum evidence.power % bigNum evidence.inner.dhPrime
  genOk : c.log.find? (Deed.isGenOk kind) = some (.received kind (.dhGenOk (c.attempt kind).data.nonce
    (c.attempt kind).data.serverNonce
    (nonceDigest crypto ((c.attempt kind).data.newNonceBuf.newNonce ++ [1] ++ (crypto.sha1 key).take 8))))
  salt : salt = Nat.ofDigits 256 ((c.attempt kind).data.newNonceBuf.newNonce.take 8) ^^^
    (c.attempt kind).data.serverNonce % 2 ^ 64

def Confirmed (crypto : Crypto) (c : DcKeyCreator) (kind : Kind) (key : List Nat) (salt : Nat) : Prop :=
  ∃ evidence : Evidence, evidence.Confirms crypto c kind key salt

theorem serverDHInner_eq_some {data : AttemptData} {decrypted : List Nat} {inner : ServerDHInnerData}
    (found : serverDHInner crypto data decrypted = some inner) :
    Reads crypto decrypted inner ∧ inner.nonce = data.nonce ∧ inner.serverNonce = data.serverNonce ∧
      isPrimeAndGood crypto.isPrime inner.dhPrime inner.g = true := by
  rw [serverDHInner] at found
  split at found
  · rename_i read used rest same
    split_ifs at found with nonce serverNonce sha good
    cases found
    refine ⟨⟨used, rest, same, not_not.mp sha⟩, not_not.mp nonce, not_not.mp serverNonce, ?_⟩
    simpa using good
  · cases found

theorem Kept.confirmed (kept : Kept crypto kind (c.attempt kind) c.log) (ready : (c.attempt kind).stage = .ready) :
    Confirmed crypto c kind (c.attempt kind).authKey (c.attempt kind).data.doneSalt := by
  obtain ⟨⟨encryptedAnswer, inner, parsed⟩, draw, power, keyed⟩ := kept.agreed (.inr ready)
  obtain ⟨genOk, salt⟩ := kept.acked ready
  obtain ⟨params, decrypted, g, dhPrime, gA, aesKey, aesIV⟩ := parsed
  obtain ⟨read, nonce, serverNonce, good⟩ := serverDHInner_eq_some decrypted
  obtain ⟨goodB, goodA, authKey, -, offer⟩ := keyed
  rw [dhPrime, g] at goodB
  rw [dhPrime, gA] at goodA authKey
  obtain ⟨positive, small⟩ := isPrimeAndGood_bounds good
  obtain ⟨length, value⟩ := fillData_spec ((Nat.mod_lt (bigNum inner.gA ^ bigNum power) positive).trans small)
  rw [offerRequest, DcKeyCreator.offer, dhPrime, g, aesKey, aesIV] at offer
  refine ⟨⟨encryptedAnswer, inner, power, draw⟩, ?_⟩
  exact
    { params, read, nonce, serverNonce, good, goodA, goodB, offer, genOk, salt
      length := by rw [authKey]; exact length
      value := by rw [authKey]; exact value }

def AllKept (crypto : Crypto) (c : DcKeyCreator) : Prop := ∀ kind, Kept crypto kind (c.attempt kind) c.log

/-- What holds between packets: attempts are kept while the creator runs, and keys that were handed over are
confirmed. -/
structure Sealed (crypto : Crypto) (c : DcKeyCreator) : Prop where
  kept : c.running = true → AllKept crypto c
  reported : ∀ result, Deed.done (.ok result) ∈ c.log →
    Confirmed crypto c .temporary result.temporaryKey result.temporaryServerSalt ∧
      ∀ key, result.persistentKey = some key → Confirmed crypto c .persistent key result.persistentServerSalt

theorem Silent.not_done (silent : c.Silent) (result : Except DcKeyError DcKeyResult) : Deed.done result ∉ c.log := by
  intro member
  have none := List.countP_eq_zero.mp silent.none (.done result) member
  exact absurd rfl none

/-- Without a result nothing was handed over. -/
theorem Ends.sealed (ends : Ends c later) (silent : c.Silent) : Sealed crypto later := by
  obtain ⟨stopped, lengths, -, log⟩ := ends
  refine ⟨fun running => absurd running (by simp [stopped]), fun result member => ?_⟩
  have before : Deed.done (.ok result) ∉ aesDeeds lengths ++ c.log := (silent.aesDeeds lengths).not_done _
  rcases log with told | ⟨error, told⟩
  · rw [told] at member
    exact absurd member before
  · rw [told] at member
    rcases List.mem_cons.mp member with same | member
    · cases same
    · exact absurd member before

/-- The attempt that proceeds is looked at by itself, the other one is as it was. -/
theorem Proceeds.sealed {log : List Deed} (proceeds : Proceeds c later kind request) (silent : c.Silent)
    (others : ∀ other, other ≠ kind → Kept crypto other (c.attempt other) log)
    (view : ∀ other, other ≠ kind → SameView other log c.log)
    (own : ∀ lengths, later.log = .sent kind request :: (aesDeeds lengths ++ c.log) →
      Kept crypto kind (later.attempt kind) later.log) : Sealed crypto later := by
  obtain ⟨-, same, lengths, -, told⟩ := proceeds
  refine ⟨fun _ other => ?_, fun result member => ?_⟩
  · by_cases is : other = kind
    · subst is
      exact own lengths told
    · rw [same other is, told]
      refine (others other is).sameView ((sameView_aesDeeds (view other is) lengths).cons ?_)
      exact fun about => is (Option.some.inj about).symm
  · rw [told] at member
    rcases List.mem_cons.mp member with is | member
    · cases is
    · exact absurd member ((silent.aesDeeds lengths).not_done _)

theorem nonce_of_attemptByNonce {nonce : Nat} (named : c.attemptByNonce nonce = some kind) :
    (c.attempt kind).data.nonce = nonce := by
  rw [attemptByNonce] at named
  split_ifs at named with temporary persistent
  · cases named
    exact temporary
  · cases named
    exact persistent

theorem kept_of_stage {attempt : Attempt} {log : List Deed} {stage : Stage} (is : attempt.stage = stage)
    (early : stage ≠ .waitingDone ∧ stage ≠ .ready) : Kept crypto kind attempt log := by
  subst is
  exact ⟨fun late => absurd late (not_or.mpr early), fun ready => absurd ready early.2⟩

/-- The parameters that were just received. -/
theorem parsed_withInner {log : List Deed} {attempt : Attempt} {encryptedAnswer : List Nat} {inner : ServerDHInnerData}
    (found : serverDHInner crypto attempt.data (decryptedAnswer crypto attempt encryptedAnswer) = some inner) :
    Parsed crypto kind (withInner crypto attempt inner)
      (.received kind (.serverDHParamsOk attempt.data.nonce attempt.data.serverNonce encryptedAnswer) :: log)
      encryptedAnswer inner := by
  refine ⟨?_, found, rfl, rfl, rfl, rfl, rfl⟩
  rw [List.find?_cons_of_pos (by simp [Deed.isParams])]
  rfl

theorem parsed_retried {log : List Deed} {attempt : Attempt} {encryptedAnswer : List Nat} {inner : ServerDHInnerData}
    (parsed : Parsed crypto kind attempt log encryptedAnswer inner) (nonce serverNonce hash : Nat) :
    Parsed crypto kind (retried attempt) (.received kind (.dhGenRetry nonce serverNonce hash) :: log)
      encryptedAnswer inner := by
  refine { parsed with params := ?_ }
  rw [List.find?_cons_of_neg (by simp [Deed.isParams])]
  exact parsed.params

theorem sealed_done_next {x : DcKeyCreator} (silent : x.Silent) (temporary : x.temporary.stage = .none)
    (kept : Kept crypto .persistent (x.attempt .persistent) x.log) : Sealed crypto (x.done draw) := by
  rw [done_next temporary]
  refine ⟨fun _ kind => ?_, fun result member => absurd member ((silent.pqSend draw .temporary _).not_done _)⟩
  cases kind with
  | temporary => exact @kept_of_stage crypto .temporary _ _ .waitingPQ rfl (by decide)
  | persistent => exact kept.sameView ((SameView.refl .persistent x.log).cons nofun)

theorem result_persistent {x : DcKeyCreator} {key : List Nat} (is : x.result.persistentKey = some key) :
    x.persistent.stage = .ready ∧ key = x.persistent.authKey ∧
      x.result.persistentServerSalt = x.persistent.data.doneSalt := by
  by_cases ready : x.persistent.stage = .ready
  · simp only [result, ready, decide_true, if_true, Option.some.injEq] at is ⊢
    exact ⟨trivial, is.symm, trivial⟩
  · simp [result, ready] at is

theorem sealed_done_finish {x : DcKeyCreator} (silent : x.Silent) (temporary : x.temporary.stage = .ready)
    (persistent : x.persistent.stage = .none ∨ x.persistent.stage = .ready) (kept : AllKept crypto x) :
    Sealed crypto (x.done draw) := by
  rw [done_finish temporary persistent]
  have asserted := (silent.tell (.asserted true) rfl rfl).tell (.asserted true) rfl rfl
  refine ⟨(fun proceeds => by cases proceeds), fun result member => ?_⟩
  rcases List.mem_cons.mp member with same | before
  · injection same with same
    injection same with same
    subst same
    have view : ∀ kind, SameView kind x.log (.done (.ok x.result) :: .asserted true :: .asserted true :: x.log) := by
      intro kind
      have silently : ∀ deed : Deed, deed.about = none → deed.about ≠ some kind :=
        fun deed about same => nomatch about.symm.trans same
      exact (((SameView.refl kind x.log).cons (silently _ rfl)).cons (silently _ rfl)).cons (silently _ rfl)
    refine ⟨?_, fun key is => ?_⟩
    · exact @Kept.confirmed crypto (DcKeyCreator.finish _ _) .temporary ((kept .temporary).sameView (view _)) temporary
    · obtain ⟨ready, sameKey, sameSalt⟩ := result_persistent is
      rw [sameKey, sameSalt]
      exact @Kept.confirmed crypto (DcKeyCreator.finish _ _) .persistent ((kept .persistent).sameView (view _)) ready
  · exact absurd before (asserted.not_done _)

/-- When the waiting attempt is confirmed, the temporary one is started after it, or all is done. -/
theorem sealed_done {nonce serverNonce hash : Nat} (told : (c.tell (.received kind (.dhGenOk nonce serverNonce hash))).Silent)
    (waits : c.Waits) (kept : AllKept crypto c)
    (acknowledges : Acknowledges crypto 1 (c.attempt kind) nonce serverNonce hash) :
    Sealed crypto (((c.tell (.received kind (.dhGenOk nonce serverNonce hash))).setAttempt
      (confirmed (c.attempt kind)) kind).done draw) := by
  have own := ((kept kind).agreed (.inl acknowledges.stage)).confirmed acknowledges
  have stage := acknowledges.stage
  cases kind with
  | temporary =>
      rcases waits with ⟨none, -⟩ | ⟨-, persistent⟩
      · exact nomatch none.symm.trans stage
      · refine sealed_done_finish (told.of_log rfl) rfl persistent fun kind => ?_
        cases kind with
        | temporary => exact own
        | persistent => exact (kept .persistent).sameView ((SameView.refl _ _).cons nofun)
  | persistent =>
      rcases waits with ⟨none, -⟩ | ⟨-, none | ready⟩
      · exact sealed_done_next (told.of_log rfl) none own
      · exact nomatch none.symm.trans stage
      · exact nomatch ready.symm.trans stage

theorem sealed_handleAttemptAnswer (silent : c.Silent) (waits : c.Waits) (kept : AllKept crypto c) (answer : Answer)
    (named : c.attemptByNonce answer.nonce = some kind) :
    Sealed crypto ((c.tell (.received kind answer)).handleAttemptAnswer crypto draw kind answer) := by
  have told : (c.tell (.received kind answer)).Silent := silent.tell (.received kind answer) rfl trivial
  have others : ∀ other, other ≠ kind → Kept crypto other ((c.tell (.received kind answer)).attempt other) c.log := by
    intro other _
    rw [attempt_tell]
    exact kept other
  have view : ∀ other, other ≠ kind → SameView other c.log (c.tell (.received kind answer)).log := by
    intro other ne
    exact (SameView.refl other c.log).cons fun about => ne (Option.some.inj about).symm
  have nonce := nonce_of_attemptByNonce named
  cases answer with
  | resPQ _ serverNonce pq fingerprints =>
      rcases pqAnswered_cases crypto draw (c.tell (.received kind (.resPQ _ serverNonce pq fingerprints))) kind
        serverNonce pq fingerprints with ends | ⟨-, after, _, _, _, _, _, proceeds⟩
      · exact ends.sealed told
      · exact proceeds.sealed told others view fun _ _ => kept_of_stage after (by decide)
  | serverDHParamsFail _ serverNonce newNonceHash =>
      exact (dhParamsFailAnswered_ends crypto _ kind serverNonce newNonceHash).sealed told
  | serverDHParamsOk _ serverNonce encryptedAnswer =>
      rcases dhParamsOkAnswered_cases crypto draw (c.tell (.received kind (.serverDHParamsOk _ serverNonce
        encryptedAnswer))) kind serverNonce encryptedAnswer with
        ⟨ends, -⟩ | ⟨-, -, cut⟩ | ⟨decrypts, -, inner, power, found, offered, proceeds⟩
      · exact ends.sealed told
      · rw [handleAttemptAnswer, cut]
        refine ⟨(fun proceeds => by cases proceeds), fun result member => ?_⟩
        exact absurd member ((told.tell (.aesIge encryptedAnswer.length) rfl trivial).not_done _)
      · refine proceeds.sealed told others view fun lengths log => ?_
        have ownServer := decrypts.serverNonce
        rw [attempt_tell] at offered found ownServer
        subst ownServer
        subst nonce
        rw [log]
        exact offered.kept (parsed_withInner found) lengths
  | dhGenOk _ serverNonce hash =>
      rcases dhGenOkAnswered_cases crypto draw (c.tell (.received kind (.dhGenOk _ serverNonce hash))) kind _
        serverNonce hash with ends | ⟨acknowledges, same⟩
      · exact ends.sealed told
      · rw [handleAttemptAnswer, same]
        rw [attempt_tell] at acknowledges ⊢
        exact sealed_done told waits kept acknowledges
  | dhGenRetry _ serverNonce hash =>
      rcases dhGenRetryAnswered_cases crypto draw (c.tell (.received kind (.dhGenRetry _ serverNonce hash))) kind _
        serverNonce hash with ends | ⟨acknowledges, power, offered, proceeds⟩
      · exact ends.sealed told
      · refine proceeds.sealed told others view fun lengths log => ?_
        rw [attempt_tell] at acknowledges offered
        obtain ⟨⟨encryptedAnswer, inner, parsed⟩, -⟩ := (kept kind).agreed (.inl acknowledges.stage)
        rw [log]
        exact offered.kept (parsed_retried parsed _ serverNonce hash) lengths
  | dhGenFail _ serverNonce hash =>
      exact (dhGenFailAnswered_ends crypto _ kind _ serverNonce hash).sealed told

theorem Sealed.answered (sealed : Sealed crypto c) (steady : c.Steady) (packet : Option Answer) :
    Sealed crypto (c.answered crypto draw packet) := by
  rw [DcKeyCreator.answered]
  split
  · rename_i running
    obtain ⟨silent, waits⟩ := steady.waits running
    cases packet with
    | none => exact (ends_failed _).sealed silent
    | some answer =>
        rw [handleAnswer]
        split
        · exact (ends_failed _).sealed silent
        · exact sealed_handleAttemptAnswer silent waits (sealed.kept running) answer ‹_›
  · exact sealed

theorem sealed_start (crypto : Crypto) (draw : Draw) (request : DcKeyRequest) (protocolDcId : Nat) :
    Sealed crypto (start draw request protocolDcId) := by
  rw [start]
  have silent : Silent { request := request, protocolDcId := protocolDcId } := ⟨rfl, List.forall_mem_nil _⟩
  split
  · refine ⟨fun _ kind => ?_, fun result member => absurd member ((silent.pqSend draw .persistent _).not_done _)⟩
    cases kind with
    | temporary => exact @kept_of_stage crypto .temporary _ _ .none rfl (by decide)
    | persistent => exact @kept_of_stage crypto .persistent _ _ .waitingPQ rfl (by decide)
  · refine ⟨fun _ kind => ?_, fun result member => absurd member ((silent.pqSend draw .temporary _).not_done _)⟩
    cases kind with
    | temporary => exact @kept_of_stage crypto .temporary _ _ .waitingPQ rfl (by decide)
    | persistent => exact @kept_of_stage crypto .persistent _ _ .none rfl (by decide)

theorem Sealed.runFrom (sealed : Sealed crypto c) (steady : c.Steady) (packets : List (Draw × Option Answer)) :
    Sealed crypto (runFrom crypto c packets) := by
  induction packets generalizing c with
  | nil => exact sealed
  | cons packet packets ih => exact ih (sealed.answered steady packet.2) (steady.answered packet.2)

end DcKeyCreator

open DcKeyCreator in
/-- Whatever the server sends, each key that is handed over is one that the server confirmed. -/
theorem run_confirms (crypto : Crypto) (draw : Draw) (request : DcKeyRequest) (protocolDcId : Nat)
    (packets : List (Draw × Option Answer)) (result : DcKeyResult)
    (told : Deed.done (.ok result) ∈ (DcKeyCreator.run crypto draw request protocolDcId packets).log) :
    Confirmed crypto (DcKeyCreator.run crypto draw request protocolDcId packets) .temporary result.temporaryKey
        result.temporaryServerSalt ∧
      ∀ key, result.persistentKey = some key →
        Confirmed crypto (DcKeyCreator.run crypto draw request protocolDcId packets) .persistent key
          result.persistentServerSalt :=
  ((sealed_start crypto draw request protocolDcId).runFrom (steady_start draw request protocolDcId) packets).reported
    result told

def DcKeyCreator.results (c : DcKeyCreator) : List DcKeyResult :=
  c.log.filterMap fun
    | .done (.ok result) => some result
    | _ => none

theorem DcKeyCreator.done_of_mem_results {c : DcKeyCreator} {result : DcKeyResult} (found : result ∈ c.results) :
    Deed.done (.ok result) ∈ c.log := by
  obtain ⟨deed, member, same⟩ := List.mem_filterMap.mp found
  split at same
  · cases same
    exact member
  · cases same

open DcKeyCreator Exchange in
/-- The server confirms the key of the exchange. -/
theorem exchange_confirms :
    Deed.done (.ok Exchange.result) ∈ (DcKeyCreator.run crypto draw request 2 packets).log ∧
      Confirmed crypto (DcKeyCreator.run crypto draw request 2 packets) .temporary Exchange.result.temporaryKey
        Exchange.result.temporaryServerSalt := by
  have found : (DcKeyCreator.run crypto draw request 2 packets).results = [Exchange.result] := by decide +kernel
  have member : Exchange.result ∈ (DcKeyCreator.run crypto draw request 2 packets).results := by
    rw [found]
    exact List.mem_singleton_self Exchange.result
  have told := DcKeyCreator.done_of_mem_results member
  exact ⟨told, (run_confirms crypto draw request 2 packets Exchange.result told).1⟩

end IMeDesktop.Mtproto.Handshake
