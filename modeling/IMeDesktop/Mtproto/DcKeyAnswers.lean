import IMeDesktop.Mtproto.DcKeySteps

/-! # Key creation with any server

While a creator is running exactly one of its attempts is waiting for an answer: the
persistent one while the temporary one was not started, or the temporary one. Answers
at any other stage end the creation, so the callback is called once at most, and
`done` finds the attempts in the stages that it asserts.

The lengths of what is encrypted are rounded up to whole blocks. The length of what is
decrypted is the server's, and only whole ints are asked of it.
-/

namespace IMeDesktop.Mtproto.Handshake

def Deed.isDone : Deed → Bool
  | .done _ => true
  | _ => false

def Deed.Holds : Deed → Prop
  | .asserted holds => holds = true
  | _ => True

def Deed.WholeBlocks : Deed → Prop
  | .aesIge length => length % 16 = 0
  | _ => True

instance : DecidablePred Deed.WholeBlocks
  | .aesIge length => inferInstanceAs (Decidable (length % 16 = 0))
  | .received _ _ => .isTrue trivial
  | .sent _ _ => .isTrue trivial
  | .asserted _ => .isTrue trivial
  | .done _ => .isTrue trivial

def Stage.isWaiting : Stage → Bool
  | .none => false
  | .ready => false
  | _ => true

namespace DcKeyCreator

variable {crypto : Crypto} {draw : Draw} {c later : DcKeyCreator} {kind : Kind} {request : Request}

/-- The callback is called once at most, assertions hold, and only whole blocks are handed to `AES_ige_encrypt`. -/
structure Survives (c : DcKeyCreator) : Prop where
  once : c.log.countP Deed.isDone ≤ 1
  asserted : ∀ deed ∈ c.log, deed.Holds
  blocks : ∀ deed ∈ c.log, deed.WholeBlocks

/-! ## Stages -/

/-- The attempt that waits: the temporary one, or the persistent one before it. -/
def Waits (c : DcKeyCreator) : Prop :=
  (c.attempt .temporary).stage = .none ∧ (c.attempt .persistent).stage.isWaiting = true ∨
    (c.attempt .temporary).stage.isWaiting = true ∧
      ((c.attempt .persistent).stage = .none ∨ (c.attempt .persistent).stage = .ready)

/-- The callback was not called, and what was asserted held. -/
structure Silent (c : DcKeyCreator) : Prop where
  none : c.log.countP Deed.isDone = 0
  asserted : ∀ deed ∈ c.log, deed.Holds

/-- What holds between packets. -/
structure Steady (c : DcKeyCreator) : Prop where
  once : c.log.countP Deed.isDone ≤ 1
  asserted : ∀ deed ∈ c.log, deed.Holds
  waits : c.running = true → c.Silent ∧ c.Waits

theorem Silent.tell (silent : c.Silent) (deed : Deed) (other : deed.isDone = false) (holds : deed.Holds) :
    (c.tell deed).Silent := by
  refine ⟨?_, List.forall_mem_cons.mpr ⟨holds, silent.asserted⟩⟩
  rw [log_tell, List.countP_cons_of_neg (by simp [other]), silent.none]

theorem Silent.of_log (silent : c.Silent) (same : later.log = c.log) : later.Silent :=
  ⟨by rw [same, silent.none], by rw [same]; exact silent.asserted⟩

theorem Silent.aesDeeds (silent : c.Silent) (lengths : List Nat) :
    Silent { c with log := aesDeeds lengths ++ c.log } := by
  induction lengths with
  | nil => exact silent
  | cons length lengths ih => exact ih.tell (.aesIge length) rfl trivial

theorem Silent.pqSend (silent : c.Silent) (draw : Draw) (kind : Kind) (expiresIn : Nat) :
    (c.pqSend draw kind expiresIn).Silent :=
  (silent.of_log (log_setAttempt c _ kind)).tell (.sent kind (.reqPqMulti draw.nonce)) rfl trivial

theorem Silent.steady (silent : c.Silent) (waits : c.running = true → c.Waits) : c.Steady :=
  ⟨silent.none.trans_le (by decide), silent.asserted, fun running => ⟨silent, waits running⟩⟩

theorem Silent.finish (silent : c.Silent) (result : Except DcKeyError DcKeyResult) : (c.finish result).Steady := by
  refine ⟨?_, List.forall_mem_cons.mpr ⟨trivial, silent.asserted⟩, nofun⟩
  show List.countP Deed.isDone (.done result :: c.log) ≤ 1
  rw [List.countP_cons_of_pos rfl, silent.none]

theorem Ends.steady (ends : Ends c later) (silent : c.Silent) : later.Steady := by
  obtain ⟨stopped, lengths, -, told | ⟨error, told⟩⟩ := ends
  · exact ((silent.aesDeeds lengths).of_log told).steady fun running => absurd running (by simp [stopped])
  · obtain ⟨once, asserted, -⟩ := (silent.aesDeeds lengths).finish (.error error)
    refine ⟨?_, ?_, fun running => absurd running (by simp [stopped])⟩
    · rw [told]
      exact once
    · rw [told]
      exact asserted

/-- An attempt that waits goes on to wait for something else. -/
theorem Waits.proceed (waits : c.Waits) (before : (c.attempt kind).stage.isWaiting = true)
    (after : (later.attempt kind).stage.isWaiting = true)
    (others : ∀ other, other ≠ kind → later.attempt other = c.attempt other) : later.Waits := by
  cases kind with
  | temporary =>
      rcases waits with ⟨none, -⟩ | ⟨-, persistent⟩
      · rw [none] at before
        cases before
      · rw [← others .persistent (by decide)] at persistent
        exact .inr ⟨after, persistent⟩
  | persistent =>
      rcases waits with ⟨none, -⟩ | ⟨-, none | ready⟩
      · rw [← others .temporary (by decide)] at none
        exact .inl ⟨none, after⟩
      · rw [none] at before
        cases before
      · rw [ready] at before
        cases before

theorem Proceeds.steady (proceeds : Proceeds c later kind request) (silent : c.Silent) (waits : c.Waits)
    (before : (c.attempt kind).stage.isWaiting = true) (after : (later.attempt kind).stage.isWaiting = true) :
    later.Steady := by
  obtain ⟨-, others, lengths, -, told⟩ := proceeds
  have sent : (DcKeyCreator.tell { c with log := aesDeeds lengths ++ c.log } (.sent kind request)).Silent :=
    (silent.aesDeeds lengths).tell (.sent kind request) rfl trivial
  exact (sent.of_log told).steady fun _ => waits.proceed before after others

/-- When the attempt that waited is ready, the other one is started, or all is done. -/
theorem steady_done (silent : c.Silent) (waits : c.Waits) (waiting : (c.attempt kind).stage.isWaiting = true)
    {attempt : Attempt} (ready : attempt.stage = .ready) : ((c.setAttempt attempt kind).done draw).Steady := by
  have kept : (c.setAttempt attempt kind).Silent := silent.of_log (log_setAttempt c attempt kind)
  cases kind with
  | temporary =>
      rcases waits with ⟨none, -⟩ | ⟨-, persistent⟩
      · rw [none] at waiting
        cases waiting
      · rw [@done_finish draw (c.setAttempt attempt .temporary) ready persistent]
        exact ((kept.tell (.asserted true) rfl rfl).tell (.asserted true) rfl rfl).finish _
  | persistent =>
      rcases waits with ⟨none, -⟩ | ⟨-, none | done⟩
      · rw [@done_next draw (c.setAttempt attempt .persistent) none]
        exact (kept.pqSend _ .temporary _).steady fun _ => .inr ⟨rfl, .inr ready⟩
      · rw [none] at waiting
        cases waiting
      · rw [done] at waiting
        cases waiting

theorem steady_handleAttemptAnswer (silent : c.Silent) (waits : c.Waits) (answer : Answer) :
    (c.handleAttemptAnswer crypto draw kind answer).Steady := by
  have waiting : ∀ stage : Stage, (c.attempt kind).stage = stage → stage.isWaiting = true →
      (c.attempt kind).stage.isWaiting = true := fun stage same is => same ▸ is
  cases answer with
  | resPQ nonce serverNonce pq fingerprints =>
      rcases pqAnswered_cases crypto draw c kind serverNonce pq fingerprints with
        ends | ⟨before, after, _, _, _, _, _, proceeds⟩
      · exact ends.steady silent
      · exact proceeds.steady silent waits (waiting _ before rfl) (by rw [after]; rfl)
  | serverDHParamsFail nonce serverNonce newNonceHash =>
      exact (dhParamsFailAnswered_ends crypto c kind serverNonce newNonceHash).steady silent
  | serverDHParamsOk nonce serverNonce encryptedAnswer =>
      rcases dhParamsOkAnswered_cases crypto draw c kind serverNonce encryptedAnswer with
        ⟨ends, -⟩ | ⟨-, -, cut⟩ | ⟨decrypts, -, inner, power, -, offered, proceeds⟩
      · exact ends.steady silent
      · rw [handleAttemptAnswer, cut]
        refine Silent.steady ?_ nofun
        exact (silent.tell (.aesIge encryptedAnswer.length) rfl trivial).of_log rfl
      · exact proceeds.steady silent waits (waiting _ decrypts.stage rfl) (by rw [offered.stage]; rfl)
  | dhGenOk nonce serverNonce hash =>
      rcases dhGenOkAnswered_cases crypto draw c kind nonce serverNonce hash with ends | ⟨acknowledges, same⟩
      · exact ends.steady silent
      · rw [handleAttemptAnswer, same]
        exact steady_done silent waits (waiting _ acknowledges.stage rfl) rfl
  | dhGenRetry nonce serverNonce hash =>
      rcases dhGenRetryAnswered_cases crypto draw c kind nonce serverNonce hash with
        ends | ⟨acknowledges, power, offered, proceeds⟩
      · exact ends.steady silent
      · exact proceeds.steady silent waits (waiting _ acknowledges.stage rfl) (by rw [offered.stage]; rfl)
  | dhGenFail nonce serverNonce hash =>
      exact (dhGenFailAnswered_ends crypto c kind nonce serverNonce hash).steady silent

theorem Steady.answered (steady : c.Steady) (packet : Option Answer) : (c.answered crypto draw packet).Steady := by
  rw [DcKeyCreator.answered]
  split
  · rename_i running
    obtain ⟨silent, waits⟩ := steady.waits running
    cases packet with
    | none => exact (ends_failed _).steady silent
    | some answer =>
        rw [handleAnswer]
        split
        · exact (ends_failed _).steady silent
        · exact steady_handleAttemptAnswer (silent.tell (.received _ answer) rfl trivial) waits answer
  · exact steady

theorem steady_start (draw : Draw) (request : DcKeyRequest) (protocolDcId : Nat) :
    (start draw request protocolDcId).Steady := by
  rw [start]
  have silent : Silent { request := request, protocolDcId := protocolDcId } := ⟨rfl, nofun⟩
  split
  · exact (silent.pqSend draw .persistent 0).steady fun _ => .inl ⟨rfl, rfl⟩
  · exact (silent.pqSend draw .temporary request.temporaryExpiresIn).steady fun _ => .inr ⟨rfl, .inl rfl⟩

theorem Steady.runFrom (steady : c.Steady) (packets : List (Draw × Option Answer)) :
    (runFrom crypto c packets).Steady := by
  induction packets generalizing c with
  | nil => exact steady
  | cons packet packets ih => exact ih (steady.answered packet.2)

/-! ## Blocks -/

/-- Only whole blocks were handed on. -/
def InBlocks (log : List Deed) : Prop := ∀ deed ∈ log, deed.WholeBlocks

/-- An answer that is decrypted has only whole blocks. -/
def AnswersInBlocks (c : DcKeyCreator) : Option Answer → Prop
  | some (.serverDHParamsOk nonce serverNonce encryptedAnswer) =>
      c.running = true → ∀ kind, c.attemptByNonce nonce = some kind →
        Decrypts c kind serverNonce encryptedAnswer → encryptedAnswer.length % 16 = 0
  | _ => True

theorem inBlocks_cons (deed : Deed) (whole : deed.WholeBlocks) (log : List Deed) :
    InBlocks (deed :: log) ↔ InBlocks log :=
  List.forall_mem_cons.trans (and_iff_right whole)

theorem inBlocks_aesDeeds {lengths : List Nat} (whole : ∀ length ∈ lengths, length % 16 = 0) (log : List Deed) :
    InBlocks (aesDeeds lengths ++ log) ↔ InBlocks log := by
  refine List.forall_mem_append.trans (and_iff_right fun deed member => ?_)
  obtain ⟨length, inside, rfl⟩ := List.mem_map.mp member
  exact whole length inside

theorem Ends.inBlocks (ends : Ends c later) : InBlocks later.log ↔ InBlocks c.log := by
  obtain ⟨-, lengths, whole, told | ⟨error, told⟩⟩ := ends
  · rw [told, inBlocks_aesDeeds whole]
  · rw [told, inBlocks_cons (.done (.error error)) trivial, inBlocks_aesDeeds whole]

theorem Proceeds.inBlocks (proceeds : Proceeds c later kind request) : InBlocks later.log ↔ InBlocks c.log := by
  obtain ⟨-, -, lengths, whole, told⟩ := proceeds
  rw [told, inBlocks_cons (.sent kind request) trivial, inBlocks_aesDeeds whole]

theorem inBlocks_asserts (holds : Bool) {next : DcKeyCreator → DcKeyCreator}
    (same : ∀ c, InBlocks (next c).log ↔ InBlocks c.log) : InBlocks (c.asserts holds next).log ↔ InBlocks c.log := by
  rw [asserts]
  split
  · rw [same, log_tell, inBlocks_cons (.asserted holds) trivial]
  · exact inBlocks_cons (.asserted holds) trivial c.log

theorem inBlocks_done : InBlocks (c.done draw).log ↔ InBlocks c.log := by
  rw [done]
  split
  · rw [pqSend, log_tell, inBlocks_cons (.sent _ _) trivial, log_setAttempt]
  · refine inBlocks_asserts _ fun c => inBlocks_asserts _ fun c => ?_
    exact inBlocks_cons (.done _) trivial c.log

theorem inBlocks_handleAttemptAnswer (answer : Answer) (named : c.attemptByNonce answer.nonce = some kind)
    (running : c.running = true) :
    InBlocks (c.handleAttemptAnswer crypto draw kind answer).log ↔ InBlocks c.log ∧ c.AnswersInBlocks (some answer) := by
  cases answer with
  | resPQ nonce serverNonce pq fingerprints =>
      refine .trans ?_ (and_iff_left trivial).symm
      rcases pqAnswered_cases crypto draw c kind serverNonce pq fingerprints with
        ends | ⟨before, after, _, _, _, _, _, proceeds⟩
      · exact ends.inBlocks
      · exact proceeds.inBlocks
  | serverDHParamsFail nonce serverNonce newNonceHash =>
      refine .trans ?_ (and_iff_left trivial).symm
      exact (dhParamsFailAnswered_ends crypto c kind serverNonce newNonceHash).inBlocks
  | serverDHParamsOk nonce serverNonce encryptedAnswer =>
      have only : ∀ other, c.attemptByNonce nonce = some other → other = kind :=
        fun other same => Option.some.inj (same.symm.trans named)
      rcases dhParamsOkAnswered_cases crypto draw c kind serverNonce encryptedAnswer with
        ⟨ends, whole⟩ | ⟨decrypts, cut, same⟩ | ⟨decrypts, whole, inner, power, -, offered, proceeds⟩
      · rw [handleAttemptAnswer, ends.inBlocks, iff_self_and]
        rintro - - other same decrypts
        exact whole (only other same ▸ decrypts)
      · refine iff_of_false ?_ fun both => cut (both.2 running kind named decrypts)
        rw [handleAttemptAnswer, same]
        exact fun blocks => cut (blocks (.aesIge encryptedAnswer.length) List.mem_cons_self)
      · rw [handleAttemptAnswer, proceeds.inBlocks, iff_self_and]
        exact fun _ _ _ _ _ => whole
  | dhGenOk nonce serverNonce hash =>
      refine .trans ?_ (and_iff_left trivial).symm
      rcases dhGenOkAnswered_cases crypto draw c kind nonce serverNonce hash with ends | ⟨acknowledges, same⟩
      · exact ends.inBlocks
      · rw [handleAttemptAnswer, same, inBlocks_done, log_setAttempt]
  | dhGenRetry nonce serverNonce hash =>
      refine .trans ?_ (and_iff_left trivial).symm
      rcases dhGenRetryAnswered_cases crypto draw c kind nonce serverNonce hash with
        ends | ⟨acknowledges, power, offered, proceeds⟩
      · exact ends.inBlocks
      · exact proceeds.inBlocks
  | dhGenFail nonce serverNonce hash =>
      refine .trans ?_ (and_iff_left trivial).symm
      exact (dhGenFailAnswered_ends crypto c kind nonce serverNonce hash).inBlocks

theorem answersInBlocks_tell (deed : Deed) (packet : Option Answer) :
    (c.tell deed).AnswersInBlocks packet ↔ c.AnswersInBlocks packet := by
  have same : ∀ kind serverNonce encryptedAnswer,
      Decrypts (c.tell deed) kind serverNonce encryptedAnswer ↔ Decrypts c kind serverNonce encryptedAnswer := by
    intro kind serverNonce encryptedAnswer
    constructor
    · rintro ⟨stage, nonce, ints, long⟩
      rw [attempt_tell] at stage nonce
      exact ⟨stage, nonce, ints, long⟩
    · rintro ⟨stage, nonce, ints, long⟩
      rw [← attempt_tell c deed] at stage nonce
      exact ⟨stage, nonce, ints, long⟩
  cases packet with
  | none => rfl
  | some answer =>
      cases answer with
      | serverDHParamsOk nonce serverNonce encryptedAnswer =>
          simp only [AnswersInBlocks, same]
          rfl
      | _ => rfl

theorem inBlocks_answered (packet : Option Answer) :
    InBlocks (c.answered crypto draw packet).log ↔ InBlocks c.log ∧ c.AnswersInBlocks packet := by
  rw [answered]
  split
  · rename_i running
    cases packet with
    | none =>
        refine .trans ?_ (and_iff_left trivial).symm
        exact (ends_failed _).inBlocks
    | some answer =>
        rw [handleAnswer]
        split
        · rename_i unknown
          rw [(ends_failed _).inBlocks, iff_self_and]
          intro _
          cases answer with
          | serverDHParamsOk nonce serverNonce encryptedAnswer =>
              exact fun _ kind named => nomatch unknown.symm.trans named
          | _ => trivial
        · rename_i kind named
          have told := @inBlocks_handleAttemptAnswer crypto draw (c.tell (.received kind answer)) kind answer named running
          rw [told, log_tell, inBlocks_cons (.received kind answer) trivial, answersInBlocks_tell]
  · rename_i stopped
    refine (and_iff_left ?_).symm
    cases packet with
    | none => trivial
    | some answer =>
        cases answer with
        | serverDHParamsOk nonce serverNonce encryptedAnswer => exact fun running => absurd running stopped
        | _ => trivial

/-- The answers that are decrypted in a run, in the creator that receives them. -/
def RunInBlocks (crypto : Crypto) : DcKeyCreator → List (Draw × Option Answer) → Prop
  | _, [] => True
  | c, packet :: packets =>
      c.AnswersInBlocks packet.2 ∧ RunInBlocks crypto (c.answered crypto packet.1 packet.2) packets

theorem inBlocks_runFrom (packets : List (Draw × Option Answer)) :
    InBlocks (runFrom crypto c packets).log ↔ InBlocks c.log ∧ RunInBlocks crypto c packets := by
  induction packets generalizing c with
  | nil => exact (and_iff_left trivial).symm
  | cons packet packets ih =>
      rw [runFrom, List.foldl_cons, RunInBlocks, ← and_assoc, ← @inBlocks_answered crypto packet.1]
      exact ih

theorem inBlocks_start (draw : Draw) (request : DcKeyRequest) (protocolDcId : Nat) :
    InBlocks (start draw request protocolDcId).log := by
  rw [start]
  split <;> exact (inBlocks_cons (.sent _ _) trivial []).mpr nofun

end DcKeyCreator

open DcKeyCreator in
/-- The creator survives a run, whatever the server sends, exactly when each answer that comes to be decrypted has only
whole blocks. -/
theorem run_survives_iff (crypto : Crypto) (draw : Draw) (request : DcKeyRequest) (protocolDcId : Nat)
    (packets : List (Draw × Option Answer)) :
    (DcKeyCreator.run crypto draw request protocolDcId packets).Survives ↔
      RunInBlocks crypto (start draw request protocolDcId) packets := by
  have steady := @Steady.runFrom crypto _ (steady_start draw request protocolDcId) packets
  have blocks := @inBlocks_runFrom crypto (start draw request protocolDcId) packets
  constructor
  · exact fun survives => (blocks.mp survives.blocks).2
  · exact fun inBlocks => ⟨steady.once, steady.asserted, blocks.mpr ⟨inBlocks_start draw request protocolDcId, inBlocks⟩⟩

/-! ## An exchange

The random values of the creator are simple ones. Digests and encrypted bytes are those that `openssl` gives for the
bytes of this exchange, and the known prime is not checked by it.
-/

namespace Exchange

def blocks (words : List Nat) : List Nat := words.flatMap fun word => (leBytes 16 word).reverse

def modulus : List Nat := blocks
  [
    0xe8bb3305c0b52c6cf2afdf7637313489, 0xe63e05268e5badb601af417786472e5f, 0x93b85438968e20e6729a301c0afc121b,
    0xf7151f834436f7fda680847a66bf64ac, 0xcec78ee21c0b316f0edafe2f41908da7, 0xbd1f4a5107638eeb67040ace472a14f9,
    0x0d9f7c2b7def99688ba3073adb5750bb, 0x02964902a359fe745d8170e36876d4fd, 0x8a5d41b2a76cbff9a13267eb9580b2d0,
    0x6d10357448d20d9da2191cb5d8c93982, 0x961cdfdeda629e37f1fb09a072202769, 0x6032fe61ed663db7a37f6f263d370f69,
    0xdb53a0dc0a1748bdaaff6209d5645485, 0xe6e001d1953255757e4b8e42813347b1, 0x1da6ab500fd0ace7e6dfa3736199ccaf,
    0x9397ed0745a427dcfa6cd67bcb1acff3]

def rsaKey : RSAPublicKey where
  modulus := modulus
  fingerprint := 0xd09d1d85de64fd85
  encrypt bytes := fillData (getBytes (bigNum bytes ^ 0x10001 % bigNum modulus))

def newNonce : List Nat := List.replicate 32 1

def draw : Draw where
  getDcRSAKey fingerprints := if rsaKey.fingerprint ∈ fingerprints then some rsaKey else none
  factorizePQ _ := ([0, 0, 0, 3], [0, 0, 0, 5])
  nonce := 7
  newNonce := newNonce
  tempKeys := [List.replicate 32 1]
  randomSeed := List.replicate 256 0
  randomPowers := [(leBytes 256 1301).reverse]
  random count := List.replicate count 0
  length_random _ := List.length_replicate

def request : DcKeyRequest where
  temporaryExpiresIn := 86400
  persistentNeeded := false
  positive := by decide

def gA : List Nat := getBytes (3 ^ 1300 % bigNum goodPrime)

def innerData : List Nat :=
  leBytes 4 0xb5890dba ++ leBytes 16 7 ++ leBytes 16 9 ++ leBytes 4 3 ++ stringBytes goodPrime ++ stringBytes gA ++
    leBytes 4 0

def clientData : ClientDHInnerData where
  nonce := 7
  serverNonce := 9
  retryId := List.replicate 8 0
  gB := getBytes (3 ^ 1301 % bigNum goodPrime)

def authKey : List Nat := getBytes (bigNum gA ^ 1301 % bigNum goodPrime)

def sha1s : List (List Nat × Nat) :=
  [(newNonce ++ leBytes 16 9, 0xf30b054ac7fc468b213be56d327c77e4380f2fbc),
    (leBytes 16 9 ++ newNonce, 0xb22a2c3a3477b167f1da078fef524b8acb933758),
    (newNonce ++ newNonce, 0x320b018758ece3752ffedbaeb1a6db67c80b9359),
    (innerData, 0x9ec50c483356f2095d4fc0538b06c4e687ccb359),
    (authKey, 0x01c1a7074083c37b2f2f0314e51bc163370e4657),
    (clientData.bytes, 0x4524d0e37e4869691cffbacea6973d858a298e18),
    (newNonce ++ [1] ++ getBytes 0x01c1a7074083c37b, 0x734b674b20fdcd87dd0d70fcc2ede671cd1831f4)]

def sha1 (bytes : List Nat) : List Nat := (leBytes 20 ((sha1s.lookup bytes).getD 0)).reverse

def encryptedAnswer : List Nat := blocks
  [
    0x0cf2cc2a20444c69ee0c52d21ab5840c, 0xd146087ef36d0486a7f4aa9afa1c831c, 0x45dd87458ee0fa3b03aafee027c7c0fa,
    0xfe218094fc2fe37f258272343d41e5cb, 0x12fbc6e18302f80152ebc9900bc88937, 0x19dba514c96e2fae4c84aba217350e8b,
    0x27033597573ef4bd199c176350646935, 0xc9c8857e08f0a736e7ec993aa36ae88a, 0x7049e13de68e6d1d93a3894af466f48b,
    0x5aefe6bf773cc3e1f4cc8d5240f5fa3b, 0x57de293895d0ef5702ef1bbd2715a6e4, 0x4a27c5cab1e352eb6ff24c4c231cc7fa,
    0x0a1a7180daa90c486c9de248cb2d6253, 0xd5461cf64a1af360fd0c538353163634, 0xe3f1b48db690ca5485ce2bd6500d0f1a,
    0x940d753f41db39d6ac90ec1e74bea403, 0xc93720995ae9f5dcefeed1300502213c, 0xf75978b435d5049d5e93373a26f41740,
    0x5b9e2d1d2d7e3ed3b534723484e70059, 0xc19f8ac3662f0c1fd3e8320dc0fe8296, 0x8be9fb4ab4f180fa1e9270990ea73c4b,
    0xceb69969172f889674d684b4029c51a9, 0x14dd6759baf73a645f661f6163206c5c, 0x79996d5e7c7c3e06e37f02796e2c6d01,
    0x0b4ae674895f7f996b11b45c1e3e795f, 0x7b51f9f2f85837c91da3f59671e057b9, 0x85139060b4e984c3fed0d8f1a27df750,
    0xdf5cf3ad9fa23b1287bc0352883b1227, 0x57365eaf3cdf941881d1bd23033ccb1d, 0x8193da4803b6c9a733671af172be0d47,
    0xe503eaa4b028a9fbaf11bed08baf9fad, 0x547a5b432b7816afa12cdc3f72e76940, 0x063bc5992bf01eee64eaf2970ce7d72f,
    0x3ef2b3f5e26f2e68fd9991f141d27ea8, 0x58cb58df056959b8d9004b34461b241c, 0xbcebc7edcacaee23119b954e2589c573,
    0x4dab57aab35ec85a92c69ed5b3635fc1]

def encryptedPQInner : List Nat := blocks
  [
    0x7298caa565031eadc6ce23d23ea66378, 0xedb362172954509df657f1f5cf382222, 0x2129ec7f27ba4142897fb12366343a72,
    0x1c381715099d7eb8dbbd8ce7b7ae03b4, 0xa294093bd4b24b26a24a39f4c9dc89f8, 0x47a9dbb607d81ec8eacd1f6787b66c78,
    0xe7cf66567ed90360f77d63b8562674bb, 0x1dee72e6becbfe3b95bf8bf45cd475eb, 0xef0873fdfa684e8b06048e769de4d350,
    0x92b2e1060c59176409f13b5d039bf522, 0x6b9c03bf126de1d3d5286c88cea9946c, 0xb6b8d811980aaf41dc7f7d4cfdaf143b,
    0x1486f19f891fb96e048d5880aceda656, 0x5f68c7a8a5445a716625d9913171b186]

def encryptedClientData : List Nat := blocks
  [
    0x7434f8fb067a5856708efe64a4298bde, 0x8533f8f39262c69da24b39907c9623d9, 0x051d5c014e1e4e822bf08a750f521f34,
    0xdde923c54c5674700bc14daed5572510, 0xc085bfe5adce9d9e343eab7b8f828b1f, 0x7c96d45bdb4fd1b48250605523f1b71c,
    0xe8ca08f97b9334964b824349124e0647, 0x18d509499af4f8ba56a05a2afc4ef05e, 0xba1b8ca495f7aaaa068fc1b7dadbf213,
    0xc3133de295e7983a5fccfcf1f0d70d33, 0xd794429b012188483300be1e2932f078, 0x241c1cdbb71f21c41fe130e63e11f4de,
    0x978af8683ff9c4a6130e89dbf0df9fca, 0xd6e224a667f70d231275362a6a9b75d0, 0x4264049232cf5827be45ba95f72853b8,
    0xabeb7c11977b4e6924ec588d633a53c1, 0x52633a028da39cea357729403737298f, 0x1a4aa65a4c2462d2eea685db1de0a346,
    0x219e2ddb9671f13605c4da9aefb88106, 0xf9c08173612c03c97258075d8f83ed62, 0xff1b445f8a158890fcc525526bd542dd]

def crypto : Crypto where
  sha1 := sha1
  sha256 bytes := (leBytes 32
    (if bytes = encryptedPQInner then 0xc6e1b7f5b0a996d81b79c9e6c98a3da93626384da9f8287e4a6eee7957371086
    else 0xc62b0399e991cd157ef700c77e00fb7715b1dd4f29d81c736d20e29cc8efa024)).reverse
  length_sha256 bytes := by simp [leBytes]
  aesIgeEncryptRaw src _ _ := if src.length = 224 then encryptedPQInner else encryptedClientData
  aesIgeDecryptRaw _ _ _ := sha1 innerData ++ innerData ++ List.replicate 8 0
  isPrime _ := true

def packets : List (Draw × Option Answer) :=
  [(draw, some (.resPQ 7 9 [15] [rsaKey.fingerprint])),
    (draw, some (.serverDHParamsOk 7 9 encryptedAnswer)),
    (draw, some (.dhGenOk 7 9 0xf43118cd71e6edc2fc700ddd87cdfd20))]

def result : DcKeyResult where
  persistentKey := none
  temporaryKey := authKey
  temporaryServerSalt := 0x0101010101010108
  persistentServerSalt := 0

end Exchange

/-- An answer of six ints is decrypted, which are one block and a half. -/
theorem server_cuts_block :
    ¬ (DcKeyCreator.run Exchange.crypto Exchange.draw Exchange.request 2
      [(Exchange.draw, some (.resPQ 7 9 [15] [Exchange.rsaKey.fingerprint])),
        (Exchange.draw, some (.serverDHParamsOk 7 9 (List.replicate 24 0)))]).Survives := by
  exact fun survives => absurd survives.blocks (by decide +kernel)

end IMeDesktop.Mtproto.Handshake
