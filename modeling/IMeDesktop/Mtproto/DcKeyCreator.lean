import IMeDesktop.Mtproto.DhUtils
import IMeDesktop.Mtproto.NotSecureAnswers

/-! # Creating keys

`DcKeyCreator` asks a server for a temporary key, and for a persistent one before it when that
is needed. Answers are not authenticated, and each of them names an attempt by its nonce.

A step is one received packet, taken as parsed. Random values, the public keys at hand and
how a number was factorized are given with each step. What the creator does is kept in a log,
newest first: packets it takes, requests it sends, lengths it hands to `AES_ige_encrypt`,
assertions of `done`, and calls of the callback. It stops after such a call, at an assertion
that fails, and in a loop that does not find a good random value.
-/

namespace IMeDesktop.Mtproto.Handshake

open Lib

/-! ## Bytes -/

/-- A number in memory, the lowest byte first. -/
def leBytes (count n : Nat) : List Nat := (List.range count).map fun i => n / 256 ^ i % 256

def stringBytes (v : List Nat) : List Nat :=
  let encoded := if v.length < 254 then v.length :: v else 254 :: leBytes 3 v.length ++ v
  encoded ++ List.replicate ((4 - encoded.length % 4) % 4) 0

def intsOf : List Nat → List Nat
  | a :: b :: c :: d :: rest => (a + 2 ^ 8 * b + 2 ^ 16 * c + 2 ^ 24 * d) :: intsOf rest
  | _ => []

/-! ## What is used of `openssl` -/

structure Crypto where
  sha1 : List Nat → List Nat
  sha256 : List Nat → List Nat
  length_sha256 : ∀ bytes, (sha256 bytes).length = 32
  aesIgeEncryptRaw : (src key iv : List Nat) → List Nat
  aesIgeDecryptRaw : (src key iv : List Nat) → List Nat
  isPrime : Nat → Bool

structure RSAPublicKey where
  modulus : List Nat
  fingerprint : Nat
  encrypt : List Nat → List Nat

/-- What a step draws, and what it finds outside of the creator. -/
structure Draw where
  getDcRSAKey : List Nat → Option RSAPublicKey
  factorizePQ : List Nat → List Nat × List Nat
  nonce : Nat
  newNonce : List Nat
  tempKeys : List (List Nat)
  randomSeed : List Nat
  randomPowers : List (List Nat)
  random : Nat → List Nat
  length_random : ∀ count, (random count).length = count

/-! ## Encrypted parts -/

/-- The first difference decides. -/
def isBelow : List Nat → List Nat → Bool
  | a :: as, b :: bs => if a > b then false else if a < b then true else isBelow as bs
  | _, _ => false

def isGoodEncryptedInner (keyAesEncrypted : List Nat) (key : RSAPublicKey) : Bool :=
  isBelow keyAesEncrypted (List.replicate (256 - key.modulus.length) 0 ++ key.modulus)

/-- Lengths that were encrypted, and the result of the loop when it ends. -/
structure PQEncryption where
  aesLengths : List Nat
  encrypted : Option (List Nat)

def encryptPQInnerLoop (crypto : Crypto) (key : RSAPublicKey) (dataWithPadding : List Nat) :
    List (List Nat) → PQEncryption
  | [] => { aesLengths := [], encrypted := none }
  | tempKey :: others =>
      let dataWithHash := dataWithPadding.reverse ++ crypto.sha256 (tempKey ++ dataWithPadding)
      let aesEncrypted := crypto.aesIgeEncryptRaw dataWithHash tempKey (List.replicate 32 0)
      let keyAesEncrypted := tempKey.zipWith (· ^^^ ·) (crypto.sha256 aesEncrypted) ++ aesEncrypted
      if isGoodEncryptedInner keyAesEncrypted key then
        { aesLengths := [dataWithHash.length], encrypted := some (key.encrypt keyAesEncrypted) }
      else
        let rest := encryptPQInnerLoop crypto key dataWithPadding others
        { rest with aesLengths := dataWithHash.length :: rest.aesLengths }

/-- Data that is too long is not encrypted, and the result is empty. -/
def encryptPQInnerRSA (crypto : Crypto) (draw : Draw) (key : RSAPublicKey) (data : List Nat) : PQEncryption :=
  if data.length / 4 > 144 / 4 then { aesLengths := [], encrypted := some [] }
  else encryptPQInnerLoop crypto key (data ++ draw.random (192 - data.length)) draw.tempKeys

structure ClientDHInnerData where
  nonce : Nat
  serverNonce : Nat
  retryId : List Nat
  gB : List Nat

def ClientDHInnerData.bytes (data : ClientDHInnerData) : List Nat :=
  leBytes 4 0x6643b654 ++ leBytes 16 data.nonce ++ leBytes 16 data.serverNonce ++ data.retryId ++ stringBytes data.gB

/-- The hash and the data, in ints. -/
def ClientDHInnerData.encSize (data : ClientDHInnerData) : Nat := data.bytes.length / 4 + 5

def ClientDHInnerData.encFullSize (data : ClientDHInnerData) : Nat :=
  if data.encSize % 4 ≠ 0 then data.encSize + (4 - data.encSize % 4) else data.encSize

def encryptClientDHInner (crypto : Crypto) (draw : Draw) (data : ClientDHInnerData) (aesKey aesIV : List Nat) :
    List Nat :=
  let padding := draw.random ((data.encFullSize - data.encSize) * 4)
  crypto.aesIgeEncryptRaw (crypto.sha1 data.bytes ++ data.bytes ++ padding) aesKey aesIV

structure ServerDHInnerData where
  nonce : Nat
  serverNonce : Nat
  g : Nat
  dhPrime : List Nat
  gA : List Nat
  serverTime : Nat
  deriving DecidableEq, Repr

def readServerDHInnerData : Reader Nat ServerDHInnerData :=
  readOnly 0xb5890dba do
    let nonce ← readInt128
    let serverNonce ← readInt128
    let g ← readInt
    let dhPrime ← readString
    let gA ← readString
    let serverTime ← readInt
    pure { nonce, serverNonce, g, dhPrime, gA, serverTime }

/-- 128 lower-order bits of the hash. -/
def nonceDigest (crypto : Crypto) (data : List Nat) : Nat := Nat.ofDigits 256 (((crypto.sha1 data).drop 4).take 16)

section Aes

variable (crypto : Crypto) (newNonce : List Nat) (serverNonce : Nat)

def tempAesKey : List Nat :=
  (crypto.sha1 (newNonce ++ leBytes 16 serverNonce)).take 20 ++
    (crypto.sha1 (leBytes 16 serverNonce ++ newNonce)).take 12

def tempAesIV : List Nat :=
  ((crypto.sha1 (leBytes 16 serverNonce ++ newNonce)).drop 12).take 8 ++
    (crypto.sha1 (newNonce ++ newNonce)).take 20 ++ newNonce.take 4

end Aes

/-! ## Attempts -/

inductive Stage where
  | none
  | waitingPQ
  | waitingDH
  | waitingDone
  | ready
  deriving DecidableEq, Repr

/-- 32 bytes new_nonce + 1 check byte + 8 bytes of auth_key_aux_hash. -/
structure NewNonceBuf where
  newNonce : List Nat := List.replicate 32 0
  check : Nat := 0
  authKeyAuxHash : List Nat := List.replicate 8 0

def NewNonceBuf.bytes (buf : NewNonceBuf) : List Nat := buf.newNonce ++ [buf.check] ++ buf.authKeyAuxHash

structure AttemptData where
  nonce : Nat := 0
  serverNonce : Nat := 0
  newNonceBuf : NewNonceBuf := {}
  retryId : List Nat := List.replicate 8 0
  g : Nat := 0
  aesKey : List Nat := []
  aesIV : List Nat := []
  doneSalt : Nat := 0

structure Attempt where
  data : AttemptData := {}
  dhPrime : List Nat := []
  gA : List Nat := []
  authKey : List Nat := List.replicate kSize 0
  expiresIn : Nat := 0
  retries : Nat := 0
  stage : Stage := .none

/-- Which attempt a pointer to one stands for. -/
inductive Kind where
  | temporary
  | persistent
  deriving DecidableEq, Repr

structure DcKeyRequest where
  temporaryExpiresIn : Nat
  persistentNeeded : Bool
  positive : 0 < temporaryExpiresIn

inductive DcKeyError where
  | unknownPublicKey
  | other
  deriving DecidableEq, Repr

structure DcKeyResult where
  persistentKey : Option (List Nat)
  temporaryKey : List Nat
  temporaryServerSalt : Nat
  persistentServerSalt : Nat
  deriving DecidableEq, Repr

inductive Request where
  | reqPqMulti (nonce : Nat)
  | reqDHParams (nonce serverNonce : Nat) (p q : List Nat) (fingerprint : Nat) (encryptedData : List Nat)
  | setClientDHParams (nonce serverNonce : Nat) (encryptedData : List Nat)
  deriving DecidableEq, Repr

inductive Deed where
  | received (kind : Kind) (answer : Answer)
  | sent (kind : Kind) (request : Request)
  | aesIge (length : Nat)
  | asserted (holds : Bool)
  | done (result : Except DcKeyError DcKeyResult)

structure DcKeyCreator where
  request : DcKeyRequest
  protocolDcId : Nat
  temporary : Attempt := {}
  persistent : Attempt := {}
  running : Bool := true
  log : List Deed := []

def Answer.nonce : Answer → Nat
  | .resPQ nonce _ _ _ => nonce
  | .serverDHParamsFail nonce _ _ => nonce
  | .serverDHParamsOk nonce _ _ => nonce
  | .dhGenOk nonce _ _ => nonce
  | .dhGenRetry nonce _ _ => nonce
  | .dhGenFail nonce _ _ => nonce

namespace DcKeyCreator

def attempt (c : DcKeyCreator) : Kind → Attempt
  | .temporary => c.temporary
  | .persistent => c.persistent

def setAttempt (c : DcKeyCreator) (attempt : Attempt) : Kind → DcKeyCreator
  | .temporary => { c with temporary := attempt }
  | .persistent => { c with persistent := attempt }

def tell (c : DcKeyCreator) (deed : Deed) : DcKeyCreator := { c with log := deed :: c.log }

def stop (c : DcKeyCreator) : DcKeyCreator := { c with running := false }

/-- `stopReceiving`, and the callback that was taken. -/
def finish (c : DcKeyCreator) (result : Except DcKeyError DcKeyResult) : DcKeyCreator := (c.tell (.done result)).stop

def failed (c : DcKeyCreator) (error : DcKeyError) : DcKeyCreator := c.finish (.error error)

/-- `Assert`. -/
def asserts (c : DcKeyCreator) (holds : Bool) (next : DcKeyCreator → DcKeyCreator) : DcKeyCreator :=
  if holds then next (c.tell (.asserted holds)) else (c.tell (.asserted holds)).stop

/-- A call of `aesIgeEncryptRaw` or `aesIgeDecryptRaw`: `AES_ige_encrypt` asserts that there are only whole blocks. -/
def aesIge (c : DcKeyCreator) (length : Nat) (next : DcKeyCreator → DcKeyCreator) : DcKeyCreator :=
  if length % 16 = 0 then next (c.tell (.aesIge length)) else (c.tell (.aesIge length)).stop

def aesIges (c : DcKeyCreator) (next : DcKeyCreator → DcKeyCreator) : List Nat → DcKeyCreator
  | [] => next c
  | length :: lengths => c.aesIge length fun c => c.aesIges next lengths

/-- An answer at another stage is an error. -/
def atStage (c : DcKeyCreator) (kind : Kind) (stage : Stage) (next : DcKeyCreator → DcKeyCreator) : DcKeyCreator :=
  if (c.attempt kind).stage = stage then next c else c.failed .other

section Fields

variable (c : DcKeyCreator) (a : Attempt) (deed : Deed) (kind : Kind)

@[simp]
theorem log_setAttempt : (c.setAttempt a kind).log = c.log := by cases kind <;> rfl

@[simp]
theorem running_setAttempt : (c.setAttempt a kind).running = c.running := by cases kind <;> rfl

@[simp]
theorem attempt_setAttempt : (c.setAttempt a kind).attempt kind = a := by cases kind <;> rfl

@[simp]
theorem setAttempt_setAttempt (b : Attempt) : (c.setAttempt a kind).setAttempt b kind = c.setAttempt b kind := by
  cases kind <;> rfl

theorem attempt_setAttempt_ne {other : Kind} (ne : other ≠ kind) :
    (c.setAttempt a kind).attempt other = c.attempt other := by
  cases kind <;> cases other <;> first | rfl | exact absurd rfl ne

@[simp]
theorem log_tell : (c.tell deed).log = deed :: c.log := rfl

@[simp]
theorem running_tell : (c.tell deed).running = c.running := rfl

@[simp]
theorem attempt_tell : (c.tell deed).attempt kind = c.attempt kind := by cases kind <;> rfl

variable {c} {length : Nat} {lengths : List Nat} {next : DcKeyCreator → DcKeyCreator}

theorem aesIge_whole (whole : length % 16 = 0) : c.aesIge length next = next (c.tell (.aesIge length)) := if_pos whole

/-- Whole blocks are told one after the other. -/
theorem aesIges_whole (whole : ∀ length ∈ lengths, length % 16 = 0) :
    c.aesIges next lengths = next { c with log := lengths.reverse.map .aesIge ++ c.log } := by
  induction lengths generalizing c with
  | nil => rfl
  | cons length lengths ih =>
      obtain ⟨first, others⟩ := List.forall_mem_cons.mp whole
      rw [aesIges, aesIge_whole first, ih others, tell]
      simp only [List.reverse_cons, List.map_append, List.map_singleton, List.append_assoc, List.singleton_append]

end Fields

section Steps

variable (crypto : Crypto) (draw : Draw)

def pqSend (c : DcKeyCreator) (kind : Kind) (expiresIn : Nat) : DcKeyCreator :=
  let attempt := c.attempt kind
  (c.setAttempt { attempt with
    stage := .waitingPQ
    expiresIn := expiresIn
    data := { attempt.data with nonce := draw.nonce } } kind).tell (.sent kind (.reqPqMulti draw.nonce))

/-- `p_q_inner_data_dc`, or `p_q_inner_data_temp_dc` for a key that expires. -/
def pqInnerData (c : DcKeyCreator) (attempt : Attempt) (pq p q : List Nat) : List Nat :=
  leBytes 4 (if attempt.expiresIn = 0 then 0xa9f55f95 else 0x56fddf88) ++
    stringBytes pq ++ stringBytes p ++ stringBytes q ++
    leBytes 16 attempt.data.nonce ++ leBytes 16 attempt.data.serverNonce ++ attempt.data.newNonceBuf.newNonce ++
    leBytes 4 c.protocolDcId ++ if attempt.expiresIn = 0 then [] else leBytes 4 attempt.expiresIn

def pqAnswered (c : DcKeyCreator) (kind : Kind) (serverNonce : Nat) (pq fingerprints : List Nat) : DcKeyCreator :=
  c.atStage kind .waitingPQ fun c =>
    match draw.getDcRSAKey fingerprints with
    | none => c.failed .unknownPublicKey
    | some rsaKey =>
        let attempt := c.attempt kind
        let buf := { attempt.data.newNonceBuf with newNonce := draw.newNonce }
        let attempt := { attempt with data := { attempt.data with serverNonce := serverNonce, newNonceBuf := buf } }
        let c := c.setAttempt attempt kind
        let (p, q) := draw.factorizePQ pq
        if p = [] ∨ q = [] then c.failed .other
        else
          let encryption := encryptPQInnerRSA crypto draw rsaKey (c.pqInnerData attempt pq p q)
          c.aesIges (fun c =>
            match encryption.encrypted with
            | none => c.stop
            | some [] => c.failed .other
            | some dhEncString =>
                let c := c.setAttempt { attempt with stage := .waitingDH } kind
                c.tell (.sent kind
                  (.reqDHParams attempt.data.nonce serverNonce p q rsaKey.fingerprint dhEncString)))
            encryption.aesLengths

def dhClientParamsSend (c : DcKeyCreator) (kind : Kind) : DcKeyCreator :=
  let attempt := c.attempt kind
  let attempt := { attempt with retries := attempt.retries + 1 }
  let c := c.setAttempt attempt kind
  if attempt.retries > 5 then c.failed .other
  else
    match createModExp attempt.data.g attempt.dhPrime draw.randomSeed draw.randomPowers with
    | none => c.stop
    | some first =>
        let computedAuthKey := createAuthKey attempt.gA first.randomPower attempt.dhPrime
        if first.modexp = [] then c.failed .other
        else if computedAuthKey = [] then c.failed .other
        else
          let authKey := fillData computedAuthKey
          let buf := { attempt.data.newNonceBuf with authKeyAuxHash := (crypto.sha1 authKey).take 8 }
          let attempt := { attempt with authKey := authKey, data := { attempt.data with newNonceBuf := buf } }
          let inner : ClientDHInnerData :=
            { nonce := attempt.data.nonce, serverNonce := attempt.data.serverNonce
              retryId := attempt.data.retryId, gB := first.modexp }
          c.aesIge (inner.encFullSize * 4) fun c =>
            let c := c.setAttempt { attempt with stage := .waitingDone } kind
            c.tell (.sent kind (.setClientDHParams attempt.data.nonce attempt.data.serverNonce
              (encryptClientDHInner crypto draw inner attempt.data.aesKey attempt.data.aesIV)))

/-- What was decrypted, when it is for this attempt and all of it can be used. -/
def serverDHInner (data : AttemptData) (decrypted : List Nat) : Option ServerDHInnerData :=
  match readServerDHInnerData.consumed ((intsOf decrypted).drop 5) with
  | .done (inner, used) _ =>
      if inner.nonce ≠ data.nonce then none
      else if inner.serverNonce ≠ data.serverNonce then none
      else if crypto.sha1 ((decrypted.drop 20).take (used.length * 4)) ≠ decrypted.take 20 then none
      else if !isPrimeAndGood crypto.isPrime inner.dhPrime inner.g then none
      else some inner
  | _ => none

def dhParamsOkAnswered (c : DcKeyCreator) (kind : Kind) (serverNonce : Nat) (encryptedAnswer : List Nat) :
    DcKeyCreator :=
  c.atStage kind .waitingDH fun c =>
    let attempt := c.attempt kind
    if serverNonce ≠ attempt.data.serverNonce then c.failed .other
    else if encryptedAnswer.length % 4 ≠ 0 ∨ encryptedAnswer.length / 4 < 6 then c.failed .other
    else
      let aesKey := tempAesKey crypto attempt.data.newNonceBuf.newNonce attempt.data.serverNonce
      let aesIV := tempAesIV crypto attempt.data.newNonceBuf.newNonce attempt.data.serverNonce
      c.aesIge encryptedAnswer.length fun c =>
        match serverDHInner crypto attempt.data (crypto.aesIgeDecryptRaw encryptedAnswer aesKey aesIV) with
        | none => c.failed .other
        | some inner =>
            let data := { attempt.data with
              aesKey := aesKey, aesIV := aesIV, g := inner.g, retryId := List.replicate 8 0 }
            let attempt := { attempt with data := data, dhPrime := inner.dhPrime, gA := inner.gA, retries := 0 }
            (c.setAttempt attempt kind).dhClientParamsSend crypto draw kind

/-- The attempt ends in any case. -/
def dhParamsFailAnswered (c : DcKeyCreator) (kind : Kind) (serverNonce newNonceHash : Nat) : DcKeyCreator :=
  c.atStage kind .waitingDH fun c =>
    let attempt := c.attempt kind
    if serverNonce ≠ attempt.data.serverNonce then c.failed .other
    else if newNonceHash ≠ nonceDigest crypto attempt.data.newNonceBuf.newNonce then c.failed .other
    else c.failed .other

def done (c : DcKeyCreator) : DcKeyCreator :=
  if c.temporary.stage = .none then c.pqSend draw .temporary c.request.temporaryExpiresIn
  else
    c.asserts (c.temporary.stage = .ready) fun c =>
      c.asserts (c.persistent.stage = .ready || c.persistent.stage = .none) fun c =>
        let persistent : Bool := c.persistent.stage = .ready
        c.finish (.ok
          { temporaryKey := c.temporary.authKey
            temporaryServerSalt := c.temporary.data.doneSalt
            persistentKey := if persistent then some c.persistent.authKey else none
            persistentServerSalt := if persistent then c.persistent.data.doneSalt else 0 })

/-- `dh_gen_ok`, `dh_gen_retry` and `dh_gen_fail` are told apart by a byte in the hash that they carry. -/
def dhGenAnswered (check : Nat) (c : DcKeyCreator) (kind : Kind) (nonce serverNonce newNonceHash : Nat)
    (next : DcKeyCreator → DcKeyCreator) : DcKeyCreator :=
  c.atStage kind .waitingDone fun c =>
    let attempt := c.attempt kind
    if nonce ≠ attempt.data.nonce then c.failed .other
    else if serverNonce ≠ attempt.data.serverNonce then c.failed .other
    else
      let buf := { attempt.data.newNonceBuf with check := check }
      let c := c.setAttempt { attempt with data := { attempt.data with newNonceBuf := buf } } kind
      if newNonceHash ≠ nonceDigest crypto buf.bytes then c.failed .other else next c

def dhGenOkAnswered (c : DcKeyCreator) (kind : Kind) (nonce serverNonce newNonceHash1 : Nat) : DcKeyCreator :=
  dhGenAnswered crypto 1 c kind nonce serverNonce newNonceHash1 fun c =>
    let attempt := c.attempt kind
    let salt1 := Nat.ofDigits 256 (attempt.data.newNonceBuf.newNonce.take 8)
    let salt2 := attempt.data.serverNonce % 2 ^ 64
    let data := { attempt.data with doneSalt := salt1 ^^^ salt2 }
    (c.setAttempt { attempt with data := data, stage := .ready } kind).done draw

def dhGenRetryAnswered (c : DcKeyCreator) (kind : Kind) (nonce serverNonce newNonceHash2 : Nat) : DcKeyCreator :=
  dhGenAnswered crypto 2 c kind nonce serverNonce newNonceHash2 fun c =>
    let attempt := c.attempt kind
    let data := { attempt.data with retryId := attempt.data.newNonceBuf.authKeyAuxHash }
    (c.setAttempt { attempt with data := data } kind).dhClientParamsSend crypto draw kind

def dhGenFailAnswered (c : DcKeyCreator) (kind : Kind) (nonce serverNonce newNonceHash3 : Nat) : DcKeyCreator :=
  dhGenAnswered crypto 3 c kind nonce serverNonce newNonceHash3 fun c => c.failed .other

def attemptByNonce (c : DcKeyCreator) (nonce : Nat) : Option Kind :=
  if c.temporary.data.nonce = nonce then some .temporary
  else if c.persistent.data.nonce = nonce then some .persistent
  else none

def handleAttemptAnswer (c : DcKeyCreator) (kind : Kind) : Answer → DcKeyCreator
  | .resPQ _ serverNonce pq fingerprints => c.pqAnswered crypto draw kind serverNonce pq fingerprints
  | .serverDHParamsFail _ serverNonce newNonceHash => c.dhParamsFailAnswered crypto kind serverNonce newNonceHash
  | .serverDHParamsOk _ serverNonce encryptedAnswer =>
      c.dhParamsOkAnswered crypto draw kind serverNonce encryptedAnswer
  | .dhGenOk nonce serverNonce hash => c.dhGenOkAnswered crypto draw kind nonce serverNonce hash
  | .dhGenRetry nonce serverNonce hash => c.dhGenRetryAnswered crypto draw kind nonce serverNonce hash
  | .dhGenFail nonce serverNonce hash => c.dhGenFailAnswered crypto kind nonce serverNonce hash

/-- What was not read as any answer is an error, as is an answer for no attempt. -/
def handleAnswer (c : DcKeyCreator) : Option Answer → DcKeyCreator
  | none => c.failed .other
  | some answer =>
      match c.attemptByNonce answer.nonce with
      | none => c.failed .other
      | some kind => (c.tell (.received kind answer)).handleAttemptAnswer crypto draw kind answer

/-- A packet, while the creator still is connected to `receivedData`. -/
def answered (c : DcKeyCreator) (packet : Option Answer) : DcKeyCreator :=
  if c.running then c.handleAnswer crypto draw packet else c

end Steps

/-! ## Runs -/

def start (draw : Draw) (request : DcKeyRequest) (protocolDcId : Nat) : DcKeyCreator :=
  let c : DcKeyCreator := { request := request, protocolDcId := protocolDcId }
  if request.persistentNeeded then c.pqSend draw .persistent 0
  else c.pqSend draw .temporary request.temporaryExpiresIn

def runFrom (crypto : Crypto) (c : DcKeyCreator) (packets : List (Draw × Option Answer)) : DcKeyCreator :=
  packets.foldl (fun c packet => c.answered crypto packet.1 packet.2) c

def run (crypto : Crypto) (draw : Draw) (request : DcKeyRequest) (protocolDcId : Nat)
    (packets : List (Draw × Option Answer)) : DcKeyCreator :=
  runFrom crypto (start draw request protocolDcId) packets

end DcKeyCreator

end IMeDesktop.Mtproto.Handshake
