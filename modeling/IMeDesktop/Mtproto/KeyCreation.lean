import IMeDesktop.Lib.Exclusive
import IMeDesktop.Mtproto.Dcenter

/-! # Who is creating a key

Sessions to one data center share a `Dcenter`. A session that acquires a creation
keeps its kind in `myKeyCreation` and a creator in its `SessionPrivate` until it
releases it. `Session`, `SessionData` and `SessionPrivate` are one record here;
`owner` is whether `SessionData` still points to the session, and everything that
goes through `SessionData` does nothing once it does not.

A step is one call as `SessionPrivate` makes it, run to its end: connections,
restarts and what is sent are left out. `none` is a failed `Expects`.
-/

namespace IMeDesktop.Mtproto

open Lib

/-- `_keyCreator`: the key of the binder, once there is one. -/
structure BoundKeyCreator (κ : Type) where
  bindPersistentKey : Option κ := none

structure Session (κ : Type) where
  owner : Bool := true
  myKeyCreation : CreatingKeyType := .none
  keyCreator : Option (BoundKeyCreator κ) := none
  encryptionKey : Option κ := none
  keyId : Nat := 0
  realDcType : DcType
  currentDcType : DcType

/-- A session with the data center it belongs to. -/
structure DcSession (κ : Type) where
  dc : Dcenter κ
  session : Session κ

structure DcKeyResult (κ : Type) where
  persistentKey : Option κ
  temporaryKey : κ

variable {ι κ : Type}

namespace Session

def acquireKeyCreation (v : DcSession κ) (type : DcType) : Option (CreatingKeyType × DcSession κ) :=
  if v.session.myKeyCreation = .none then
    let (acquired, dc) := v.dc.acquireKeyCreation type
    some (acquired, { dc, session := { v.session with myKeyCreation := acquired } })
  else none

def releaseKeyCreationOnFail (v : DcSession κ) : Option (DcSession κ) :=
  match v.dc.releaseKeyCreationOnFail v.session.myKeyCreation with
  | none => none
  | some dc => some { dc, session := { v.session with myKeyCreation := .none } }

variable [DecidableEq κ]

def releaseGenericKeyCreationOnDone (v : DcSession κ) (temporaryKey used : Option κ) :
    Option (Bool × DcSession κ) :=
  match v.dc.releaseKeyCreationOnDone v.session.myKeyCreation temporaryKey used with
  | none => none
  | some (done, dc) => some (done, { dc, session := { v.session with myKeyCreation := .none } })

def releaseKeyCreationOnDone (v : DcSession κ) (temporaryKey used : Option κ) :
    Option (Bool × DcSession κ) :=
  if v.session.myKeyCreation ≠ .none ∧ used ≠ none then
    releaseGenericKeyCreationOnDone v temporaryKey used
  else none

def releaseCdnKeyCreationOnDone (v : DcSession κ) (temporaryKey : Option κ) :
    Option (Bool × DcSession κ) :=
  if v.session.myKeyCreation = .temporaryRegular then
    releaseGenericKeyCreationOnDone v temporaryKey none
  else none

end Session

/-! The same calls through `SessionData`, as long as the session is there. -/

namespace SessionData

def getPersistentKey (v : DcSession κ) : Option κ :=
  if v.session.owner then v.dc.getPersistentKey else none

def getTemporaryKey (v : DcSession κ) (type : TemporaryKeyType) : Option κ :=
  if v.session.owner then v.dc.getTemporaryKey type else none

def acquireKeyCreation (v : DcSession κ) (type : DcType) : Option (CreatingKeyType × DcSession κ) :=
  if v.session.owner then Session.acquireKeyCreation v type else some (.none, v)

def releaseKeyCreationOnFail (v : DcSession κ) : Option (DcSession κ) :=
  if v.session.owner then Session.releaseKeyCreationOnFail v else some v

def destroyTemporaryKey (keyIdOf : κ → Nat) (v : DcSession κ) (keyId : Nat) : DcSession κ :=
  if v.session.owner then { v with dc := (v.dc.destroyTemporaryKey keyIdOf keyId).2 } else v

variable [DecidableEq κ]

def releaseKeyCreationOnDone (v : DcSession κ) (temporaryKey used : Option κ) :
    Option (Bool × DcSession κ) :=
  if v.session.owner then Session.releaseKeyCreationOnDone v temporaryKey used else some (false, v)

def releaseCdnKeyCreationOnDone (v : DcSession κ) (temporaryKey : Option κ) :
    Option (Bool × DcSession κ) :=
  if v.session.owner then Session.releaseCdnKeyCreationOnDone v temporaryKey else some (false, v)

end SessionData

namespace SessionPrivate

def releaseKeyCreationOnFail (v : DcSession κ) : Option (DcSession κ) :=
  match v.session.keyCreator with
  | none => some v
  | some _ =>
      SessionData.releaseKeyCreationOnFail { v with session := { v.session with keyCreator := none } }

def tryAcquireKeyCreation (v : DcSession κ) : Option (DcType × DcSession κ) :=
  match v.session.keyCreator with
  | some _ => some (v.session.currentDcType, v)
  | none =>
      match SessionData.acquireKeyCreation v v.session.realDcType with
      | none => none
      | some (acquired, v) =>
          if acquired = .none then some (v.session.realDcType, v)
          else
            let forceUseRegular :=
              v.session.realDcType = .mediaCluster ∧ acquired ≠ .temporaryMediaCluster
            some (if forceUseRegular then .regular else v.session.realDcType,
              { v with session := { v.session with keyCreator := some {} } })

def noMediaKeyWithExistingRegularKey (v : DcSession κ) : Bool :=
  temporaryKeyTypeByDcType v.session.currentDcType == .mediaCluster &&
    (SessionData.getTemporaryKey v .regular).isSome

/-- `connection` is whether there is one. -/
def applyAuthKey (keyIdOf : κ → Nat) (connection : Bool) (v : DcSession κ)
    (encryptionKey : Option κ) : Option (DcSession κ) :=
  let v := { v with session := { v.session with encryptionKey } }
  let newKeyId := (encryptionKey.map keyIdOf).getD 0
  if v.session.keyId ≠ 0 then
    if v.session.keyId = newKeyId then some v
    else some { v with session := { v.session with keyId := 0 } }
  else if !connection then some v
  else
    let v := { v with session := { v.session with keyId := newKeyId } }
    if newKeyId ≠ 0 then some v
    else if noMediaKeyWithExistingRegularKey v then (tryAcquireKeyCreation v).map Prod.snd
    else some v

def checkAuthKey (keyIdOf : κ → Nat) (connection : Bool) (v : DcSession κ) : Option (DcSession κ) :=
  if v.session.keyId ≠ 0 then some v
  else
    applyAuthKey keyIdOf connection v
      (SessionData.getTemporaryKey v (temporaryKeyTypeByDcType v.session.currentDcType))

def updateAuthKey (keyIdOf : κ → Nat) (connection : Bool) (v : DcSession κ) : Option (DcSession κ) :=
  if v.session.keyCreator.isSome || !connection then some v
  else
    applyAuthKey keyIdOf connection v
      (SessionData.getTemporaryKey v (temporaryKeyTypeByDcType v.session.currentDcType))

def destroyTemporaryKey (keyIdOf : κ → Nat) (connection : Bool) (v : DcSession κ) :
    Option (DcSession κ) :=
  match releaseKeyCreationOnFail v with
  | none => none
  | some v =>
      let v :=
        match v.session.encryptionKey with
        | some key => SessionData.destroyTemporaryKey keyIdOf v (keyIdOf key)
        | none => v
      applyAuthKey keyIdOf connection v none

/-- `now` is what the options say the data center is. -/
def connectToServer (keyIdOf : κ → Nat) (now : DcType) (v : DcSession κ) : Option (DcSession κ) :=
  let changed := v.session.realDcType ≠ now
  let v := { v with session := { v.session with realDcType := now } }
  -- all connections are destroyed at this point
  if changed ∧ v.session.keyCreator.isSome then destroyTemporaryKey keyIdOf false v
  else
    match tryAcquireKeyCreation v with
    | none => none
    | some (type, v) => some { v with session := { v.session with currentDcType := type } }

variable [DecidableEq κ]

/-- The callback of a creator that is still waiting for its unbound key; `none` is an error. -/
def unboundReady (keyIdOf : κ → Nat) (connection : Bool) (v : DcSession κ)
    (result : Option (DcKeyResult κ)) : Option (DcSession κ) :=
  match v.session.keyCreator, result with
  | none, _ => some v
  | some ⟨some _⟩, _ => some v
  | some ⟨none⟩, none => releaseKeyCreationOnFail v
  | some ⟨none⟩, some result =>
      if v.session.realDcType ≠ .cdn then
        match result.persistentKey.or (SessionData.getPersistentKey v) with
        | none => releaseKeyCreationOnFail v
        | some key =>
            let v := { v with session := { v.session with keyCreator := some ⟨some key⟩ } }
            applyAuthKey keyIdOf connection v (some result.temporaryKey)
      else
        match applyAuthKey keyIdOf connection v (some result.temporaryKey) with
        | none => none
        | some v =>
            let v := { v with session := { v.session with keyCreator := none } }
            (SessionData.releaseCdnKeyCreationOnDone v v.session.encryptionKey).map Prod.snd

/-- `oldEnough` is the answer of `destroyOldEnoughPersistentKey`. -/
def handleBindResponse (keyIdOf : κ → Nat) (connection : Bool) (v : DcSession κ)
    (state : DcKeyBindState) (oldEnough : Bool) : Option (DcSession κ) :=
  match v.session.keyCreator with
  | none => some v
  | some ⟨none⟩ => some v
  | some ⟨some key⟩ =>
      match state with
      | .success =>
          let v := { v with session := { v.session with keyCreator := none } }
          match SessionData.releaseKeyCreationOnDone v v.session.encryptionKey (some key) with
          | none => none
          | some (true, v) => some v
          | some (false, v) => destroyTemporaryKey keyIdOf connection v
      | .definitelyDestroyed =>
          if oldEnough then destroyTemporaryKey keyIdOf connection v else some v
      | .failed => some v

end SessionPrivate

/-- What happens to one session. -/
inductive SessionStep (κ : Type) where
  | connectToServer (now : DcType)
  | unboundReady (connection : Bool) (result : Option (DcKeyResult κ))
  | handleBindResponse (connection : Bool) (state : DcKeyBindState) (oldEnough : Bool)
  | checkAuthKey (connection : Bool)
  | updateAuthKey (connection : Bool)
  | destroyTemporaryKey (connection : Bool)
  /-- `stop` destroys the `SessionPrivate` before a later `start` makes a new one. -/
  | restartPrivate (now : DcType)
  | kill
  | destroySession

/-- One step of a session; a session is destroyed only after it was killed. -/
def DcSession.step [DecidableEq κ] (keyIdOf : κ → Nat) (v : DcSession κ) :
    SessionStep κ → Option (DcSession κ)
  | .connectToServer now => SessionPrivate.connectToServer keyIdOf now v
  | .unboundReady connection result => SessionPrivate.unboundReady keyIdOf connection v result
  | .handleBindResponse connection state oldEnough =>
      SessionPrivate.handleBindResponse keyIdOf connection v state oldEnough
  | .checkAuthKey connection => SessionPrivate.checkAuthKey keyIdOf connection v
  | .updateAuthKey connection => SessionPrivate.updateAuthKey keyIdOf connection v
  | .destroyTemporaryKey connection => SessionPrivate.destroyTemporaryKey keyIdOf connection v
  | .restartPrivate now =>
      (SessionPrivate.releaseKeyCreationOnFail v).map fun v =>
        { v with session := { v.session with
            keyId := 0, encryptionKey := none, realDcType := now, currentDcType := now } }
  | .kill => some { v with session := { v.session with owner := false } }
  | .destroySession =>
      if v.session.owner || v.session.myKeyCreation = .none then some v
      else Session.releaseKeyCreationOnFail v

/-- A data center with all its sessions. -/
structure DcWorld (ι κ : Type) where
  dc : Dcenter κ
  sessions : ι → Session κ

inductive DcStep (ι κ : Type) where
  | session (i : ι) (step : SessionStep κ)
  | destroyConfirmedForgottenKey (keyId : Nat)

namespace DcWorld

variable [DecidableEq ι] [DecidableEq κ]

def initial (types : ι → DcType) (persistentKey : Option κ) : DcWorld ι κ where
  dc := { persistentKey }
  sessions i := { realDcType := types i, currentDcType := types i }

def view (w : DcWorld ι κ) (i : ι) : DcSession κ := ⟨w.dc, w.sessions i⟩

def step (keyIdOf : κ → Nat) (w : DcWorld ι κ) : DcStep ι κ → Option (DcWorld ι κ)
  | .session i step =>
      match (w.view i).step keyIdOf step with
      | none => none
      | some v => some ⟨v.dc, Function.update w.sessions i v.session⟩
  | .destroyConfirmedForgottenKey keyId =>
      some { w with dc := (w.dc.destroyConfirmedForgottenKey keyIdOf keyId).2 }

/-- States reached by steps that are all `allowed` where they are taken. -/
inductive Reaches (keyIdOf : κ → Nat) (allowed : DcWorld ι κ → DcStep ι κ → Prop) :
    DcWorld ι κ → Prop
  | initial (types : ι → DcType) (persistentKey : Option κ) :
      Reaches keyIdOf allowed (initial types persistentKey)
  | step {w w' : DcWorld ι κ} (a : DcStep ι κ) (before : Reaches keyIdOf allowed w)
      (ok : allowed w a) (next : w.step keyIdOf a = some w') : Reaches keyIdOf allowed w'

end DcWorld

/-! ## What one session keeps -/

/-- Everything that decides about slots, as one session sees it. -/
structure DcSession.Kept (others : Fin 2 → Prop) (v : DcSession κ) : Prop where
  slots : Exclusive.Local others (fun slot => v.dc.creatingKeys slot = true)
    v.session.myKeyCreation.indexByType
  noKey : ∀ slot, v.dc.creatingKeys slot = true → v.dc.temporaryKeys slot = none

/-- While it is attached, a session has a creator when it is creating. -/
structure Session.Ready (s : Session κ) : Prop where
  creator : s.owner = true → (s.keyCreator.isSome = true ↔ s.myKeyCreation ≠ .none)
  cdn : s.owner = true → s.realDcType = .cdn → s.myKeyCreation ≠ .none →
    s.myKeyCreation = .temporaryRegular

/-- The two are about the same data center and the same creation. -/
structure DcSession.Same (v v' : DcSession κ) : Prop where
  dc : v'.dc = v.dc
  owner : v'.session.owner = v.session.owner
  myKeyCreation : v'.session.myKeyCreation = v.session.myKeyCreation
  keyCreator : v'.session.keyCreator.isSome = v.session.keyCreator.isSome
  realDcType : v'.session.realDcType = v.session.realDcType

structure DcSession.Sound (others : Fin 2 → Prop) (v : DcSession κ) : Prop where
  kept : v.Kept others
  ready : v.session.Ready

section Local

variable {others : Fin 2 → Prop} {v v' : DcSession κ}

theorem DcSession.Sound.transfer (h : v.Sound others) (same : v.Same v') : v'.Sound others := by
  obtain ⟨dc, owner, mine, creator, real⟩ := same
  refine ⟨⟨?_, ?_⟩, ⟨?_, ?_⟩⟩
  · rw [dc, mine]
    exact h.kept.slots
  · rw [dc]
    exact h.kept.noKey
  · rw [owner, mine, creator]
    exact h.ready.creator
  · rw [owner, mine, real]
    exact h.ready.cdn

/-- A slot that is given back is free and the session has none. -/
theorem Session.kept_releaseKeyCreationOnFail (h : v.Kept others)
    (result : Session.releaseKeyCreationOnFail v = some v') :
    v'.Kept others ∧ v'.session = { v.session with myKeyCreation := .none } := by
  unfold Session.releaseKeyCreationOnFail at result
  cases released : v.dc.releaseKeyCreationOnFail v.session.myKeyCreation with
  | none =>
      rw [released] at result
      cases result
  | some dc =>
      rw [released] at result
      cases result
      obtain ⟨index, mine, -, rfl⟩ := Dcenter.releaseKeyCreationOnFail_eq_some released
      have slots := h.slots
      rw [mine] at slots
      refine ⟨⟨slots.give (v.dc.setCreatingKey_false index), fun slot creating => ?_⟩, rfl⟩
      exact h.noKey slot ((v.dc.setCreatingKey_false index slot).mp creating).1

/-- The releases on success do the same, unless the persistent key has changed. -/
theorem Session.kept_releaseGenericKeyCreationOnDone [DecidableEq κ] {temporaryKey used : Option κ}
    {done : Bool} (h : v.Kept others)
    (unchanged : v.session.myKeyCreation ≠ .persistent → v.dc.persistentKey = used)
    (result : Session.releaseGenericKeyCreationOnDone v temporaryKey used = some (done, v')) :
    done = true ∧ v'.Kept others ∧ v'.session = { v.session with myKeyCreation := .none } := by
  unfold Session.releaseGenericKeyCreationOnDone at result
  cases released : v.dc.releaseKeyCreationOnDone v.session.myKeyCreation temporaryKey used with
  | none =>
      rw [released] at result
      cases result
  | some answer =>
      rw [released] at result
      cases result
      obtain ⟨index, mine, -, ⟨-, notPersistent, changed, -⟩ | ⟨isDone, -, flags, elsewhere⟩⟩ :=
        Dcenter.releaseKeyCreationOnDone_eq_some released
      · exact absurd (unchanged notPersistent) changed
      · have slots := h.slots
        rw [mine] at slots
        have lowered : ∀ slot, answer.2.creatingKeys slot = true ↔
            v.dc.creatingKeys slot = true ∧ slot ≠ index := by
          intro slot
          rw [flags]
          exact v.dc.setCreatingKey_false index slot
        refine ⟨isDone, ⟨slots.give lowered, fun slot creating => ?_⟩, rfl⟩
        obtain ⟨was, other⟩ := (lowered slot).mp creating
        exact (elsewhere slot other).trans (h.noKey slot was)

theorem SessionData.kept_releaseKeyCreationOnFail (h : v.Kept others)
    (result : SessionData.releaseKeyCreationOnFail v = some v') :
    v'.Kept others ∧ v'.session.keyCreator = v.session.keyCreator ∧
      (v'.session.owner = true → v'.session.myKeyCreation = .none) := by
  unfold SessionData.releaseKeyCreationOnFail at result
  split_ifs at result with owner
  · obtain ⟨kept, session⟩ := Session.kept_releaseKeyCreationOnFail h result
    rw [session]
    exact ⟨kept, rfl, fun _ => rfl⟩
  · cases result
    exact ⟨h, rfl, fun attached => absurd attached owner⟩

/-- A session without a creator that is not creating while it is attached. -/
theorem DcSession.Sound.idle (kept : v.Kept others) (noCreator : v.session.keyCreator = none)
    (free : v.session.owner = true → v.session.myKeyCreation = .none) : v.Sound others := by
  refine ⟨kept, ⟨fun owner => ?_, fun owner _ creating => absurd (free owner) creating⟩⟩
  rw [noCreator, free owner]
  simp

theorem DcSession.Sound.free (h : v.Sound others) (owner : v.session.owner = true)
    (noCreator : v.session.keyCreator = none) : v.session.myKeyCreation = .none := by
  by_contra creating
  have creator := (h.ready.creator owner).mpr creating
  rw [noCreator] at creator
  cases creator

theorem SessionPrivate.sound_releaseKeyCreationOnFail (h : v.Kept others)
    (free : v.session.owner = true → v.session.keyCreator = none → v.session.myKeyCreation = .none)
    (result : SessionPrivate.releaseKeyCreationOnFail v = some v') :
    v'.Sound others ∧ v'.session.keyCreator = none := by
  unfold SessionPrivate.releaseKeyCreationOnFail at result
  cases creator : v.session.keyCreator with
  | none =>
      rw [creator] at result
      cases result
      exact ⟨.idle h creator fun owner => free owner creator, creator⟩
  | some bound =>
      rw [creator] at result
      obtain ⟨kept, dropped, free⟩ := SessionData.kept_releaseKeyCreationOnFail
        (v := { v with session := { v.session with keyCreator := none } })
        ⟨h.slots, h.noKey⟩ result
      exact ⟨.idle kept dropped free, dropped⟩

/-- Acquiring takes a free slot for an attached session, or nothing. -/
theorem SessionData.kept_acquireKeyCreation {type : DcType} {acquired : CreatingKeyType}
    (h : v.Kept others) (result : SessionData.acquireKeyCreation v type = some (acquired, v')) :
    v'.Kept others ∧
      ((acquired = .none ∧ v.Same v') ∨
        (acquired ≠ .none ∧ (type = .cdn → acquired = .temporaryRegular) ∧
          v'.session = { v.session with myKeyCreation := acquired })) := by
  unfold SessionData.acquireKeyCreation Session.acquireKeyCreation at result
  split_ifs at result with owner idle
  · rcases v.dc.acquireKeyCreation_cases type with
      same | ⟨creating, index, position, free, noKey, cdn, taken⟩
    · rw [same] at result
      cases result
      have mine : CreatingKeyType.none = v.session.myKeyCreation := idle.symm
      have slots := h.slots
      rw [← mine] at slots
      exact ⟨⟨slots, h.noKey⟩, .inl ⟨rfl, ⟨rfl, rfl, mine, rfl, rfl⟩⟩⟩
    · have some : creating ≠ .none := by
        rintro rfl
        cases position
      rw [taken] at result
      cases result
      have slots := h.slots
      rw [idle] at slots
      refine ⟨⟨?_, ?_⟩, .inr ⟨some, cdn, rfl⟩⟩
      · rw [position]
        exact slots.take (by simp [free]) (v.dc.setCreatingKey_true index)
      · intro slot raised
        rcases (v.dc.setCreatingKey_true index slot).mp raised with was | rfl
        · exact h.noKey slot was
        · exact noKey
  · cases result
    exact ⟨h, .inl ⟨rfl, ⟨rfl, rfl, rfl, rfl, rfl⟩⟩⟩

theorem SessionPrivate.sound_tryAcquireKeyCreation {type : DcType} (h : v.Sound others)
    (result : SessionPrivate.tryAcquireKeyCreation v = some (type, v')) : v'.Sound others := by
  unfold SessionPrivate.tryAcquireKeyCreation at result
  cases creator : v.session.keyCreator with
  | some bound =>
      rw [creator] at result
      cases result
      exact h
  | none =>
      rw [creator] at result
      cases acquire : SessionData.acquireKeyCreation v v.session.realDcType with
      | none =>
          rw [acquire] at result
          cases result
      | some answer =>
          obtain ⟨acquired, next⟩ := answer
          rw [acquire] at result
          obtain ⟨kept, ⟨rfl, same⟩ | ⟨some, cdn, session⟩⟩ :=
            SessionData.kept_acquireKeyCreation h.kept acquire
          · cases result
            exact h.transfer same
          · simp only [if_neg some] at result
            cases result
            refine ⟨⟨kept.slots, kept.noKey⟩, ⟨?_, ?_⟩⟩
            · rw [session]
              exact fun _ => ⟨fun _ => some, fun _ => rfl⟩
            · rw [session]
              exact fun _ isCdn _ => cdn isCdn

/-- While there is a creator, a new encryption key changes nothing else. -/
theorem SessionPrivate.same_applyAuthKey {keyIdOf : κ → Nat} {connection : Bool} {key : Option κ}
    (creator : v.session.keyCreator.isSome = true)
    (result : SessionPrivate.applyAuthKey keyIdOf connection v key = some v') : v.Same v' := by
  simp only [SessionPrivate.applyAuthKey] at result
  split_ifs at result
  · cases result
    exact ⟨rfl, rfl, rfl, rfl, rfl⟩
  · cases result
    exact ⟨rfl, rfl, rfl, rfl, rfl⟩
  · cases result
    exact ⟨rfl, rfl, rfl, rfl, rfl⟩
  · cases result
    exact ⟨rfl, rfl, rfl, rfl, rfl⟩
  · obtain ⟨bound, isBound⟩ := Option.isSome_iff_exists.mp creator
    simp only [SessionPrivate.tryAcquireKeyCreation, isBound, Option.map_some] at result
    cases result
    exact ⟨rfl, rfl, rfl, by simp [isBound], rfl⟩
  · cases result
    exact ⟨rfl, rfl, rfl, rfl, rfl⟩

theorem SessionPrivate.sound_applyAuthKey {keyIdOf : κ → Nat} {connection : Bool} {key : Option κ}
    (h : v.Sound others)
    (result : SessionPrivate.applyAuthKey keyIdOf connection v key = some v') : v'.Sound others := by
  simp only [SessionPrivate.applyAuthKey] at result
  split_ifs at result
  · cases result
    exact h.transfer ⟨rfl, rfl, rfl, rfl, rfl⟩
  · cases result
    exact h.transfer ⟨rfl, rfl, rfl, rfl, rfl⟩
  · cases result
    exact h.transfer ⟨rfl, rfl, rfl, rfl, rfl⟩
  · cases result
    exact h.transfer ⟨rfl, rfl, rfl, rfl, rfl⟩
  · obtain ⟨⟨type, next⟩, acquired, rfl⟩ := Option.map_eq_some_iff.mp result
    refine sound_tryAcquireKeyCreation ?_ acquired
    exact h.transfer ⟨rfl, rfl, rfl, rfl, rfl⟩
  · cases result
    exact h.transfer ⟨rfl, rfl, rfl, rfl, rfl⟩

theorem SessionPrivate.sound_destroyTemporaryKey {keyIdOf : κ → Nat} {connection : Bool}
    (h : v.Kept others)
    (free : v.session.owner = true → v.session.keyCreator = none → v.session.myKeyCreation = .none)
    (result : SessionPrivate.destroyTemporaryKey keyIdOf connection v = some v') :
    v'.Sound others := by
  unfold SessionPrivate.destroyTemporaryKey at result
  cases release : SessionPrivate.releaseKeyCreationOnFail v with
  | none =>
      rw [release] at result
      cases result
  | some released =>
      rw [release] at result
      obtain ⟨sound, -⟩ := sound_releaseKeyCreationOnFail h free release
      refine sound_applyAuthKey ?_ result
      cases released.session.encryptionKey with
      | none => exact sound
      | some key =>
          simp only [SessionData.destroyTemporaryKey]
          split_ifs
          · obtain ⟨flags, keys⟩ := released.dc.destroyTemporaryKey_spec keyIdOf (keyIdOf key)
            refine ⟨⟨?_, fun slot creating => ?_⟩, sound.ready⟩
            · rw [flags]
              exact sound.kept.slots
            · rw [flags] at creating
              exact keys slot (sound.kept.noKey slot creating)
          · exact sound

theorem SessionPrivate.sound_connectToServer {keyIdOf : κ → Nat} {now : DcType} (h : v.Sound others)
    (result : SessionPrivate.connectToServer keyIdOf now v = some v') : v'.Sound others := by
  simp only [SessionPrivate.connectToServer] at result
  split_ifs at result with changed
  · refine sound_destroyTemporaryKey ?_ ?_ result
    · exact ⟨h.kept.slots, h.kept.noKey⟩
    · exact h.free
  · -- an unchanged type, or a session that is not creating
    have sound : DcSession.Sound others { v with session := { v.session with realDcType := now } } := by
      by_cases same : v.session.realDcType = now
      · exact h.transfer ⟨rfl, rfl, rfl, rfl, same.symm⟩
      · have noCreator : v.session.keyCreator = none :=
          Option.not_isSome_iff_eq_none.mp fun some => changed ⟨same, some⟩
        exact .idle ⟨h.kept.slots, h.kept.noKey⟩ noCreator fun owner => h.free owner noCreator
    cases acquire : SessionPrivate.tryAcquireKeyCreation
        { v with session := { v.session with realDcType := now } } with
    | none =>
        rw [acquire] at result
        cases result
    | some answer =>
        rw [acquire] at result
        cases result
        exact (sound_tryAcquireKeyCreation sound acquire).transfer ⟨rfl, rfl, rfl, rfl, rfl⟩

section Release

variable [DecidableEq κ]

/-- After a successful creation a session is idle, unless the persistent key has changed. -/
theorem Session.sound_releaseGenericKeyCreationOnDone {temporaryKey used : Option κ} {done : Bool}
    (h : v.Kept others) (noCreator : v.session.keyCreator = none)
    (unchanged : v.session.myKeyCreation ≠ .persistent → v.dc.persistentKey = used)
    (result : Session.releaseGenericKeyCreationOnDone v temporaryKey used = some (done, v')) :
    v'.Sound others := by
  obtain ⟨-, kept, session⟩ := Session.kept_releaseGenericKeyCreationOnDone h unchanged result
  refine .idle kept ?_ fun _ => ?_
  · rw [session]
    exact noCreator
  · rw [session]

theorem SessionData.sound_releaseKeyCreationOnDone {temporaryKey used : Option κ} {done : Bool}
    (h : v.Kept others) (noCreator : v.session.keyCreator = none)
    (unchanged : v.session.owner = true → v.session.myKeyCreation ≠ .persistent →
      v.dc.persistentKey = used)
    (result : SessionData.releaseKeyCreationOnDone v temporaryKey used = some (done, v')) :
    v'.Sound others := by
  unfold SessionData.releaseKeyCreationOnDone Session.releaseKeyCreationOnDone at result
  split_ifs at result with owner expected
  · exact Session.sound_releaseGenericKeyCreationOnDone h noCreator (unchanged owner) result
  · cases result
    exact .idle h noCreator fun attached => absurd attached owner

theorem SessionData.sound_releaseCdnKeyCreationOnDone {temporaryKey : Option κ} {done : Bool}
    (h : v.Kept others) (noCreator : v.session.keyCreator = none)
    (unchanged : v.session.owner = true → v.dc.persistentKey = none)
    (result : SessionData.releaseCdnKeyCreationOnDone v temporaryKey = some (done, v')) :
    v'.Sound others := by
  unfold SessionData.releaseCdnKeyCreationOnDone Session.releaseCdnKeyCreationOnDone at result
  split_ifs at result with owner expected
  · exact Session.sound_releaseGenericKeyCreationOnDone h noCreator (fun _ => unchanged owner) result
  · cases result
    exact .idle h noCreator fun attached => absurd attached owner

theorem SessionPrivate.sound_unboundReady {keyIdOf : κ → Nat} {connection : Bool}
    {answer : Option (DcKeyResult κ)} (h : v.Sound others)
    (unchanged : answer.isSome = true → v.session.keyCreator = some ⟨none⟩ →
      v.session.owner = true → v.session.realDcType = .cdn → v.dc.persistentKey = none)
    (result : SessionPrivate.unboundReady keyIdOf connection v answer = some v') :
    v'.Sound others := by
  unfold SessionPrivate.unboundReady at result
  split at result
  · cases result
    exact h
  · cases result
    exact h
  · exact (sound_releaseKeyCreationOnFail h.kept h.free result).1
  · rename_i answer creator
    split_ifs at result with regular
    · split at result
      · exact (sound_releaseKeyCreationOnFail h.kept h.free result).1
      · refine sound_applyAuthKey ?_ result
        exact h.transfer ⟨rfl, rfl, rfl, by rw [creator]; rfl, rfl⟩
    · cases apply : SessionPrivate.applyAuthKey keyIdOf connection v (some answer.temporaryKey) with
      | none =>
          rw [apply] at result
          cases result
      | some applied =>
          rw [apply] at result
          have same := same_applyAuthKey (by rw [creator]; rfl) apply
          have sound := h.transfer same
          obtain ⟨⟨done, next⟩, release, rfl⟩ := Option.map_eq_some_iff.mp result
          refine SessionData.sound_releaseCdnKeyCreationOnDone ?_ rfl ?_ release
          · exact ⟨sound.kept.slots, sound.kept.noKey⟩
          · intro owner
            rw [same.dc]
            exact unchanged rfl creator (same.owner ▸ owner) (not_not.mp regular)

theorem SessionPrivate.sound_handleBindResponse {keyIdOf : κ → Nat} {connection : Bool}
    {state : DcKeyBindState} {oldEnough : Bool} (h : v.Sound others)
    (unchanged : state = .success → ∀ key, v.session.keyCreator = some ⟨some key⟩ →
      v.session.owner = true → v.session.myKeyCreation ≠ .persistent →
      v.dc.persistentKey = some key)
    (result : SessionPrivate.handleBindResponse keyIdOf connection v state oldEnough = some v') :
    v'.Sound others := by
  unfold SessionPrivate.handleBindResponse at result
  split at result
  · cases result
    exact h
  · cases result
    exact h
  · rename_i key creator
    cases state with
    | success =>
        cases release : SessionData.releaseKeyCreationOnDone
            { v with session := { v.session with keyCreator := none } } v.session.encryptionKey
            (some key) with
        | none =>
            simp only [release] at result
            cases result
        | some answer =>
            obtain ⟨done, next⟩ := answer
            have sound : next.Sound others := by
              refine SessionData.sound_releaseKeyCreationOnDone ?_ rfl ?_ release
              · exact ⟨h.kept.slots, h.kept.noKey⟩
              · exact fun owner notPersistent => unchanged rfl key creator owner notPersistent
            simp only [release] at result
            cases done with
            | true =>
                cases result
                exact sound
            | false => exact sound_destroyTemporaryKey sound.kept sound.free result
    | definitelyDestroyed =>
        simp only at result
        split_ifs at result
        · exact sound_destroyTemporaryKey h.kept h.free result
        · cases result
          exact h
    | failed =>
        cases result
        exact h

/-- A creation other than of the persistent key is completed with the persistent key
    it was bound with. A CDN has none. -/
def DcSession.KeyUnchanged (v : DcSession κ) : SessionStep κ → Prop
  | .unboundReady _ (some _) =>
      v.session.keyCreator = some ⟨none⟩ → v.session.owner = true →
        v.session.realDcType = .cdn → v.dc.persistentKey = none
  | .handleBindResponse _ .success _ =>
      ∀ key, v.session.keyCreator = some ⟨some key⟩ → v.session.owner = true →
        v.session.myKeyCreation ≠ .persistent → v.dc.persistentKey = some key
  | _ => True

theorem DcSession.sound_step {keyIdOf : κ → Nat} {step : SessionStep κ} (h : v.Sound others)
    (unchanged : v.KeyUnchanged step) (result : v.step keyIdOf step = some v') : v'.Sound others := by
  cases step with
  | connectToServer now => exact SessionPrivate.sound_connectToServer h result
  | unboundReady connection answer =>
      refine SessionPrivate.sound_unboundReady h (fun some => ?_) result
      obtain ⟨answer, rfl⟩ := Option.isSome_iff_exists.mp some
      exact unchanged
  | handleBindResponse connection state oldEnough =>
      refine SessionPrivate.sound_handleBindResponse h (fun success => ?_) result
      subst success
      exact unchanged
  | checkAuthKey connection =>
      simp only [DcSession.step, SessionPrivate.checkAuthKey] at result
      split_ifs at result
      · cases result
        exact h
      · exact SessionPrivate.sound_applyAuthKey h result
  | updateAuthKey connection =>
      simp only [DcSession.step, SessionPrivate.updateAuthKey] at result
      split_ifs at result
      · cases result
        exact h
      · exact SessionPrivate.sound_applyAuthKey h result
  | destroyTemporaryKey connection => exact SessionPrivate.sound_destroyTemporaryKey h.kept h.free result
  | restartPrivate now =>
      obtain ⟨released, release, rfl⟩ := Option.map_eq_some_iff.mp result
      obtain ⟨sound, noCreator⟩ := SessionPrivate.sound_releaseKeyCreationOnFail h.kept h.free release
      exact .idle ⟨sound.kept.slots, sound.kept.noKey⟩ noCreator fun owner => sound.free owner noCreator
  | kill =>
      cases result
      refine ⟨⟨h.kept.slots, h.kept.noKey⟩, ⟨?_, ?_⟩⟩
      · intro owner
        cases owner
      · intro owner
        cases owner
  | destroySession =>
      simp only [DcSession.step] at result
      split_ifs at result with alive
      · cases result
        exact h
      · have detached : v.session.owner = false := by
          cases owner : v.session.owner with
          | false => rfl
          | true => exact absurd (by simp [owner]) alive
        obtain ⟨kept, session⟩ := Session.kept_releaseKeyCreationOnFail h.kept result
        refine ⟨kept, ⟨?_, ?_⟩⟩
        · intro owner
          rw [session, detached] at owner
          cases owner
        · intro owner
          rw [session, detached] at owner
          cases owner

end Release

end Local

/-! ## All sessions together -/

namespace DcWorld

variable [DecidableEq ι] [DecidableEq κ] {keyIdOf : κ → Nat}

/-- The slot a session is creating a key for. -/
def slotOf (w : DcWorld ι κ) (i : ι) : Option (Fin 2) := (w.sessions i).myKeyCreation.indexByType

structure Sound (w : DcWorld ι κ) : Prop where
  slots : Exclusive (fun slot => w.dc.creatingKeys slot = true) w.slotOf
  noKey : ∀ slot, w.dc.creatingKeys slot = true → w.dc.temporaryKeys slot = none
  ready : ∀ i, (w.sessions i).Ready

def KeyUnchanged (w : DcWorld ι κ) : DcStep ι κ → Prop
  | .session i step => (w.view i).KeyUnchanged step
  | .destroyConfirmedForgottenKey _ => True

omit [DecidableEq ι] [DecidableEq κ] in
theorem sound_initial (types : ι → DcType) (persistentKey : Option κ) :
    (initial types persistentKey).Sound := by
  refine ⟨⟨?_, ?_⟩, ?_, ?_⟩
  · intro slot
    simp [initial, slotOf, CreatingKeyType.indexByType]
  · intro slot i j mine
    simp [initial, slotOf, CreatingKeyType.indexByType] at mine
  · intro slot creating
    rfl
  · intro i
    constructor <;> simp [initial]

theorem sound_step {w w' : DcWorld ι κ} {a : DcStep ι κ} (h : w.Sound) (unchanged : w.KeyUnchanged a)
    (next : w.step keyIdOf a = some w') : w'.Sound := by
  cases a with
  | session i step =>
      have before : (w.view i).Sound (Exclusive.others w.slotOf i) :=
        ⟨⟨h.slots.toLocal i, h.noKey⟩, h.ready i⟩
      cases result : (w.view i).step keyIdOf step with
      | none =>
          simp only [DcWorld.step, result] at next
          cases next
      | some v =>
          simp only [DcWorld.step, result] at next
          cases next
          have after := DcSession.sound_step before unchanged result
          refine ⟨?_, after.kept.noKey, ?_⟩
          · have table := h.slots.update after.kept.slots
            have same : Function.update w.slotOf i v.session.myKeyCreation.indexByType =
                slotOf ⟨v.dc, Function.update w.sessions i v.session⟩ := by
              funext j
              by_cases here : j = i
              · subst here
                simp [slotOf]
              · simp [slotOf, here]
            rw [← same]
            exact table
          · intro j
            by_cases here : j = i
            · subst here
              simpa using after.ready
            · simpa [here] using h.ready j
  | destroyConfirmedForgottenKey keyId =>
      cases next
      obtain ⟨flags, keys⟩ := w.dc.destroyConfirmedForgottenKey_spec keyIdOf keyId
      refine ⟨?_, ?_, h.ready⟩
      · simp only [flags]
        exact h.slots
      · intro slot creating
        simp only [flags] at creating
        exact keys slot (h.noKey slot creating)

theorem Reaches.sound {w : DcWorld ι κ} (reach : Reaches keyIdOf KeyUnchanged w) : w.Sound := by
  induction reach with
  | initial types persistentKey => exact sound_initial types persistentKey
  | step a _ unchanged next ih => exact sound_step ih unchanged next

/-- As long as creations are completed with an unchanged persistent key, a slot is
    flagged when exactly one session is creating a key for it, and so an idle data
    center never refuses to create a missing key. -/
theorem creatingKeys_iff_existsUnique {w : DcWorld ι κ} (reach : Reaches keyIdOf KeyUnchanged w) :
    (∀ slot, w.dc.creatingKeys slot = true ↔
      ∃! i, (w.sessions i).myKeyCreation.indexByType = some slot) ∧
    ((∀ i, (w.sessions i).myKeyCreation = .none) →
      ∀ i type, w.dc.getTemporaryKey (temporaryKeyTypeByDcType type) = none →
        ∃ acquired v, Session.acquireKeyCreation (w.view i) type = some (acquired, v) ∧
          acquired ≠ .none) := by
  have sound := reach.sound
  refine ⟨sound.slots.flag_iff_existsUnique, fun idle i type noKey => ?_⟩
  have free : ∀ slot, w.dc.creatingKeys slot = false := by
    intro slot
    refine Bool.eq_false_iff.mpr fun creating => ?_
    obtain ⟨j, mine⟩ := (sound.slots.flagged slot).mp creating
    rw [slotOf, idle j] at mine
    cases mine
  have mine : (w.view i).session.myKeyCreation = .none := idle i
  exact ⟨_, _, if_pos mine, Dcenter.acquireKeyCreation_succeeds free noKey⟩

/-- Of two sessions, the one that connects first creates the regular key. -/
theorem creatingKeys_iff_existsUnique_first :
    ∃ w : DcWorld Bool Nat, w.dc.creatingKeys 0 = true ∧
      ∃! i, (w.sessions i).myKeyCreation.indexByType = some 0 := by
  have start : Reaches id KeyUnchanged (initial (fun _ : Bool => .regular) (some 1)) := .initial _ _
  have first := start.step (.session true (.connectToServer .regular)) trivial rfl
  have second := first.step (.session false (.connectToServer .regular)) trivial rfl
  exact ⟨_, rfl, ((creatingKeys_iff_existsUnique second).1 0).mp rfl⟩

/-- The persistent key is destroyed while a temporary key is being bound with it: the
    bind succeeds, no session is creating a key any more, and the flag stays. -/
theorem changed_key_leaks_slot :
    ¬ ∀ w : DcWorld Bool Nat, Reaches id (fun _ _ => True) w →
      (∀ slot, w.dc.creatingKeys slot = true ↔
        ∃! i, (w.sessions i).myKeyCreation.indexByType = some slot) ∧
      ((∀ i, (w.sessions i).myKeyCreation = .none) →
        ∀ i type, w.dc.getTemporaryKey (temporaryKeyTypeByDcType type) = none →
          ∃ acquired v, Session.acquireKeyCreation (w.view i) type = some (acquired, v) ∧
            acquired ≠ .none) := by
  intro claim
  have start : Reaches id (fun _ _ => True) (initial (fun _ : Bool => .regular) (some 1)) :=
    .initial _ _
  have acquired := start.step (.session true (.connectToServer .regular)) trivial rfl
  have bound := acquired.step (.session true (.unboundReady true (some ⟨none, 2⟩))) trivial rfl
  have destroyed := bound.step (.destroyConfirmedForgottenKey 1) trivial rfl
  have completed := destroyed.step (.session true (.handleBindResponse true .success false)) trivial rfl
  obtain ⟨i, mine, -⟩ := ((claim _ completed).1 0).mp rfl
  cases i <;> cases mine

end DcWorld

end IMeDesktop.Mtproto
