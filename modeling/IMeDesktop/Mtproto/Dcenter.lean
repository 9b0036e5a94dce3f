import Mathlib.Logic.Function.Basic
import Mathlib.Tactic.SplitIfs

/-! # The keys of one data center

`Dcenter` is shared by all sessions to one data center. It holds two temporary
keys, one for regular and one for media traffic, the persistent key they are bound
with, and for each temporary key a flag that some session is creating it. Keys are
compared as pointers; `keyId` is the id that the server uses.

A failed `Expects` is `none`. The mutex is not modelled: each call is one step.
-/

namespace IMeDesktop.Mtproto

inductive DcType where
  | regular
  | temporary
  | mediaCluster
  | cdn
  deriving DecidableEq, Repr

inductive TemporaryKeyType where
  | regular
  | mediaCluster
  deriving DecidableEq, Repr

inductive CreatingKeyType where
  | none
  | persistent
  | temporaryRegular
  | temporaryMediaCluster
  deriving DecidableEq, Repr

inductive DcKeyBindState where
  | success
  | failed
  | definitelyDestroyed
  deriving DecidableEq, Repr

def TemporaryKeyType.indexByType : TemporaryKeyType → Fin 2
  | .regular => 0
  | .mediaCluster => 1

/-- No index for `none`: the source calls `Unexpected` there. -/
def CreatingKeyType.indexByType : CreatingKeyType → Option (Fin 2)
  | .none => Option.none
  | .persistent => some 0
  | .temporaryRegular => some 0
  | .temporaryMediaCluster => some 1

def temporaryKeyTypeByDcType (type : DcType) : TemporaryKeyType :=
  if type = .mediaCluster then .mediaCluster else .regular

structure Dcenter (κ : Type) where
  temporaryKeys : Fin 2 → Option κ := fun _ => none
  persistentKey : Option κ := none
  connectionInited : Bool := false
  creatingKeys : Fin 2 → Bool := fun _ => false

namespace Dcenter

variable {κ : Type}

def getTemporaryKey (dc : Dcenter κ) (type : TemporaryKeyType) : Option κ :=
  dc.temporaryKeys type.indexByType

def getPersistentKey (dc : Dcenter κ) : Option κ := dc.persistentKey

def setCreatingKey (dc : Dcenter κ) (index : Fin 2) (creating : Bool) : Dcenter κ :=
  { dc with creatingKeys := Function.update dc.creatingKeys index creating }

/-- Forgets the first temporary key with that id. -/
def destroyTemporaryKey (keyIdOf : κ → Nat) (dc : Dcenter κ) (keyId : Nat) : Bool × Dcenter κ :=
  if (dc.temporaryKeys 0).map keyIdOf = some keyId then
    (true, { dc with temporaryKeys := Function.update dc.temporaryKeys 0 none, connectionInited := false })
  else if (dc.temporaryKeys 1).map keyIdOf = some keyId then
    (true, { dc with temporaryKeys := Function.update dc.temporaryKeys 1 none, connectionInited := false })
  else (false, dc)

def destroyConfirmedForgottenKey (keyIdOf : κ → Nat) (dc : Dcenter κ) (keyId : Nat) :
    Bool × Dcenter κ :=
  if dc.persistentKey.map keyIdOf = some keyId then
    (true, { dc with
      temporaryKeys := fun _ => none, persistentKey := none, connectionInited := false })
  else (false, dc)

def acquireKeyCreation (dc : Dcenter κ) (type : DcType) : CreatingKeyType × Dcenter κ :=
  let keyType := temporaryKeyTypeByDcType type
  let index := keyType.indexByType
  let regular := TemporaryKeyType.regular.indexByType
  if (dc.temporaryKeys index).isSome then (.none, dc)
  else if keyType = .mediaCluster ∧ (dc.temporaryKeys regular).isSome then
    if dc.creatingKeys index then (.none, dc)
    else (.temporaryMediaCluster, dc.setCreatingKey index true)
  else if dc.creatingKeys regular then (.none, dc)
  else
    (if type ≠ .cdn ∧ dc.persistentKey = none then .persistent else .temporaryRegular,
      dc.setCreatingKey regular true)

variable [DecidableEq κ]

/-- `false` when the persistent key is not the one used for the bind; the flag is
    not touched then. -/
def releaseKeyCreationOnDone (dc : Dcenter κ) (type : CreatingKeyType)
    (temporaryKey persistentKeyUsedForBind : Option κ) : Option (Bool × Dcenter κ) :=
  match type.indexByType with
  | none => none
  | some index =>
      if dc.creatingKeys index = true ∧ dc.temporaryKeys index = none ∧ temporaryKey ≠ none then
        let done (dc : Dcenter κ) : Dcenter κ :=
          { dc.setCreatingKey index false with
            temporaryKeys := Function.update dc.temporaryKeys index temporaryKey
            connectionInited := false }
        if type = .persistent then
          some (true, done { dc with persistentKey := persistentKeyUsedForBind })
        else if dc.persistentKey ≠ persistentKeyUsedForBind then some (false, dc)
        else some (true, done dc)
      else none

omit [DecidableEq κ] in
def releaseKeyCreationOnFail (dc : Dcenter κ) (type : CreatingKeyType) : Option (Dcenter κ) :=
  match type.indexByType with
  | none => none
  | some index =>
      if dc.creatingKeys index = true ∧ dc.temporaryKeys index = none then
        some (dc.setCreatingKey index false)
      else none

/-! ## What the calls can do -/

omit [DecidableEq κ]

@[simp]
theorem setCreatingKey_temporaryKeys (dc : Dcenter κ) (index : Fin 2) (creating : Bool) :
    (dc.setCreatingKey index creating).temporaryKeys = dc.temporaryKeys := rfl

theorem setCreatingKey_true (dc : Dcenter κ) (index slot : Fin 2) :
    (dc.setCreatingKey index true).creatingKeys slot = true ↔
      dc.creatingKeys slot = true ∨ slot = index := by
  by_cases same : slot = index
  · simp [setCreatingKey, same]
  · simp [setCreatingKey, same]

theorem setCreatingKey_false (dc : Dcenter κ) (index slot : Fin 2) :
    (dc.setCreatingKey index false).creatingKeys slot = true ↔
      dc.creatingKeys slot = true ∧ slot ≠ index := by
  by_cases same : slot = index
  · simp [setCreatingKey, same]
  · simp [setCreatingKey, same]

/-- Past the first tests of `acquireKeyCreation` there is no regular key. -/
theorem regular_key_missing {dc : Dcenter κ} {keyType : TemporaryKeyType}
    (noKey : ¬ (dc.temporaryKeys keyType.indexByType).isSome = true)
    (notMedia : ¬ (keyType = .mediaCluster ∧
      (dc.temporaryKeys TemporaryKeyType.regular.indexByType).isSome = true)) :
    dc.temporaryKeys TemporaryKeyType.regular.indexByType = none := by
  cases keyType with
  | regular => exact Option.not_isSome_iff_eq_none.mp noKey
  | mediaCluster => exact Option.not_isSome_iff_eq_none.mp fun some => notMedia ⟨rfl, some⟩

/-- Either nothing changes or a free slot without a key is taken. -/
theorem acquireKeyCreation_cases (dc : Dcenter κ) (type : DcType) :
    dc.acquireKeyCreation type = (.none, dc) ∨
    ∃ creating index, CreatingKeyType.indexByType creating = some index ∧
      dc.creatingKeys index = false ∧ dc.temporaryKeys index = none ∧
      (type = .cdn → creating = .temporaryRegular) ∧
      dc.acquireKeyCreation type = (creating, dc.setCreatingKey index true) := by
  rw [acquireKeyCreation]
  by_cases hasKey : (dc.temporaryKeys (temporaryKeyTypeByDcType type).indexByType).isSome = true
  · exact .inl (if_pos hasKey)
  · rw [if_neg hasKey]
    by_cases media : temporaryKeyTypeByDcType type = .mediaCluster ∧
        (dc.temporaryKeys TemporaryKeyType.regular.indexByType).isSome = true
    · rw [if_pos media]
      cases busy : dc.creatingKeys (temporaryKeyTypeByDcType type).indexByType with
      | true => exact .inl rfl
      | false =>
          refine .inr ⟨_, _, ?_, busy, Option.not_isSome_iff_eq_none.mp hasKey, ?_, rfl⟩
          · rw [media.1]
            rfl
          · rintro rfl
            exact absurd media.1 (by decide)
    · rw [if_neg media]
      cases busy : dc.creatingKeys TemporaryKeyType.regular.indexByType with
      | true => exact .inl rfl
      | false =>
          refine .inr ⟨_, _, ?_, busy, regular_key_missing hasKey media, ?_, rfl⟩
          · split_ifs <;> rfl
          · rintro rfl
            rfl

/-- With no creation under way, a slot without a key can be acquired. -/
theorem acquireKeyCreation_succeeds {dc : Dcenter κ} (idle : ∀ slot, dc.creatingKeys slot = false)
    {type : DcType} (noKey : dc.getTemporaryKey (temporaryKeyTypeByDcType type) = none) :
    (dc.acquireKeyCreation type).1 ≠ .none := by
  have missing : ¬ (dc.temporaryKeys (temporaryKeyTypeByDcType type).indexByType).isSome = true :=
    Option.not_isSome_iff_eq_none.mpr noKey
  rw [acquireKeyCreation]
  simp only [if_neg missing, idle, Bool.false_eq_true, if_false]
  split_ifs <;> simp

theorem releaseKeyCreationOnFail_eq_some {dc dc' : Dcenter κ} {type : CreatingKeyType}
    (result : dc.releaseKeyCreationOnFail type = some dc') :
    ∃ index, type.indexByType = some index ∧ dc.temporaryKeys index = none ∧
      dc' = dc.setCreatingKey index false := by
  unfold releaseKeyCreationOnFail at result
  cases found : type.indexByType with
  | none => rw [found] at result; cases result
  | some index =>
      simp only [found] at result
      split_ifs at result with expected
      exact ⟨index, rfl, expected.2, (Option.some.inj result).symm⟩

/-- A release on success clears the flag, unless the persistent key has changed. -/
theorem releaseKeyCreationOnDone_eq_some [DecidableEq κ] {dc dc' : Dcenter κ} {type : CreatingKeyType}
    {temporaryKey used : Option κ} {done : Bool}
    (result : dc.releaseKeyCreationOnDone type temporaryKey used = some (done, dc')) :
    ∃ index, type.indexByType = some index ∧ dc.temporaryKeys index = none ∧
      ((done = false ∧ type ≠ .persistent ∧ dc.persistentKey ≠ used ∧ dc' = dc) ∨
        (done = true ∧ (type = .persistent ∨ dc.persistentKey = used) ∧
          dc'.creatingKeys = (dc.setCreatingKey index false).creatingKeys ∧
          ∀ slot, slot ≠ index → dc'.temporaryKeys slot = dc.temporaryKeys slot)) := by
  unfold releaseKeyCreationOnDone at result
  cases found : type.indexByType with
  | none => rw [found] at result; cases result
  | some index =>
      simp only [found] at result
      split_ifs at result with expected isPersistent changed
      · obtain ⟨rfl, rfl⟩ := Prod.mk.inj (Option.some.inj result)
        refine ⟨index, rfl, expected.2.1, .inr ⟨rfl, .inl isPersistent, rfl, fun slot other => ?_⟩⟩
        exact Function.update_of_ne other _ _
      · obtain ⟨rfl, rfl⟩ := Prod.mk.inj (Option.some.inj result)
        exact ⟨index, rfl, expected.2.1, .inl ⟨rfl, isPersistent, changed, rfl⟩⟩
      · obtain ⟨rfl, rfl⟩ := Prod.mk.inj (Option.some.inj result)
        refine ⟨index, rfl, expected.2.1,
          .inr ⟨rfl, .inr (not_not.mp changed), rfl, fun slot other => ?_⟩⟩
        exact Function.update_of_ne other _ _

/-- Destroying keys touches no flag and puts no key anywhere. -/
theorem destroyTemporaryKey_spec (keyIdOf : κ → Nat) (dc : Dcenter κ) (keyId : Nat) :
    (dc.destroyTemporaryKey keyIdOf keyId).2.creatingKeys = dc.creatingKeys ∧
      ∀ slot, dc.temporaryKeys slot = none →
        (dc.destroyTemporaryKey keyIdOf keyId).2.temporaryKeys slot = none := by
  unfold destroyTemporaryKey
  split_ifs with first second
  · exact ⟨rfl, fun slot noKey => by simp [Function.update_apply, noKey]⟩
  · exact ⟨rfl, fun slot noKey => by simp [Function.update_apply, noKey]⟩
  · exact ⟨rfl, fun slot noKey => noKey⟩

theorem destroyConfirmedForgottenKey_spec (keyIdOf : κ → Nat) (dc : Dcenter κ) (keyId : Nat) :
    (dc.destroyConfirmedForgottenKey keyIdOf keyId).2.creatingKeys = dc.creatingKeys ∧
      ∀ slot, dc.temporaryKeys slot = none →
        (dc.destroyConfirmedForgottenKey keyIdOf keyId).2.temporaryKeys slot = none := by
  unfold destroyConfirmedForgottenKey
  split_ifs with same
  · exact ⟨rfl, fun _ _ => rfl⟩
  · exact ⟨rfl, fun slot noKey => noKey⟩

end Dcenter

end IMeDesktop.Mtproto
