import IMeDesktop.Storage.SparseIdsSlices

/-! # Two lists as one

The media of a chat that was a group before: the ids of the old group, if there is one,
come in front of those of the chat. They are one list as long as nothing is missing
between them; else only the part around the key is shown.

Every accessor decides anew which parts there are. An old part that is not there is
dereferenced in some cases, and the part that is not shown is looked at in others.
-/

namespace IMeDesktop.Data

open Lib Storage

/-- What is not defined: an `optional` without a value is dereferenced, or an index is out of bounds. -/
inductive Undefined where
  | emptyOptional
  | outOfBounds
  deriving DecidableEq, Repr

def deref {α : Type} : Option α → Except Undefined α
  | some a => .ok a
  | none => .error .emptyOptional

/-- `AbstractSparseIds`, of ids in order and of others. -/
structure AbstractSparseIds (Ids : Type) where
  ids : Ids
  fullCount : Option Int := none
  skippedBefore : Option Int := none
  skippedAfter : Option Int := none

abbrev SparseIdsSlice := AbstractSparseIds (FlatSet Int)

abbrev SparseUnsortedIdsSlice := AbstractSparseIds (List Int)

/-- `ranges::find`. -/
def indexIn (ids : List Int) (id : Int) : Option Int := (ids.idxOf? id).map Int.ofNat

def idAt (ids : List Int) (index : Int) : Except Undefined Int :=
  match ids[index.toNat]? with
  | some id => if 0 ≤ index then .ok id else .error .outOfBounds
  | none => .error .outOfBounds

namespace SparseIdsSlice

def indexOf (s : SparseIdsSlice) (id : Int) : Option Int := indexIn s.ids.items id

def size (s : SparseIdsSlice) : Int := s.ids.size

def get (s : SparseIdsSlice) (index : Int) : Except Undefined Int := idAt s.ids.items index

def nearest (s : SparseIdsSlice) (id : Int) : Option Int :=
  match s.ids.items[s.ids.lowerBound id]? with
  | some found => some found
  | none => s.ids.items.getLast?

end SparseIdsSlice

abbrev PeerId := UInt64

structure FullMsgId where
  peer : PeerId
  msg : Int
  deriving DecidableEq, Repr

/-- `SparseIdsMergedSlice::Key`. Nothing here depends on `scheduled` once the peers are known. -/
structure MergedKey where
  peerId : PeerId
  migratedPeerId : PeerId
  universalId : Int
  deriving DecidableEq, Repr

structure SparseIdsMergedSlice where
  key : MergedKey
  part : SparseIdsSlice
  migrated : Option SparseIdsSlice
  unsorted : Option SparseUnsortedIdsSlice := none

/-- `Add`. -/
def addCounts (a b : Option Int) : Option Int :=
  match a, b with
  | some a, some b => some (a + b)
  | _, _ => none

def MergedKey.computeId (key : MergedKey) : FullMsgId :=
  if key.universalId ≥ 0 then ⟨key.peerId, key.universalId⟩ else ⟨key.migratedPeerId, ServerMaxMsgId + key.universalId⟩

namespace SparseIdsMergedSlice

variable (s : SparseIdsMergedSlice)

def isFromPart (id : FullMsgId) : Bool := s.key.peerId = id.peer

def isFromMigrated (id : FullMsgId) : Bool := s.migrated.isSome && s.key.migratedPeerId = id.peer

def isolatedInPart : Bool :=
  decide (IsServerMsgId s.key.universalId) && (s.migrated.isNone || decide (s.part.skippedBefore ≠ some 0))

def isolatedInMigrated : Except Undefined Bool :=
  if IsServerMsgId (ServerMaxMsgId + s.key.universalId) then do
    let migrated ← deref s.migrated
    return decide (migrated.skippedAfter ≠ some 0)
  else return false

def migratedSize : Except Undefined Int :=
  if s.isolatedInPart then return 0
  else do
    let migrated ← deref s.migrated
    return migrated.size

def fullCount : Option Int :=
  match s.unsorted with
  | some unsorted => unsorted.fullCount
  | none => addCounts s.part.fullCount (match s.migrated with | some migrated => migrated.fullCount | none => some 0)

def skippedBefore : Except Undefined (Option Int) :=
  match s.unsorted with
  | some unsorted => return unsorted.skippedBefore
  | none => do
    let isolated ← s.isolatedInMigrated
    return addCounts (if isolated then some 0 else s.part.skippedBefore)
      (match s.migrated with
      | some migrated => if s.isolatedInPart then migrated.fullCount else migrated.skippedBefore
      | none => some 0)

def skippedAfter : Except Undefined (Option Int) :=
  match s.unsorted with
  | some unsorted => return unsorted.skippedAfter
  | none => do
    let isolated ← s.isolatedInMigrated
    let first := if isolated then s.part.fullCount else s.part.skippedAfter
    if s.isolatedInPart then return addCounts first (some 0)
    else
      let migrated ← deref s.migrated
      return addCounts first migrated.skippedAfter

def indexOf (id : FullMsgId) : Except Undefined (Option Int) :=
  match s.unsorted with
  | some unsorted => return indexIn unsorted.ids id.msg
  | none =>
    if s.isFromPart id then do
      let size ← s.migratedSize
      return (s.part.indexOf id.msg).map (· + size)
    else if s.isolatedInPart then return none
    else if s.isFromMigrated id then do
      let migrated ← deref s.migrated
      return migrated.indexOf id.msg
    else return none

def size : Except Undefined Int :=
  match s.unsorted with
  | some unsorted => return unsorted.ids.length
  | none => do
    let first ← s.migratedSize
    let isolated ← s.isolatedInMigrated
    return first + if isolated then 0 else s.part.size

/-- `operator[]`. -/
def get (index : Int) : Except Undefined FullMsgId := do
  let size ← s.size
  if index < 0 ∨ size ≤ index then throw .outOfBounds
  else
    match s.unsorted with
    | some unsorted => return ⟨s.key.peerId, ← idAt unsorted.ids index⟩
    | none =>
      let first ← s.migratedSize
      if first ≠ 0 ∧ index < first then
        let migrated ← deref s.migrated
        return ⟨s.key.migratedPeerId, ← migrated.get index⟩
      else return ⟨s.key.peerId, ← s.part.get (index - first)⟩

def distance (a b : MergedKey) : Except Undefined (Option Int) := do
  match ← s.indexOf a.computeId with
  | none => return none
  | some i =>
    match ← s.indexOf b.computeId with
    | none => return none
    | some j => return some (j - i)

def nearest (id : Int) : Except Undefined (Option FullMsgId) :=
  match s.unsorted with
  | some unsorted =>
    if (indexIn unsorted.ids id).isSome then return some ⟨s.key.peerId, id⟩
    else return unsorted.ids[unsorted.ids.length / 2]?.map fun found => ⟨s.key.peerId, found⟩
  | none =>
    if IsServerMsgId id then
      match s.part.nearest id with
      | some found => return some ⟨s.key.peerId, found⟩
      | none =>
        if s.isolatedInPart then return none
        else do
          let migrated ← deref s.migrated
          return (migrated.nearest (ServerMaxMsgId - 1)).map fun found => ⟨s.key.migratedPeerId, found⟩
    else
      match s.migrated.bind fun migrated => migrated.nearest (id + ServerMaxMsgId) with
      | some found => return some ⟨s.key.migratedPeerId, found⟩
      | none => do
        if ← s.isolatedInMigrated then return none
        else return (s.part.nearest 0).map fun found => ⟨s.key.peerId, found⟩

end SparseIdsMergedSlice

/-- What `CreateViewer` puts together. -/
structure Viewed (s : SparseIdsMergedSlice) : Prop where
  key : IsServerMsgId s.key.universalId ∨ s.key.universalId = 0 ∨
    IsServerMsgId (ServerMaxMsgId + s.key.universalId) ∧ s.key.migratedPeerId ≠ 0
  migrated : s.migrated.isSome ↔ s.key.migratedPeerId ≠ 0
  peers : s.key.peerId ≠ s.key.migratedPeerId
  sorted : s.unsorted = none

/-! ## Lists -/

section Lists

variable {ids : FlatSet Int} {id i : Int}

theorem indexIn_iff : indexIn ids.items id = some i ↔ 0 ≤ i ∧ ids.items[i.toNat]? = some id := by
  simp only [indexIn, Option.map_eq_some_iff, List.idxOf?_eq_some_iff]
  constructor
  · rintro ⟨j, ⟨inside, here, -⟩, rfl⟩
    refine ⟨Int.natCast_nonneg j, ?_⟩
    rw [Int.ofNat_eq_natCast, Int.toNat_natCast, List.getElem?_eq_getElem inside, here]
  · rintro ⟨nonneg, here⟩
    obtain ⟨inside, same⟩ := List.getElem?_eq_some_iff.mp here
    refine ⟨i.toNat, ⟨inside, same, fun j before earlier => ?_⟩, Int.toNat_of_nonneg nonneg⟩
    have less := List.pairwise_iff_getElem.mp ids.sorted j i.toNat (before.trans inside) inside before
    omega

theorem idAt_inside (nonneg : 0 ≤ i) (here : ids.items[i.toNat]? = some id) : idAt ids.items i = .ok id := by
  rw [idAt, here]
  exact if_pos nonneg

namespace SparseIdsSlice

variable {s : SparseIdsSlice}

theorem nearest_mem {found : Int} (nearest : s.nearest id = some found) : found ∈ s.ids.items := by
  unfold SparseIdsSlice.nearest at nearest
  split at nearest
  · rename_i here
    cases nearest
    exact List.mem_of_getElem? here
  · exact List.mem_of_getLast? nearest

theorem nearest_none (none : s.nearest id = none) : s.ids.items = [] := by
  unfold SparseIdsSlice.nearest at none
  split at none
  · cases none
  · exact List.getLast?_eq_none_iff.mp none

end SparseIdsSlice

end Lists

/-! ## Parts -/

namespace SparseIdsMergedSlice

/-- The ids that indices count in front of the part, and whether the part is not shown. -/
structure Parts (s : SparseIdsMergedSlice) (before : List Int) (isolated : Bool) : Prop where
  migratedSize : s.migratedSize = .ok before.length
  isolatedInMigrated : s.isolatedInMigrated = .ok isolated
  before : s.isolatedInPart = true ∧ before = [] ∧ isolated = false ∨
    s.isolatedInPart = false ∧ ∃ m, s.migrated = some m ∧ before = m.ids.items

/-- All ids that `indexOf` finds. -/
def found (s : SparseIdsMergedSlice) (before : List Int) : List FullMsgId :=
  (before.map fun id => ⟨s.key.migratedPeerId, id⟩) ++ s.part.ids.items.map fun id => ⟨s.key.peerId, id⟩

variable {s : SparseIdsMergedSlice} {before : List Int} {isolated : Bool} {id : FullMsgId} {i : Int}

theorem server_of_isolatedInPart (inPart : s.isolatedInPart = true) : IsServerMsgId s.key.universalId := by
  simp only [isolatedInPart, Bool.and_eq_true, decide_eq_true_eq] at inPart
  exact inPart.1

/-- An old part that is not there makes no difference if the key is not zero. -/
theorem parts_of_viewed (viewed : Viewed s) (defined : s.migrated ≠ none ∨ s.key.universalId ≠ 0) :
    ∃ before isolated, Parts s before isolated := by
  cases inPart : s.isolatedInPart with
  | true =>
      have server := server_of_isolatedInPart inPart
      have other : ¬ IsServerMsgId (ServerMaxMsgId + s.key.universalId) := fun negative => by
        have := server.1
        have := negative.2
        omega
      refine ⟨[], false, ?_, ?_, .inl ⟨inPart, rfl, rfl⟩⟩
      · rw [SparseIdsMergedSlice.migratedSize, inPart]
        rfl
      · rw [SparseIdsMergedSlice.isolatedInMigrated, if_neg other]
        rfl
  | false =>
      have there : s.migrated ≠ none := by
        intro absent
        rcases viewed.key with server | zero | ⟨-, old⟩
        · simp [isolatedInPart, server, absent] at inPart
        · exact defined.elim (· absent) (· zero)
        · have := viewed.migrated.mpr old
          simp [absent] at this
      obtain ⟨m, there⟩ := Option.ne_none_iff_exists'.mp there
      have size : s.migratedSize = .ok m.ids.items.length := by
        rw [SparseIdsMergedSlice.migratedSize, inPart, there]
        rfl
      by_cases negative : IsServerMsgId (ServerMaxMsgId + s.key.universalId)
      · refine ⟨m.ids.items, decide (m.skippedAfter ≠ some 0), size, ?_, .inr ⟨inPart, m, there, rfl⟩⟩
        rw [SparseIdsMergedSlice.isolatedInMigrated, if_pos negative, there]
        rfl
      · refine ⟨m.ids.items, false, size, ?_, .inr ⟨inPart, m, there, rfl⟩⟩
        rw [SparseIdsMergedSlice.isolatedInMigrated, if_neg negative]
        rfl

theorem found_part (behind : before.length ≤ i) :
    (s.found before)[i.toNat]? = (s.part.ids.items[(i - before.length).toNat]?).map fun id => ⟨s.key.peerId, id⟩ := by
  have place : i.toNat - before.length = (i - before.length).toNat := by omega
  rw [found, List.getElem?_append_right (by rw [List.length_map]; omega), List.length_map, place, List.getElem?_map]

theorem found_before (nonneg : 0 ≤ i) (front : i < before.length) :
    (s.found before)[i.toNat]? = before[i.toNat]?.map fun id => ⟨s.key.migratedPeerId, id⟩ := by
  rw [found, List.getElem?_append_left (by rw [List.length_map]; omega), List.getElem?_map]

/-- What is at an index comes from one of the two parts. -/
theorem found_iff {peer : PeerId} {msg : Int} (nonneg : 0 ≤ i) :
    (s.found before)[i.toNat]? = some ⟨peer, msg⟩ ↔
      (i < before.length ∧ s.key.migratedPeerId = peer ∧ before[i.toNat]? = some msg) ∨
        (before.length ≤ i ∧ s.key.peerId = peer ∧ s.part.ids.items[(i - before.length).toNat]? = some msg) := by
  by_cases front : i < before.length
  · have notBehind : ¬ before.length ≤ i := by omega
    rw [found_before nonneg front]
    simp only [Option.map_eq_some_iff, FullMsgId.mk.injEq, front, true_and, notBehind, false_and, or_false]
    constructor
    · rintro ⟨_, here, rfl, rfl⟩
      exact ⟨rfl, here⟩
    · rintro ⟨rfl, here⟩
      exact ⟨msg, here, rfl, rfl⟩
  · have behind : before.length ≤ i := by omega
    rw [found_part behind]
    simp only [Option.map_eq_some_iff, FullMsgId.mk.injEq, front, false_and, behind, true_and, false_or]
    constructor
    · rintro ⟨_, here, rfl, rfl⟩
      exact ⟨rfl, here⟩
    · rintro ⟨rfl, here⟩
      exact ⟨msg, here, rfl, rfl⟩

namespace Parts

theorem size_eq (parts : Parts s before isolated) (sorted : s.unsorted = none) :
    s.size = .ok (before.length + if isolated then 0 else (s.part.ids.items.length : Int)) := by
  rw [SparseIdsMergedSlice.size, sorted]
  simp only [parts.migratedSize, parts.isolatedInMigrated]
  rfl

theorem get_eq (parts : Parts s before isolated) (sorted : s.unsorted = none) (nonneg : 0 ≤ i)
    (inside : i < before.length + if isolated then 0 else (s.part.ids.items.length : Int))
    (here : (s.found before)[i.toNat]? = some id) : s.get i = .ok id := by
  rcases id with ⟨peer, msg⟩
  rw [SparseIdsMergedSlice.get, parts.size_eq sorted]
  have bounds : ¬ (i < 0 ∨ before.length + (if isolated then 0 else (s.part.ids.items.length : Int)) ≤ i) := by omega
  simp only [Bind.bind, Except.bind, bounds, if_false, sorted, parts.migratedSize]
  rcases (found_iff nonneg).mp here with ⟨front, rfl, old⟩ | ⟨behind, rfl, new⟩
  · rcases parts.before with ⟨-, none, -⟩ | ⟨-, m, there, same⟩
    · rw [none] at old
      simp at old
    · have first : (before.length : Int) ≠ 0 ∧ i < before.length := by omega
      rw [if_pos first, there]
      rw [same] at old
      simp only [deref, SparseIdsSlice.get, idAt_inside nonneg old]
      rfl
  · have first : ¬ ((before.length : Int) ≠ 0 ∧ i < before.length) := by omega
    rw [if_neg first]
    simp only [SparseIdsSlice.get, idAt_inside (by omega : 0 ≤ i - before.length) new]
    rfl

theorem get_outside (parts : Parts s before isolated) (sorted : s.unsorted = none)
    (outside : ¬ (0 ≤ i ∧ i < before.length + if isolated then 0 else (s.part.ids.items.length : Int))) :
    s.get i = .error .outOfBounds := by
  rw [SparseIdsMergedSlice.get, parts.size_eq sorted]
  have bounds : i < 0 ∨ before.length + (if isolated then 0 else (s.part.ids.items.length : Int)) ≤ i := by omega
  simp only [Bind.bind, Except.bind, bounds, if_true]
  rfl

theorem get_inside (parts : Parts s before isolated) (sorted : s.unsorted = none) (nonneg : 0 ≤ i)
    (inside : i < before.length + if isolated then 0 else (s.part.ids.items.length : Int)) :
    ∃ id, (s.found before)[i.toNat]? = some id ∧ s.get i = .ok id := by
  have less : i.toNat < (s.found before).length := by
    simp only [found, List.length_append, List.length_map]
    split_ifs at inside
    · omega
    · omega
  have here := List.getElem?_eq_getElem less
  exact ⟨_, here, parts.get_eq sorted nonneg inside here⟩

theorem indexOf_defined (parts : Parts s before isolated) (sorted : s.unsorted = none) :
    ∃ index, s.indexOf id = .ok index := by
  rw [SparseIdsMergedSlice.indexOf, sorted, parts.migratedSize]
  simp only
  split_ifs with here inPart old
  · exact ⟨_, rfl⟩
  · exact ⟨_, rfl⟩
  · simp only [isFromMigrated, Bool.and_eq_true] at old
    obtain ⟨m, there⟩ := Option.isSome_iff_exists.mp old.1
    rw [there]
    exact ⟨_, rfl⟩
  · exact ⟨_, rfl⟩

/-- `indexOf` finds the ids of both parts, shown or not. -/
theorem indexOf_iff (parts : Parts s before isolated) (viewed : Viewed s) :
    s.indexOf id = .ok (some i) ↔ 0 ≤ i ∧ (s.found before)[i.toNat]? = some id := by
  rcases id with ⟨peer, msg⟩
  have places : (0 ≤ i ∧ (s.found before)[i.toNat]? = some ⟨peer, msg⟩) ↔
      (0 ≤ i ∧ s.key.migratedPeerId = peer ∧ before[i.toNat]? = some msg) ∨
        (before.length ≤ i ∧ s.key.peerId = peer ∧ s.part.ids.items[(i - before.length).toNat]? = some msg) := by
    constructor
    · rintro ⟨nonneg, here⟩
      exact ((found_iff nonneg).mp here).imp (fun old => ⟨nonneg, old.2⟩) id
    · rintro (⟨nonneg, same, old⟩ | ⟨behind, new⟩)
      · have front := (List.getElem?_eq_some_iff.mp old).1
        exact ⟨nonneg, (found_iff nonneg).mpr (.inl ⟨by omega, same, old⟩)⟩
      · have nonneg : 0 ≤ i := by omega
        exact ⟨nonneg, (found_iff nonneg).mpr (.inr ⟨behind, new⟩)⟩
  rw [places, SparseIdsMergedSlice.indexOf, viewed.sorted]
  simp only [isFromPart, decide_eq_true_eq]
  by_cases here : s.key.peerId = peer
  · have notOld : s.key.migratedPeerId ≠ peer := fun old => viewed.peers (here.trans old.symm)
    rw [if_pos here, parts.migratedSize]
    simp only [notOld, false_and, and_false, false_or, here, true_and]
    have index : (Except.ok ((s.part.indexOf msg).map (· + (before.length : Int))) : Except Undefined (Option Int)) =
        .ok (some i) ↔ s.part.indexOf msg = some (i - before.length) := by
      simp only [Except.ok.injEq, Option.map_eq_some_iff]
      constructor
      · rintro ⟨j, same, rfl⟩
        rw [same, Int.add_sub_cancel]
      · intro same
        exact ⟨_, same, Int.sub_add_cancel _ _⟩
    refine index.trans ?_
    rw [SparseIdsSlice.indexOf, indexIn_iff]
    exact and_congr_left' ⟨fun nonneg => by omega, fun behind => by omega⟩
  · rw [if_neg here]
    simp only [here, false_and, and_false, or_false]
    rcases parts.before with ⟨inPart, rfl, -⟩ | ⟨inPart, m, there, rfl⟩
    · rw [if_pos inPart]
      simp [pure, Except.pure]
    · rw [if_neg (by simp [inPart])]
      by_cases old : s.key.migratedPeerId = peer
      · have fromOld : s.isFromMigrated ⟨peer, msg⟩ = true := by simp [isFromMigrated, there, old]
        rw [if_pos fromOld, there]
        simp only [old, true_and, ← indexIn_iff]
        exact ⟨Except.ok.inj, congrArg Except.ok⟩
      · have notOld : ¬ s.isFromMigrated ⟨peer, msg⟩ = true := by simp [isFromMigrated, old]
        rw [if_neg notOld]
        simp [old, pure, Except.pure]

/-- What is at an index of the slice. -/
theorem get_iff (parts : Parts s before isolated) (sorted : s.unsorted = none) :
    s.get i = .ok id ↔
      (0 ≤ i ∧ i < before.length + if isolated then 0 else (s.part.ids.items.length : Int)) ∧
        (s.found before)[i.toNat]? = some id := by
  constructor
  · intro got
    by_cases inside : 0 ≤ i ∧ i < before.length + if isolated then 0 else (s.part.ids.items.length : Int)
    · obtain ⟨id', here, same⟩ := parts.get_inside sorted inside.1 inside.2
      rw [got] at same
      cases same
      exact ⟨inside, here⟩
    · rw [parts.get_outside sorted inside] at got
      cases got
  · rintro ⟨inside, here⟩
    exact parts.get_eq sorted inside.1 inside.2 here

theorem get_part (parts : Parts s before isolated) (sorted : s.unsorted = none) (shown : isolated = false) {msg : Int}
    (member : msg ∈ s.part.ids.items) : ∃ i, s.get i = .ok ⟨s.key.peerId, msg⟩ := by
  obtain ⟨j, inside, here⟩ := List.mem_iff_getElem.mp member
  refine ⟨before.length + j, (parts.get_iff sorted).mpr ⟨?_, ?_⟩⟩
  · rw [shown]
    simp only [Bool.false_eq_true, if_false]
    omega
  · refine (found_iff (by omega)).mpr (.inr ⟨by omega, rfl, ?_⟩)
    rw [show (before.length : Int) + j - before.length = j by omega, Int.toNat_natCast, List.getElem?_eq_getElem inside, here]

theorem get_before (parts : Parts s before isolated) (sorted : s.unsorted = none) {msg : Int} (member : msg ∈ before) :
    ∃ i, s.get i = .ok ⟨s.key.migratedPeerId, msg⟩ := by
  obtain ⟨j, inside, here⟩ := List.mem_iff_getElem.mp member
  refine ⟨j, (parts.get_iff sorted).mpr ⟨?_, ?_⟩⟩
  · split_ifs
    · omega
    · omega
  · refine (found_iff (by omega)).mpr (.inl ⟨by omega, rfl, ?_⟩)
    rw [Int.toNat_natCast, List.getElem?_eq_getElem inside, here]

theorem nearest_server (parts : Parts s before isolated) (sorted : s.unsorted = none) {around : Int}
    (server : IsServerMsgId around) :
    (∃ msg ∈ s.part.ids.items, s.nearest around = .ok (some ⟨s.key.peerId, msg⟩)) ∨
      s.part.ids.items = [] ∧ ((before = [] ∧ s.nearest around = .ok none) ∨
        ∃ msg ∈ before, s.nearest around = .ok (some ⟨s.key.migratedPeerId, msg⟩)) := by
  rw [SparseIdsMergedSlice.nearest, sorted]
  simp only [server, if_true]
  cases near : s.part.nearest around with
  | some msg => exact .inl ⟨msg, SparseIdsSlice.nearest_mem near, rfl⟩
  | none =>
      refine .inr ⟨SparseIdsSlice.nearest_none near, ?_⟩
      rcases parts.before with ⟨inPart, empty, -⟩ | ⟨inPart, m, there, rfl⟩
      · simp only [inPart, if_true]
        exact .inl ⟨empty, rfl⟩
      · simp only [inPart, Bool.false_eq_true, if_false, there]
        cases old : m.nearest (ServerMaxMsgId - 1) with
        | none => exact .inl ⟨SparseIdsSlice.nearest_none old, by simp [deref, Bind.bind, Except.bind, old, pure, Except.pure]⟩
        | some msg =>
            refine .inr ⟨msg, SparseIdsSlice.nearest_mem old, ?_⟩
            simp [deref, Bind.bind, Except.bind, old, pure, Except.pure]

theorem nearest_other (parts : Parts s before isolated) (sorted : s.unsorted = none) {around : Int}
    (other : ¬ IsServerMsgId around) :
    (∃ m msg, s.migrated = some m ∧ msg ∈ m.ids.items ∧ s.nearest around = .ok (some ⟨s.key.migratedPeerId, msg⟩)) ∨
      (∀ m ∈ s.migrated, m.ids.items = []) ∧ ((isolated = true ∧ s.nearest around = .ok none) ∨
        (s.part.ids.items = [] ∧ s.nearest around = .ok none) ∨
        isolated = false ∧ ∃ msg ∈ s.part.ids.items, s.nearest around = .ok (some ⟨s.key.peerId, msg⟩)) := by
  rw [SparseIdsMergedSlice.nearest, sorted]
  simp only [other, if_false]
  cases near : s.migrated.bind fun migrated => SparseIdsSlice.nearest migrated (around + ServerMaxMsgId) with
  | some msg =>
      obtain ⟨m, there, found⟩ := Option.bind_eq_some_iff.mp near
      exact .inl ⟨m, msg, there, SparseIdsSlice.nearest_mem found, rfl⟩
  | none =>
      refine .inr ⟨fun m there => ?_, ?_⟩
      · rw [Option.mem_def.mp there, Option.bind_some] at near
        exact SparseIdsSlice.nearest_none near
      · simp only [parts.isolatedInMigrated, Bind.bind, Except.bind]
        cases isolated with
        | true => exact .inl ⟨rfl, rfl⟩
        | false =>
            cases first : s.part.nearest 0 with
            | none => exact .inr (.inl ⟨SparseIdsSlice.nearest_none first, rfl⟩)
            | some msg => exact .inr (.inr ⟨rfl, msg, SparseIdsSlice.nearest_mem first, rfl⟩)

theorem nearest_defined (parts : Parts s before isolated) (sorted : s.unsorted = none) (around : Int) :
    ∃ nearest, s.nearest around = .ok nearest := by
  by_cases server : IsServerMsgId around
  · rcases parts.nearest_server sorted server with ⟨_, -, near⟩ | ⟨-, ⟨-, near⟩ | ⟨_, -, near⟩⟩
    all_goals exact ⟨_, near⟩
  · rcases parts.nearest_other sorted server with ⟨_, _, -, -, near⟩ | ⟨-, ⟨-, near⟩ | ⟨-, near⟩ | ⟨-, _, -, near⟩⟩
    all_goals exact ⟨_, near⟩

end Parts

end SparseIdsMergedSlice

/-! ## What the accessors promise -/

/-- The accessors agree on which ids there are, and an old part that is not there is left alone. -/
structure Indexes (s : SparseIdsMergedSlice) : Prop where
  size : ∃ n, s.size = .ok n
  skipped : (∃ n, s.skippedBefore = .ok n) ∧ ∃ n, s.skippedAfter = .ok n
  get : ∀ i, s.get i ≠ .error .emptyOptional
  indexOf : ∀ id, (∃ index, s.indexOf id = .ok index) ∧
    ∀ i, s.indexOf id = .ok (some i) ↔ (∃ n, s.size = .ok n ∧ 0 ≤ i ∧ i < n) ∧ s.get i = .ok id
  nearest : ∀ around, (∃ id, s.nearest around = .ok id) ∧
    ∀ n, s.size = .ok n → 0 < n → ∃ id i, s.nearest around = .ok (some id) ∧ s.get i = .ok id
  distance : ∀ a b, ∃ i j, s.indexOf a.computeId = .ok i ∧ s.indexOf b.computeId = .ok j ∧
    s.distance a b = .ok (i.bind fun i => j.map fun j => j - i)

/-- The part that is not shown has no ids, and there is an old part where the key is zero. -/
structure OnePartOnly (s : SparseIdsMergedSlice) : Prop where
  old : s.migrated ≠ none ∨ s.key.universalId ≠ 0
  inMigrated : s.isolatedInMigrated = .ok true → s.part.ids.items = []
  inPart : s.isolatedInPart = true → s.part.ids.items = [] ∨ ∀ m ∈ s.migrated, m.ids.items = []

namespace SparseIdsMergedSlice

variable {s : SparseIdsMergedSlice} {before : List Int} {isolated : Bool}

theorem distance_eq (parts : Parts s before isolated) (sorted : s.unsorted = none) (a b : MergedKey) :
    ∃ i j, s.indexOf a.computeId = .ok i ∧ s.indexOf b.computeId = .ok j ∧
      s.distance a b = .ok (i.bind fun i => j.map fun j => j - i) := by
  obtain ⟨i, first⟩ := @Parts.indexOf_defined s before isolated a.computeId parts sorted
  obtain ⟨j, second⟩ := @Parts.indexOf_defined s before isolated b.computeId parts sorted
  refine ⟨i, j, first, second, ?_⟩
  rw [distance, first]
  cases i with
  | none => rfl
  | some i =>
      simp only [Bind.bind, Except.bind, second]
      cases j with
      | none => rfl
      | some j => rfl

theorem nearest_shown (parts : Parts s before isolated) (sorted : s.unsorted = none) (one : OnePartOnly s)
    (filled : 0 < before.length + if isolated then 0 else (s.part.ids.items.length : Int)) (around : Int) :
    ∃ id i, s.nearest around = .ok (some id) ∧ s.get i = .ok id := by
  have ofPart : ∀ msg ∈ s.part.ids.items, s.nearest around = .ok (some ⟨s.key.peerId, msg⟩) →
      ∃ id i, s.nearest around = .ok (some id) ∧ s.get i = .ok id := by
    intro msg member near
    have shown : isolated = false := by
      cases isolated with
      | false => rfl
      | true =>
          rw [one.inMigrated parts.isolatedInMigrated] at member
          cases member
    obtain ⟨i, got⟩ := parts.get_part sorted shown member
    exact ⟨_, i, near, got⟩
  have ofOld : ∀ msg ∈ before, s.nearest around = .ok (some ⟨s.key.migratedPeerId, msg⟩) →
      ∃ id i, s.nearest around = .ok (some id) ∧ s.get i = .ok id := by
    intro msg member near
    obtain ⟨i, got⟩ := parts.get_before sorted member
    exact ⟨_, i, near, got⟩
  by_cases server : IsServerMsgId around
  · rcases parts.nearest_server sorted server with ⟨msg, member, near⟩ | ⟨none, ⟨old, near⟩ | ⟨msg, member, near⟩⟩
    · exact ofPart msg member near
    · rw [none, old] at filled
      simp at filled
    · exact ofOld msg member near
  · rcases parts.nearest_other sorted server with ⟨m, msg, there, member, near⟩ |
      ⟨old, ⟨alone, near⟩ | ⟨none, near⟩ | ⟨-, msg, member, near⟩⟩
    · rcases parts.before with ⟨inPart, rfl, rfl⟩ | ⟨-, m', there', rfl⟩
      · rcases one.inPart inPart with none | none
        · rw [none] at filled
          simp at filled
        · rw [none m there] at member
          cases member
      · rw [there] at there'
        cases there'
        exact ofOld msg member near
    all_goals
      have noneBefore : before = [] := by
        rcases parts.before with ⟨-, empty, -⟩ | ⟨-, m, there, rfl⟩
        · exact empty
        · exact old m there
    · rw [noneBefore, alone] at filled
      simp at filled
    · rw [noneBefore, none] at filled
      simp at filled
    · exact ofPart msg member near

/-- The accessors agree if and only if there is one part to look at, or all that is there is shown. -/
theorem indexes_iff (viewed : Viewed s) : Indexes s ↔ OnePartOnly s := by
  have sorted := viewed.sorted
  constructor
  · intro indexes
    have old : s.migrated ≠ none ∨ s.key.universalId ≠ 0 := by
      by_contra absent
      obtain ⟨none, zero⟩ := not_or.mp absent
      obtain ⟨n, size⟩ := indexes.size
      have inPart : s.isolatedInPart = false := by
        simp [isolatedInPart, not_not.mp zero, IsServerMsgId]
      rw [SparseIdsMergedSlice.size, sorted] at size
      simp only [migratedSize, inPart, not_not.mp none] at size
      cases size
    obtain ⟨before, isolated, parts⟩ := parts_of_viewed viewed old
    refine ⟨old, fun alone => ?_, fun inPart => ?_⟩
    · rw [parts.isolatedInMigrated] at alone
      cases alone
      by_contra filled
      obtain ⟨msg, rest, items⟩ := List.exists_cons_of_ne_nil filled
      have index : s.indexOf ⟨s.key.peerId, msg⟩ = .ok (some before.length) := by
        refine (parts.indexOf_iff viewed).mpr ⟨by omega, (found_iff (by omega)).mpr (.inr ⟨le_refl _, rfl, ?_⟩)⟩
        rw [items]
        simp
      obtain ⟨⟨n, size, -, less⟩, -⟩ := ((indexes.indexOf _).2 _).mp index
      rw [parts.size_eq sorted] at size
      cases size
      simp at less
    · by_contra both
      obtain ⟨filled, oldFilled⟩ := not_or.mp both
      rcases parts.before with ⟨-, rfl, rfl⟩ | ⟨notInPart, -⟩
      · obtain ⟨msg, rest, items⟩ := List.exists_cons_of_ne_nil filled
        obtain ⟨id, i, near, got⟩ := (indexes.nearest 0).2 _ (parts.size_eq sorted) (by rw [items]; simp)
        have zero : ¬ IsServerMsgId 0 := by decide
        rcases parts.nearest_other sorted zero with ⟨m, msg', -, -, near'⟩ | ⟨none, -⟩
        · rw [near] at near'
          cases near'
          obtain ⟨⟨nonneg, -⟩, here⟩ := (parts.get_iff sorted).mp got
          rcases (found_iff nonneg).mp here with ⟨front, -⟩ | ⟨-, same, -⟩
          · simp at front
            omega
          · exact viewed.peers same
        · exact oldFilled none
      · rw [inPart] at notInPart
        cases notInPart
  · intro one
    obtain ⟨before, isolated, parts⟩ := parts_of_viewed viewed one.old
    have size := parts.size_eq sorted
    refine ⟨⟨_, size⟩, ⟨?_, ?_⟩, fun i => ?_, fun id => ⟨parts.indexOf_defined sorted, fun i => ?_⟩, fun around => ?_,
      fun a b => distance_eq parts sorted a b⟩
    · rw [skippedBefore, sorted]
      simp only [parts.isolatedInMigrated]
      exact ⟨_, rfl⟩
    · rw [skippedAfter, sorted]
      simp only [parts.isolatedInMigrated, Bind.bind, Except.bind]
      rcases parts.before with ⟨inPart, -⟩ | ⟨inPart, m, there, -⟩
      · rw [inPart]
        exact ⟨_, rfl⟩
      · rw [inPart, there]
        exact ⟨_, rfl⟩
    · by_cases inside : 0 ≤ i ∧ i < before.length + if isolated then 0 else (s.part.ids.items.length : Int)
      · obtain ⟨id, -, got⟩ := parts.get_inside sorted inside.1 inside.2
        rw [got]
        nofun
      · rw [parts.get_outside sorted inside]
        nofun
    · have all : ∀ i : Int, (s.found before)[i.toNat]? = some id → 0 ≤ i →
          i < before.length + if isolated then 0 else (s.part.ids.items.length : Int) := by
        intro i here nonneg
        have less := (List.getElem?_eq_some_iff.mp here).1
        simp only [found, List.length_append, List.length_map] at less
        cases isolated with
        | false =>
            simp only [Bool.false_eq_true, if_false]
            omega
        | true =>
            rw [one.inMigrated parts.isolatedInMigrated] at less
            simp only [if_true]
            simp at less
            omega
      rw [parts.indexOf_iff viewed, parts.get_iff sorted, size]
      constructor
      · rintro ⟨nonneg, here⟩
        exact ⟨⟨_, rfl, nonneg, all i here nonneg⟩, ⟨nonneg, all i here nonneg⟩, here⟩
      · rintro ⟨-, ⟨nonneg, -⟩, here⟩
        exact ⟨nonneg, here⟩
    · refine ⟨parts.nearest_defined sorted around, fun n same filled => ?_⟩
      rw [size] at same
      cases same
      exact nearest_shown parts sorted one filled around

def oneId (id : Int) : FlatSet Int := ⟨[id], List.pairwise_singleton _ _⟩

/-- The whole media of a chat with two messages. -/
def whole : SparseIdsMergedSlice where
  key := ⟨2, 1, 5⟩
  part := { ids := oneId 5, skippedBefore := some 0 }
  migrated := some { ids := oneId 3 }

theorem whole_indexes : Indexes whole := by
  have viewed : Viewed whole := ⟨.inl (by decide), by decide, by decide, rfl⟩
  refine (indexes_iff viewed).mpr ⟨.inl nofun, fun alone => ?_, fun inPart => ?_⟩
  · exact absurd alone nofun
  · exact absurd inPart (by decide)

/-- The key is in the old group, of which the later messages are not known. -/
def inOldGroup : SparseIdsMergedSlice where
  key := ⟨2, 1, 3 - ServerMaxMsgId⟩
  part := { ids := oneId 5, skippedBefore := some 0 }
  migrated := some { ids := oneId 3 }

/-- The message of the chat is not one of the slice, and has an index. -/
theorem inOldGroup_index :
    Viewed inOldGroup ∧ inOldGroup.size = .ok 1 ∧ inOldGroup.indexOf ⟨2, 5⟩ = .ok (some 1) ∧
      inOldGroup.get 1 = .error .outOfBounds ∧ inOldGroup.nearest 5 = .ok (some ⟨2, 5⟩) ∧ ¬ Indexes inOldGroup := by
  have viewed : Viewed inOldGroup := ⟨.inr (.inr ⟨by decide, by decide⟩), by decide, by decide, rfl⟩
  refine ⟨viewed, rfl, rfl, rfl, rfl, fun indexes => ?_⟩
  have index := ((indexes.indexOf ⟨2, 5⟩).2 1).mp rfl
  cases index.2

/-- Without an old group, and around nothing. -/
example :
    let s : SparseIdsMergedSlice := { key := ⟨2, 0, 0⟩, part := { ids := oneId 5 }, migrated := none }
    Viewed s ∧ s.size = .error .emptyOptional :=
  ⟨⟨.inr (.inl rfl), by decide, by decide, rfl⟩, rfl⟩

end SparseIdsMergedSlice

end IMeDesktop.Data
