import IMeDesktop.Data.DownloadResolves
import IMeDesktop.Lib.DataStream

/-! # The saved list of downloads

The list is written as it is, and read back only if every entry is as it should be. An entry that is
marked because its file is gone has no path, and is not as it should be: with one of them the whole list
is lost.
-/

namespace IMeDesktop.Data.Downloads

open Lib DataStream Ui

/-! ## Writing and reading -/

def DownloadType.code : DownloadType → Nat
  | .document => 0
  | .photo => 1

/-- The size is written as a `quint32`. -/
def putEntry (id : DownloadedId) : Bytes :=
  put 8 id.download.objectId.toNat ++ (put 4 id.download.type.code ++ (put 8 id.started.toUInt64.toNat ++
    (put 4 id.size ++ (put 8 id.itemId.peer.val ++ (put 8 id.itemId.msg.toUInt64.toNat ++
      (put 8 id.peerAccessHash.toNat ++ putString id.path))))))

def serializator (d : SessionData) : Bytes := put 4 d.downloaded.length ++ d.downloaded.flatMap putEntry

def downloadType (code : Nat) : Option DownloadType :=
  if code = 0 then some .document else if code = 1 then some .photo else none

/-- An entry that is not as it should be is not read. -/
def checked (downloadObjectId code started size itemIdPeer itemIdMsg peerAccessHash : Nat) (path : QString) :
    Stream DownloadedId :=
  if path = [] ∨ size = 0 ∨ size > kMaxFileSize then fail
  else
    match downloadType code with
    | none => fail
    | some type =>
        pure
          { download := ⟨UInt64.ofNat downloadObjectId, type⟩
            started := (UInt64.ofNat started).toInt64
            path := path
            size := size
            itemId := ⟨Fin.ofNat _ itemIdPeer, (UInt64.ofNat itemIdMsg).toInt64⟩
            peerAccessHash := UInt64.ofNat peerAccessHash }

def getEntry : Stream DownloadedId := do
  let downloadObjectId ← get 8
  let code ← get 4
  let started ← get 8
  let size ← get 4
  let itemIdPeer ← get 8
  let itemIdMsg ← get 8
  let peerAccessHash ← get 8
  let path ← getString
  checked downloadObjectId code started size itemIdPeer itemIdMsg peerAccessHash path

def getEntries : Nat → Stream (List DownloadedId)
  | 0 => pure []
  | count + 1 => do
      let id ← getEntry
      let rest ← getEntries count
      pure (id :: rest)

def getList : Stream (List DownloadedId) := do
  let unsigned ← get 4
  let count := (UInt32.ofNat unsigned).toInt32.toInt
  if count ≤ 0 ∨ count > 99999 then fail else getEntries count.toNat

def deserialize (serialized : Bytes) : List DownloadedId :=
  if serialized = [] then []
  else
    match getList serialized with
    | none => []
    | some (list, _) => list

/-! ## What is read back -/

/-- What can be written, but for the path. -/
structure Saveable (id : DownloadedId) : Prop where
  sized : 0 < id.size ∧ id.size ≤ kMaxFileSize
  short : id.path.length < 2 ^ 31

variable {id : DownloadedId} {list : List DownloadedId}

theorem downloadType_code (type : DownloadType) : downloadType type.code = some type := by
  cases type
  · rfl
  · rfl

/-- All fields are read, and then they are checked. -/
theorem getEntry_put (saveable : Saveable id) (rest : Bytes) :
    getEntry (putEntry id ++ rest) = if id.path = [] then none else some (id.saved, rest) := by
  obtain ⟨⟨positive, fits⟩, short⟩ := saveable
  have code : id.download.type.code < 256 ^ 4 := by
    cases id.download.type
    · decide
    · decide
  have sized : id.size < 256 ^ 4 := Nat.lt_of_le_of_lt fits (by decide)
  have read : getEntry (putEntry id ++ rest) =
      checked id.download.objectId.toNat id.download.type.code id.started.toUInt64.toNat id.size id.itemId.peer.val
        id.itemId.msg.toUInt64.toNat id.peerAccessHash.toNat id.path rest := by
    simp only [putEntry, List.append_assoc]
    refine ((reads_get id.download.objectId.toNat_lt).run _ _).trans ?_
    refine ((reads_get code).run _ _).trans ?_
    refine ((reads_get id.started.toUInt64.toNat_lt).run _ _).trans ?_
    refine ((reads_get sized).run _ _).trans ?_
    refine ((reads_get id.itemId.peer.isLt).run _ _).trans ?_
    refine ((reads_get id.itemId.msg.toUInt64.toNat_lt).run _ _).trans ?_
    refine ((reads_get id.peerAccessHash.toNat_lt).run _ _).trans ?_
    exact (reads_string short).run _ _
  rw [read, checked]
  split_ifs with bad none none
  · rfl
  · have unfit := bad.resolve_left none
    omega
  · exact absurd (.inl none) bad
  · rw [downloadType_code]
    simp only [UInt64.ofNat_toNat, Int64.toInt64_toUInt64, Fin.ofNat_val_eq_self]
    rfl

/-- With an entry that has no path, nothing is read. -/
theorem getEntries_put (saveable : ∀ id ∈ list, Saveable id) (rest : Bytes) :
    getEntries list.length (list.flatMap putEntry ++ rest) =
      if ∀ id ∈ list, id.path ≠ [] then some (list.map DownloadedId.saved, rest) else none := by
  induction list with
  | nil => rfl
  | cons id others ih =>
      obtain ⟨here, later⟩ := List.forall_mem_cons.mp saveable
      have first := getEntry_put here (others.flatMap putEntry ++ rest)
      rw [List.flatMap_cons, List.append_assoc, List.length_cons]
      change (getEntry _).bind _ = _
      rw [first]
      by_cases none : id.path = []
      · rw [if_pos none, if_neg fun all => all id List.mem_cons_self none]
        rfl
      · rw [if_neg none, Option.bind_some]
        change (getEntries others.length _).bind _ = _
        rw [ih later]
        by_cases all : ∀ id ∈ others, id.path ≠ []
        · have every : ∀ x ∈ id :: others, x.path ≠ [] := List.forall_mem_cons.mpr ⟨none, all⟩
          rw [if_pos all, if_pos every]
          rfl
        · rw [if_neg all, if_neg fun every => all (List.forall_mem_cons.mp every).2]
          rfl

theorem serializator_ne_nil (d : SessionData) : serializator d ≠ [] := by
  intro empty
  have length := congrArg List.length empty
  rw [serializator, List.length_append, length_put, List.length_nil] at length
  omega

/-- Fewer than a hundred thousand entries are read back, if each of them has a path. -/
theorem deserialize_serializator {d : SessionData} (saveable : ∀ id ∈ d.downloaded, Saveable id)
    (few : d.downloaded.length < 100000) :
    deserialize (serializator d) =
      if ∀ id ∈ d.downloaded, id.path ≠ [] then d.downloaded.map DownloadedId.saved else [] := by
  have count : (UInt32.ofNat d.downloaded.length).toInt32.toInt = d.downloaded.length := by
    have small : (UInt32.ofNat d.downloaded.length).toNat = d.downloaded.length :=
      UInt32.toNat_ofNat_of_lt' (Nat.lt_trans few (by decide))
    have value : (UInt32.ofNat d.downloaded.length).toInt32.toInt =
        (UInt32.ofNat d.downloaded.length).toBitVec.toInt := rfl
    rw [value, BitVec.toInt_eq_toNat_of_lt, UInt32.toNat_toBitVec, small]
    rw [UInt32.toNat_toBitVec, small]
    omega
  have read := (reads_get (Nat.lt_trans few (by decide : 100000 < 256 ^ 4))).run (fun unsigned =>
    let count := (UInt32.ofNat unsigned).toInt32.toInt
    if count ≤ 0 ∨ count > 99999 then fail else getEntries count.toNat) (d.downloaded.flatMap putEntry)
  rw [deserialize, if_neg (serializator_ne_nil d), getList, serializator, read]
  dsimp only
  rw [count]
  by_cases none : d.downloaded = []
  · simp [none, fail]
  · have some := List.length_pos_iff.mpr none
    have entries := getEntries_put saveable []
    rw [List.append_nil] at entries
    rw [if_neg (by omega), Int.toNat_natCast, entries]
    split_ifs
    · rfl
    · rfl

/-! ## Runs -/

/-- What is asked of entries stays so when they are marked, and when they get objects. -/
structure Stays (asked : DownloadedId → Prop) : Prop where
  marked : ∀ id, asked id → asked { id with path := [] }
  object : ∀ id object, asked id → asked { id with object := object }

theorem stays_saveable : Stays Saveable where
  marked _ saveable := ⟨saveable.sized, Nat.two_pow_pos 31⟩
  object _ _ saveable := ⟨saveable.sized, saveable.short⟩

namespace SessionData

variable {asked : DownloadedId → Prop} {d d' : SessionData} {outside : Outside}

theorem resolveBatch_stays (stays : Stays asked) {count : Nat} (result : resolveBatch outside count d = some d')
    (all : ∀ id ∈ d.downloaded, asked id) : ∀ id ∈ d'.downloaded, asked id := by
  induction count generalizing d with
  | zero =>
      cases result
      exact all
  | succ count ih =>
      rw [resolveBatch] at result
      dsimp only at result
      split at result
      · cases result
      · split at result
        · cases result
        · rename_i id found
          refine ih result ?_
          dsimp only
          split
          · exact fun x member => all x ((List.eraseIdx_sublist _ _).subset member)
          · intro x member
            rcases List.mem_or_eq_of_mem_set member with old | rfl
            · exact all x old
            · obtain ⟨object, eq⟩ := resolved_object outside id
              rw [eq]
              exact stays.object id _ (all id (List.mem_of_getElem? found))

theorem resolveFrom_stays (stays : Stays asked) {i : Nat} {list list' : List DownloadedId} {sent sent' : Int}
    {prepared prepared' : SortedMap PeerId Prepared}
    (result : resolveFrom outside i list sent prepared = some (list', sent', prepared'))
    (all : ∀ id ∈ list, asked id) : ∀ id ∈ list', asked id := by
  induction i generalizing list sent prepared with
  | zero =>
      cases result
      exact all
  | succ i ih =>
      rw [resolveFrom] at result
      split at result
      · cases result
      · rename_i id found
        have marked : ∀ x ∈ (if decide (outside.fileSize id.path ≠ some id.size) then
            list.set i { id with path := [] } else list), asked x := by
          split
          · intro x member
            rcases List.mem_or_eq_of_mem_set member with old | rfl
            · exact all x old
            · exact stays.marked id (all id (List.mem_of_getElem? found))
          · exact all
        dsimp only at result
        split at result
        · cases result
          exact marked
        · exact ih result marked

theorem resolveRequestsFinished_stays (stays : Stays asked) (result : d.resolveRequestsFinished outside = some d')
    (all : ∀ id ∈ d.downloaded, asked id) : ∀ id ∈ d'.downloaded, asked id := by
  obtain ⟨middle, batch, eq⟩ := Option.bind_eq_some_iff.mp result
  have kept := resolveBatch_stays stays batch all
  cases eq
  exact kept

theorem check_stays (stays : Stays asked) (result : d.check outside = some d') (all : ∀ id ∈ d.downloaded, asked id) :
    ∀ id ∈ d'.downloaded, asked id := by
  unfold check at result
  split at result
  · exact resolveRequestsFinished_stays stays result all
  · cases result
    exact all

theorem resolveSome_stays (stays : Stays asked) (result : d.resolveSome outside = some d')
    (all : ∀ id ∈ d.downloaded, asked id) : ∀ id ∈ d'.downloaded, asked id := by
  unfold resolveSome at result
  split at result
  · cases result
    exact all
  · obtain ⟨⟨list, sent, prepared⟩, loop, checked⟩ := Option.bind_eq_some_iff.mp result
    have listed := resolveFrom_stays stays loop all
    exact check_stays stays checked listed

theorem resolve_stays (stays : Stays asked) (result : d.resolve outside = some d') (all : ∀ id ∈ d.downloaded, asked id) :
    ∀ id ∈ d'.downloaded, asked id := by
  obtain ⟨middle, found, eq⟩ := Option.bind_eq_some_iff.mp result
  have kept := resolveSome_stays stays found all
  obtain ⟨done, same⟩ := checkFullResolveDone_eq middle
  rw [same] at eq
  cases eq
  exact kept

theorem deleteFiles_sublist (items : List Nat) (d : SessionData) :
    (d.deleteFiles items).downloaded.Sublist d.downloaded := by
  induction items generalizing d with
  | nil => exact .refl _
  | cons item rest ih =>
      refine (ih (d.deleteFile item)).trans ?_
      unfold deleteFile
      split
      · exact .refl _
      · exact List.eraseIdx_sublist _ _

end SessionData

open SessionData

/-- Every entry can be written, whatever happens. -/
theorem step_saveable {d d' : SessionData} {event : Event} (result : step d event = some d')
    (all : ∀ id ∈ d.downloaded, Saveable id) : ∀ id ∈ d'.downloaded, Saveable id := by
  cases event with
  | loadedList outside => exact resolve_stays stays_saveable result all
  | answered outside index =>
      rw [step] at result
      split at result
      · exact check_stays stays_saveable result all
      · cases result
        exact all
  | onMain outside =>
      rw [step] at result
      split at result
      · exact resolve_stays stays_saveable result all
      · cases result
        exact all
  | addLoaded outside object path started itemId peerAccessHash fits =>
      cases result
      unfold SessionData.addLoaded
      dsimp only
      split
      · exact all
      · rename_i sized
        intro id member
        rcases List.mem_append.mp member with member | member
        · exact all id member
        · rw [List.mem_singleton.mp member]
          exact ⟨by dsimp only; omega, fits⟩
  | deleteFiles items =>
      cases result
      exact fun id member => all id ((deleteFiles_sublist items d).subset member)
  | deleteAll =>
      cases result
      exact List.forall_mem_nil _

theorem getEntry_saveable {data rest : Bytes} (read : getEntry data = some (id, rest)) : Saveable id := by
  obtain ⟨downloadObjectId, _, -, read⟩ := bind_some read
  obtain ⟨code, _, -, read⟩ := bind_some read
  obtain ⟨started, _, -, read⟩ := bind_some read
  obtain ⟨size, _, -, read⟩ := bind_some read
  obtain ⟨itemIdPeer, _, -, read⟩ := bind_some read
  obtain ⟨itemIdMsg, _, -, read⟩ := bind_some read
  obtain ⟨peerAccessHash, _, -, read⟩ := bind_some read
  obtain ⟨path, _, found, read⟩ := bind_some read
  rw [checked] at read
  split at read
  · cases read
  · rename_i good
    cases type : downloadType code with
    | none =>
        rw [type] at read
        cases read
    | some type =>
        rw [type] at read
        cases read
        exact ⟨by dsimp only; omega, length_getString found⟩

theorem getEntries_saveable {count : Nat} {data rest : Bytes} (read : getEntries count data = some (list, rest)) :
    ∀ id ∈ list, Saveable id := by
  induction count generalizing data list with
  | zero =>
      cases read
      exact nofun
  | succ count ih =>
      obtain ⟨id, _, first, read⟩ := bind_some read
      obtain ⟨others, _, later, done⟩ := bind_some read
      cases done
      exact List.forall_mem_cons.mpr ⟨getEntry_saveable first, ih later⟩

theorem deserialize_saveable (data : Bytes) : ∀ id ∈ deserialize data, Saveable id := by
  unfold deserialize
  split
  · exact nofun
  · split
    · exact nofun
    · rename_i read
      obtain ⟨unsigned, _, -, read⟩ := bind_some read
      dsimp only at read
      split at read
      · cases read
      · exact getEntries_saveable read

theorem run_saveable {data : Bytes} {events : List Event} {d : SessionData}
    (reached : run (deserialize data) events = some d) : ∀ id ∈ d.downloaded, Saveable id := by
  induction events using List.reverseRecOn generalizing d with
  | nil =>
      cases reached
      exact deserialize_saveable data
  | append_singleton events event ih =>
      rw [run_snoc] at reached
      obtain ⟨before, known, result⟩ := Option.bind_eq_some_iff.mp reached
      exact step_saveable result (ih known)

/-- Exactly when no entry is marked, or every one, the list that is written is the one that is read back. -/
theorem deserialize_serializator_iff {data : Bytes} {events : List Event} {d : SessionData}
    (reached : run (deserialize data) events = some d) (few : d.downloaded.length < 100000) :
    deserialize (serializator d) = (d.downloaded.filter fun id => id.path ≠ []).map DownloadedId.saved ↔
      (∀ id ∈ d.downloaded, id.path ≠ []) ∨ ∀ id ∈ d.downloaded, id.path = [] := by
  rw [deserialize_serializator (run_saveable reached) few]
  split_ifs with all
  · rw [List.filter_eq_self.mpr fun id member => decide_eq_true (all id member)]
    exact iff_of_true rfl (.inl all)
  · rw [eq_comm, List.map_eq_nil_iff, List.filter_eq_nil_iff]
    simp [all]

/-! ## Two files -/

/-- Only one file is left. -/
def oneLeft : Outside where
  fileSize path := if path = [0x61] then some 1 else none
  message _ := none
  userPeerId := 1
  generateFakeItem id := { item := 1, document := some id.download.objectId }
  noPath := rfl

def lostFile : DownloadedId := { oneFile with path := [0x62] }

theorem saveable_file {path : QString} (short : path.length < 2 ^ 31) : Saveable { oneFile with path := path } :=
  ⟨⟨Nat.one_pos, (by decide : 1 ≤ kMaxFileSize)⟩, short⟩

theorem deserialize_one : deserialize (serializator (.track [oneFile])) = [oneFile] := by
  rw [deserialize_serializator (List.forall_mem_singleton.mpr (saveable_file (by decide))) (by decide)]
  rfl

theorem deserialize_two : deserialize (serializator (.track [lostFile, oneFile])) = [lostFile, oneFile] := by
  rw [deserialize_serializator (List.forall_mem_cons.mpr ⟨saveable_file (by decide),
    List.forall_mem_singleton.mpr (saveable_file (by decide))⟩) (by decide)]
  rfl

theorem one_file_restored :
    ∃ d, run (deserialize (serializator (.track [oneFile]))) [.loadedList oneByte] = some d ∧
      deserialize (serializator d) = (d.downloaded.filter fun id => id.path ≠ []).map DownloadedId.saved := by
  obtain ⟨d, known, list⟩ : ∃ d, run [oneFile] [.loadedList oneByte] = some d ∧ d.downloaded = [oneFile] :=
    ⟨_, rfl, by decide⟩
  rw [← deserialize_one] at known
  refine ⟨d, known, (deserialize_serializator_iff known ?_).mpr (.inl ?_)⟩
  · rw [list]
    decide
  · rw [list]
    decide

/-- The list is written while the answer for the other file is awaited. -/
theorem marked_list_lost :
    ∃ d, run (deserialize (serializator (.track [lostFile, oneFile]))) [.loadedList oneLeft] = some d ∧
      d.downloaded.length < 100000 ∧ oneFile ∈ d.downloaded ∧ oneFile.path ≠ [] ∧
      deserialize (serializator d) = [] := by
  rw [deserialize_two]
  refine ⟨_, rfl, by decide, by decide, by decide, ?_⟩
  rw [deserialize_serializator (List.forall_mem_cons.mpr ⟨saveable_file (by decide),
    List.forall_mem_singleton.mpr (saveable_file (by decide))⟩) (by decide)]
  rfl

end IMeDesktop.Data.Downloads
