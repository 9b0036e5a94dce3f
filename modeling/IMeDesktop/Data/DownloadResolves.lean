import IMeDesktop.Data.DownloadManager

/-! # Resolving stays inside the list

The entries before `resolveNeeded` wait for an object, and the others have one. A batch is the end of
those that wait: it is in flight, or there is none. All of this stays so while the list is resolved,
added to and while files are deleted, but not when the list is emptied, since the counters stay.
-/

namespace IMeDesktop.Data.Downloads

open Lib Ui

/-- An entry as it is saved. -/
def DownloadedId.saved (id : DownloadedId) : DownloadedId := { id with object := none }

@[simp]
theorem saved_object (id : DownloadedId) (object : Option DownloadObject) :
    DownloadedId.saved { id with object := object } = id.saved := rfl

/-- The entries of a kind, as they are saved. -/
def savedOf (kind : DownloadedId → Bool) (list : List DownloadedId) : List DownloadedId :=
  (list.map DownloadedId.saved).filter kind

/-- The files of a kind of entries have their sizes. -/
def HasFiles (outside : Outside) (kind : DownloadedId → Bool) : Prop :=
  ∀ id, kind id = true → outside.fileSize id.path = .some id.size

section Lists

variable {outside : Outside} {kind : DownloadedId → Bool} {id : DownloadedId}

@[simp]
theorem savedOf_append (kind : DownloadedId → Bool) (front back : List DownloadedId) :
    savedOf kind (front ++ back) = savedOf kind front ++ savedOf kind back := by
  simp only [savedOf, List.map_append, List.filter_append]

/-- An entry whose file is gone is of no kind with files. -/
theorem HasFiles.gone (files : HasFiles outside kind) (gone : outside.fileSize id.path ≠ some id.size) :
    savedOf kind [id] = [] := by
  have other : ¬kind id.saved = true := fun found => gone (files id.saved found)
  exact List.filter_cons_of_neg other

theorem HasFiles.noPath (files : HasFiles outside kind) (marked : id.path = []) : savedOf kind [id] = [] := by
  apply files.gone
  rw [marked, outside.noPath]
  exact nofun

/-- What becomes of a batch: it is removed, or gets an object. -/
theorem resolved_object (outside : Outside) (id : DownloadedId) :
    ∃ object, SessionData.resolved outside id = { id with object := some object } := by
  unfold SessionData.resolved
  split
  · exact ⟨_, rfl⟩
  · split_ifs
    · exact ⟨_, rfl⟩
    · exact ⟨_, rfl⟩
    · exact ⟨_, rfl⟩

end Lists

namespace SessionData

variable {d d' : SessionData} {outside : Outside} {kind : DownloadedId → Bool}

/-! ## The loops -/

theorem resolveBatch_spec (outside : Outside) (front batch loaded : List DownloadedId)
    (done : ∀ id ∈ loaded, id.object.isSome = true) (list : d.downloaded = front ++ batch ++ loaded)
    (needed : d.resolveNeeded = (front ++ batch).length) :
    ∃ loaded', resolveBatch outside batch.length d =
        some { d with
          downloaded := front ++ loaded', resolveNeeded := front.length
          resolveSentTotal := d.resolveSentTotal - batch.length } ∧
      (∀ id ∈ loaded', id.object.isSome = true) ∧
      ∀ kind, HasFiles outside kind → savedOf kind loaded' = savedOf kind (batch ++ loaded) := by
  induction batch using List.reverseRecOn generalizing d loaded with
  | nil =>
      refine ⟨loaded, ?_, done, fun _ _ => rfl⟩
      simp only [List.append_nil] at list needed
      rw [← list, ← needed]
      simp [resolveBatch]
  | append_singleton batch id ih =>
      have before : d.resolveNeeded - 1 = ((front ++ batch).length : Int) := by
        rw [needed]
        simp only [List.length_append, List.length_singleton]
        omega
      have place : d.downloaded[(front ++ batch).length]? = some id := by
        rw [list]
        simp
      rw [List.length_append, List.length_singleton, resolveBatch, before]
      dsimp only
      rw [if_neg (by omega), Int.toNat_natCast, place]
      dsimp only
      split
      · rename_i marked
        have left : d.downloaded.eraseIdx (front ++ batch).length = front ++ batch ++ loaded := by
          rw [list]
          simp [List.eraseIdx_append_of_length_le]
        obtain ⟨loaded', result, done', same⟩ := @ih
          { d with
            downloaded := d.downloaded.eraseIdx (front ++ batch).length
            resolveNeeded := (front ++ batch).length, resolveSentTotal := d.resolveSentTotal - 1 }
          loaded done left rfl
        refine ⟨loaded', ?_, done', fun kind files => ?_⟩
        · rw [result]
          simp only [Nat.cast_add, Nat.cast_one, Option.some.injEq, SessionData.mk.injEq, true_and, and_true]
          omega
        · rw [same kind files, List.append_assoc, savedOf_append, savedOf_append, savedOf_append,
            files.noPath marked, List.nil_append]
      · obtain ⟨object, eq⟩ := resolved_object outside id
        have left : d.downloaded.set (front ++ batch).length (resolved outside id) =
            front ++ batch ++ (resolved outside id :: loaded) := by
          rw [list]
          simp
        obtain ⟨loaded', result, done', same⟩ := @ih
          { d with
            downloaded := d.downloaded.set (front ++ batch).length (resolved outside id)
            resolveNeeded := (front ++ batch).length, resolveSentTotal := d.resolveSentTotal - 1 }
          (resolved outside id :: loaded) (by simpa [eq] using done) left rfl
        refine ⟨loaded', ?_, done', fun kind files => ?_⟩
        · rw [result]
          simp only [Nat.cast_add, Nat.cast_one, Option.some.injEq, SessionData.mk.injEq, true_and, and_true]
          omega
        · rw [same kind files, List.append_assoc, savedOf_append, savedOf_append]
          simp [savedOf, eq]

theorem resolveFrom_spec (outside : Outside) (waiting rest : List DownloadedId) (sent : Int)
    (prepared : SortedMap PeerId Prepared) (waits : ∀ id ∈ waiting, id.object = none) :
    ∃ waiting' sent' prepared',
      resolveFrom outside waiting.length (waiting ++ rest) sent prepared = some (waiting' ++ rest, sent', prepared') ∧
      waiting'.length = waiting.length ∧ (∀ id ∈ waiting', id.object = none) ∧
      (0 < waiting.length → sent < sent') ∧ sent ≤ sent' ∧ sent' ≤ sent + waiting.length ∧
      ∀ kind, HasFiles outside kind → savedOf kind waiting' = savedOf kind waiting := by
  induction waiting using List.reverseRecOn generalizing rest sent prepared with
  | nil => exact ⟨[], sent, prepared, rfl, rfl, nofun, nofun, le_rfl, by simp, fun _ _ => rfl⟩
  | append_singleton waiting id ih =>
      have place : (waiting ++ [id] ++ rest)[waiting.length]? = some id := by simp
      -- the entry, marked when its file is gone
      obtain ⟨marked, list, waits_marked, same_marked⟩ : ∃ marked : DownloadedId,
          (if decide (outside.fileSize id.path ≠ some id.size) then
              (waiting ++ [id] ++ rest).set waiting.length { id with path := [] }
            else waiting ++ [id] ++ rest) = waiting ++ marked :: rest ∧ marked.object = none ∧
          ∀ kind, HasFiles outside kind → savedOf kind [marked] = savedOf kind [id] := by
        have waits_id := waits id (by simp)
        by_cases gone : outside.fileSize id.path ≠ some id.size
        · refine ⟨{ id with path := [] }, ?_, waits_id, fun kind files => ?_⟩
          · rw [if_pos (decide_eq_true gone)]
            simp
          · rw [files.gone gone, files.noPath rfl]
        · refine ⟨id, ?_, waits_id, fun _ _ => rfl⟩
          rw [if_neg (by simpa using gone), List.append_assoc]
          rfl
      rw [List.length_append, List.length_singleton, resolveFrom, place]
      dsimp only
      rw [list]
      generalize (if !decide (outside.fileSize id.path ≠ some id.size) && (outside.message id.itemId).isNone &&
        IsServerMsgId id.itemId.msg then prepare outside prepared id else prepared) = asked
      split
      · refine ⟨waiting ++ [marked], sent + 1, asked, ?_, by simp, ?_, fun _ => Int.lt_succ sent, by omega, by omega, ?_⟩
        · rw [List.append_assoc]
          rfl
        · grind
        · intro kind files
          rw [savedOf_append, savedOf_append, same_marked kind files]
      · obtain ⟨waiting', sent', prepared', result, length, waits', -, above, below, same⟩ :=
          ih (marked :: rest) (sent + 1) asked (fun x member => waits x (List.mem_append_left _ member))
        refine ⟨waiting' ++ [marked], sent', prepared', ?_, by simp [length], ?_, fun _ => by omega, by omega,
          by push_cast; omega, ?_⟩
        · rw [result, List.append_assoc]
          rfl
        · grind
        · intro kind files
          rw [savedOf_append, savedOf_append, same kind files, same_marked kind files]

/-! ## The invariant -/

/-- The counters fit the list and the requests. -/
structure Batched (d : SessionData) : Prop where
  divided : ∃ waiting loaded, d.downloaded = waiting ++ loaded ∧ d.resolveNeeded = waiting.length ∧
    (∀ id ∈ waiting, id.object = none) ∧ ∀ id ∈ loaded, id.object.isSome = true
  started : 0 ≤ d.resolveSentTotal
  inside : d.resolveSentTotal ≤ d.resolveNeeded
  requests : d.resolveSentRequests = d.inFlight.length

/-- There is no batch without requests in flight. -/
structure Resolving (d : SessionData) : Prop extends Batched d where
  idle : d.inFlight = [] → d.resolveSentTotal = 0

/-- Resolving goes on by itself. -/
def Going (d : SessionData) : Prop := 0 < d.resolveNeeded → d.inFlight ≠ [] ∨ 0 < d.posted

theorem resolving_track {saved : List DownloadedId} (fresh : ∀ id ∈ saved, id.object = none) :
    Resolving (track saved) where
  divided := ⟨saved, [], (List.append_nil _).symm, rfl, fresh, nofun⟩
  started := le_rfl
  inside := Int.natCast_nonneg _
  requests := rfl
  idle _ := rfl

/-- The result of an operation that goes on, and keeps the entries of a kind with files. -/
def GoesOn (outside : Outside) (d : SessionData) (result : Option SessionData) : Prop :=
  ∃ d', result = some d' ∧ Resolving d' ∧ Going d' ∧
    ∀ kind, HasFiles outside kind → savedOf kind d'.downloaded = savedOf kind d.downloaded

theorem Batched.check (batched : Batched d) (outside : Outside) : GoesOn outside d (d.check outside) := by
  obtain ⟨⟨waiting, loaded, list, needed, waits, done⟩, started, inside, requests⟩ := batched
  unfold SessionData.check
  split
  · rename_i none
    -- the batch is the end of the entries that wait
    obtain ⟨front, batch, rfl, size⟩ : ∃ front batch, waiting = front ++ batch ∧
        batch.length = d.resolveSentTotal.toNat := by
      refine ⟨waiting.take (waiting.length - d.resolveSentTotal.toNat),
        waiting.drop (waiting.length - d.resolveSentTotal.toNat), (List.take_append_drop _ _).symm, ?_⟩
      rw [List.length_drop]
      omega
    obtain ⟨loaded', result, done', same⟩ := resolveBatch_spec outside front batch loaded done list needed
    have total : d.resolveSentTotal - batch.length = 0 := by omega
    rw [resolveRequestsFinished, ← size, result, total]
    refine ⟨_, rfl, ⟨⟨⟨front, loaded', rfl, rfl, ?_, done'⟩, le_rfl, Int.natCast_nonneg _, requests⟩, fun _ => rfl⟩,
      fun _ => .inr (Nat.succ_pos _), fun kind files => ?_⟩
    · exact fun id member => waits id (List.mem_append_left _ member)
    · simp only [list, savedOf_append, same kind files, List.append_assoc]
  · rename_i flying
    have nonempty : d.inFlight ≠ [] := by
      intro none
      rw [none] at requests
      exact flying requests
    exact ⟨d, rfl, ⟨⟨⟨waiting, loaded, list, needed, waits, done⟩, started, inside, requests⟩,
      fun none => absurd none nonempty⟩, fun _ => .inl nonempty, fun _ _ => rfl⟩

theorem Resolving.resolveSome (resolving : Resolving d) (outside : Outside) :
    GoesOn outside d (d.resolveSome outside) := by
  obtain ⟨⟨⟨waiting, loaded, list, needed, waits, done⟩, started, inside, requests⟩, idle⟩ := id resolving
  unfold SessionData.resolveSome
  split
  · rename_i sent
    refine ⟨d, rfl, resolving, fun positive => ?_, fun _ _ => rfl⟩
    left
    intro none
    have nothing := idle none
    unfold kMaxResolvePerAttempt at sent
    omega
  · rename_i more
    obtain ⟨front, batch, rfl, size⟩ : ∃ front batch, waiting = front ++ batch ∧
        front.length = (d.resolveNeeded - d.resolveSentTotal).toNat := by
      refine ⟨waiting.take (d.resolveNeeded - d.resolveSentTotal).toNat,
        waiting.drop (d.resolveNeeded - d.resolveSentTotal).toNat, (List.take_append_drop _ _).symm, ?_⟩
      rw [List.length_take]
      omega
    obtain ⟨front', sent', prepared', result, length, waits', -, above, below, same⟩ :=
      resolveFrom_spec outside front (batch ++ loaded) d.resolveSentTotal .empty
        (fun id member => waits id (List.mem_append_left _ member))
    rw [← size, list, List.append_assoc, result]
    have batched : Batched
        { d with
          downloaded := front' ++ (batch ++ loaded), resolveSentTotal := sent'
          resolveSentRequests := d.resolveSentRequests + prepared'.size
          inFlight := d.inFlight ++ prepared'.entries } := by
      refine ⟨⟨front' ++ batch, loaded, (List.append_assoc _ _ _).symm, ?_, ?_, done⟩, by dsimp only; omega, ?_, ?_⟩
      · dsimp only
        rw [needed, List.length_append, List.length_append, length]
      · intro id member
        rcases List.mem_append.mp member with inFront | inBatch
        · exact waits' id inFront
        · exact waits id (List.mem_append_right _ inBatch)
      · dsimp only
        omega
      · dsimp only
        rw [requests, List.length_append, SortedMap.size, Nat.cast_add]
    obtain ⟨d', checked, resolving', going', kinds⟩ := batched.check outside
    refine ⟨d', checked, resolving', going', fun kind files => ?_⟩
    rw [kinds kind files]
    simp only [list, savedOf_append, same kind files, List.append_assoc]

theorem checkFullResolveDone_eq (d : SessionData) :
    ∃ done, d.checkFullResolveDone = { d with loadedResolveDone := done } := by
  unfold checkFullResolveDone
  split_ifs
  · exact ⟨d.loadedResolveDone, rfl⟩
  · exact ⟨true, rfl⟩

theorem Resolving.resolve (resolving : Resolving d) (outside : Outside) : GoesOn outside d (d.resolve outside) := by
  obtain ⟨d', result, ⟨⟨divided, started, inside, requests⟩, idle⟩, going, same⟩ := resolving.resolveSome outside
  obtain ⟨done, eq⟩ := checkFullResolveDone_eq d'
  refine ⟨{ d' with loadedResolveDone := done }, ?_, ⟨⟨divided, started, inside, requests⟩, idle⟩, going, same⟩
  rw [SessionData.resolve, result, ← eq]
  rfl

theorem Resolving.requestFinished (resolving : Resolving d) (outside : Outside) {index : Nat}
    (flying : index < d.inFlight.length) : GoesOn outside d (d.requestFinished outside index) := by
  obtain ⟨⟨divided, started, inside, requests⟩, -⟩ := resolving
  have batched : Batched
      { d with resolveSentRequests := d.resolveSentRequests - 1, inFlight := d.inFlight.eraseIdx index } := by
    refine ⟨divided, started, inside, ?_⟩
    dsimp only
    rw [List.length_eraseIdx_of_lt flying, requests]
    omega
  exact batched.check outside

/-! ## Other changes -/

/-- Only entries that have an object are added. -/
theorem addLoaded_eq (outside : Outside) (d : SessionData) (object : DownloadObject) (path : QString) (started : Int64)
    (itemId : FullMsgId) (peerAccessHash : UInt64) :
    ∃ added, d.addLoaded outside object path started itemId peerAccessHash =
      { d with downloaded := d.downloaded ++ added } ∧ ∀ id ∈ added, id.object.isSome = true := by
  unfold addLoaded
  dsimp only
  split
  · exact ⟨[], by rw [List.append_nil], nofun⟩
  · exact ⟨_, rfl, fun id member => by rw [List.mem_singleton.mp member]; rfl⟩

theorem Resolving.added (resolving : Resolving d) {added : List DownloadedId}
    (objects : ∀ id ∈ added, id.object.isSome = true) : Resolving { d with downloaded := d.downloaded ++ added } := by
  obtain ⟨⟨⟨waiting, loaded, list, needed, waits, done⟩, started, inside, requests⟩, idle⟩ := resolving
  refine ⟨⟨⟨waiting, loaded ++ added, ?_, needed, waits, ?_⟩, started, inside, requests⟩, idle⟩
  · dsimp only
    rw [list, List.append_assoc]
  · intro id member
    rcases List.mem_append.mp member with member | member
    · exact done id member
    · exact objects id member

/-- An entry that waits has no item, so it is not deleted. -/
theorem Resolving.deleteFile (resolving : Resolving d) (item : Nat) :
    Resolving (d.deleteFile item) ∧ (Going d → Going (d.deleteFile item)) := by
  obtain ⟨⟨⟨waiting, loaded, list, needed, waits, done⟩, started, inside, requests⟩, idle⟩ := id resolving
  unfold SessionData.deleteFile
  split
  · exact ⟨resolving, id⟩
  · rename_i k found
    refine ⟨⟨⟨⟨waiting, loaded.eraseIdx (k - waiting.length), ?_, needed, waits, ?_⟩, started, inside, requests⟩,
      idle⟩, id⟩
    · have later : waiting.length ≤ k := by
        by_contra early
        obtain ⟨bound, holds, -⟩ := List.findIdx?_eq_some_iff_getElem.mp found
        have place : d.downloaded[k] = waiting[k] := by
          simp only [list]
          exact List.getElem_append_left (Nat.lt_of_not_le early)
        rw [place, waits _ (List.getElem_mem _)] at holds
        cases holds
      rw [list, List.eraseIdx_append_of_length_le later]
    · exact fun id member => done id ((List.eraseIdx_sublist _ _).subset member)

theorem Resolving.deleteFiles (resolving : Resolving d) (items : List Nat) :
    Resolving (d.deleteFiles items) ∧ (Going d → Going (d.deleteFiles items)) := by
  induction items generalizing d with
  | nil => exact ⟨resolving, id⟩
  | cons item rest ih =>
      obtain ⟨resolving', going⟩ := resolving.deleteFile item
      obtain ⟨resolving', going'⟩ := ih resolving'
      exact ⟨resolving', going' ∘ going⟩

/-- The list is emptied when no entry waits. -/
theorem Resolving.deleteAll (resolving : Resolving d) (none : d.resolveNeeded = 0) :
    Resolving d.deleteAll ∧ Going d.deleteAll := by
  obtain ⟨⟨-, started, inside, requests⟩, idle⟩ := resolving
  exact ⟨⟨⟨⟨[], [], rfl, none, nofun, nofun⟩, started, inside, requests⟩, idle⟩,
    fun some => absurd some (by simp [SessionData.deleteAll, none])⟩

end SessionData

/-! ## Runs -/

open SessionData

variable {saved : List DownloadedId} {events : List Event} {d : SessionData}

def Event.asks : Event → Bool
  | .loadedList _ => true
  | _ => false

/-- The files of a kind have their sizes where they are looked at, and no entry of the kind is deleted. -/
def Event.Spares (kind : DownloadedId → Bool) (d : SessionData) : Event → Prop
  | .loadedList outside => HasFiles outside kind
  | .answered outside _ => HasFiles outside kind
  | .onMain outside => HasFiles outside kind
  | .addLoaded .. => True
  | .deleteFiles items => savedOf kind (d.deleteFiles items).downloaded = savedOf kind d.downloaded
  | .deleteAll => savedOf kind d.downloaded = []

/-- All is deleted only when no entry waits. -/
def Event.Waits (d : SessionData) (event : Event) : Prop := event = .deleteAll → d.resolveNeeded = 0

theorem SessionData.Resolving.step (resolving : Resolving d) {event : Event} (waits : event.Waits d) :
    ∃ d', step d event = some d' ∧ Resolving d' ∧ (Going d ∨ event.asks = true → Going d') ∧
      ∀ kind, event.Spares kind d → (savedOf kind d.downloaded).Sublist (savedOf kind d'.downloaded) := by
  have goesOn {outside : Outside} {d : SessionData} {result} (known : GoesOn outside d result) (goes : Prop) :
      ∃ d', result = some d' ∧ Resolving d' ∧ (goes → Going d') ∧
        ∀ kind, HasFiles outside kind → (savedOf kind d.downloaded).Sublist (savedOf kind d'.downloaded) := by
    obtain ⟨d', eq, resolving', going, same⟩ := known
    exact ⟨d', eq, resolving', fun _ => going, fun kind files => (same kind files).symm ▸ .refl _⟩
  cases event with
  | loadedList outside => exact goesOn (resolving.resolve outside) _
  | answered outside index =>
      rw [Downloads.step]
      split
      · rename_i flying
        exact goesOn (resolving.requestFinished outside flying) _
      · exact ⟨d, rfl, resolving, fun going => going.resolve_right nofun, fun _ _ => .refl _⟩
  | onMain outside =>
      rw [Downloads.step]
      split
      · obtain ⟨⟨divided, started, inside, requests⟩, idle⟩ := resolving
        have taken : Resolving { d with posted := d.posted - 1 } := ⟨⟨divided, started, inside, requests⟩, idle⟩
        exact goesOn (taken.resolve outside) _
      · exact ⟨d, rfl, resolving, fun going => going.resolve_right nofun, fun _ _ => .refl _⟩
  | addLoaded outside object path started itemId peerAccessHash fits =>
      obtain ⟨added, eq, objects⟩ := addLoaded_eq outside d object path started itemId peerAccessHash
      refine ⟨_, congrArg some eq, resolving.added objects, fun going => going.resolve_right nofun, fun kind _ => ?_⟩
      rw [savedOf_append]
      exact List.sublist_append_left _ _
  | deleteFiles items =>
      obtain ⟨resolving', going'⟩ := resolving.deleteFiles items
      exact ⟨_, rfl, resolving', fun going => going' (going.resolve_right nofun), fun kind spared => spared ▸ .refl _⟩
  | deleteAll =>
      obtain ⟨resolving', going'⟩ := resolving.deleteAll (waits rfl)
      exact ⟨_, rfl, resolving', fun _ => going', fun kind none => none.symm ▸ List.nil_sublist _⟩

/-- Something is asked of every event, in the state it finds. -/
def Every (asked : SessionData → Event → Prop) (saved : List DownloadedId) (events : List Event) : Prop :=
  EveryStep next (fun s event => ∀ d, s = some d → asked d event) (some (.track saved)) events

theorem every_snoc {asked : SessionData → Event → Prop} {event : Event} :
    Every asked saved (events ++ [event]) ↔
      Every asked saved events ∧ ∀ d, run saved events = some d → asked d event := by
  rw [Every, EveryStep.append]
  exact and_congr_right fun _ => and_iff_left trivial

theorem run_snoc (event : Event) : run saved (events ++ [event]) = next (run saved events) event :=
  List.foldl_concat ..

theorem run_resolving (fresh : ∀ id ∈ saved, id.object = none) (every : Every (fun d event => event.Waits d) saved events) :
    ∃ d, run saved events = some d ∧ Resolving d ∧ (events.any Event.asks = true → Going d) ∧
      ∀ kind, Every (fun d event => event.Spares kind d) saved events →
        (savedOf kind saved).Sublist (savedOf kind d.downloaded) := by
  induction events using List.reverseRecOn with
  | nil => exact ⟨.track saved, rfl, resolving_track fresh, nofun, fun _ _ => .refl _⟩
  | append_singleton events event ih =>
      obtain ⟨before, waits⟩ := every_snoc.mp every
      obtain ⟨d, known, resolving, going, kinds⟩ := ih before
      obtain ⟨d', result, resolving', going', kinds'⟩ := resolving.step (waits d known)
      refine ⟨d', ?_, resolving', fun asked => going' ?_, fun kind spared => ?_⟩
      · rw [run_snoc, known]
        exact result
      · rw [List.any_append, Bool.or_eq_true] at asked
        exact asked.imp going (by simp)
      · obtain ⟨first, last⟩ := every_snoc.mp spared
        exact (kinds kind first).trans (kinds' kind (last d known))

/-- What is promised after some events: the counters are inside the list, and once nothing is to come the entries
that were saved have objects, but for those that were deleted and those whose files did not have their sizes. -/
structure Promised (saved : List DownloadedId) (events : List Event) (d : SessionData) : Prop where
  started : 0 ≤ d.resolveSentTotal
  inside : d.resolveSentTotal ≤ d.resolveNeeded
  bounded : d.resolveNeeded ≤ d.downloaded.length
  resolved : events.any Event.asks = true → d.inFlight = [] → d.posted = 0 →
    (∀ id ∈ d.downloaded, id.object.isSome = true) ∧
      ∀ kind, Every (fun d event => event.Spares kind d) saved events →
        (savedOf kind saved).Sublist (savedOf kind d.downloaded)

theorem run_promised (fresh : ∀ id ∈ saved, id.object = none)
    (every : Every (fun d event => event.Waits d) saved events) :
    ∃ d, run saved events = some d ∧ Promised saved events d := by
  obtain ⟨d, known, ⟨⟨⟨waiting, loaded, list, needed, -, done⟩, started, inside, -⟩, idle⟩, going, kinds⟩ :=
    run_resolving fresh every
  refine ⟨d, known, started, inside, ?_, fun asked none settled => ⟨?_, kinds⟩⟩
  · rw [list, needed, List.length_append]
    omega
  · have nobody : waiting = [] := by
      rw [← List.length_eq_zero_iff]
      by_contra some
      rcases going asked (by omega) with flying | posted
      · exact flying none
      · omega
    rw [list, nobody, List.nil_append]
    exact done

/-- Exactly when all is deleted only while no entry waits, every access is inside the list and every state is as
promised. -/
theorem run_promised_iff (saved : List DownloadedId) (events : List Event) (fresh : ∀ id ∈ saved, id.object = none) :
    (∀ front, front <+: events → ∃ d, run saved front = some d ∧ Promised saved front d) ↔
      Every (fun d event => event = .deleteAll → d.resolveNeeded = 0) saved events := by
  constructor
  · intro always
    induction events using List.reverseRecOn with
    | nil => trivial
    | append_singleton events event ih =>
        refine every_snoc.mpr ⟨ih fun front part => always front (part.trans (List.prefix_append _ _)), ?_⟩
        rintro d known rfl
        obtain ⟨d', result, started, inside, bounded, -⟩ := always _ List.prefix_rfl
        rw [run_snoc, known] at result
        cases result
        exact le_antisymm bounded (started.trans inside)
  · rintro every front ⟨rest, rfl⟩
    exact run_promised fresh (EveryStep.append.mp every).1

/-! ## One file -/

/-- Every file has a byte, and no message is known. -/
def oneByte : Outside where
  fileSize path := if path = [] then none else some 1
  message _ := none
  userPeerId := 1
  generateFakeItem id := { item := 1, document := some id.download.objectId }
  noPath := rfl

def oneFile : DownloadedId where
  download := ⟨1, .document⟩
  started := 0
  path := [0x61]
  size := 1
  itemId := ⟨1, 1⟩
  peerAccessHash := 0

theorem one_file_promised :
    ∃ d, run [oneFile] [.loadedList oneByte, .answered oneByte 0, .onMain oneByte, .deleteAll] = some d ∧
      Promised [oneFile] [.loadedList oneByte, .answered oneByte 0, .onMain oneByte, .deleteAll] d :=
  (run_promised_iff [oneFile] [.loadedList oneByte, .answered oneByte 0, .onMain oneByte, .deleteAll]
    (by decide)).mpr ⟨nofun, nofun, nofun, fun d known _ => by cases known; rfl, trivial⟩ _ List.prefix_rfl

/-- The list is emptied while a request is in flight: the answer is for an entry outside of it. -/
theorem emptied_list_overrun :
    (∃ d, run [oneFile] [.loadedList oneByte, .deleteAll] = some d ∧ ¬d.resolveNeeded ≤ d.downloaded.length) ∧
      run [oneFile] [.loadedList oneByte, .deleteAll, .answered oneByte 0] = none :=
  ⟨⟨_, rfl, by decide⟩, by decide⟩

end IMeDesktop.Data.Downloads
