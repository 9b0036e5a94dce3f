import IMeDesktop.Data.DownloadLoaded
import IMeDesktop.Lib.Runs

/-! # Download progress

In every run the totals are the sums over the entries, the messages of the entries are kept apart by whether they are
done, and what is checked through the filters is there.
-/

namespace IMeDesktop.Data.Loading

open Lib Ui Downloads

variable {w : World} {o : Outside} {m m' : DownloadManager} {session : Session} {data : SessionData}

namespace DownloadManager

/-! ## What comes -/

def tracked (m : DownloadManager) (session : Session) : Bool := (m.sessions.find? session).isSome

/-- A session is tracked when it is made, with downloads that were read and have no objects. What is loaded belongs to a
session that is tracked, and a document to the session of its message. A generated message is a new one, in the history
of the one that it replaces. -/
def Allowed (w : World) (o : Outside) (m : DownloadManager) : Step → Prop
  | .trackSession session saved => m.tracked session = false ∧ ∀ id ∈ saved, id.object = none
  | .untrack session => m.tracked session = true
  | .addLoading object => m.tracked (w.itemSession object.item) = true ∧
      (object.document.any fun document => w.documentSession document = w.itemSession object.item) = true
  | .addLoaded object _ _ => m.tracked (w.itemSession object.item) = true ∧
      (object.document ≠ none ∨ object.photo ≠ none)
  | .changed item => o.makeMessage ≠ item ∧ w.itemSession o.makeMessage = w.itemSession item
  | .removed item => o.makeMessage ≠ item ∧ w.itemSession o.makeMessage = w.itemSession item
  | _ => True

instance Allowed.decidable (w : World) (o : Outside) (m : DownloadManager) : (step : Step) →
    Decidable (m.Allowed w o step)
  | .trackSession session saved =>
      inferInstanceAs (Decidable (m.tracked session = false ∧ ∀ id ∈ saved, id.object = none))
  | .untrack session => inferInstanceAs (Decidable (m.tracked session = true))
  | .addLoading object => inferInstanceAs (Decidable (m.tracked (w.itemSession object.item) = true ∧
      (object.document.any fun document => w.documentSession document = w.itemSession object.item) = true))
  | .addLoaded object _ _ => inferInstanceAs (Decidable (m.tracked (w.itemSession object.item) = true ∧
      (object.document ≠ none ∨ object.photo ≠ none)))
  | .changed item =>
      inferInstanceAs (Decidable (o.makeMessage ≠ item ∧ w.itemSession o.makeMessage = w.itemSession item))
  | .removed item =>
      inferInstanceAs (Decidable (o.makeMessage ≠ item ∧ w.itemSession o.makeMessage = w.itemSession item))
  | .documentLoadProgress _ => .isTrue trivial
  | .itemLayoutChanged _ => .isTrue trivial
  | .deleteLoading _ => .isTrue trivial
  | .deleteLoaded _ => .isTrue trivial
  | .cancelLast _ => .isTrue trivial
  | .takeDownloaded _ => .isTrue trivial
  | .timerFires => .isTrue trivial

/-- A condition on the steps that are made, which a failure ends. -/
def Meets (condition : Outside → DownloadManager → Step → Prop) (s : Except Failure DownloadManager)
    (e : Outside × Step) : Prop :=
  match s with
  | .error _ => True
  | .ok m => condition e.1 m e.2

instance Meets.decidable {condition : Outside → DownloadManager → Step → Prop}
    [∀ o m step, Decidable (condition o m step)] : (s : Except Failure DownloadManager) → (e : Outside × Step) →
    Decidable (Meets condition s e)
  | .error _, _ => .isTrue trivial
  | .ok m, e => inferInstanceAs (Decidable (condition e.1 m e.2))

/-- The steps are made one after another. -/
abbrev Run (w : World) (condition : Outside → DownloadManager → Step → Prop) (events : List (Outside × Step)) : Prop :=
  EveryStep (advance w) (Meets condition) (.ok {}) events

abbrev run (w : World) (events : List (Outside × Step)) : Except Failure DownloadManager :=
  events.foldl (advance w) (.ok {})

theorem exists_tracked (tracked : m.tracked session = true) : ∃ data, m.sessions.find? session = some data :=
  Option.isSome_iff_exists.mp tracked

/-! ## Steps -/

/-- What always holds. -/
structure Kept (w : World) (m : DownloadManager) : Prop where
  accounts : Accounts w m
  inside : LoadedInside w m

/-- Moves, and changes elsewhere. -/
abbrev Follows (w : World) (o : Outside) : DownloadManager → DownloadManager → Prop :=
  Relation.ReflTransGen fun m m' => Move w o m m' ∨ SameLoading m m'

theorem Moves.follows (moves : Moves w o m m') : Follows w o m m' :=
  Relation.ReflTransGen.mono (fun _ _ => Or.inl) m m' moves

theorem SameLoading.follows (same : SameLoading m m') : Follows w o m m' := .single (.inr same)

theorem Follows.accounts (follows : Follows w o m m') (accounts : Accounts w m) : Accounts w m' := by
  induction follows with
  | refl => exact accounts
  | tail _ change ih =>
      rcases change with move | same
      · exact move.accounts ih
      · exact same.accounts ih

theorem Pushes.accounts {object : DownloadObject} {document : DocumentData} {m₁ : DownloadManager}
    (pushes : Pushes w o m object document m₁ data m') (accounts : Accounts w m) : Accounts w m' := by
  have fresh := fun other member => (pushes.fresh other member).2
  exact pushes.after.accounts
    (pushLoading_accounts (pushes.before.accounts accounts) pushes.tracked fresh pushes.shows pushes.same)

theorem Pushes.inside {object : DownloadObject} {document : DocumentData} {m₁ : DownloadManager}
    (pushes : Pushes w o m object document m₁ data m') (loaded : LoadedInside w m) : LoadedInside w m' :=
  pushes.after.inside ((pushLoading_same pushes.tracked object document).inside (pushes.before.inside loaded))

theorem Pushes.all {object : DownloadObject} {document : DocumentData} {m₁ : DownloadManager}
    (pushes : Pushes w o m object document m₁ data m') (all : AllLoaded m) : AllLoaded m' :=
  pushes.after.all ((pushLoading_same pushes.tracked object document).all (pushes.before.all all))

/-- What a step does to the entries. -/
def Outcome (w : World) (o : Outside) (m : DownloadManager) (step : Step) (m' : DownloadManager) : Prop :=
  Follows w o m m' ∨ ∃ object document m₁ data, step = .addLoading object ∧ Pushes w o m object document m₁ data m'

/-- What `changed` and `removed` begin with. -/
theorem detachLoaded_kept (kept : Kept w m) (leaves : DownloadObject → Bool) {item : HistoryItem}
    (placed : w.itemSession o.makeMessage = w.itemSession item) :
    m.detachLoaded w o leaves item = .error .generated ∨
      ∃ m', m.detachLoaded w o leaves item = .ok m' ∧ SameLoading m m' ∧ LoadedInside w m' := by
  rcases @detachLoaded_spec w o m kept.inside leaves item with
    ⟨-, stays⟩ | ⟨-, data, i, id, object, tracked, here, refers, rfl, detaches⟩
  · exact .inr ⟨m, stays, .refl m, kept.inside⟩
  · rw [detaches]
    split_ifs
    · exact .inl rfl
    · exact .inr ⟨_, rfl, detached_same tracked, detached_inside tracked here refers kept.inside placed⟩

theorem changed_kept (kept : Kept w m) {item : HistoryItem}
    (placed : w.itemSession o.makeMessage = w.itemSession item) :
    m.changed w o item = .error .generated ∨
      ∃ m', m.changed w o item = .ok m' ∧ LoadedInside w m' ∧ Follows w o m m' := by
  unfold changed
  rcases detachLoaded_kept kept (o.replaced item) placed with fails | ⟨m₁, detaches, same, inside⟩
  · rw [fails]
    exact .inl rfl
  · simp only [detaches, bind, Except.bind]
    refine .inr ?_
    split_ifs with known
    · obtain ⟨m', checks, moves⟩ := @checkItem_spec w o m₁ (same.accounts kept.accounts) item known
      exact ⟨m', checks, moves.inside inside, same.follows.trans moves.follows⟩
    · exact ⟨m₁, rfl, inside, same.follows⟩

theorem removed_kept (kept : Kept w m) {item : HistoryItem}
    (placed : w.itemSession o.makeMessage = w.itemSession item) :
    m.removed w o item = .error .generated ∨
      ∃ m', m.removed w o item = .ok m' ∧ LoadedInside w m' ∧ Follows w o m m' := by
  unfold removed
  rcases detachLoaded_kept kept (fun _ => true) placed with fails | ⟨m₁, detaches, same, inside⟩
  · rw [fails]
    exact .inl rfl
  · simp only [detaches, bind, Except.bind]
    refine .inr ?_
    split_ifs with known
    · obtain ⟨data, i, entry, found, -, here⟩ := (same.accounts kept.accounts).find_item known
      have removes : Moves w o m₁ _ := .single (.remove here)
      simp only [sessionData_eq here.tracked, found]
      exact ⟨_, rfl, removes.inside inside, same.follows.trans removes.follows⟩
    · exact ⟨m₁, rfl, inside, same.follows⟩

/-- No single download is taken out or detached. -/
def Quiet : Step → Prop
  | .changed _ => False
  | .removed _ => False
  | .deleteLoaded _ => False
  | _ => True

/-- A step that is allowed only fails when a message that was generated is to be replaced. -/
theorem step_kept (kept : Kept w m) {step : Step} (allowed : m.Allowed w o step) :
    m.step w o step = .error .generated ∧ ¬Quiet step ∨
      ∃ m', m.step w o step = .ok m' ∧ LoadedInside w m' ∧ (Quiet step → AllLoaded m → AllLoaded m') ∧
        Outcome w o m step m' := by
  have moved : ∀ {m' : DownloadManager}, Moves w o m m' →
      LoadedInside w m' ∧ (Quiet step → AllLoaded m → AllLoaded m') ∧ Outcome w o m step m' :=
    fun moves => ⟨moves.inside kept.inside, fun _ all => moves.all all, .inl moves.follows⟩
  cases step with
  | trackSession session saved =>
      have fresh : m.sessions.find? session = none := Option.isNone_iff_eq_none.mp (by simpa [tracked] using allowed.1)
      obtain ⟨inside, all⟩ := @trackSession_loaded w session m saved fresh allowed.2
      exact .inr ⟨_, rfl, inside kept.inside, fun _ => all, .inl (trackSession_same m session saved).follows⟩
  | untrack session =>
      obtain ⟨data, tracked⟩ := exists_tracked allowed
      obtain ⟨m₁, m₂, moves, first, result, last, rfl, rfl⟩ := @untrack_spec w o m session data tracked
      have went := untrack_went tracked
      exact .inr ⟨_, result, went.inside kept.inside, fun _ => went.all_of_whole tracked kept.inside,
        .inl (first.follows.trans (moves.follows.trans last.follows))⟩
  | addLoading object =>
      obtain ⟨data, tracked⟩ := exists_tracked allowed.1
      have shows : ∃ document, object.document = some document ∧
          w.documentSession document = w.itemSession object.item := by
        simpa only [Option.any_eq_true, decide_eq_true_eq] using allowed.2
      obtain ⟨m', adds, moves | ⟨document, m₁, data, pushes⟩⟩ :=
        @addLoading_spec w o m kept.accounts object ⟨shows, data, tracked⟩
      · exact .inr ⟨m', adds, moved moves⟩
      · exact .inr ⟨m', adds, pushes.inside kept.inside, fun _ => pushes.all,
          .inr ⟨object, document, m₁, data, rfl, pushes⟩⟩
  | addLoaded object path started =>
      obtain ⟨data, tracked⟩ := exists_tracked allowed.1
      obtain ⟨m', adds, moves, -⟩ := addLoaded_spec kept.accounts tracked allowed.2 path started
      exact .inr ⟨m', adds, moved moves⟩
  | documentLoadProgress document =>
      refine .inr ?_
      simp only [DownloadManager.step]
      split_ifs with watched
      · obtain ⟨m', checks, moves⟩ := @checkDocument_spec w o m kept.accounts document watched
        exact ⟨m', checks, moved moves⟩
      · exact ⟨m, rfl, moved .refl⟩
  | itemLayoutChanged item =>
      refine .inr ?_
      simp only [DownloadManager.step]
      split_ifs with loads
      · obtain ⟨m', checks, moves⟩ := @checkItem_spec w o m kept.accounts item (.inl loads)
        exact ⟨m', checks, moved moves⟩
      · exact ⟨m, rfl, moved .refl⟩
  | changed item =>
      rcases changed_kept kept allowed.2 with fails | ⟨m', changes, inside, follows⟩
      · exact .inl ⟨fails, id⟩
      · exact .inr ⟨m', changes, inside, False.elim, .inl follows⟩
  | removed item =>
      rcases removed_kept kept allowed.2 with fails | ⟨m', removes, inside, follows⟩
      · exact .inl ⟨fails, id⟩
      · exact .inr ⟨m', removes, inside, False.elim, .inl follows⟩
  | deleteLoading item => exact .inr ⟨_, rfl, moved (deleteLoading_moves m item)⟩
  | deleteLoaded item =>
      exact .inr ⟨_, rfl, deleteLoaded_inside kept.inside item, False.elim, .inl (deleteLoaded_same w m item).follows⟩
  | cancelLast session => exact .inr ⟨_, rfl, moved (removeLast_moves m session)⟩
  | takeDownloaded session =>
      obtain ⟨inside, all⟩ := takeDownloaded_loaded kept.inside session
      exact .inr ⟨_, rfl, inside, fun _ => all, .inl (takeDownloaded_same m session).follows⟩
  | timerFires =>
      refine .inr ?_
      obtain ⟨m₁, m', fires, rfl | rfl, moves⟩ := @timerFires_spec w o m kept.accounts
      · exact ⟨m', fires, moved moves⟩
      · have stopped : SameLoading m { m with clearLoadingTimer := false } := { SameLoading.refl m with timer := nofun }
        have inside : LoadedInside w { m with clearLoadingTimer := false } := ⟨kept.inside.inside, kept.inside.placed⟩
        exact ⟨m', fires, moves.inside inside, fun _ => moves.all, .inl (stopped.follows.trans moves.follows)⟩

theorem Outcome.accounts {step : Step} (outcome : Outcome w o m step m') (accounts : Accounts w m) :
    Accounts w m' := by
  rcases outcome with follows | ⟨object, document, m₁, data, -, pushes⟩
  · exact follows.accounts accounts
  · exact pushes.accounts accounts

/-! ## Runs -/

theorem kept_start (w : World) : Kept w {} := by
  have empty : ∀ session, ({} : DownloadManager).downloadedOf session = [] := fun _ => rfl
  refine ⟨⟨⟨rfl, rfl, .nil, fun item => ?_, fun item => ?_, nofun, nofun, nofun⟩, nofun⟩, nofun, ?_⟩
  · exact iff_of_false (FlatSet.not_mem_empty item) nofun
  · exact iff_of_false (FlatSet.not_mem_empty item) nofun
  · intro session id member
    rw [empty] at member
    exact absurd member List.not_mem_nil

/-- Where a run may come. -/
def Reaches (kept : DownloadManager → Prop) : Except Failure DownloadManager → Prop
  | .error fault => fault = .generated
  | .ok m => kept m

theorem advance_reaches {also : DownloadManager → Prop} {condition : Outside → DownloadManager → Step → Prop}
    (allows : ∀ o m step, condition o m step → m.Allowed w o step)
    (keeps : ∀ o m step m', Kept w m → condition o m step → also m → m.step w o step = .ok m' →
      Outcome w o m step m' → also m') (s : Except Failure DownloadManager) (e : Outside × Step)
    (reached : Reaches (fun m => Kept w m ∧ also m) s) (meets : Meets condition s e) :
    Reaches (fun m => Kept w m ∧ also m) (advance w s e) := by
  cases s with
  | error failure => exact reached
  | ok m =>
      obtain ⟨kept, held⟩ := reached
      change Reaches _ (m.step w e.1 e.2)
      rcases step_kept kept (allows _ _ _ meets) with ⟨fails, -⟩ | ⟨m', result, inside, -, outcome⟩
      · rw [fails]
        exact rfl
      · have still := keeps _ _ _ _ kept meets held result outcome
        rw [result]
        exact ⟨⟨outcome.accounts kept.accounts, inside⟩, still⟩

/-- Download progress is exact. -/
structure Exact (w : World) (m : DownloadManager) : Prop where
  ready : m.loadingProgress.ready = (m.downloading.map (·.ready)).sum
  total : m.loadingProgress.total = (m.downloading.map (·.total)).sum
  once : (m.downloading.map (·.object.item)).Nodup
  loading : ∀ item, item ∈ m.loading ↔ ∃ entry ∈ m.downloading, entry.object.item = item ∧ entry.done = false
  loadingDone : ∀ item, item ∈ m.loadingDone ↔ ∃ entry ∈ m.downloading, entry.object.item = item ∧ entry.done = true
  checksItem : ∀ o, ∀ item ∈ m.loading, ∃ m', m.checkItem w o item = .ok m'
  checksDocument : ∀ o, ∀ document ∈ m.loadingDocuments, ∃ m', m.checkDocument w o document = .ok m'
  timer : m.clearLoadingTimer = true → m.loading.items = []

theorem Accounts.exact (accounts : Accounts w m) : Exact w m := by
  have tally := accounts.tally
  refine ⟨tally.ready, tally.total, tally.once, tally.loading, tally.loadingDone, ?_, ?_, tally.timer⟩
  · intro o item loads
    obtain ⟨m', checks, -⟩ := @checkItem_spec w o m accounts item (.inl loads)
    exact ⟨m', checks⟩
  · intro o document watched
    obtain ⟨m', checks, -⟩ := @checkDocument_spec w o m accounts document watched
    exact ⟨m', checks⟩

/-- A run comes to a state in which the progress is exact, unless a message that was generated is to be replaced. -/
theorem run_progress_exact (events : List (Outside × Step)) (allowed : Run w (Allowed w) events) :
    Reaches (Exact w) (run w events) := by
  have reached : Reaches (fun m => Kept w m ∧ True) (run w events) := by
    refine allowed.preserve (advance_reaches (fun _ _ _ => id) ?_) ⟨kept_start w, trivial⟩
    exact fun _ _ _ _ _ _ _ _ _ => trivial
  cases result : run w events with
  | error failure =>
      rw [result] at reached
      exact reached
  | ok m =>
      rw [result] at reached
      exact reached.1.accounts.exact

/-- Two sessions, with a message in each. -/
def twoSessions : World := ⟨(· / 100), (· / 100)⟩

/-- Each message shows one document, of which a part is there. -/
def partLoaded : Outside where
  media item := some { document := some (item + 10) }
  size _ := 1000
  loading _ := true
  loadOffset _ := 300
  loadingFilePath _ := [102]
  makeMessage := 250

/-- The documents are there. -/
def wholeLoaded : Outside := { partLoaded with filepath := fun _ => [102], fileSize := fun _ => 1000 }

def twoDownloads : List (Outside × Step) :=
  [(partLoaded, .trackSession 1 []), (partLoaded, .trackSession 2 []), (partLoaded, .addLoading ⟨101, some 111, none⟩),
    (partLoaded, .addLoading ⟨201, some 211, none⟩), (wholeLoaded, .documentLoadProgress 111),
    (partLoaded, .removed 201), (wholeLoaded, .timerFires)]

theorem twoDownloads_exact :
    Run twoSessions (Allowed twoSessions) twoDownloads ∧ Reaches (Exact twoSessions) (run twoSessions twoDownloads) :=
  have allowed : Run twoSessions (Allowed twoSessions) twoDownloads := by decide
  ⟨allowed, run_progress_exact twoDownloads allowed⟩

end DownloadManager

end IMeDesktop.Data.Loading
