import IMeDesktop.Data.DownloadLoadingRuns

/-! # Messages that are destroyed

A download that is done refers to its message. When that is destroyed, the first download of the message is given a
generated one, and so nothing refers to it as long as there is no second download of it.
-/

namespace IMeDesktop.Data.Loading

open Lib Ui Downloads

variable {w : World} {o : Outside} {m m' : DownloadManager} {item : HistoryItem}

namespace DownloadManager

/-- The downloads of all sessions. -/
def downloaded (m : DownloadManager) : List DownloadedId := m.sessions.entries.flatMap (·.2.downloaded)

theorem mem_downloaded {id : DownloadedId} : id ∈ m.downloaded ↔ ∃ session, id ∈ m.downloadedOf session := by
  unfold downloaded downloadedOf
  rw [List.mem_flatMap]
  constructor
  · rintro ⟨⟨session, data⟩, there, member⟩
    refine ⟨session, ?_⟩
    rw [SortedMap.find?_eq_some.mpr there]
    exact member
  · rintro ⟨session, member⟩
    cases tracked : m.sessions.find? session with
    | none => simp [tracked] at member
    | some data =>
        rw [tracked] at member
        exact ⟨(session, data), SortedMap.find?_eq_some.mp tracked, member⟩

/-- The messages that have a download are those that the downloads refer to. -/
def LoadedExact (m : DownloadManager) : Prop := ∀ item, item ∈ m.loaded ↔ ∃ id ∈ m.downloaded, id.by item = true

theorem loadedExact_of (inside : LoadedInside w m) (all : AllLoaded m) : LoadedExact m := by
  intro item
  constructor
  · intro member
    obtain ⟨id, there, same⟩ := inside.inside item member
    exact ⟨id, mem_downloaded.mpr ⟨_, there⟩, same⟩
  · rintro ⟨id, there, same⟩
    obtain ⟨session, there⟩ := mem_downloaded.mp there
    obtain ⟨object, refers, rfl⟩ := by_iff.mp same
    exact all session id there object refers

/-- Nothing refers to the message. -/
structure Unreferred (m : DownloadManager) (item : HistoryItem) : Prop where
  downloaded : ∀ id ∈ m.downloaded, id.by item = false
  downloading : ∀ entry ∈ m.downloading, entry.object.item ≠ item

/-- When a download of a message is taken out or detached, it is the only one, and a message for which one is detached
was not generated. -/
def Single (w : World) (o : Outside) (m : DownloadManager) : Step → Prop
  | .deleteLoaded item => m.downloadsOf w item ≤ 1
  | .changed item => m.Detaches w (o.replaced item) item → item ∉ m.generated ∧ m.downloadsOf w item ≤ 1
  | .removed item => m.Detaches w (fun _ => true) item → item ∉ m.generated ∧ m.downloadsOf w item ≤ 1
  | _ => True

instance Single.decidable (w : World) (o : Outside) (m : DownloadManager) : (step : Step) →
    Decidable (m.Single w o step)
  | .deleteLoaded item => inferInstanceAs (Decidable (m.downloadsOf w item ≤ 1))
  | .changed item => inferInstanceAs (Decidable (m.Detaches w (o.replaced item) item → _ ∧ _))
  | .removed item => inferInstanceAs (Decidable (m.Detaches w (fun _ => true) item → _ ∧ _))
  | .trackSession _ _ => .isTrue trivial
  | .untrack _ => .isTrue trivial
  | .addLoading _ => .isTrue trivial
  | .addLoaded _ _ _ => .isTrue trivial
  | .documentLoadProgress _ => .isTrue trivial
  | .itemLayoutChanged _ => .isTrue trivial
  | .deleteLoading _ => .isTrue trivial
  | .cancelLast _ => .isTrue trivial
  | .takeDownloaded _ => .isTrue trivial
  | .timerFires => .isTrue trivial

/-- The only download of a message is detached, if it leaves. -/
theorem detachLoaded_all (kept : Kept w m) (all : AllLoaded m) (leaves : DownloadObject → Bool)
    (fresh : o.makeMessage ≠ item) (placed : w.itemSession o.makeMessage = w.itemSession item)
    (single : m.Detaches w leaves item → item ∉ m.generated ∧ m.downloadsOf w item ≤ 1) :
    ∃ m', m.detachLoaded w o leaves item = .ok m' ∧ Kept w m' ∧ AllLoaded m' ∧
      (¬m.Detaches w leaves item ∧ m' = m ∨ item ∉ m'.loaded) := by
  rcases @detachLoaded_spec w o m kept.inside leaves item with
    ⟨stays, same⟩ | ⟨goes, data, i, id, object, tracked, here, refers, rfl, detaches⟩
  · exact ⟨m, same, kept, all, .inl ⟨stays, rfl⟩⟩
  · obtain ⟨original, few⟩ := single goes
    rw [detaches, if_neg original]
    have accounts := (@detached_same o m _ data i tracked id object).accounts kept.accounts
    have inside := @detached_inside w o m _ data i id object tracked here refers kept.inside placed
    have all' := (@detached_all_iff w o m _ data i id object tracked here refers kept.inside all fresh).mpr few
    refine ⟨_, rfl, ⟨accounts, inside⟩, all', .inr fun member => ?_⟩
    rcases FlatSet.mem_insert.mp member with same | member
    · exact fresh same.symm
    · exact (FlatSet.mem_remove.mp member).2 rfl

theorem changed_all (kept : Kept w m) (all : AllLoaded m) (allowed : m.Allowed w o (.changed item))
    (single : m.Single w o (.changed item)) : ∃ m', m.changed w o item = .ok m' ∧ AllLoaded m' := by
  obtain ⟨m₁, detaches, kept₁, all₁, -⟩ := detachLoaded_all kept all (o.replaced item) allowed.1 allowed.2 single
  simp only [changed, detaches, bind, Except.bind]
  split_ifs with known
  · obtain ⟨m', checks, moves⟩ := @checkItem_spec w o m₁ kept₁.accounts item known
    exact ⟨m', checks, moves.all all₁⟩
  · exact ⟨m₁, rfl, all₁⟩

/-- Nothing refers any more to a message that is destroyed. -/
theorem removed_all (kept : Kept w m) (all : AllLoaded m) (allowed : m.Allowed w o (.removed item))
    (single : m.Single w o (.removed item)) :
    ∃ m', m.removed w o item = .ok m' ∧ AllLoaded m' ∧ m'.Unreferred item := by
  obtain ⟨m₁, detaches, kept₁, all₁, gone⟩ := detachLoaded_all kept all (fun _ => true) allowed.1 allowed.2 single
  have missing : item ∉ m₁.loaded := by
    rcases gone with ⟨stays, rfl⟩ | gone
    · intro member
      apply stays
      refine ⟨member, ?_⟩
      obtain ⟨id, there, same⟩ := kept.inside.inside item member
      cases found : find (m₁.downloadedOf (w.itemSession item)) (DownloadedId.by item) with
      | none => exact absurd same (Bool.eq_false_iff.mp (find_none.mp found id there))
      | some place =>
          obtain ⟨object, refers, -⟩ := by_iff.mp (find_some found).2
          simp [refers]
    · exact gone
  have unreferred : ∀ {m' : DownloadManager}, SameLoaded m₁ m' → ∀ id ∈ m'.downloaded, id.by item = false := by
    intro m' same id member
    obtain ⟨session, there⟩ := mem_downloaded.mp member
    rw [same.downloaded] at there
    apply Bool.eq_false_iff.mpr
    intro refers
    obtain ⟨object, its, rfl⟩ := by_iff.mp refers
    exact missing (all₁ session id there object its)
  simp only [removed, detaches, bind, Except.bind]
  split_ifs with known
  · obtain ⟨data, i, entry, found, rfl, here⟩ := kept₁.accounts.find_item known
    simp only [sessionData_eq here.tracked, found]
    have same := remove_same here
    refine ⟨_, rfl, same.all all₁, unreferred same, fun other member => ?_⟩
    exact ((remove_fresh kept₁.accounts here).1 other member).2
  · refine ⟨m₁, rfl, all₁, unreferred (.refl m₁), fun other member same => known ?_⟩
    rw [kept₁.accounts.tally.loading, kept₁.accounts.tally.loadingDone]
    cases done : other.done with
    | false => exact .inl ⟨other, member, same, done⟩
    | true => exact .inr ⟨other, member, same, done⟩

/-! ## Runs -/

/-- The step is made, what has downloads is exact, and nothing refers to a message that is destroyed. -/
def Right (w : World) (o : Outside) (m : DownloadManager) (step : Step) : Prop :=
  ∃ m', m.step w o step = .ok m' ∧ LoadedExact m' ∧ ∀ item, step = .removed item → m'.Unreferred item

theorem step_right (kept : Kept w m) (all : AllLoaded m) {step : Step} (allowed : m.Allowed w o step)
    (single : m.Single w o step) :
    ∃ m', m.step w o step = .ok m' ∧ Kept w m' ∧ AllLoaded m' ∧ ∀ item, step = .removed item → m'.Unreferred item := by
  have whole : ∃ m', m.step w o step = .ok m' ∧ AllLoaded m' ∧ ∀ item, step = .removed item → m'.Unreferred item := by
    cases step with
    | changed item =>
        obtain ⟨m', changes, all'⟩ := changed_all kept all allowed single
        exact ⟨m', changes, all', nofun⟩
    | removed item =>
        obtain ⟨m', removes, all', unreferred⟩ := removed_all kept all allowed single
        refine ⟨m', removes, all', fun other same => ?_⟩
        cases same
        exact unreferred
    | deleteLoaded item => exact ⟨_, rfl, (deleteLoaded_all_iff kept.inside all item).mpr single, nofun⟩
    | _ =>
        rcases step_kept kept allowed with ⟨-, loud⟩ | ⟨m', result, -, quiet, -⟩
        · exact absurd trivial loud
        · exact ⟨m', result, quiet trivial all, nofun⟩
  obtain ⟨m', result, all', unreferred⟩ := whole
  rcases step_kept kept allowed with ⟨fails, -⟩ | ⟨m₂, result', inside, -, outcome⟩
  · cases result.symm.trans fails
  · cases result.symm.trans result'
    exact ⟨m', result, ⟨outcome.accounts kept.accounts, inside⟩, all', unreferred⟩

theorem allLoaded_start : AllLoaded {} := fun _ _ member => absurd member List.not_mem_nil

/-- As long as a message that loses a download has only one, nothing refers to a message that is destroyed. -/
theorem run_right (events : List (Outside × Step))
    (single : Run w (fun o m step => m.Allowed w o step ∧ m.Single w o step) events) : Run w (Right w) events := by
  refine @EveryStep.imp_of_kept _ _ _ _ _ (fun s => ∃ m, s = .ok m ∧ Kept w m ∧ AllLoaded m) ?_ _ _ single
    ⟨{}, rfl, kept_start w, allLoaded_start⟩
  rintro s e ⟨m, rfl, kept, all⟩ ⟨allowed, single⟩
  obtain ⟨m', result, kept', all', unreferred⟩ := step_right kept all allowed single
  exact ⟨⟨m', result, loadedExact_of kept'.inside all', unreferred⟩, m', result, kept', all'⟩

/-- A message is downloaded and destroyed, and then the download is deleted. -/
def downloadedOnce : List (Outside × Step) :=
  [(wholeLoaded, .trackSession 2 []), (wholeLoaded, .addLoaded ⟨201, some 211, none⟩ [102] 0),
    (wholeLoaded, .removed 201), (wholeLoaded, .deleteLoaded 250)]

theorem downloadedOnce_right :
    Run twoSessions (fun o m step => m.Allowed twoSessions o step ∧ m.Single twoSessions o step) downloadedOnce ∧
      Run twoSessions (Right twoSessions) downloadedOnce :=
  have single : Run twoSessions (fun o m step => m.Allowed twoSessions o step ∧ m.Single twoSessions o step)
      downloadedOnce := by decide
  ⟨single, run_right downloadedOnce single⟩

/-- A message is downloaded twice. -/
def downloadedTwice : List (Outside × Step) :=
  [(wholeLoaded, .trackSession 2 []), (wholeLoaded, .addLoaded ⟨201, some 211, none⟩ [102] 0),
    (wholeLoaded, .addLoaded ⟨201, some 211, none⟩ [103] 1)]

/-- When the message is destroyed, the second download still refers to it. -/
theorem downloadedTwice_not_right :
    Run twoSessions (Allowed twoSessions) (downloadedTwice ++ [(wholeLoaded, .removed 201)]) ∧
      ¬Run twoSessions (Right twoSessions) (downloadedTwice ++ [(wholeLoaded, .removed 201)]) := by
  refine ⟨by decide, fun right => ?_⟩
  have last := (EveryStep.append.mp right).2.1
  have left : ((run twoSessions downloadedTwice).toOption.bind fun m =>
      (m.step twoSessions wholeLoaded (.removed 201)).toOption).any (fun m => m.downloaded.any (·.by 201)) = true := by
    decide
  change Meets (Right twoSessions) (run twoSessions downloadedTwice) (wholeLoaded, .removed 201) at last
  cases result : run twoSessions downloadedTwice with
  | error failure => simp [result, Except.toOption] at left
  | ok m =>
      rw [result] at last left
      obtain ⟨m', removes, -, unreferred⟩ := last
      simp only [Except.toOption, Option.bind_some, removes, Option.any_some] at left
      obtain ⟨id, member, refers⟩ := List.any_eq_true.mp left
      exact absurd refers (Bool.eq_false_iff.mp ((unreferred 201 rfl).downloaded id member))

end DownloadManager

end IMeDesktop.Data.Loading
