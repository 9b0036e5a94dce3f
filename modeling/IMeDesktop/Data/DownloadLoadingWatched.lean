import IMeDesktop.Data.DownloadLoadingRuns

/-! # Documents that are watched

A document is watched for the first of its entries only, and not watched any more when one of its entries goes. So each
download is watched as long as no two entries have one document.
-/

namespace IMeDesktop.Data.Loading

open Lib Ui Downloads

variable {w : World} {o : Outside} {m m' : DownloadManager} {session : Session} {data : SessionData} {i : Nat}
  {entry : DownloadingId} {rest entries : List DownloadingId} {document : DocumentData}

namespace DownloadManager

/-- The entries have different documents, and those of entries that are not done are watched. -/
structure Watched (m : DownloadManager) (entries : List DownloadingId) : Prop where
  apart : (entries.map (·.object.document)).Nodup
  watched : ∀ entry ∈ entries, entry.done = false → ∃ document ∈ m.loadingDocuments,
    entry.object.document = some document

namespace Watched

theorem perm (watched : Watched m entries) (same : entries.Perm rest) : Watched m rest where
  apart := (same.map _).nodup_iff.mp watched.apart
  watched entry member := watched.watched entry (same.mem_iff.mpr member)

theorem congr (watched : Watched m entries) (same : m'.loadingDocuments = m.loadingDocuments) : Watched m' entries where
  apart := watched.apart
  watched := same ▸ watched.watched

/-- The other entries have other documents. -/
theorem others (watched : Watched m (entry :: rest)) :
    ∀ other ∈ rest, other.object.document ≠ entry.object.document := by
  intro other member same
  have apart := watched.apart
  rw [List.map_cons, List.nodup_cons] at apart
  exact apart.1 (List.mem_map.mpr ⟨other, member, same⟩)

/-- When the document of an entry is not watched any more, those of the others are. -/
theorem unwatch (watched : Watched m (entry :: rest))
    (same : m'.loadingDocuments = removeDocument m.loadingDocuments entry.object.document) : Watched m' rest where
  apart := (List.nodup_cons.mp watched.apart).2
  watched other member undone := by
    obtain ⟨document, there, shows⟩ := watched.watched other (List.mem_cons_of_mem _ member) undone
    refine ⟨document, ?_, shows⟩
    rw [same, mem_removeDocument]
    exact ⟨there, fun equal => watched.others other member (shows.trans equal.symm)⟩

/-- An entry that is done may come back. -/
theorem cons_done (watched : Watched m rest) (done : entry.done = true)
    (apart : ∀ other ∈ rest, other.object.document ≠ entry.object.document) : Watched m (entry :: rest) where
  apart := by
    rw [List.map_cons, List.nodup_cons]
    refine ⟨fun member => ?_, watched.apart⟩
    obtain ⟨other, member, same⟩ := List.mem_map.mp member
    exact apart other member same
  watched := by
    rw [List.forall_mem_cons]
    exact ⟨fun undone => absurd (done.symm.trans undone) (by simp), watched.watched⟩

end Watched

theorem remove_documents (m : DownloadManager) (session : Session) (data : SessionData) (i : Nat)
    (entry : DownloadingId) : (m.remove session data i entry).loadingDocuments =
      removeDocument m.loadingDocuments entry.object.document := by
  unfold remove
  dsimp only
  split_ifs
  · rfl
  · rfl

theorem markDone_documents (o : Outside) (m : DownloadManager) (session : Session) (data : SessionData) (i : Nat)
    (entry : DownloadingId) (document : DocumentData) :
    (m.markDone o session data i entry document).loadingDocuments = m.loadingDocuments.remove document := by
  unfold markDone
  dsimp only
  split_ifs
  · rfl
  · rfl

theorem downloading_congr {data : SessionData} (same : m'.sessions = (m.setData session data).sessions) :
    m'.downloading = (m.setData session data).downloading := by
  unfold downloading
  rw [same]

theorem Move.watched (move : Move w o m m') (accounts : Accounts w m) (watched : Watched m m.downloading) :
    Watched m' m'.downloading := by
  cases move with
  | @remove session data i entry here =>
      obtain ⟨rest, before, after, -⟩ := here.exists_rest
      rw [downloading_congr (remove_sessions m session data i entry)]
      exact ((watched.perm before).unwatch (remove_documents ..)).perm after.symm
  | @progress session data i entry here readyChange totalChange =>
      obtain ⟨rest, before, -, after⟩ := here.exists_rest
      have watched := watched.perm before
      refine Watched.perm ?_ (after _).symm
      exact ⟨watched.apart, List.forall_mem_cons.mpr (List.forall_mem_cons.mp watched.watched)⟩
  | @unwatch session data i entry here rests =>
      obtain ⟨rest, before, -⟩ := here.exists_rest
      have done : entry.done = true := by
        apply Bool.eq_true_of_not_eq_false
        intro undone
        exact rests ((accounts.tally.loading _).mpr ⟨entry, here.mem, rfl, undone⟩)
      have watched := watched.perm before
      exact ((watched.unwatch rfl).cons_done done watched.others).perm before.symm
  | @markDone session data i entry document here loads shows =>
      obtain ⟨rest, before, -, after⟩ := here.exists_rest
      have watched := watched.perm before
      have unwatched : (m.markDone o session data i entry document).loadingDocuments =
          removeDocument m.loadingDocuments entry.object.document := by
        rw [markDone_documents, shows]
        rfl
      rw [downloading_congr (markDone_sessions o m session data i entry document)]
      refine Watched.perm ?_ (after _).symm
      exact (watched.unwatch unwatched).cons_done rfl watched.others
  | @pushLoaded data object path started tracked shows =>
      have entries := (downloading_setData m (w.itemSession object.item)
        { data with downloaded := data.downloaded ++ [downloadedId o object path started] }).trans
          (downloading_perm tracked).symm
      refine Watched.perm ?_ entries.symm
      exact watched.congr rfl

theorem Moves.watched (moves : Moves w o m m') (accounts : Accounts w m) (watched : Watched m m.downloading) :
    Watched m' m'.downloading := by
  induction moves with
  | refl => exact watched
  | tail before move ih => exact move.watched (Moves.accounts before accounts) ih

theorem Follows.watched (follows : Follows w o m m') (accounts : Accounts w m) (watched : Watched m m.downloading) :
    Watched m' m'.downloading := by
  induction follows with
  | refl => exact watched
  | tail before change ih =>
      rcases change with move | same
      · exact move.watched (Follows.accounts before accounts) ih
      · exact (ih.congr same.documents).perm same.downloading

/-- A new entry comes when no other entry has its document. -/
def Alone (m : DownloadManager) : Step → Prop
  | .addLoading object => ∀ entry ∈ m.downloading, entry.object.item ≠ object.item →
      entry.object.document ≠ object.document
  | _ => True

instance Alone.decidable (m : DownloadManager) : (step : Step) → Decidable (m.Alone step)
  | .addLoading object => inferInstanceAs (Decidable (∀ entry ∈ m.downloading, entry.object.item ≠ object.item →
      entry.object.document ≠ object.document))
  | .trackSession _ _ => .isTrue trivial
  | .untrack _ => .isTrue trivial
  | .addLoaded _ _ _ => .isTrue trivial
  | .documentLoadProgress _ => .isTrue trivial
  | .itemLayoutChanged _ => .isTrue trivial
  | .changed _ => .isTrue trivial
  | .removed _ => .isTrue trivial
  | .deleteLoading _ => .isTrue trivial
  | .deleteLoaded _ => .isTrue trivial
  | .cancelLast _ => .isTrue trivial
  | .takeDownloaded _ => .isTrue trivial
  | .timerFires => .isTrue trivial

theorem Outcome.watched {step : Step} (outcome : Outcome w o m step m') (alone : m.Alone step)
    (accounts : Accounts w m) (watched : Watched m m.downloading) : Watched m' m'.downloading := by
  rcases outcome with follows | ⟨object, document, m₁, data, rfl, pushes⟩
  · exact follows.watched accounts watched
  · have fresh := fun other member => (pushes.fresh other member).2
    have accounts₁ := pushes.before.accounts accounts
    have watched₁ := pushes.before.watched accounts watched
    have accounts₂ := @pushLoading_accounts w o m₁ data accounts₁ object document pushes.tracked fresh pushes.shows
      pushes.same
    apply pushes.after.watched accounts₂
    refine Watched.perm ?_ (downloading_pushLoading document pushes.tracked).symm
    constructor
    · rw [List.map_cons, List.nodup_cons]
      refine ⟨fun member => ?_, watched₁.apart⟩
      obtain ⟨other, member, same⟩ := List.mem_map.mp member
      obtain ⟨before, different⟩ := pushes.fresh other member
      exact alone other before different same
    · rw [List.forall_mem_cons]
      refine ⟨fun _ => ⟨document, FlatSet.mem_insert.mpr (.inl rfl), pushes.shows⟩, fun other member undone => ?_⟩
      obtain ⟨document', there, shows⟩ := watched₁.watched other member undone
      exact ⟨document', FlatSet.mem_insert.mpr (.inr there), shows⟩

/-! ## Documents that are downloaded -/

/-- The file of the document is complete. -/
def Complete (o : Outside) (document : DocumentData) : Prop :=
  o.filepath document ≠ [] ∧ Sized (o.fileSize (o.filepath document))

/-- An entry whose document is complete is done or removed. -/
theorem check_completes (accounts : Accounts w m) (here : m.Here session data i entry)
    (shows : entry.object.document = some document) (complete : Complete o document)
    (checks : m.check w o session data i entry = .ok m') :
    ∀ other ∈ m'.downloading, other.object.item = entry.object.item → other.done = true := by
  have rests : ∀ {m' : DownloadManager}, Accounts w m' → entry.object.item ∉ m'.loading →
      ∀ other ∈ m'.downloading, other.object.item = entry.object.item → other.done = true := by
    intro m' accounts rests other member same
    apply Bool.eq_true_of_not_eq_false
    intro undone
    exact rests ((accounts.tally.loading _).mpr ⟨other, member, same, undone⟩)
  unfold check at checks
  dsimp only at checks
  by_cases different : entry.object.photo ≠ o.ItemPhoto entry.object.item ∨
      entry.object.document ≠ o.ItemDocument entry.object.item
  · rw [if_pos different] at checks
    cases checks
    exact fun other member same => absurd same ((remove_fresh accounts here).1 other member).2
  · have same : o.ItemDocument entry.object.item = some document := by
      rw [← shows]
      tauto
    rw [if_neg different, same] at checks
    dsimp only at checks
    rw [if_pos complete.1] at checks
    split_ifs at checks with loads
    · obtain ⟨data', tracked, -⟩ := accounts.here here.mem
      obtain ⟨m₁, adds, moves, finishes⟩ := @addLoaded_spec w o m data' accounts entry.object tracked
        (.inl (by simp [shows])) (o.filepath document) entry.started
      cases adds.symm.trans checks
      exact rests (moves.accounts accounts) (finishes complete.2)
    · cases checks
      exact rests accounts loads

/-- An entry that became another one is still about the same. -/
theorem objects_of_perm {changed : DownloadingId} (before : m.downloading.Perm (entry :: rest))
    (after : m'.downloading.Perm (changed :: rest)) (same : changed.object = entry.object) :
    ∀ other ∈ m'.downloading, ∃ old ∈ m.downloading, old.object = other.object := by
  intro other member
  rcases List.mem_cons.mp (after.mem_iff.mp member) with rfl | member
  · exact ⟨entry, before.mem_iff.mpr List.mem_cons_self, same.symm⟩
  · exact ⟨other, before.mem_iff.mpr (List.mem_cons_of_mem _ member), rfl⟩

theorem Move.objects (move : Move w o m m') :
    ∀ other ∈ m'.downloading, ∃ old ∈ m.downloading, old.object = other.object := by
  cases move with
  | @remove session data i entry here =>
      obtain ⟨rest, before, after, -⟩ := here.exists_rest
      rw [downloading_congr (remove_sessions m session data i entry)]
      intro other member
      exact ⟨other, before.mem_iff.mpr (List.mem_cons_of_mem _ (after.mem_iff.mp member)), rfl⟩
  | @progress session data i entry here readyChange totalChange =>
      obtain ⟨rest, before, -, after⟩ := here.exists_rest
      exact objects_of_perm before (after _) rfl
  | unwatch here rests => exact fun other member => ⟨other, member, rfl⟩
  | @markDone session data i entry document here loads shows =>
      obtain ⟨rest, before, -, after⟩ := here.exists_rest
      rw [downloading_congr (markDone_sessions o m session data i entry document)]
      exact objects_of_perm before (after _) rfl
  | @pushLoaded data object path started tracked shows =>
      have entries := (downloading_setData m (w.itemSession object.item)
        { data with downloaded := data.downloaded ++ [downloadedId o object path started] }).trans
          (downloading_perm tracked).symm
      exact fun other member => ⟨other, entries.mem_iff.mp member, rfl⟩

theorem Moves.objects (moves : Moves w o m m') :
    ∀ other ∈ m'.downloading, ∃ old ∈ m.downloading, old.object = other.object := by
  induction moves with
  | refl => exact fun other member => ⟨other, member, rfl⟩
  | tail _ move ih =>
      intro other member
      obtain ⟨between, there, same⟩ := move.objects other member
      obtain ⟨old, first, same'⟩ := ih between there
      exact ⟨old, first, same'.trans same⟩

/-- Each download is watched, and done when its document is complete. -/
structure KeepsWatching (w : World) (m : DownloadManager) : Prop where
  watched : ∀ entry ∈ m.downloading, entry.done = false → ∃ document ∈ m.loadingDocuments,
    entry.object.document = some document
  completes : ∀ o document m', Complete o document → m.step w o (.documentLoadProgress document) = .ok m' →
    ∀ entry ∈ m'.downloading, entry.object.document = some document → entry.done = true

theorem Watched.keepsWatching (watched : Watched m m.downloading) (accounts : Accounts w m) : KeepsWatching w m := by
  refine ⟨watched.watched, fun o document m' complete progresses other member shows => ?_⟩
  simp only [DownloadManager.step] at progresses
  split_ifs at progresses with here
  · obtain ⟨data, i, entry, found, shows', here⟩ := accounts.find_document here
    simp only [checkDocument, sessionData_eq here.tracked, bind, Except.bind, found] at progresses
    apply check_completes accounts here shows' complete progresses other member
    -- only one entry had the document
    obtain ⟨m₁, checks, moves⟩ := @check_spec w o m _ data i entry accounts here
    cases checks.symm.trans progresses
    obtain ⟨old, there, same⟩ := moves.objects other member
    have unique := List.inj_on_of_nodup_map watched.apart there here.mem (by rw [same, shows, shows'])
    rw [← same, unique]
  · cases progresses
    apply Bool.eq_true_of_not_eq_false
    intro undone
    obtain ⟨document', there, shows'⟩ := watched.watched other member undone
    cases Option.some.inj (shows.symm.trans shows')
    exact here there

/-! ## Runs -/

/-- When no two entries have one document, each download is watched. -/
theorem run_keepsWatching (events : List (Outside × Step))
    (alone : Run w (fun o m step => m.Allowed w o step ∧ m.Alone step) events) :
    Reaches (KeepsWatching w) (run w events) := by
  have reached : Reaches (fun m => Kept w m ∧ Watched m m.downloading) (run w events) := by
    refine alone.preserve (advance_reaches (fun _ _ _ => And.left) ?_) ⟨kept_start w, .nil, nofun⟩
    intro o m step m' kept allowed watched _ outcome
    exact outcome.watched allowed.2 kept.accounts watched
  cases result : run w events with
  | error failure =>
      rw [result] at reached
      exact reached
  | ok m =>
      rw [result] at reached
      exact reached.2.keepsWatching reached.1.accounts

theorem twoDownloads_watched :
    Run twoSessions (fun o m step => m.Allowed twoSessions o step ∧ m.Alone step) twoDownloads ∧
      Reaches (KeepsWatching twoSessions) (run twoSessions twoDownloads) :=
  have alone : Run twoSessions (fun o m step => m.Allowed twoSessions o step ∧ m.Alone step) twoDownloads := by decide
  ⟨alone, run_keepsWatching twoDownloads alone⟩

/-- All messages show one document. -/
def oneDocument (o : Outside) : Outside := { o with media := fun _ => some { document := some 150 } }

def sharedDocument : List (Outside × Step) :=
  [(oneDocument partLoaded, .trackSession 1 []), (oneDocument partLoaded, .addLoading ⟨101, some 150, none⟩),
    (oneDocument partLoaded, .addLoading ⟨102, some 150, none⟩),
    (oneDocument wholeLoaded, .documentLoadProgress 150)]

/-- The entry of the first message is done, and the other one is not watched any more. -/
theorem sharedDocument_not_watched : Run twoSessions (Allowed twoSessions) sharedDocument ∧
    ¬Reaches (KeepsWatching twoSessions) (run twoSessions sharedDocument) := by
  refine ⟨by decide, fun reached => ?_⟩
  have left : (run twoSessions sharedDocument).toOption.any (fun m =>
      m.downloading.any (fun entry => entry.object.item = 102 ∧ entry.done = false) &&
        m.loadingDocuments.items.isEmpty) = true := by decide
  cases result : run twoSessions sharedDocument with
  | error failure => simp [result, Except.toOption] at left
  | ok m =>
      rw [result] at reached left
      obtain ⟨some, none⟩ := Bool.and_eq_true_iff.mp left
      obtain ⟨entry, member, properties⟩ := List.any_eq_true.mp some
      obtain ⟨document, watched, -⟩ := reached.watched entry member (of_decide_eq_true properties).2
      rw [← FlatSet.mem_items, List.isEmpty_iff.mp none] at watched
      exact List.not_mem_nil watched

end DownloadManager

end IMeDesktop.Data.Loading
