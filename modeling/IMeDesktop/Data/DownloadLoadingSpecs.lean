import IMeDesktop.Data.DownloadLoadingMoves

/-! # What the operations do to the entries

While the accounts are right, an entry that is looked for is there and has a document, and what is done to the entries
is made of the moves. Only `addLoading` puts a new entry among them.
-/

namespace IMeDesktop.Data.Loading

open Lib Ui Downloads

variable {w : World} {o : Outside} {m m' : DownloadManager} {session : Session} {data : SessionData} {i : Nat}
  {entry : DownloadingId}

namespace DownloadManager

theorem sessionData_eq (tracked : m.sessions.find? session = some data) : m.sessionData session = .ok data := by
  simp only [sessionData, tracked]

theorem find_setData (m : DownloadManager) (session : Session) (data : SessionData) :
    (m.setData session data).sessions.find? session = some data := by
  rw [setData, SortedMap.find?_set, if_pos rfl]

theorem markDone_loading (o : Outside) (m : DownloadManager) (session : Session) (data : SessionData) (i : Nat)
    (entry : DownloadingId) (document : DocumentData) :
    entry.object.item ∉ (m.markDone o session data i entry document).loading := by
  have removed : entry.object.item ∉ m.loading.remove entry.object.item :=
    fun member => (FlatSet.mem_remove.mp member).2 rfl
  unfold markDone
  dsimp only
  split_ifs
  · exact removed
  · exact removed

/-- The message is not downloading any more. -/
theorem finishLoading_spec (accounts : Accounts w m) (here : m.Here session data i entry) :
    ∃ m', m.finishLoading o session data i entry = .ok m' ∧ Moves w o m m' ∧ entry.object.item ∉ m'.loading := by
  unfold finishLoading
  obtain ⟨document, shows, -⟩ := accounts.tally.known entry here.mem
  by_cases loads : entry.object.item ∈ m.loading
  · rw [if_neg (not_not.mpr loads)]
    simp only [shows]
    exact ⟨_, rfl, .single (.markDone here loads shows), markDone_loading o m session data i entry document⟩
  · rw [if_pos loads]
    exact ⟨_, rfl, .single (.unwatch here loads), loads⟩

theorem not_found (accounts : Accounts w m) {item : HistoryItem}
    (tracked : m.sessions.find? (w.itemSession item) = some data)
    (missing : find data.downloading (DownloadingId.by item) = none) :
    ∀ other ∈ m.downloading, other.object.item ≠ item := by
  intro other member same
  obtain ⟨data', tracked', member⟩ := accounts.here member
  rw [same, tracked] at tracked'
  cases tracked'
  exact of_decide_eq_false (find_none.mp missing other member) same

/-- The size of a file that is not too large, and not empty. -/
def Sized (size : Int) : Prop := 0 < size ∧ size ≤ kMaxFileSize

theorem addLoaded_spec (accounts : Accounts w m) {object : DownloadObject}
    (tracked : m.sessions.find? (w.itemSession object.item) = some data)
    (shows : object.document ≠ none ∨ object.photo ≠ none) (path : QString) (started : Int) :
    ∃ m', m.addLoaded w o object path started = .ok m' ∧ Moves w o m m' ∧
      (Sized (o.fileSize path) → object.item ∉ m'.loading) := by
  unfold addLoaded
  rw [if_neg (by tauto)]
  by_cases sized : o.fileSize path ≤ 0 ∨ o.fileSize path > kMaxFileSize
  · rw [if_pos sized]
    refine ⟨m, rfl, .refl, fun fits => ?_⟩
    unfold Sized at fits
    omega
  · have pushed := @Move.pushLoaded w o m data object path started tracked shows
    have tracked' := find_setData m (w.itemSession object.item)
      { data with downloaded := data.downloaded ++ [downloadedId o object path started] }
    change (m.pushLoaded o (w.itemSession object.item) data object path started).sessions.find? _ = _ at tracked'
    simp only [if_neg sized, sessionData_eq tracked, bind, Except.bind, sessionData_eq tracked']
    cases found : find data.downloading (DownloadingId.by object.item) with
    | none =>
        refine ⟨_, rfl, .single pushed, fun _ loads => ?_⟩
        obtain ⟨entry, member, same, -⟩ := (accounts.tally.loading _).mp loads
        exact not_found accounts tracked found entry member same
    | some place =>
        obtain ⟨i, entry⟩ := place
        obtain ⟨there, same⟩ := find_some found
        have here : Here _ _ _ i entry := ⟨tracked', there⟩
        obtain ⟨m', finishes, moves, rests⟩ := finishLoading_spec (pushed.accounts accounts) here
        rw [of_decide_eq_true same] at rests
        exact ⟨m', finishes, .head pushed moves, fun _ => rests⟩

/-- An entry that is checked is done, removed, or downloaded further. -/
theorem check_spec (accounts : Accounts w m) (here : m.Here session data i entry) :
    ∃ m', m.check w o session data i entry = .ok m' ∧ Moves w o m m' := by
  have removed : Moves w o m (m.remove session data i entry) := .single (.remove here)
  obtain ⟨document, shows, -⟩ := accounts.tally.known entry here.mem
  obtain ⟨data', tracked, -⟩ := accounts.here here.mem
  unfold check
  dsimp only
  by_cases other : entry.object.photo ≠ o.ItemPhoto entry.object.item ∨
      entry.object.document ≠ o.ItemDocument entry.object.item
  · exact ⟨_, if_pos other, removed⟩
  · have same : o.ItemDocument entry.object.item = some document := by
      rw [← shows]
      tauto
    rw [if_neg other, same]
    dsimp only
    split_ifs with complete loads stopped still
    · obtain ⟨m', adds, moves, -⟩ :=
        addLoaded_spec accounts tracked (.inl (by simp [shows])) (o.filepath document) entry.started
      exact ⟨m', adds, moves⟩
    · exact ⟨m, rfl, .refl⟩
    · exact ⟨_, rfl, removed⟩
    · exact ⟨m, rfl, .refl⟩
    · exact ⟨_, rfl, .single (.progress here _ _)⟩

/-- The entry of a message that is being downloaded, or is done. -/
theorem Accounts.find_item (accounts : Accounts w m) {item : HistoryItem}
    (known : item ∈ m.loading ∨ item ∈ m.loadingDone) :
    ∃ data i entry, find data.downloading (DownloadingId.by item) = some (i, entry) ∧ entry.object.item = item ∧
      m.Here (w.itemSession item) data i entry := by
  have there : ∃ entry ∈ m.downloading, entry.object.item = item := by
    rcases known with loads | done
    · obtain ⟨entry, member, same, -⟩ := (accounts.tally.loading item).mp loads
      exact ⟨entry, member, same⟩
    · obtain ⟨entry, member, same, -⟩ := (accounts.tally.loadingDone item).mp done
      exact ⟨entry, member, same⟩
  obtain ⟨entry, member, rfl⟩ := there
  obtain ⟨data, tracked, member⟩ := accounts.here member
  cases found : find data.downloading (DownloadingId.by entry.object.item) with
  | none => exact absurd (find_none.mp found entry member) (by simp [DownloadingId.by])
  | some place =>
      obtain ⟨i, other⟩ := place
      obtain ⟨here, same⟩ := find_some found
      exact ⟨data, i, other, found, of_decide_eq_true same, tracked, here⟩

/-- An entry of a document that is watched. -/
theorem Accounts.find_document (accounts : Accounts w m) {document : DocumentData}
    (watched : document ∈ m.loadingDocuments) :
    ∃ data i entry, find data.downloading (DownloadingId.byDocument document) = some (i, entry) ∧
      entry.object.document = some document ∧ m.Here (w.documentSession document) data i entry := by
  obtain ⟨entry, member, shows⟩ := accounts.tally.documents document watched
  obtain ⟨other, shows', same⟩ := accounts.tally.known entry member
  cases Option.some.inj (shows.symm.trans shows')
  obtain ⟨data, tracked, member⟩ := accounts.here member
  cases found : find data.downloading (DownloadingId.byDocument document) with
  | none => exact absurd (find_none.mp found entry member) (by simp [DownloadingId.byDocument, shows])
  | some place =>
      obtain ⟨i, other⟩ := place
      obtain ⟨here, same'⟩ := find_some found
      exact ⟨data, i, other, found, of_decide_eq_true same', same ▸ tracked, here⟩

theorem checkItem_spec (accounts : Accounts w m) {item : HistoryItem}
    (known : item ∈ m.loading ∨ item ∈ m.loadingDone) :
    ∃ m', m.checkItem w o item = .ok m' ∧ Moves w o m m' := by
  obtain ⟨data, i, entry, found, -, here⟩ := accounts.find_item known
  simp only [checkItem, sessionData_eq here.tracked, bind, Except.bind, found]
  exact check_spec accounts here

theorem checkDocument_spec (accounts : Accounts w m) {document : DocumentData}
    (watched : document ∈ m.loadingDocuments) :
    ∃ m', m.checkDocument w o document = .ok m' ∧ Moves w o m m' := by
  obtain ⟨data, i, entry, found, -, here⟩ := accounts.find_document watched
  simp only [checkDocument, sessionData_eq here.tracked, bind, Except.bind, found]
  exact check_spec accounts here

/-! ## A new entry -/

theorem downloading_pushLoading {object : DownloadObject} (document : DocumentData)
    (tracked : m.sessions.find? session = some data) :
    (m.pushLoading o session data object document).downloading.Perm
      (downloadingId o data object document (m.computeNextStartDate o).1 :: m.downloading) := by
  refine (downloading_setData m session { data with
    downloading := data.downloading ++ [downloadingId o data object document (m.computeNextStartDate o).1] }).trans ?_
  refine .trans ?_ ((downloading_perm tracked).symm.cons _)
  rw [List.append_assoc]
  exact List.perm_middle

theorem pushLoading_accounts (accounts : Accounts w m) {object : DownloadObject} {document : DocumentData}
    (tracked : m.sessions.find? (w.itemSession object.item) = some data)
    (fresh : ∀ other ∈ m.downloading, other.object.item ≠ object.item) (shows : object.document = some document)
    (same : w.documentSession document = w.itemSession object.item) :
    Accounts w (m.pushLoading o (w.itemSession object.item) data object document) := by
  have tally := accounts.tally.push fresh shows same o (w.itemSession object.item) data (m.computeNextStartDate o).1
  apply Accounts.setData_of_perm accounts _ (by rfl) (downloading_pushLoading document tracked) tally
  intro entry member
  rcases List.mem_append.mp member with member | member
  · exact accounts.placed _ data tracked entry member
  · rw [List.mem_singleton.mp member]
    rfl

theorem startLoading_spec (accounts : Accounts w m) {object : DownloadObject} {document : DocumentData}
    (tracked : m.sessions.find? (w.itemSession object.item) = some data)
    (fresh : ∀ other ∈ m.downloading, other.object.item ≠ object.item) (shows : object.document = some document)
    (same : w.documentSession document = w.itemSession object.item) :
    ∃ m', m.startLoading w o object document = .ok m' ∧
      (m' = m ∨ Moves w o (m.pushLoading o (w.itemSession object.item) data object document) m') := by
  unfold startLoading
  split_ifs with nowhere
  · exact ⟨m, rfl, .inl rfl⟩
  · simp only [sessionData_eq tracked, bind, Except.bind]
    have loads : object.item ∈ (m.pushLoading o (w.itemSession object.item) data object document).loading :=
      FlatSet.mem_insert.mpr (.inl rfl)
    obtain ⟨m', checks, moves⟩ := checkItem_spec (pushLoading_accounts accounts tracked fresh shows same) (.inl loads)
    exact ⟨m', checks, .inr moves⟩

/-- When an entry is removed, none is left for its message. -/
theorem remove_fresh (accounts : Accounts w m) (here : m.Here session data i entry) :
    (∀ other ∈ (m.remove session data i entry).downloading,
      other ∈ m.downloading ∧ other.object.item ≠ entry.object.item) ∧
      (m.remove session data i entry).sessions.find? session =
        some { data with downloading := data.downloading.eraseIdx i } := by
  obtain ⟨rest, before, after, -⟩ := here.exists_rest
  have sessions := remove_sessions m session data i entry
  constructor
  · intro other member
    unfold downloading at member
    rw [sessions] at member
    have member := after.mem_iff.mp member
    exact ⟨before.mem_iff.mpr (List.mem_cons_of_mem _ member), (accounts.tally.perm before).others other member⟩
  · rw [sessions]
    exact find_setData m session _

/-- What `addLoading` is called with. -/
structure Loadable (w : World) (m : DownloadManager) (object : DownloadObject) : Prop where
  shows : ∃ document, object.document = some document ∧ w.documentSession document = w.itemSession object.item
  tracked : ∃ data, m.sessions.find? (w.itemSession object.item) = some data

/-- A new entry is put, after the entry of its message is taken out, and then checked. -/
structure Pushes (w : World) (o : Outside) (m : DownloadManager) (object : DownloadObject) (document : DocumentData)
    (m₁ : DownloadManager) (data : SessionData) (m' : DownloadManager) : Prop where
  before : Moves w o m m₁
  fresh : ∀ other ∈ m₁.downloading, other ∈ m.downloading ∧ other.object.item ≠ object.item
  tracked : m₁.sessions.find? (w.itemSession object.item) = some data
  shows : object.document = some document
  same : w.documentSession document = w.itemSession object.item
  after : Moves w o (m₁.pushLoading o (w.itemSession object.item) data object document) m'

theorem addLoading_spec (accounts : Accounts w m) {object : DownloadObject} (loadable : Loadable w m object) :
    ∃ m', m.addLoading w o object = .ok m' ∧
      (Moves w o m m' ∨ ∃ document m₁ data, Pushes w o m object document m₁ data m') := by
  obtain ⟨⟨document, shows, same⟩, data, tracked⟩ := loadable
  simp only [addLoading, shows, sessionData_eq tracked, bind, Except.bind]
  cases found : find data.downloading (DownloadingId.by object.item) with
  | none =>
      have fresh := not_found accounts tracked found
      obtain ⟨m', starts, rfl | moves⟩ :=
        @startLoading_spec w o m data accounts object document tracked fresh shows same
      · exact ⟨m', starts, .inl .refl⟩
      · have stays : ∀ other ∈ m.downloading, other ∈ m.downloading ∧ other.object.item ≠ object.item :=
          fun other member => ⟨member, fresh other member⟩
        exact ⟨m', starts, .inr ⟨document, m, data, .refl, stays, tracked, shows, same, moves⟩⟩
  | some place =>
      obtain ⟨i, already⟩ := place
      have here : m.Here (w.itemSession object.item) data i already := ⟨tracked, (find_some found).1⟩
      have itself : already.object.item = object.item := of_decide_eq_true (find_some found).2
      simp only
      split_ifs with alike
      · have known : object.item ∈ m.loading ∨ object.item ∈ m.loadingDone := by
          rw [accounts.tally.loading, accounts.tally.loadingDone]
          cases done : already.done with
          | false => exact .inl ⟨already, here.mem, itself, done⟩
          | true => exact .inr ⟨already, here.mem, itself, done⟩
        obtain ⟨m', checks, moves⟩ := @checkItem_spec w o m accounts object.item known
        exact ⟨m', checks, .inl moves⟩
      · obtain ⟨left, tracked'⟩ := remove_fresh accounts here
        rw [itself] at left
        have removed := @Move.remove w o m _ _ _ _ here
        obtain ⟨m', starts, rfl | moves⟩ := @startLoading_spec w o _ _ (removed.accounts accounts) object document
          tracked' (fun other member => (left other member).2) shows same
        · exact ⟨_, starts, .inl (.single removed)⟩
        · exact ⟨m', starts, .inr ⟨document, _, _, .single removed, left, tracked', shows, same, moves⟩⟩

/-! ## Loops -/

theorem removeLast_eq (tracked : m.sessions.find? session = some data) (last : data.downloading.getLast? = some entry) :
    m.Here session data (data.downloading.length - 1) entry ∧
      m.removeLast session = m.remove session data (data.downloading.length - 1) entry := by
  refine ⟨⟨tracked, ?_⟩, ?_⟩
  · rw [← List.getLast?_eq_getElem?]
    exact last
  · simp only [removeLast, tracked, last]

theorem removeLast_moves (m : DownloadManager) (session : Session) : Moves w o m (m.removeLast session) := by
  cases tracked : m.sessions.find? session with
  | none =>
      simp only [removeLast, tracked]
      exact .refl
  | some data =>
      cases last : data.downloading.getLast? with
      | none =>
          simp only [removeLast, tracked, last]
          exact .refl
      | some entry =>
          obtain ⟨here, removes⟩ := removeLast_eq tracked last
          rw [removes]
          exact .single (.remove here)

/-- The number of entries of a session. -/
def count (m : DownloadManager) (session : Session) : Nat :=
  ((m.sessions.find? session).map (·.downloading.length)).getD 0

theorem count_removeLast (m : DownloadManager) (session other : Session) :
    (m.removeLast session).count other = if other = session then m.count other - 1 else m.count other := by
  cases tracked : m.sessions.find? session with
  | none =>
      simp only [removeLast, tracked]
      split_ifs with same
      · simp [count, same, tracked]
      · rfl
  | some data =>
      cases last : data.downloading.getLast? with
      | none =>
          simp only [removeLast, tracked, last]
          split_ifs with same
          · simp [count, same, tracked, List.getLast?_eq_none_iff.mp last]
          · rfl
      | some entry =>
          obtain ⟨here, removes⟩ := removeLast_eq tracked last
          have inside := (List.getElem?_eq_some_iff.mp here.entry).1
          rw [removes, count, remove_sessions, SortedMap.find?_set]
          split_ifs with same
          · simp [count, same, tracked]
          · rfl

theorem iterate_removeLast (session : Session) (n : Nat) (m : DownloadManager) :
    Moves w o m ((fun m => m.removeLast session)^[n] m) ∧
      ∀ other, ((fun m => m.removeLast session)^[n] m).count other =
        if other = session then m.count other - n else m.count other := by
  induction n generalizing m with
  | zero =>
      refine ⟨.refl, fun other => ?_⟩
      rw [Function.iterate_zero, id, Nat.sub_zero, ite_self]
  | succ n ih =>
      obtain ⟨moves, counts⟩ := ih (m.removeLast session)
      rw [Function.iterate_succ_apply]
      refine ⟨(removeLast_moves m session).trans moves, fun other => ?_⟩
      rw [counts other, count_removeLast]
      split_ifs
      · omega
      · rfl

/-- No entry is left in the session, and those of other sessions stay. -/
theorem removeAll_spec (m : DownloadManager) (session : Session) : Moves w o m (m.removeAll session) ∧
    ∀ other, (m.removeAll session).count other = if other = session then 0 else m.count other := by
  obtain ⟨moves, counts⟩ := @iterate_removeLast w o session (m.count session) m
  refine ⟨moves, fun other => (counts other).trans ?_⟩
  split_ifs with same
  · rw [same, Nat.sub_self]
  · rfl

theorem clearLoading_spec (nothing : m.loading.items = []) :
    ∃ m', m.clearLoading = .ok m' ∧ Moves w o m m' := by
  unfold clearLoading
  rw [if_neg (not_not.mpr nothing)]
  refine ⟨_, rfl, ?_⟩
  generalize m.sessions.entries = entries
  clear nothing
  induction entries generalizing m with
  | nil => exact .refl
  | cons e rest ih => exact (removeAll_spec m e.1).1.trans ih

/-- When the timer fires, nothing is being downloaded. -/
theorem timerFires_spec (accounts : Accounts w m) :
    ∃ m₁ m', m.timerFires = .ok m' ∧ (m₁ = m ∨ m₁ = { m with clearLoadingTimer := false }) ∧ Moves w o m₁ m' := by
  unfold timerFires
  split_ifs with armed
  · obtain ⟨m', clears, moves⟩ :=
      @clearLoading_spec w o { m with clearLoadingTimer := false } (accounts.tally.timer armed)
    exact ⟨_, m', clears, .inr rfl, moves⟩
  · exact ⟨m, m, rfl, .inl rfl, .refl⟩

theorem deleteLoading_moves (m : DownloadManager) (item : HistoryItem) : Moves w o m (m.deleteLoading w item) := by
  unfold deleteLoading
  dsimp only
  cases tracked : m.sessions.find? (w.itemSession item) with
  | none => exact .refl
  | some data =>
      dsimp only
      cases found : find data.downloading (DownloadingId.by item) with
      | none => exact .refl
      | some place => exact .single (.remove ⟨tracked, (find_some found).1⟩)

/-! ## What is downloaded -/

/-- What is downloading stays as it is. -/
structure SameLoading (m m' : DownloadManager) : Prop where
  downloading : m.downloading.Perm m'.downloading
  placed : ∀ session data', m'.sessions.find? session = some data' → ∀ entry ∈ data'.downloading,
    ∃ data, m.sessions.find? session = some data ∧ entry ∈ data.downloading
  progress : m'.loadingProgress = m.loadingProgress
  loading : m'.loading = m.loading
  loadingDone : m'.loadingDone = m.loadingDone
  documents : m'.loadingDocuments = m.loadingDocuments
  timer : m'.clearLoadingTimer = true → m.clearLoadingTimer = true

namespace SameLoading

theorem refl (m : DownloadManager) : SameLoading m m :=
  ⟨.refl _, fun _ data tracked _ member => ⟨data, tracked, member⟩, rfl, rfl, rfl, rfl, id⟩

theorem trans {m₁ m₂ m₃ : DownloadManager} (first : SameLoading m₁ m₂) (second : SameLoading m₂ m₃) :
    SameLoading m₁ m₃ where
  downloading := first.downloading.trans second.downloading
  placed session data tracked entry member := by
    obtain ⟨data', tracked', member'⟩ := second.placed session data tracked entry member
    exact first.placed session data' tracked' entry member'
  progress := second.progress.trans first.progress
  loading := second.loading.trans first.loading
  loadingDone := second.loadingDone.trans first.loadingDone
  documents := second.documents.trans first.documents
  timer armed := first.timer (second.timer armed)

theorem accounts (same : SameLoading m m') (accounts : Accounts w m) : Accounts w m' := by
  have tally := accounts.tally.perm same.downloading
  constructor
  · constructor
    · exact same.progress ▸ tally.ready
    · exact same.progress ▸ tally.total
    · exact tally.once
    · exact same.loading ▸ tally.loading
    · exact same.loadingDone ▸ tally.loadingDone
    · exact same.documents ▸ tally.documents
    · exact tally.known
    · exact fun armed => same.loading ▸ tally.timer (same.timer armed)
  · intro session data tracked entry member
    obtain ⟨data', tracked', member'⟩ := same.placed session data tracked entry member
    exact accounts.placed session data' tracked' entry member'

end SameLoading

/-- Where only the downloads of a session differ. -/
theorem setDownloaded_same (tracked : m.sessions.find? session = some data) (downloaded : List DownloadedId) :
    SameLoading m (m.setData session { data with downloaded := downloaded }) := by
  refine ⟨?_, fun other data' tracked' entry member => ?_, rfl, rfl, rfl, rfl, id⟩
  · exact (downloading_perm tracked).trans (downloading_setData m session { data with downloaded := downloaded }).symm
  · unfold setData at tracked'
    rw [SortedMap.find?_set] at tracked'
    split_ifs at tracked' with here
    · cases tracked'
      exact ⟨data, here ▸ tracked, member⟩
    · exact ⟨data', tracked', member⟩

theorem forget_same (m : DownloadManager) (downloaded : List DownloadedId) : SameLoading m (m.forget downloaded) := by
  unfold forget
  induction downloaded generalizing m with
  | nil => exact .refl m
  | cons id rest ih =>
      rw [List.foldl_cons]
      refine .trans ?_ (ih _)
      cases id.object with
      | none => exact .refl m
      | some object => exact { SameLoading.refl m with }

theorem forget_sessions (m : DownloadManager) (downloaded : List DownloadedId) :
    (m.forget downloaded).sessions = m.sessions := by
  unfold forget
  induction downloaded generalizing m with
  | nil => rfl
  | cons id rest ih =>
      rw [List.foldl_cons, ih]
      cases id.object with
      | none => rfl
      | some object => rfl

theorem deleteLoaded_same (w : World) (m : DownloadManager) (item : HistoryItem) :
    SameLoading m (m.deleteLoaded w item) := by
  unfold deleteLoaded
  dsimp only
  cases tracked : m.sessions.find? (w.itemSession item) with
  | none => exact .refl m
  | some data =>
      dsimp only
      cases found : find data.downloaded (DownloadedId.by item) with
      | none => exact .refl m
      | some place =>
          apply (forget_same m [place.2]).trans
          apply setDownloaded_same
          rw [forget_sessions]
          exact tracked

theorem takeDownloaded_same (m : DownloadManager) (session : Session) : SameLoading m (m.takeDownloaded session) := by
  unfold takeDownloaded
  cases tracked : m.sessions.find? session with
  | none => exact .refl m
  | some data => exact (setDownloaded_same tracked []).trans (forget_same _ _)

/-- The state after a message is replaced by a generated one. -/
def detached (o : Outside) (m : DownloadManager) (session : Session) (data : SessionData) (i : Nat) (id : DownloadedId)
    (object : DownloadObject) : DownloadManager :=
  { m.setData session { data with
      downloaded := data.downloaded.set i { id with object := some { object with item := o.makeMessage } } } with
    loaded := (m.loaded.remove object.item).insert o.makeMessage
    generated := m.generated.insert o.makeMessage }

/-- A message that was generated is not replaced. -/
theorem detach_eq {id : DownloadedId} {object : DownloadObject} (refers : id.object = some object)
    (loaded : object.item ∈ m.loaded) (shows : object.document ≠ none ∨ object.photo ≠ none) :
    m.detach o session data i id =
      if object.item ∈ m.generated then .error .generated else .ok (m.detached o session data i id object) := by
  unfold detach
  rw [refers]
  dsimp only
  rw [if_neg (not_not.mpr loaded)]
  split_ifs
  · rfl
  · simp only [generateItem, bind, Except.bind]
    rw [if_neg (by tauto)]
    rfl

theorem detached_same (tracked : m.sessions.find? session = some data) {id : DownloadedId} {object : DownloadObject} :
    SameLoading m (m.detached o session data i id object) :=
  { setDownloaded_same tracked
      (data.downloaded.set i { id with object := some { object with item := o.makeMessage } }) with }

/-! ## Sessions -/

theorem trackSession_same (m : DownloadManager) (session : Session) (saved : List DownloadedId) :
    SameLoading m (m.trackSession session saved) := by
  unfold trackSession
  cases tracked : m.sessions.find? session with
  | some data => exact setDownloaded_same tracked saved
  | none =>
      have entries := downloading_setData m session { downloaded := saved, downloading := [] }
      unfold downloadingElsewhere at entries
      rw [SortedMap.erase_of_missing tracked] at entries
      refine ⟨entries.symm, fun other data' tracked' entry member => ?_, rfl, rfl, rfl, rfl, id⟩
      unfold setData at tracked'
      rw [SortedMap.find?_set] at tracked'
      split_ifs at tracked' with here
      · cases tracked'
        exact absurd member List.not_mem_nil
      · exact ⟨data', tracked', member⟩

/-- A session without entries is not tracked any more. -/
theorem erase_same (empty : m.count session = 0) : SameLoading m { m with sessions := m.sessions.erase session } := by
  refine ⟨?_, fun other data tracked entry member => ?_, rfl, rfl, rfl, rfl, id⟩
  · change m.downloading.Perm (m.downloadingElsewhere session)
    cases tracked : m.sessions.find? session with
    | none =>
        unfold downloadingElsewhere
        rw [SortedMap.erase_of_missing tracked]
        exact List.Perm.refl _
    | some data =>
        have nothing : data.downloading = [] := by simpa [count, tracked] using empty
        have perm := downloading_perm tracked
        rwa [nothing, List.nil_append] at perm
  · rw [SortedMap.find?_erase] at tracked
    split_ifs at tracked
    exact ⟨data, tracked, member⟩

/-- The session after its downloads are forgotten and its entries are removed. -/
theorem untrack_spec (tracked : m.sessions.find? session = some data) :
    ∃ m₁ m₂, Moves w o m₁ m₂ ∧ SameLoading m m₁ ∧ m.untrack session = .ok { m₂ with
      sessions := m₂.sessions.erase session } ∧ SameLoading m₂ { m₂ with sessions := m₂.sessions.erase session } ∧
      m₁ = m.forget data.downloaded ∧ m₂ = m₁.removeAll session := by
  obtain ⟨moves, counts⟩ := @removeAll_spec w o (m.forget data.downloaded) session
  refine ⟨_, _, moves, forget_same m _, ?_, ?_, rfl, rfl⟩
  · simp only [untrack, sessionData_eq tracked, bind, Except.bind]
  · apply erase_same
    rw [counts, if_pos rfl]

end DownloadManager

end IMeDesktop.Data.Loading
