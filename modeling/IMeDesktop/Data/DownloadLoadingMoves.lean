import IMeDesktop.Data.DownloadLoading

/-! # The accounts of what is being downloaded

The entries of all sessions are what the totals are about. An operation takes one entry out, puts one in, or puts one in
the place of another, and the totals change by what differs.
-/

namespace IMeDesktop.Data.Loading

open Lib Ui Downloads

variable {w : World} {o : Outside} {m m' : DownloadManager} {session : Session} {data : SessionData} {i : Nat}
  {entry : DownloadingId} {rest entries : List DownloadingId}

namespace DownloadManager

/-! ## All entries -/

/-- The entries of all sessions. -/
def downloading (m : DownloadManager) : List DownloadingId := m.sessions.entries.flatMap (·.2.downloading)

/-- The entries of the other sessions. -/
def downloadingElsewhere (m : DownloadManager) (session : Session) : List DownloadingId :=
  (m.sessions.erase session).entries.flatMap (·.2.downloading)

theorem downloading_perm (tracked : m.sessions.find? session = some data) :
    m.downloading.Perm (data.downloading ++ m.downloadingElsewhere session) :=
  (SortedMap.perm_erase tracked).flatMap_right _

theorem downloading_setData (m : DownloadManager) (session : Session) (data : SessionData) :
    (m.setData session data).downloading.Perm (data.downloading ++ m.downloadingElsewhere session) := by
  have missing : (m.sessions.erase session).find? session = none := by rw [SortedMap.find?_erase, if_pos rfl]
  exact (SortedMap.emplace_perm data missing).flatMap_right _

theorem mem_downloading : entry ∈ m.downloading ↔
    ∃ session data, m.sessions.find? session = some data ∧ entry ∈ data.downloading := by
  unfold downloading
  rw [List.mem_flatMap]
  constructor
  · rintro ⟨⟨session, data⟩, tracked, member⟩
    exact ⟨session, data, SortedMap.find?_eq_some.mpr tracked, member⟩
  · rintro ⟨session, data, tracked, member⟩
    exact ⟨(session, data), SortedMap.find?_eq_some.mp tracked, member⟩

/-- An entry, and the place where it is. -/
structure Here (m : DownloadManager) (session : Session) (data : SessionData) (i : Nat) (entry : DownloadingId) :
    Prop where
  tracked : m.sessions.find? session = some data
  entry : data.downloading[i]? = some entry

theorem Here.mem (here : m.Here session data i entry) : entry ∈ m.downloading :=
  mem_downloading.mpr ⟨session, data, here.tracked, List.mem_of_getElem? here.entry⟩

/-- The others stay when an entry is erased or becomes another one. -/
theorem Here.exists_rest (here : m.Here session data i entry) : ∃ rest, m.downloading.Perm (entry :: rest) ∧
    (m.setData session { data with downloading := data.downloading.eraseIdx i }).downloading.Perm rest ∧
    ∀ changed, (m.setData session { data with downloading := data.downloading.set i changed }).downloading.Perm
      (changed :: rest) := by
  obtain ⟨front, back, split, rfl⟩ := Lib.split_at here.entry
  refine ⟨front ++ back ++ m.downloadingElsewhere session, ?_, ?_, fun changed => ?_⟩
  · refine (downloading_perm here.tracked).trans ?_
    rw [split]
    exact List.perm_middle.append_right _
  · refine (downloading_setData m session _).trans ?_
    simp only [split, List.eraseIdx_append_of_length_le (le_refl _), Nat.sub_self, List.eraseIdx_cons_zero]
    exact List.Perm.refl _
  · refine (downloading_setData m session _).trans ?_
    simp only [split, List.set_append_right _ _ (le_refl _), Nat.sub_self, List.set_cons_zero]
    exact List.perm_middle.append_right _

/-! ## Accounts -/

/-- What is kept beside some entries is about these. -/
structure Tally (w : World) (m : DownloadManager) (entries : List DownloadingId) : Prop where
  ready : m.loadingProgress.ready = (entries.map (·.ready)).sum
  total : m.loadingProgress.total = (entries.map (·.total)).sum
  once : (entries.map (·.object.item)).Nodup
  loading : ∀ item, item ∈ m.loading ↔ ∃ entry ∈ entries, entry.object.item = item ∧ entry.done = false
  loadingDone : ∀ item, item ∈ m.loadingDone ↔ ∃ entry ∈ entries, entry.object.item = item ∧ entry.done = true
  documents : ∀ document ∈ m.loadingDocuments, ∃ entry ∈ entries, entry.object.document = some document
  known : ∀ entry ∈ entries, ∃ document, entry.object.document = some document ∧
    w.documentSession document = w.itemSession entry.object.item
  timer : m.clearLoadingTimer = true → m.loading.items = []

theorem exists_mem_head_congr {α : Type} {p : α → Prop} {a b : α} {l : List α} (same : p a ↔ p b) :
    (∃ c ∈ a :: l, p c) ↔ ∃ c ∈ b :: l, p c := by
  rw [List.exists_mem_cons_iff, List.exists_mem_cons_iff, same]

theorem remove_nil {items : FlatSet Nat} (nothing : items.items = []) (item : Nat) :
    (items.remove item).items = [] := by
  simp [FlatSet.remove, nothing]

namespace Tally

theorem perm (tally : Tally w m entries) (same : entries.Perm rest) : Tally w m rest where
  ready := tally.ready.trans (same.map _).sum_eq
  total := tally.total.trans (same.map _).sum_eq
  once := (same.map _).nodup_iff.mp tally.once
  loading item := by simp only [tally.loading item, same.mem_iff]
  loadingDone item := by simp only [tally.loadingDone item, same.mem_iff]
  documents document watched := by
    obtain ⟨entry, member, same'⟩ := tally.documents document watched
    exact ⟨entry, same.mem_iff.mp member, same'⟩
  known entry member := tally.known entry (same.mem_iff.mpr member)
  timer := tally.timer

/-- The other entries are about other messages. -/
theorem others (tally : Tally w m (entry :: rest)) : ∀ other ∈ rest, other.object.item ≠ entry.object.item := by
  intro other member same
  have once := tally.once
  rw [List.map_cons, List.nodup_cons] at once
  exact once.1 (List.mem_map.mpr ⟨other, member, same⟩)

/-- Messages of entries with some condition, when the first one is taken out. -/
theorem mem_others (others : ∀ other ∈ rest, other.object.item ≠ entry.object.item) {p : DownloadingId → Prop}
    (item : HistoryItem) :
    ((∃ e ∈ entry :: rest, e.object.item = item ∧ p e) ∧ item ≠ entry.object.item) ↔
      ∃ e ∈ rest, e.object.item = item ∧ p e := by
  constructor
  · rintro ⟨⟨e, member, rfl, holds⟩, other⟩
    rcases List.mem_cons.mp member with rfl | member
    · exact absurd rfl other
    · exact ⟨e, member, rfl, holds⟩
  · rintro ⟨e, member, rfl, holds⟩
    exact ⟨⟨e, List.mem_cons_of_mem _ member, rfl, holds⟩, others e member⟩

theorem remove (tally : Tally w m (entry :: rest)) (session : Session) (data : SessionData) (i : Nat) :
    Tally w (m.remove session data i entry) rest := by
  have ready := tally.ready
  have total := tally.total
  have once := tally.once
  rw [List.map_cons, List.sum_cons] at ready total
  rw [List.map_cons, List.nodup_cons] at once
  have removed : ∀ timer : Bool, (timer = true → (m.loading.remove entry.object.item).items = []) →
      Tally w
        { m.setData session { data with downloading := data.downloading.eraseIdx i } with
          loading := m.loading.remove entry.object.item
          loadingDone := m.loadingDone.remove entry.object.item
          loadingDocuments := removeDocument m.loadingDocuments entry.object.document
          loadingProgress :=
            { ready := m.loadingProgress.ready - entry.ready, total := m.loadingProgress.total - entry.total }
          clearLoadingTimer := timer } rest := by
    intro timer armed
    refine ⟨?_, ?_, once.2, fun item => ?_, fun item => ?_, ?_, ?_, armed⟩
    · change m.loadingProgress.ready - entry.ready = _
      omega
    · change m.loadingProgress.total - entry.total = _
      omega
    · exact FlatSet.mem_remove.trans ((and_congr_left' (tally.loading item)).trans (mem_others tally.others item))
    · exact FlatSet.mem_remove.trans ((and_congr_left' (tally.loadingDone item)).trans (mem_others tally.others item))
    · intro document watched
      obtain ⟨watched, other⟩ := mem_removeDocument.mp watched
      obtain ⟨e, member, same⟩ := tally.documents document watched
      rcases List.mem_cons.mp member with rfl | member
      · exact absurd same other
      · exact ⟨e, member, same⟩
    · exact fun e member => tally.known e (List.mem_cons_of_mem _ member)
  unfold DownloadManager.remove
  simp only
  split_ifs with last
  · exact removed true fun _ => last.1
  · exact removed m.clearLoadingTimer fun armed => remove_nil (tally.timer armed) _

/-- An entry that is not done is downloaded further. -/
theorem progress (tally : Tally w m (entry :: rest)) (session : Session) (data : SessionData) (i : Nat)
    (readyChange totalChange : Int) :
    Tally w (m.progress session data i entry readyChange totalChange)
      ({ entry with ready := entry.ready + readyChange, total := entry.total + totalChange } :: rest) := by
  have ready := tally.ready
  have total := tally.total
  rw [List.map_cons, List.sum_cons] at ready total
  constructor
  · rw [List.map_cons, List.sum_cons]
    change m.loadingProgress.ready + readyChange = entry.ready + readyChange + _
    omega
  · rw [List.map_cons, List.sum_cons]
    change m.loadingProgress.total + totalChange = entry.total + totalChange + _
    omega
  · exact tally.once
  · exact fun item => (tally.loading item).trans (exists_mem_head_congr Iff.rfl)
  · exact fun item => (tally.loadingDone item).trans (exists_mem_head_congr Iff.rfl)
  · intro document watched
    apply (exists_mem_head_congr _).mp (tally.documents document watched)
    exact Iff.rfl
  · exact List.forall_mem_cons.mpr (List.forall_mem_cons.mp tally.known)
  · exact tally.timer

/-- What is watched less is still there. -/
theorem unwatch (tally : Tally w m entries) (document : Option DocumentData) :
    Tally w { m with loadingDocuments := removeDocument m.loadingDocuments document } entries :=
  { tally with documents := fun other watched => tally.documents other (mem_removeDocument.mp watched).1 }

/-- A new entry, about a message that has none. -/
theorem push (tally : Tally w m entries) {object : DownloadObject} {document : DocumentData}
    (fresh : ∀ other ∈ entries, other.object.item ≠ object.item) (shows : object.document = some document)
    (same : w.documentSession document = w.itemSession object.item) (o : Outside) (session : Session)
    (data : SessionData) (started : Int) :
    Tally w (m.pushLoading o session data object document)
      (downloadingId o data object document started :: entries) := by
  constructor
  · rw [List.map_cons, List.sum_cons, ← tally.ready]
    exact (Int.zero_add _).symm
  · rw [List.map_cons, List.sum_cons, ← tally.total]
    exact Int.add_comm _ _
  · rw [List.map_cons, List.nodup_cons]
    refine ⟨fun member => ?_, tally.once⟩
    obtain ⟨other, member, same⟩ := List.mem_map.mp member
    exact fresh other member same
  · intro item
    rw [List.exists_mem_cons_iff, ← tally.loading item]
    apply FlatSet.mem_insert.trans
    exact or_congr ⟨fun same => ⟨same.symm, rfl⟩, fun same => same.1.symm⟩ Iff.rfl
  · intro item
    rw [List.exists_mem_cons_iff, ← tally.loadingDone item]
    exact (or_iff_right fun same => Bool.false_ne_true same.2).symm
  · intro other watched
    rcases FlatSet.mem_insert.mp watched with rfl | watched
    · exact ⟨_, List.mem_cons_self, shows⟩
    · obtain ⟨entry, member, same⟩ := tally.documents other watched
      exact ⟨entry, List.mem_cons_of_mem _ member, same⟩
  · rw [List.forall_mem_cons]
    exact ⟨⟨document, shows, same⟩, tally.known⟩
  · nofun

/-- The entry of a message that is being downloaded is not done. -/
theorem undone (tally : Tally w m (entry :: rest)) (loads : entry.object.item ∈ m.loading) : entry.done = false := by
  obtain ⟨other, member, same, undone⟩ := (tally.loading _).mp loads
  rcases List.mem_cons.mp member with rfl | member
  · exact undone
  · exact absurd same (tally.others other member)

/-- An entry becomes done. -/
theorem markDone (tally : Tally w m (entry :: rest)) (loads : entry.object.item ∈ m.loading) {document : DocumentData}
    (shows : entry.object.document = some document) (o : Outside) (session : Session) (data : SessionData) (i : Nat) :
    Tally w (m.markDone o session data i entry document) (finishedId o document entry :: rest) := by
  have ready := tally.ready
  have total := tally.total
  have undone := tally.undone loads
  rw [List.map_cons, List.sum_cons] at ready total
  have marked : ∀ timer : Bool, (timer = true → (m.loading.remove entry.object.item).items = []) →
      Tally w
        { m.setData session { data with downloading := data.downloading.set i (finishedId o document entry) } with
          loadingDocuments := m.loadingDocuments.remove document
          loading := m.loading.remove entry.object.item
          loadingDone := m.loadingDone.insert entry.object.item
          loadingProgress :=
            { ready := m.loadingProgress.ready + (o.size document - entry.ready)
              total := m.loadingProgress.total + (o.size document - entry.total) }
          clearLoadingTimer := timer } (finishedId o document entry :: rest) := by
    intro timer armed
    constructor
    · rw [List.map_cons, List.sum_cons]
      change m.loadingProgress.ready + (o.size document - entry.ready) =
        entry.ready + (o.size document - entry.ready) + _
      omega
    · rw [List.map_cons, List.sum_cons]
      change m.loadingProgress.total + (o.size document - entry.total) =
        entry.total + (o.size document - entry.total) + _
      omega
    · exact tally.once
    · intro item
      rw [List.exists_mem_cons_iff]
      apply FlatSet.mem_remove.trans
      refine (and_congr_left' (tally.loading item)).trans ((mem_others tally.others item).trans ?_)
      exact (or_iff_right fun same => Bool.false_ne_true same.2.symm).symm
    · intro item
      rw [List.exists_mem_cons_iff]
      apply FlatSet.mem_insert.trans
      rw [tally.loadingDone item, List.exists_mem_cons_iff, undone]
      constructor
      · rintro (rfl | ⟨-, impossible⟩ | there)
        · exact .inl ⟨rfl, rfl⟩
        · exact absurd impossible Bool.false_ne_true
        · exact .inr there
      · rintro (⟨rfl, -⟩ | there)
        · exact .inl rfl
        · exact .inr (.inr there)
    · intro other watched
      obtain ⟨e, member, same⟩ := tally.documents other (FlatSet.mem_remove.mp watched).1
      rcases List.mem_cons.mp member with rfl | member
      · exact ⟨_, List.mem_cons_self, same⟩
      · exact ⟨e, List.mem_cons_of_mem _ member, same⟩
    · exact List.forall_mem_cons.mpr (List.forall_mem_cons.mp tally.known)
    · exact armed
  unfold DownloadManager.markDone
  simp only
  split_ifs with last
  · exact marked true fun _ => last
  · exact marked m.clearLoadingTimer fun armed => remove_nil (tally.timer armed) _

end Tally

/-- The accounts are about all entries, and each entry is in the session of its message. -/
structure Accounts (w : World) (m : DownloadManager) : Prop where
  tally : Tally w m m.downloading
  placed : ∀ session data, m.sessions.find? session = some data →
    ∀ entry ∈ data.downloading, w.itemSession entry.object.item = session

theorem placed_setData (accounts : Accounts w m)
    (kept : ∀ entry ∈ data.downloading, w.itemSession entry.object.item = session) :
    ∀ other found, (m.setData session data).sessions.find? other = some found →
      ∀ entry ∈ found.downloading, w.itemSession entry.object.item = other := by
  intro other found tracked
  unfold setData at tracked
  rw [SortedMap.find?_set] at tracked
  split_ifs at tracked with same
  · cases tracked
    exact same ▸ kept
  · exact accounts.placed other found tracked

/-- An entry of a message is in the session of the message. -/
theorem Accounts.here (accounts : Accounts w m) (member : entry ∈ m.downloading) :
    ∃ data, m.sessions.find? (w.itemSession entry.object.item) = some data ∧ entry ∈ data.downloading := by
  obtain ⟨session, data, tracked, member⟩ := mem_downloading.mp member
  have same := accounts.placed session data tracked entry member
  exact ⟨data, same ▸ tracked, member⟩

/-! ## Moves -/

/-- What an operation does to the entries that are there, and to what is downloaded meanwhile. -/
inductive Move (w : World) (o : Outside) : DownloadManager → DownloadManager → Prop
  | remove {m : DownloadManager} {session : Session} {data : SessionData} {i : Nat} {entry : DownloadingId}
      (here : m.Here session data i entry) : Move w o m (m.remove session data i entry)
  | progress {m : DownloadManager} {session : Session} {data : SessionData} {i : Nat} {entry : DownloadingId}
      (here : m.Here session data i entry) (readyChange totalChange : Int) :
      Move w o m (m.progress session data i entry readyChange totalChange)
  | unwatch {m : DownloadManager} {session : Session} {data : SessionData} {i : Nat} {entry : DownloadingId}
      (here : m.Here session data i entry) (rests : entry.object.item ∉ m.loading) :
      Move w o m { m with loadingDocuments := removeDocument m.loadingDocuments entry.object.document }
  | markDone {m : DownloadManager} {session : Session} {data : SessionData} {i : Nat} {entry : DownloadingId}
      {document : DocumentData} (here : m.Here session data i entry) (loads : entry.object.item ∈ m.loading)
      (shows : entry.object.document = some document) : Move w o m (m.markDone o session data i entry document)
  | pushLoaded {m : DownloadManager} {data : SessionData} {object : DownloadObject} {path : QString} {started : Int}
      (tracked : m.sessions.find? (w.itemSession object.item) = some data)
      (shows : object.document ≠ none ∨ object.photo ≠ none) :
      Move w o m (m.pushLoaded o (w.itemSession object.item) data object path started)

abbrev Moves (w : World) (o : Outside) : DownloadManager → DownloadManager → Prop := Relation.ReflTransGen (Move w o)

theorem Accounts.setData_of_perm (accounts : Accounts w m)
    (kept : ∀ entry ∈ data.downloading, w.itemSession entry.object.item = session)
    (same : m'.sessions = (m.setData session data).sessions) (perm : (m.setData session data).downloading.Perm rest)
    (tally : Tally w m' rest) : Accounts w m' := by
  have entries : m'.downloading = (m.setData session data).downloading := by
    unfold downloading
    rw [same]
  refine ⟨entries ▸ tally.perm perm.symm, ?_⟩
  rw [same]
  exact placed_setData accounts kept

theorem remove_sessions (m : DownloadManager) (session : Session) (data : SessionData) (i : Nat)
    (entry : DownloadingId) : (m.remove session data i entry).sessions =
      m.sessions.set session { data with downloading := data.downloading.eraseIdx i } := by
  unfold remove
  simp only
  split_ifs
  · rfl
  · rfl

theorem markDone_sessions (o : Outside) (m : DownloadManager) (session : Session) (data : SessionData) (i : Nat)
    (entry : DownloadingId) (document : DocumentData) : (m.markDone o session data i entry document).sessions =
      m.sessions.set session { data with downloading := data.downloading.set i (finishedId o document entry) } := by
  unfold markDone
  simp only
  split_ifs
  · rfl
  · rfl

theorem Here.placed_set (accounts : Accounts w m) (here : m.Here session data i entry) {changed : DownloadingId}
    (same : changed.object = entry.object) :
    ∀ other ∈ data.downloading.set i changed, w.itemSession other.object.item = session := by
  have placed := accounts.placed session data here.tracked
  intro other member
  rcases List.mem_or_eq_of_mem_set member with member | rfl
  · exact placed other member
  · rw [same]
    exact placed entry (List.mem_of_getElem? here.entry)

theorem Move.accounts (move : Move w o m m') (accounts : Accounts w m) : Accounts w m' := by
  cases move with
  | @remove session data i entry here =>
      obtain ⟨rest, before, after, -⟩ := here.exists_rest
      have tally := accounts.tally.perm before
      apply accounts.setData_of_perm (fun other member => ?_) (remove_sessions ..) after (tally.remove session data i)
      exact accounts.placed session data here.tracked other (List.mem_of_mem_eraseIdx member)
  | @progress session data i entry here readyChange totalChange =>
      obtain ⟨rest, before, -, after⟩ := here.exists_rest
      have tally := accounts.tally.perm before
      exact accounts.setData_of_perm (here.placed_set accounts (by rfl)) rfl (after _)
        (tally.progress session data i readyChange totalChange)
  | unwatch here rests => exact ⟨accounts.tally.unwatch _, accounts.placed⟩
  | @markDone session data i entry document here loads shows =>
      obtain ⟨rest, before, -, after⟩ := here.exists_rest
      have tally := accounts.tally.perm before
      exact accounts.setData_of_perm (here.placed_set accounts (by rfl)) (markDone_sessions ..) (after _)
        (tally.markDone loads shows o session data i)
  | @pushLoaded data object path started tracked shows =>
      have entries := (downloading_setData m (w.itemSession object.item)
        { data with downloaded := data.downloaded ++ [downloadedId o object path started] }).trans
          (downloading_perm tracked).symm
      have tally : Tally w (m.pushLoaded o (w.itemSession object.item) data object path started) m.downloading :=
        { accounts.tally with }
      apply Accounts.setData_of_perm accounts _ (by rfl) entries tally
      exact accounts.placed _ data tracked

theorem Moves.accounts (moves : Moves w o m m') (accounts : Accounts w m) : Accounts w m' := by
  induction moves with
  | refl => exact accounts
  | tail _ move ih => exact move.accounts ih

end DownloadManager

end IMeDesktop.Data.Loading
