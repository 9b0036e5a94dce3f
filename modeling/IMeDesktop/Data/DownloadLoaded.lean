import IMeDesktop.Data.DownloadLoadingSpecs

/-! # The messages of downloads

The manager keeps which messages have a download that is done. A message among these has one, in its own session. The
other direction is not always so: a message may have several downloads, and only the first of them is looked for.
-/

namespace IMeDesktop.Data.Loading

open Lib Ui Downloads

variable {w : World} {o : Outside} {m m' : DownloadManager} {session : Session} {data : SessionData} {i : Nat}
  {entry : DownloadingId} {id : DownloadedId} {object : DownloadObject}

namespace DownloadManager

/-- The downloads of a session. -/
def downloadedOf (m : DownloadManager) (session : Session) : List DownloadedId :=
  ((m.sessions.find? session).map (·.downloaded)).getD []

theorem downloadedOf_tracked (tracked : m.sessions.find? session = some data) :
    m.downloadedOf session = data.downloaded := by
  rw [downloadedOf, tracked]
  rfl

theorem downloadedOf_set (same : m'.sessions = m.sessions.set session data) (other : Session) :
    m'.downloadedOf other = if other = session then data.downloaded else m.downloadedOf other := by
  rw [downloadedOf, same, SortedMap.find?_set]
  split_ifs
  · rfl
  · rfl

/-- What is downloaded stays as it is. -/
structure SameLoaded (m m' : DownloadManager) : Prop where
  loaded : m'.loaded = m.loaded
  generated : m'.generated = m.generated
  downloaded : ∀ session, m'.downloadedOf session = m.downloadedOf session

theorem SameLoaded.refl (m : DownloadManager) : SameLoaded m m := ⟨rfl, rfl, fun _ => rfl⟩

/-- One more download. -/
structure OneLoaded (w : World) (m m' : DownloadManager) (id : DownloadedId) (object : DownloadObject) : Prop where
  refers : id.object = some object
  shows : object.document ≠ none ∨ object.photo ≠ none
  loaded : m'.loaded = m.loaded.insert object.item
  generated : m'.generated = m.generated
  downloaded : ∀ session, m'.downloadedOf session =
    if session = w.itemSession object.item then m.downloadedOf session ++ [id] else m.downloadedOf session

theorem downloadedOf_same (tracked : m.sessions.find? session = some data) {downloading : List DownloadingId}
    (same : m'.sessions = m.sessions.set session { data with downloading := downloading }) (other : Session) :
    m'.downloadedOf other = m.downloadedOf other := by
  rw [downloadedOf_set same]
  split_ifs with here
  · rw [here, downloadedOf_tracked tracked]
  · rfl

theorem remove_same (here : m.Here session data i entry) : SameLoaded m (m.remove session data i entry) := by
  refine ⟨?_, ?_, downloadedOf_same here.tracked (remove_sessions ..)⟩
  · unfold remove
    dsimp only
    split_ifs
    · rfl
    · rfl
  · unfold remove
    dsimp only
    split_ifs
    · rfl
    · rfl

theorem markDone_same (here : m.Here session data i entry) (o : Outside) (document : DocumentData) :
    SameLoaded m (m.markDone o session data i entry document) := by
  refine ⟨?_, ?_, downloadedOf_same here.tracked (markDone_sessions ..)⟩
  · unfold markDone
    dsimp only
    split_ifs
    · rfl
    · rfl
  · unfold markDone
    dsimp only
    split_ifs
    · rfl
    · rfl

theorem Move.loaded (move : Move w o m m') : SameLoaded m m' ∨ ∃ id object, OneLoaded w m m' id object := by
  cases move with
  | remove here => exact .inl (remove_same here)
  | progress here readyChange totalChange => exact .inl ⟨rfl, rfl, downloadedOf_same here.tracked rfl⟩
  | unwatch here rests => exact .inl ⟨rfl, rfl, fun _ => rfl⟩
  | markDone here loads shows => exact .inl (markDone_same here o _)
  | @pushLoaded data object path started tracked shows =>
      refine .inr ⟨downloadedId o object path started, object, rfl, shows, rfl, rfl, fun session => ?_⟩
      refine (downloadedOf_set rfl session).trans ?_
      split_ifs with here
      · rw [here, downloadedOf_tracked tracked]
      · rfl

/-! ## Messages with downloads -/

/-- A message that has a download has one in its session, and a download shows something. -/
structure LoadedInside (w : World) (m : DownloadManager) : Prop where
  inside : ∀ item ∈ m.loaded, ∃ id ∈ m.downloadedOf (w.itemSession item), id.by item = true
  placed : ∀ session, ∀ id ∈ m.downloadedOf session, ∀ object, id.object = some object →
    w.itemSession object.item = session ∧ (object.document ≠ none ∨ object.photo ≠ none)

/-- All downloads are of such messages. -/
def AllLoaded (m : DownloadManager) : Prop :=
  ∀ session, ∀ id ∈ m.downloadedOf session, ∀ object, id.object = some object → object.item ∈ m.loaded

theorem by_iff {item : HistoryItem} : id.by item = true ↔ ∃ object, id.object = some object ∧ object.item = item := by
  unfold DownloadedId.by
  rw [decide_eq_true_eq, Option.map_eq_some_iff]

namespace SameLoaded

theorem inside (same : SameLoaded m m') (loaded : LoadedInside w m) : LoadedInside w m' := by
  refine ⟨fun item member => ?_, fun session id member => ?_⟩
  · rw [same.downloaded]
    rw [same.loaded] at member
    exact loaded.inside item member
  · rw [same.downloaded] at member
    exact loaded.placed session id member

theorem all (same : SameLoaded m m') (all : AllLoaded m) : AllLoaded m' := by
  intro session id member
  rw [same.downloaded] at member
  rw [same.loaded]
  exact all session id member

end SameLoaded

namespace OneLoaded

theorem mem_downloaded (one : OneLoaded w m m' id object) {other : DownloadedId} :
    other ∈ m'.downloadedOf session ↔
      other ∈ m.downloadedOf session ∨ session = w.itemSession object.item ∧ other = id := by
  rw [one.downloaded]
  split_ifs with here
  · simp [here]
  · simp [here]

theorem inside (one : OneLoaded w m m' id object) (loaded : LoadedInside w m) : LoadedInside w m' := by
  refine ⟨fun item member => ?_, fun session other member => ?_⟩
  · rw [one.loaded] at member
    rcases FlatSet.mem_insert.mp member with rfl | member
    · exact ⟨id, one.mem_downloaded.mpr (.inr ⟨rfl, rfl⟩), by_iff.mpr ⟨object, one.refers, rfl⟩⟩
    · obtain ⟨other, there, same⟩ := loaded.inside item member
      exact ⟨other, one.mem_downloaded.mpr (.inl there), same⟩
  · rcases one.mem_downloaded.mp member with member | ⟨rfl, rfl⟩
    · exact loaded.placed session other member
    · intro other refers
      cases Option.some.inj (one.refers.symm.trans refers)
      exact ⟨rfl, one.shows⟩

theorem all (one : OneLoaded w m m' id object) (all : AllLoaded m) : AllLoaded m' := by
  intro session other member object' refers
  rw [one.loaded, FlatSet.mem_insert]
  rcases one.mem_downloaded.mp member with member | ⟨rfl, rfl⟩
  · exact .inr (all session other member object' refers)
  · cases Option.some.inj (one.refers.symm.trans refers)
    exact .inl rfl

end OneLoaded

theorem Moves.inside (moves : Moves w o m m') (loaded : LoadedInside w m) : LoadedInside w m' := by
  induction moves with
  | refl => exact loaded
  | tail _ move ih =>
      rcases move.loaded with same | ⟨id, object, one⟩
      · exact same.inside ih
      · exact one.inside ih

theorem Moves.all (moves : Moves w o m m') (all : AllLoaded m) : AllLoaded m' := by
  induction moves with
  | refl => exact all
  | tail _ move ih =>
      rcases move.loaded with same | ⟨id, object, one⟩
      · exact same.all ih
      · exact one.all ih

theorem pushLoading_same (tracked : m.sessions.find? session = some data) (object : DownloadObject)
    (document : DocumentData) : SameLoaded m (m.pushLoading o session data object document) :=
  ⟨rfl, rfl, downloadedOf_same tracked rfl⟩

theorem SameLoaded.trans {m₁ m₂ m₃ : DownloadManager} (first : SameLoaded m₁ m₂) (second : SameLoaded m₂ m₃) :
    SameLoaded m₁ m₃ where
  loaded := second.loaded.trans first.loaded
  generated := second.generated.trans first.generated
  downloaded session := (second.downloaded session).trans (first.downloaded session)

theorem removeLast_same (m : DownloadManager) (session : Session) : SameLoaded m (m.removeLast session) := by
  cases tracked : m.sessions.find? session with
  | none =>
      simp only [removeLast, tracked]
      exact .refl m
  | some data =>
      cases last : data.downloading.getLast? with
      | none =>
          simp only [removeLast, tracked, last]
          exact .refl m
      | some entry =>
          obtain ⟨here, removes⟩ := removeLast_eq tracked last
          rw [removes]
          exact remove_same here

theorem removeAll_same (m : DownloadManager) (session : Session) : SameLoaded m (m.removeAll session) := by
  unfold removeAll
  generalize ((m.sessions.find? session).map (·.downloading.length)).getD 0 = n
  induction n generalizing m with
  | zero => exact .refl m
  | succ n ih => exact (removeLast_same m session).trans (ih _)

/-! ## Downloads that go -/

/-- The downloads of a message. -/
def downloadsOf (w : World) (m : DownloadManager) (item : HistoryItem) : Nat :=
  (m.downloadedOf (w.itemSession item)).countP (·.by item)

/-- When one of some elements is taken out, either it was the only one, or another one is left. -/
theorem countP_le_one {α : Type} {l : List α} {i : Nat} {a : α} (here : l[i]? = some a) {p : α → Bool}
    (holds : p a = true) : l.countP p ≤ 1 ↔ ∀ b ∈ l.eraseIdx i, p b = false := by
  obtain ⟨front, back, rfl, rfl⟩ := Lib.split_at here
  rw [List.eraseIdx_append_of_length_le (le_refl _), Nat.sub_self, List.eraseIdx_cons_zero, List.countP_append,
    List.countP_cons_of_pos holds]
  have rest : (front ++ back).countP p = 0 ↔ ∀ b ∈ front ++ back, p b = false := by
    rw [List.countP_eq_zero]
    simp
  rw [← rest, List.countP_append]
  omega

theorem mem_of_ne_erased {α : Type} {l : List α} {i : Nat} {a b : α} (here : l[i]? = some a) (member : b ∈ l)
    (other : b ≠ a) : b ∈ l.eraseIdx i := by
  obtain ⟨front, back, rfl, rfl⟩ := Lib.split_at here
  rw [List.eraseIdx_append_of_length_le (le_refl _), Nat.sub_self, List.eraseIdx_cons_zero]
  rcases List.mem_append.mp member with member | member
  · exact List.mem_append_left _ member
  · exact List.mem_append_right _ ((List.mem_cons.mp member).resolve_left other)

theorem mem_set_iff {α : Type} {l : List α} {i : Nat} {a b c : α} (here : l[i]? = some a) :
    c ∈ l.set i b ↔ c = b ∨ c ∈ l.eraseIdx i := by
  obtain ⟨front, back, rfl, rfl⟩ := Lib.split_at here
  simp only [List.eraseIdx_append_of_length_le (le_refl _), Nat.sub_self, List.eraseIdx_cons_zero,
    List.set_append_right _ _ (le_refl _), List.set_cons_zero, List.mem_append, List.mem_cons]
  tauto

theorem mem_forget {item : HistoryItem} {downloaded : List DownloadedId} :
    item ∈ (m.forget downloaded).loaded ↔ item ∈ m.loaded ∧ ∀ id ∈ downloaded, id.by item = false := by
  unfold forget
  induction downloaded generalizing m with
  | nil => simp
  | cons id rest ih =>
      rw [List.foldl_cons, ih, List.forall_mem_cons, ← and_assoc]
      apply and_congr_left'
      cases refers : id.object with
      | none => simp [DownloadedId.by, refers]
      | some object => simp [DownloadedId.by, refers, FlatSet.mem_remove, eq_comm]

/-- What stays when some downloads of a session go, and their messages. -/
structure Went (m m' : DownloadManager) (session : Session) (gone left : List DownloadedId) : Prop where
  all : ∀ id ∈ m.downloadedOf session, id ∈ gone ∨ id ∈ left
  stays : ∀ id ∈ left, id ∈ m.downloadedOf session
  loaded : ∀ item, item ∈ m'.loaded ↔ item ∈ m.loaded ∧ ∀ id ∈ gone, id.by item = false
  downloaded : ∀ other, m'.downloadedOf other = if other = session then left else m.downloadedOf other

namespace Went

variable {gone left : List DownloadedId}

theorem inside (went : Went m m' session gone left) (loaded : LoadedInside w m) : LoadedInside w m' := by
  refine ⟨fun item member => ?_, fun other id member => ?_⟩
  · obtain ⟨member, stays⟩ := (went.loaded item).mp member
    obtain ⟨id, there, same⟩ := loaded.inside item member
    refine ⟨id, ?_, same⟩
    rw [went.downloaded]
    split_ifs with here
    · rw [here] at there
      exact (went.all id there).resolve_left fun member => by simp [stays id member] at same
    · exact there
  · rw [went.downloaded] at member
    split_ifs at member with here
    · exact here ▸ loaded.placed session id (went.stays id member)
    · exact loaded.placed other id member

/-- The messages of other downloads stay if they are other messages. -/
theorem all_iff (went : Went m m' session gone left) (loaded : LoadedInside w m) (all : AllLoaded m)
    (placed : ∀ id ∈ gone, id ∈ m.downloadedOf session) :
    AllLoaded m' ↔ ∀ id ∈ left, ∀ item, id.by item = true → ∀ other ∈ gone, other.by item = false := by
  constructor
  · intro all' id member item same
    obtain ⟨object, refers, rfl⟩ := by_iff.mp same
    have there : id ∈ m'.downloadedOf session := by rwa [went.downloaded, if_pos rfl]
    exact ((went.loaded _).mp (all' session id there object refers)).2
  · intro others session' id member object refers
    rw [went.downloaded] at member
    rw [went.loaded]
    split_ifs at member with here
    · exact ⟨all session id (went.stays id member) object refers,
        others id member object.item (by_iff.mpr ⟨object, refers, rfl⟩)⟩
    · refine ⟨all session' id member object refers, fun other goes => ?_⟩
      apply Bool.eq_false_iff.mpr
      intro same
      -- the two are of one message, and so in one session
      obtain ⟨object', refers', same⟩ := by_iff.mp same
      have first := (loaded.placed session' id member object refers).1
      have second := (loaded.placed session other (placed other goes) object' refers').1
      rw [same] at second
      exact here (first.symm.trans second)

end Went

theorem deleteLoaded_went (tracked : m.sessions.find? (w.itemSession object.item) = some data)
    (found : find data.downloaded (DownloadedId.by object.item) = some (i, id)) :
    Went m (m.deleteLoaded w object.item) (w.itemSession object.item) [id] (data.downloaded.eraseIdx i) := by
  have here := (find_some found).1
  have result : m.deleteLoaded w object.item = (m.forget [id]).setData (w.itemSession object.item)
      { data with downloaded := data.downloaded.eraseIdx i } := by
    simp only [deleteLoaded, tracked, found]
  rw [result]
  constructor
  · intro other member
    rw [downloadedOf_tracked tracked] at member
    by_cases same : other = id
    · exact .inl (List.mem_singleton.mpr same)
    · exact .inr (mem_of_ne_erased here member same)
  · intro other member
    rw [downloadedOf_tracked tracked]
    exact List.mem_of_mem_eraseIdx member
  · intro item
    exact mem_forget
  · intro other
    refine (downloadedOf_set rfl other).trans ?_
    simp only [downloadedOf, forget_sessions]

theorem takeDownloaded_went (tracked : m.sessions.find? session = some data) :
    Went m (m.takeDownloaded session) session data.downloaded [] := by
  have result : m.takeDownloaded session =
      (m.setData session { data with downloaded := [] }).forget data.downloaded := by
    simp only [takeDownloaded, tracked]
  rw [result]
  constructor
  · intro id member
    rw [downloadedOf_tracked tracked] at member
    exact .inl member
  · nofun
  · intro item
    exact mem_forget
  · exact downloadedOf_set (forget_sessions (m.setData session { data with downloaded := [] }) _)

theorem untrack_went (tracked : m.sessions.find? session = some data) :
    Went m { (m.forget data.downloaded).removeAll session with
      sessions := ((m.forget data.downloaded).removeAll session).sessions.erase session } session data.downloaded
      [] := by
  have same := removeAll_same (m.forget data.downloaded) session
  constructor
  · intro id member
    rw [downloadedOf_tracked tracked] at member
    exact .inl member
  · nofun
  · intro item
    rw [← mem_forget, ← same.loaded]
  · intro other
    have stays := same.downloaded other
    unfold downloadedOf at stays ⊢
    rw [SortedMap.find?_erase]
    split_ifs with here
    · rfl
    · rw [stays, forget_sessions]

theorem deleteLoaded_inside (loaded : LoadedInside w m) (item : HistoryItem) :
    LoadedInside w (m.deleteLoaded w item) := by
  cases tracked : m.sessions.find? (w.itemSession item) with
  | none => simpa only [deleteLoaded, tracked] using loaded
  | some data =>
      cases found : find data.downloaded (DownloadedId.by item) with
      | none => simpa only [deleteLoaded, tracked, found] using loaded
      | some place =>
          obtain ⟨i, id⟩ := place
          obtain ⟨object, refers, rfl⟩ := by_iff.mp (find_some found).2
          exact (deleteLoaded_went tracked found).inside loaded

/-- After the first download of a message is deleted, all downloads are of messages that have one, if it was the only
one. -/
theorem deleteLoaded_all_iff (loaded : LoadedInside w m) (all : AllLoaded m) (item : HistoryItem) :
    AllLoaded (m.deleteLoaded w item) ↔ m.downloadsOf w item ≤ 1 := by
  unfold downloadsOf
  cases tracked : m.sessions.find? (w.itemSession item) with
  | none => simpa [deleteLoaded, tracked, downloadedOf] using all
  | some data =>
      rw [downloadedOf_tracked tracked]
      cases found : find data.downloaded (DownloadedId.by item) with
      | none =>
          have nothing : data.downloaded.countP (·.by item) = 0 := by
            rw [List.countP_eq_zero]
            intro id member
            simp [find_none.mp found id member]
          have same : m.deleteLoaded w item = m := by simp only [deleteLoaded, tracked, found]
          rw [same, nothing]
          exact iff_of_true all (Nat.zero_le 1)
      | some place =>
          obtain ⟨i, id⟩ := place
          obtain ⟨here, same⟩ := find_some found
          obtain ⟨object, refers, rfl⟩ := by_iff.mp same
          rw [countP_le_one here same, (deleteLoaded_went tracked found).all_iff loaded all]
          · constructor
            · intro others other member
              apply Bool.eq_false_iff.mpr
              intro again
              simp [others other member object.item again id] at same
            · intro others other member item again first goes
              rw [List.mem_singleton.mp goes]
              apply Bool.eq_false_iff.mpr
              intro own
              obtain ⟨object', refers', rfl⟩ := by_iff.mp own
              cases Option.some.inj (refers.symm.trans refers')
              exact absurd again (Bool.eq_false_iff.mp (others other member))
          · intro other member
            rw [List.mem_singleton.mp member, downloadedOf_tracked tracked]
            exact List.mem_of_getElem? here

/-- All downloads of a session go, and their messages. -/
theorem Went.all_of_whole (went : Went m m' session data.downloaded []) (tracked : m.sessions.find? session = some data)
    (loaded : LoadedInside w m) (all : AllLoaded m) : AllLoaded m' := by
  rw [went.all_iff loaded all]
  · nofun
  · intro id member
    rw [downloadedOf_tracked tracked]
    exact member

theorem takeDownloaded_loaded (loaded : LoadedInside w m) (session : Session) :
    LoadedInside w (m.takeDownloaded session) ∧ (AllLoaded m → AllLoaded (m.takeDownloaded session)) := by
  cases tracked : m.sessions.find? session with
  | none =>
      have same : m.takeDownloaded session = m := by simp only [takeDownloaded, tracked]
      rw [same]
      exact ⟨loaded, id⟩
  | some data =>
      have went := takeDownloaded_went tracked
      exact ⟨went.inside loaded, went.all_of_whole tracked loaded⟩

/-- Saved downloads have no messages yet. -/
theorem trackSession_loaded (m : DownloadManager) {saved : List DownloadedId} (fresh : m.sessions.find? session = none)
    (unresolved : ∀ id ∈ saved, id.object = none) :
    (LoadedInside w m → LoadedInside w (m.trackSession session saved)) ∧
      (AllLoaded m → AllLoaded (m.trackSession session saved)) := by
  have downloaded : ∀ other, (m.trackSession session saved).downloadedOf other =
      if other = session then saved else m.downloadedOf other :=
    @downloadedOf_set m (m.trackSession session saved) session
      { (m.sessions.find? session).getD {} with downloaded := saved } rfl
  have before : m.downloadedOf session = [] := by
    rw [downloadedOf, fresh]
    rfl
  constructor
  · intro loaded
    refine ⟨fun item member => ?_, fun other id member object refers => ?_⟩
    · obtain ⟨id, there, same⟩ := loaded.inside item member
      refine ⟨id, ?_, same⟩
      rw [downloaded]
      split_ifs with here
      · simp [here, before] at there
      · exact there
    · rw [downloaded] at member
      split_ifs at member with here
      · simp [unresolved id member] at refers
      · exact loaded.placed other id member object refers
  · intro all other id member object refers
    rw [downloaded] at member
    split_ifs at member with here
    · simp [unresolved id member] at refers
    · exact all other id member object refers

/-! ## Downloads whose message is replaced -/

theorem mem_detached (here : data.downloaded[i]? = some id) {other : Session} {id' : DownloadedId} :
    id' ∈ (m.detached o session data i id object).downloadedOf other ↔
      if other = session then
        id' = { id with object := some { object with item := o.makeMessage } } ∨ id' ∈ data.downloaded.eraseIdx i
      else id' ∈ m.downloadedOf other := by
  have downloaded : (m.detached o session data i id object).downloadedOf other = _ := downloadedOf_set rfl other
  rw [downloaded]
  split_ifs
  · exact mem_set_iff here
  · rfl

section Detached

variable (tracked : m.sessions.find? session = some data) (here : data.downloaded[i]? = some id)
  (refers : id.object = some object)
include tracked here refers

theorem detached_inside (loaded : LoadedInside w m)
    (placed : w.itemSession o.makeMessage = w.itemSession object.item) :
    LoadedInside w (m.detached o session data i id object) := by
  have own := loaded.placed session id (by
    rw [downloadedOf_tracked tracked]
    exact List.mem_of_getElem? here) object refers
  constructor
  · intro item member
    have member : item ∈ (m.loaded.remove object.item).insert o.makeMessage := member
    rw [FlatSet.mem_insert, FlatSet.mem_remove] at member
    rcases member with rfl | ⟨member, other⟩
    · refine ⟨{ id with object := some { object with item := o.makeMessage } }, ?_, by simp [DownloadedId.by]⟩
      rw [mem_detached here, if_pos (placed.trans own.1)]
      exact .inl rfl
    · obtain ⟨id', there, same⟩ := loaded.inside item member
      refine ⟨id', ?_, same⟩
      rw [mem_detached here]
      split_ifs with session'
      · rw [session', downloadedOf_tracked tracked] at there
        refine .inr (mem_of_ne_erased here there fun equal => other ?_)
        obtain ⟨object', refers', rfl⟩ := by_iff.mp same
        rw [equal, refers] at refers'
        rw [Option.some.inj refers']
      · exact there
  · intro other id' member object' refers'
    rw [mem_detached here] at member
    split_ifs at member with session'
    · rcases member with rfl | member
      · cases Option.some.inj refers'
        exact ⟨placed.trans (own.1.trans session'.symm), own.2⟩
      · apply session' ▸ loaded.placed session id' _ object' refers'
        rw [downloadedOf_tracked tracked]
        exact List.mem_of_mem_eraseIdx member
    · exact loaded.placed other id' member object' refers'

/-- After the first download of a message is given a new one, all downloads are of messages that have one, if it was
the only one. -/
theorem detached_all_iff (loaded : LoadedInside w m) (all : AllLoaded m) (fresh : o.makeMessage ≠ object.item) :
    AllLoaded (m.detached o session data i id object) ↔ m.downloadsOf w object.item ≤ 1 := by
  have own := loaded.placed session id (by
    rw [downloadedOf_tracked tracked]
    exact List.mem_of_getElem? here) object refers
  rw [downloadsOf, own.1, downloadedOf_tracked tracked, countP_le_one here (by_iff.mpr ⟨object, refers, rfl⟩)]
  have loaded' : ∀ item, item ∈ (m.detached o session data i id object).loaded ↔
      item = o.makeMessage ∨ item ∈ m.loaded ∧ item ≠ object.item := by
    intro item
    exact FlatSet.mem_insert.trans (or_congr_right FlatSet.mem_remove)
  constructor
  · intro all' id' member
    apply Bool.eq_false_iff.mpr
    intro same
    obtain ⟨object', refers', same⟩ := by_iff.mp same
    have there := all' session id' (by
      rw [mem_detached here, if_pos rfl]
      exact .inr member) object' refers'
    rw [loaded', same] at there
    rcases there with equal | ⟨-, other⟩
    · exact fresh equal.symm
    · exact other rfl
  · intro others other id' member object' refers'
    rw [loaded']
    rw [mem_detached here] at member
    have apart : ∀ id' ∈ m.downloadedOf other, id'.object = some object' → id' ∈ data.downloaded.eraseIdx i ∨
        other ≠ session → object'.item ≠ object.item := by
      intro id' there refers' apart same
      rcases apart with left | elsewhere
      · exact absurd (by_iff.mpr ⟨object', refers', same⟩) (Bool.eq_false_iff.mp (others id' left))
      · have second := (loaded.placed other id' there object' refers').1
        rw [same] at second
        exact elsewhere (second.symm.trans own.1)
    split_ifs at member with session'
    · rcases member with rfl | member
      · cases Option.some.inj refers'
        exact .inl rfl
      · have there : id' ∈ m.downloadedOf other := by
          rw [session', downloadedOf_tracked tracked]
          exact List.mem_of_mem_eraseIdx member
        exact .inr ⟨all other id' there object' refers', apart id' there refers' (.inl member)⟩
    · exact .inr ⟨all other id' member object' refers', apart id' member refers' (.inr session')⟩

end Detached

/-- The message has a download, and the first one is to be detached. -/
def Detaches (w : World) (m : DownloadManager) (leaves : DownloadObject → Bool) (item : HistoryItem) : Prop :=
  item ∈ m.loaded ∧
    ((find (m.downloadedOf (w.itemSession item)) (DownloadedId.by item)).bind (·.2.object)).any leaves = true

instance Detaches.decidable (w : World) (m : DownloadManager) (leaves : DownloadObject → Bool) (item : HistoryItem) :
    Decidable (Detaches w m leaves item) :=
  inferInstanceAs (Decidable (_ ∧ _))

/-- A download is detached, unless its message was generated. -/
theorem detachLoaded_spec (loaded : LoadedInside w m) (leaves : DownloadObject → Bool) (item : HistoryItem) :
    (¬Detaches w m leaves item ∧ m.detachLoaded w o leaves item = .ok m) ∨
      Detaches w m leaves item ∧ ∃ data i id object, m.sessions.find? (w.itemSession item) = some data ∧
        data.downloaded[i]? = some id ∧ id.object = some object ∧ object.item = item ∧
        m.detachLoaded w o leaves item = if item ∈ m.generated then .error .generated
          else .ok (m.detached o (w.itemSession item) data i id object) := by
  unfold detachLoaded Detaches
  by_cases member : item ∈ m.loaded
  · obtain ⟨id, there, same⟩ := loaded.inside item member
    cases tracked : m.sessions.find? (w.itemSession item) with
    | none => simp [downloadedOf, tracked] at there
    | some data =>
        rw [downloadedOf_tracked tracked] at there ⊢
        cases found : find data.downloaded (DownloadedId.by item) with
        | none => exact absurd same (Bool.eq_false_iff.mp (find_none.mp found id there))
        | some place =>
            obtain ⟨i, id⟩ := place
            obtain ⟨here, same⟩ := find_some found
            obtain ⟨object, refers, rfl⟩ := by_iff.mp same
            have shows := (loaded.placed (w.itemSession object.item) id (by
              rw [downloadedOf_tracked tracked]
              exact List.mem_of_getElem? here) object refers).2
            simp only [if_neg (not_not.mpr member), sessionData_eq tracked, bind, Except.bind, found, Option.bind_some,
              refers, Option.any_some]
            cases goes : leaves object with
            | false => exact .inl ⟨by simp, rfl⟩
            | true =>
                refine .inr ⟨⟨member, rfl⟩, data, i, id, object, rfl, here, refers, rfl, ?_⟩
                exact detach_eq refers member shows
  · rw [if_pos member]
    exact .inl ⟨fun detaches => member detaches.1, rfl⟩

end DownloadManager

end IMeDesktop.Data.Loading
