import IMeDesktop.Dialogs.PinnedList
import IMeDesktop.Lib.Runs

/-! # Pinned chats are numbered

Every operation leaves the chats of the list with their places and all others with none. The limit is kept by the
operations that add one chat, and by those that set all of them if they are given no more than it allows.
-/

namespace IMeDesktop.Dialogs

open Data Lib

/-! ## Indexes -/

section Indexes

variable {indexes : PinnedIndexes} {filterId : FilterId}

/-- The indexes of one filter. -/
def ofFilter (indexes : PinnedIndexes) (filterId : FilterId) : Key → Nat := fun key => indexes key filterId

theorem ofFilter_cache (indexes : PinnedIndexes) (filterId : FilterId) (key : Key) (index : Nat) :
    ofFilter (cachePinnedIndex indexes filterId key index) filterId =
      Function.update (ofFilter indexes filterId) key index := by
  funext other
  simp [ofFilter, cachePinnedIndex, Function.update_apply]

theorem ofFilter_cacheFrom (indexes : PinnedIndexes) (filterId : FilterId) (n : Nat) (keys : List Key) :
    ofFilter (cacheFrom indexes filterId n keys) filterId = renumber (ofFilter indexes filterId) n keys := by
  induction keys generalizing indexes n with
  | nil => rfl
  | cons key rest ih => rw [cacheFrom, ih, ofFilter_cache, renumber]

/-- Of the chats that were pinned before, those that are not any more have no index. -/
theorem forget_eq (indexes : PinnedIndexes) (filterId : FilterId) (data old : List Key)
    (histories : ∀ key ∈ data, ∃ peerId, key = .history peerId) (key : Key) :
    ofFilter (PinnedList.forget indexes filterId data old) filterId key =
      if key ∈ old ∧ key ∉ data then 0 else ofFilter indexes filterId key := by
  induction old generalizing indexes with
  | nil => simp [PinnedList.forget]
  | cons first rest ih =>
      have cached : ofFilter (cachePinnedIndex indexes filterId first 0) filterId key =
          if key = first then 0 else ofFilter indexes filterId key := by
        rw [ofFilter_cache, Function.update_apply]
      cases first with
      | folder folderId =>
          have other : Key.folder folderId ∉ data := fun member => by
            obtain ⟨_, same⟩ := histories _ member
            exact nomatch same
          rw [PinnedList.forget, ih, cached]
          by_cases same : key = .folder folderId
          · subst same
            simp [other]
          · simp [same]
      | history peerId =>
          rw [PinnedList.forget]
          by_cases member : Key.history peerId ∈ data
          · rw [if_pos member, ih]
            by_cases same : key = .history peerId
            · subst same
              simp [member]
            · simp [same]
          · rw [if_neg member, ih, cached]
            by_cases same : key = .history peerId
            · subst same
              simp [member]
            · simp [same]

end Indexes

/-- The chat that is pinned for a peer. -/
def DialogPeer.key : DialogPeer → Option Key
  | .peer peerId => if peerId = 0 then none else some (.history peerId)
  | .folder folderId => some (.folder folderId)

/-- The chats of a list that the server sends. -/
def keysOf (list : List DialogPeer) : List Key := list.filterMap DialogPeer.key

namespace PinnedList

/-! ## What is kept -/

/-- Every chat of the list has its place, from one on, and all others have none. -/
structure Numbered (s : PinnedList) : Prop where
  distinct : s.data.Nodup
  placed : Placed 1 s.data (ofFilter s.indexes s.filterId)
  others : ∀ key, key ∉ s.data → ofFilter s.indexes s.filterId key = 0
  known : ∀ key ∈ s.data, s.folderKnown key = true ∨ s.filterId ≠ 0

/-- The list is another one, of the same filter. -/
structure SameFilter (s s' : PinnedList) : Prop where
  filterId : s'.filterId = s.filterId
  limit : s'.limit = s.limit
  folderKnown : s'.folderKnown = s.folderKnown

theorem SameFilter.refl (s : PinnedList) : SameFilter s s := ⟨rfl, rfl, rfl⟩

theorem SameFilter.trans {s s' s'' : PinnedList} (first : SameFilter s s') (second : SameFilter s' s'') :
    SameFilter s s'' :=
  ⟨second.filterId.trans first.filterId, second.limit.trans first.limit, second.folderKnown.trans first.folderKnown⟩

variable {s : PinnedList} {key : Key}

/-- A chat may be pinned or not where its folder is known, or in a filter. -/
def May (s : PinnedList) (key : Key) : Prop := s.folderKnown key = true ∨ s.filterId ≠ 0

theorem May.expects (may : s.May key) : ¬(s.folderKnown key = false ∧ s.filterId = 0) := by
  intro ⟨unknown, main⟩
  rcases may with known | filter
  · exact absurd (known.symm.trans unknown) (by decide)
  · exact filter main

theorem Numbered.split (numbered : s.Numbered) (member : key ∈ s.data) :
    ∃ front back, s.data = front ++ key :: back ∧ s.data.idxOf? key = some front.length ∧ key ∉ front ∧
      key ∉ back := by
  obtain ⟨front, back, split, other⟩ := List.eq_append_cons_of_mem member
  have distinct := numbered.distinct
  rw [split] at distinct
  refine ⟨front, back, split, split ▸ idxOf?_append_cons other, other, ?_⟩
  exact (List.nodup_cons.mp (List.nodup_append'.mp distinct).2.1).1

theorem unpin_spec (numbered : s.Numbered) (may : s.May key) :
    ∃ s', s.unpin key = some s' ∧ s'.Numbered ∧ SameFilter s s' ∧ s'.data = s.data.erase key := by
  rw [unpin, if_neg may.expects]
  by_cases member : key ∈ s.data
  · obtain ⟨front, back, split, place, before, behind⟩ := numbered.split member
    have cut : s.data.eraseIdx front.length = front ++ back := by
      rw [split, List.eraseIdx_append_of_length_le (Nat.le_refl _), Nat.sub_self, List.eraseIdx_cons_zero]
    have erased : s.data.erase key = front ++ back := by
      rw [split, List.erase_append_right _ before, List.erase_cons_head]
    have moved : ofFilter (cacheFrom (cachePinnedIndex s.indexes s.filterId key 0) s.filterId (front.length + 1) back)
        s.filterId = renumber (Function.update (ofFilter s.indexes s.filterId) key 0) (front.length + 1) back := by
      rw [ofFilter_cacheFrom, ofFilter_cache]
    obtain ⟨distinct, placed, others, known⟩ := numbered
    rw [split] at distinct placed
    simp only [place, cut, List.drop_left]
    have rest : (front ++ back).Nodup := distinct.sublist ((List.sublist_cons_self key back).append_left front)
    obtain ⟨first, later⟩ := placed_append.mp placed
    have still : Placed 1 front (Function.update (ofFilter s.indexes s.filterId) key 0) :=
      first.congr fun other member => Function.update_of_ne (ne_of_mem_of_not_mem member before) _ _
    have again := @placed_renumber_between _ _ 1 front back [] _ (by rwa [List.append_nil]) still (placed_nil _ _)
    rw [List.append_nil, Nat.add_comm 1] at again
    refine ⟨_, rfl, ⟨rest, ?_, fun other absent => ?_, fun other pinned => ?_⟩, ⟨rfl, rfl, rfl⟩,
      erased.symm⟩
    · exact moved ▸ again
    · rw [List.mem_append, not_or] at absent
      refine (congrFun moved other).trans ?_
      rw [renumber_of_not_mem absent.2, Function.update_apply]
      split_ifs with same
      · rfl
      · apply others
        rw [split, List.mem_append, List.mem_cons]
        simp [absent, same]
    · apply known
      rw [split]
      exact ((List.sublist_cons_self key back).append_left front).subset pinned
  · have absent := List.idxOf?_eq_none_iff.mpr member
    simp only [absent]
    exact ⟨s, rfl, numbered, .refl s, (List.erase_of_not_mem member).symm⟩

/-- One chat after another is not pinned any more, from the end. -/
theorem applyLimitFor_spec {rounds : Nat} (numbered : s.Numbered) (limit : Nat) (enough : s.data.length ≤ rounds) :
    ∃ s', applyLimitFor rounds s limit = some s' ∧ s'.Numbered ∧ SameFilter s s' ∧
      s'.data = s.data.take limit := by
  induction rounds generalizing s with
  | zero =>
      have none : s.data = [] := List.eq_nil_of_length_eq_zero (Nat.le_zero.mp enough)
      exact ⟨s, rfl, numbered, .refl s, by rw [none, List.take_nil]⟩
  | succ rounds ih =>
      rw [applyLimitFor]
      by_cases more : s.data.length > limit
      · obtain ⟨others, key, split⟩ : ∃ others key, s.data = others ++ [key] := by
          rcases List.eq_nil_or_concat s.data with none | some
          · rw [none] at more
            exact absurd more (Nat.not_lt_zero _)
          · simpa using some
        have distinct := numbered.distinct
        rw [split] at distinct
        have absent : key ∉ others := fun member =>
          (List.nodup_append'.mp distinct).2.2 member List.mem_cons_self
        have member : key ∈ s.data := by
          rw [split]
          exact List.mem_append_right _ List.mem_cons_self
        have last : s.data.getLast? = some key := by rw [split, List.getLast?_concat]
        obtain ⟨s', unpinned, numbered', same, rest⟩ := unpin_spec numbered (numbered.known key member)
        have left : s'.data = others := by rw [rest, split, List.erase_append_right _ absent, List.erase_cons_head,
          List.append_nil]
        rw [split, List.length_append, List.length_singleton] at more enough
        obtain ⟨s'', limited, numbered'', same', cut⟩ := ih numbered' (by rw [left]; omega)
        refine ⟨s'', ?_, numbered'', same.trans same', ?_⟩
        · rw [if_pos (by rw [split, List.length_append, List.length_singleton]; omega), last]
          simp only [unpinned, Option.bind_eq_bind, Option.bind_some, limited]
        · rw [cut, left, split, List.take_append_of_le_length (by omega)]
      · rw [if_neg more]
        exact ⟨s, rfl, numbered, .refl s, (List.take_of_length_le (by omega)).symm⟩

theorem applyLimit_spec (numbered : s.Numbered) (limit : Nat) :
    ∃ s', s.applyLimit limit = some s' ∧ s'.Numbered ∧ SameFilter s s' ∧ s'.data = s.data.take limit :=
  applyLimitFor_spec numbered limit (Nat.le_refl _)

/-- The chats are as they should be, and not too many. -/
structure Consistent (s : PinnedList) : Prop extends Numbered s where
  few : s.data.length ≤ s.limit

theorem addPinnedGetPosition_spec (consistent : s.Consistent) (may : s.May key) :
    ∃ position s', s.addPinnedGetPosition key = some (position, s') ∧ s'.Consistent ∧ SameFilter s s' ∧
      s'.data = (if key ∈ s.data then s.data else s.data.take (s.limit - 1) ++ [key]) ∧
      s'.data.idxOf? key = some position := by
  have limited := s.limited
  rw [addPinnedGetPosition]
  by_cases member : key ∈ s.data
  · obtain ⟨front, _, _, place, _, _⟩ := consistent.split member
    simp only [place]
    exact ⟨_, s, rfl, consistent, .refl s, by rw [if_pos member], place⟩
  · have absent := List.idxOf?_eq_none_iff.mpr member
    obtain ⟨s', cut, numbered, same, left⟩ := applyLimit_spec consistent.toNumbered (s.limit - 1)
    have other : key ∉ s'.data := by
      rw [left]
      exact fun known => member (List.mem_of_mem_take known)
    have short : s'.data.length ≤ s.limit - 1 := by
      rw [left, List.length_take]
      exact Nat.min_le_left _ _
    simp only [absent, cut, Option.bind_eq_bind, Option.bind_some]
    have moved := ofFilter_cache s'.indexes s'.filterId key (s'.data.length + 1)
    refine ⟨_, _, rfl, ⟨⟨?_, ?_, fun key' absent => ?_, fun key' pinned => ?_⟩, ?_⟩,
      ⟨same.filterId, same.limit, same.folderKnown⟩,
      ?_, ?_⟩
    · exact List.nodup_append'.mpr ⟨numbered.distinct, List.nodup_singleton key, List.disjoint_singleton.mpr other⟩
    · dsimp only
      rw [moved, placed_append, placed_cons]
      refine ⟨numbered.placed.congr fun key' known => ?_, ?_, placed_nil _ _⟩
      · exact Function.update_of_ne (ne_of_mem_of_not_mem known other) _ _
      · rw [Function.update_self, Nat.add_comm]
    · dsimp only at absent ⊢
      rw [List.mem_append, not_or, List.mem_singleton] at absent
      rw [moved, Function.update_of_ne absent.2]
      exact numbered.others key' absent.1
    · rcases List.mem_append.mp pinned with before | last
      · exact numbered.known key' before
      · rw [List.mem_singleton.mp last]
        exact may.imp (fun known => same.folderKnown ▸ known) fun filter => same.filterId ▸ filter
    · dsimp only
      rw [List.length_append, List.length_singleton, same.limit]
      omega
    · rw [if_neg member, ← left]
    · exact idxOf?_append_cons other

theorem addPinned_spec (consistent : s.Consistent) (known : s.folderKnown key = true) :
    ∃ s', s.addPinned key = some s' ∧ s'.Consistent ∧ SameFilter s s' ∧
      s'.data = if key ∈ s.data then s.data else s.data.take (s.limit - 1) ++ [key] := by
  obtain ⟨position, s', added, consistent', same, data, _⟩ :=
    @addPinnedGetPosition_spec s key consistent (.inl known)
  refine ⟨s', ?_, consistent', same, data⟩
  rw [addPinned, if_neg (by simp [known]), added]
  rfl

theorem setPinned_spec (consistent : s.Consistent) (may : s.May key) (pinned : Bool) :
    ∃ s', s.setPinned key pinned = some s' ∧ s'.Consistent ∧ SameFilter s s' := by
  rw [setPinned, if_neg may.expects]
  cases pinned with
  | false =>
      obtain ⟨s', unpinned, numbered, same, rest⟩ := unpin_spec consistent.toNumbered may
      refine ⟨s', unpinned, ⟨numbered, ?_⟩, same⟩
      rw [rest, same.limit]
      exact (List.erase_sublist).length_le.trans consistent.few
  | true =>
      obtain ⟨position, s', added, consistent', same, _, place⟩ := addPinnedGetPosition_spec consistent may
      simp only [if_true, added, Option.bind_eq_bind, Option.bind_some]
      by_cases first : position = 0
      · rw [if_pos first]
        exact ⟨s', rfl, consistent', same⟩
      · have member : key ∈ s'.data := by
          by_contra absent
          rw [List.idxOf?_eq_none_iff.mpr absent] at place
          exact nomatch place
        obtain ⟨front, back, split, place', before, behind⟩ := consistent'.split member
        obtain rfl : front.length = position := Option.some.inj (place'.symm.trans place)
        have data : (s'.data.drop front.length).take 1 ++ s'.data.take front.length ++ s'.data.drop (front.length + 1) =
            key :: front ++ back := by
          rw [split, List.drop_left, List.take_left, ← List.drop_drop, List.drop_left]
          rfl
        have perm : (key :: front ++ back).Perm s'.data := by
          rw [split]
          exact List.perm_middle.symm
        have moved : (key :: front ++ back).take (front.length + 1) = key :: front := by simp
        rw [if_neg first, data, moved]
        have distinct := perm.nodup_iff.mpr consistent'.distinct
        have placed := consistent'.placed
        rw [split, placed_append, placed_cons] at placed
        have again := @placed_renumber_between _ (ofFilter s'.indexes s'.filterId) 1 [] (key :: front) back _ distinct
          (placed_nil _ _) (by simpa [Nat.add_comm, Nat.add_assoc, Nat.add_left_comm] using placed.2.2)
        refine ⟨_, rfl, ⟨⟨distinct, ?_, fun key' absent => ?_, fun key' pinned => ?_⟩, ?_⟩,
          ⟨same.filterId, same.limit, same.folderKnown⟩⟩
        · dsimp only
          rw [ofFilter_cacheFrom]
          exact again
        · dsimp only at absent ⊢
          rw [ofFilter_cacheFrom, renumber_of_not_mem fun known => absent (List.mem_append_left _ known)]
          exact consistent'.others key' fun known => absent (perm.mem_iff.mpr known)
        · exact consistent'.known key' (perm.mem_iff.mp pinned)
        · exact perm.length_eq.trans_le consistent'.few

theorem setLimit_spec (numbered : s.Numbered) {limit : Nat} (positive : 0 < limit) (consistent : s.Consistent) :
    ∃ s', s.setLimit limit = some s' ∧ s'.Consistent := by
  rw [setLimit, dif_pos positive]
  by_cases same : s.limit = limit
  · rw [if_pos same]
    exact ⟨s, rfl, consistent⟩
  · rw [if_neg same]
    obtain ⟨s', limited, numbered', frame, cut⟩ := @applyLimit_spec { s with limit := limit, limited := positive }
      ⟨numbered.distinct, numbered.placed, numbered.others, numbered.known⟩ limit
    refine ⟨s', limited, ⟨numbered', ?_⟩⟩
    rw [cut, frame.limit, List.length_take]
    exact Nat.min_le_left _ _

theorem clear_spec (consistent : s.Consistent) :
    ∃ s', s.clear = some s' ∧ s'.Consistent ∧ SameFilter s s' ∧ s'.data = [] := by
  obtain ⟨s', cleared, numbered, same, none⟩ := applyLimit_spec consistent.toNumbered 0
  rw [List.take_zero] at none
  refine ⟨s', cleared, ⟨numbered, ?_⟩, same, none⟩
  rw [none]
  exact Nat.zero_le _

/-! ## Lists that are set -/

theorem applyPeer_eq (s : PinnedList) (peer : DialogPeer) :
    s.applyPeer peer = match peer.key with
      | none => some s
      | some key => s.addPinned key := by
  cases peer with
  | peer peerId =>
      rw [applyPeer, DialogPeer.key]
      split_ifs
      · rfl
      · rfl
  | folder _ => rfl

/-- While there is room, chats are added at the end. -/
theorem applyPeer_foldlM {list : List DialogPeer} (consistent : s.Consistent)
    (distinct : (s.data ++ keysOf list).Nodup) (known : ∀ key ∈ keysOf list, s.folderKnown key = true)
    (fits : (s.data ++ keysOf list).length ≤ s.limit) :
    ∃ s', list.foldlM applyPeer s = some s' ∧ s'.Consistent ∧ SameFilter s s' ∧
      s'.data = s.data ++ keysOf list := by
  induction list generalizing s with
  | nil => exact ⟨s, rfl, consistent, .refl s, (List.append_nil _).symm⟩
  | cons first rest ih =>
      rw [List.foldlM_cons, applyPeer_eq]
      cases keyed : first.key with
      | none =>
          have skipped : keysOf (first :: rest) = keysOf rest := List.filterMap_cons_none keyed
          rw [skipped] at distinct known fits ⊢
          exact ih consistent distinct known fits
      | some key =>
          have taken : keysOf (first :: rest) = key :: keysOf rest := List.filterMap_cons_some keyed
          rw [taken] at distinct known fits ⊢
          have absent : key ∉ s.data := fun member =>
            (List.nodup_append'.mp distinct).2.2 member List.mem_cons_self
          obtain ⟨s', added, consistent', same, data⟩ := addPinned_spec consistent (known key List.mem_cons_self)
          rw [List.length_append, List.length_cons] at fits
          rw [if_neg absent, List.take_of_length_le (by omega)] at data
          have whole : s'.data ++ keysOf rest = s.data ++ key :: keysOf rest := by
            rw [data, List.append_assoc]
            rfl
          obtain ⟨s'', done, consistent'', same', all⟩ := ih consistent' (whole ▸ distinct)
            (fun other member => same.folderKnown ▸ known other (List.mem_cons_of_mem _ member))
            (by rw [whole, same.limit, List.length_append, List.length_cons]; omega)
          refine ⟨s'', ?_, consistent'', same.trans same', all.trans whole⟩
          change (s.addPinned key).bind _ = _
          rw [added]
          exact done

theorem applyPeers_spec {list : List DialogPeer} (consistent : s.Consistent) (distinct : (keysOf list).Nodup)
    (known : ∀ key ∈ keysOf list, s.folderKnown key = true) (fits : (keysOf list).length ≤ s.limit) :
    ∃ s', s.applyPeers list = some s' ∧ s'.Consistent ∧ s'.data = keysOf list := by
  obtain ⟨s', cleared, consistent', same, none⟩ := clear_spec consistent
  obtain ⟨s'', added, consistent'', _, all⟩ := @applyPeer_foldlM s' list consistent' (by rwa [none])
    (same.folderKnown ▸ known) (by rw [none, same.limit]; exact fits)
  rw [none] at all
  refine ⟨s'', ?_, consistent'', all⟩
  rw [applyPeers, cleared]
  exact added

theorem applyHistories_spec {list : List Nat} (consistent : s.Consistent) (filter : s.filterId ≠ 0)
    (distinct : list.Nodup) (fits : list.length ≤ s.limit) :
    ∃ s', s.applyHistories list = some s' ∧ s'.Consistent ∧ s'.data = list.map Key.history := by
  have histories : ∀ key ∈ list.map Key.history, ∃ peerId, key = .history peerId := fun key member => by
    obtain ⟨peerId, _, same⟩ := List.mem_map.mp member
    exact ⟨peerId, same.symm⟩
  have different : (list.map Key.history).Nodup := distinct.map fun _ _ same => Key.history.inj same
  have now := forget_eq (cacheFrom s.indexes s.filterId 1 (list.map Key.history)) s.filterId
    (list.map Key.history) s.data histories
  rw [ofFilter_cacheFrom] at now
  rw [applyHistories, if_neg filter]
  refine ⟨_, rfl, ⟨⟨different, ?_, fun key absent => ?_, fun _ _ => .inr filter⟩, ?_⟩, rfl⟩
  · have placed := @placed_renumber _ (ofFilter s.indexes s.filterId) 1 _ _ different
    refine placed.congr fun key member => (now key).trans ?_
    exact if_neg fun gone => gone.2 member
  · refine (now key).trans ?_
    by_cases before : key ∈ s.data
    · exact if_pos ⟨before, absent⟩
    · rw [if_neg fun gone => before gone.1, renumber_of_not_mem absent]
      exact consistent.others key before
  · rw [List.length_map]
    exact fits

/-! ## Two chats -/

theorem reorder_spec {key1 key2 : Key} (consistent : s.Consistent) (first : key1 ∈ s.data) (second : key2 ∈ s.data)
    (different : key1 ≠ key2) : ∃ s', s.reorder key1 key2 = some s' ∧ s'.Consistent := by
  obtain ⟨front1, back1, split1, place1, _, _⟩ := consistent.split first
  obtain ⟨front2, back2, split2, place2, _, _⟩ := consistent.split second
  have at1 : s.data[front1.length]? = some key1 := by rw [split1]; simp
  have at2 : s.data[front2.length]? = some key2 := by rw [split2]; simp
  generalize front1.length = index1 at *
  generalize front2.length = index2 at *
  have apart : index1 ≠ index2 := by
    rintro rfl
    exact different (Option.some.inj (at1.symm.trans at2))
  have below1 := (List.getElem?_eq_some_iff.mp at1).1
  have below2 := (List.getElem?_eq_some_iff.mp at2).1
  have now (i : Nat) : ((s.data.set index1 key2).set index2 key1)[i]? =
      if i = index2 then some key1 else if i = index1 then some key2 else s.data[i]? := by
    rw [List.getElem?_set, List.getElem?_set, List.length_set]
    grind
  have moved : ofFilter (cachePinnedIndex (cachePinnedIndex s.indexes s.filterId key1 (index2 + 1)) s.filterId key2
      (index1 + 1)) s.filterId =
      Function.update (Function.update (ofFilter s.indexes s.filterId) key1 (index2 + 1)) key2 (index1 + 1) := by
    rw [ofFilter_cache, ofFilter_cache]
  have placed : Placed 1 ((s.data.set index1 key2).set index2 key1)
      (Function.update (Function.update (ofFilter s.indexes s.filterId) key1 (index2 + 1)) key2 (index1 + 1)) := by
    intro i key at_i
    rw [now] at at_i
    have number1 := consistent.placed index1 key1 at1
    have number2 := consistent.placed index2 key2 at2
    split_ifs at at_i with second first
    · cases at_i
      rw [Function.update_of_ne different, Function.update_self, second, Nat.add_comm]
    · cases at_i
      rw [Function.update_self, first, Nat.add_comm]
    · have number := consistent.placed i key at_i
      rw [Function.update_of_ne, Function.update_of_ne, number]
      · rintro rfl
        omega
      · rintro rfl
        omega
  have member (key : Key) : key ∈ (s.data.set index1 key2).set index2 key1 ↔ key ∈ s.data := by
    constructor
    · intro known
      rcases List.mem_or_eq_of_mem_set known with known | rfl
      · rcases List.mem_or_eq_of_mem_set known with known | rfl
        · exact known
        · exact second
      · exact first
    · intro known
      obtain ⟨i, at_i⟩ := List.getElem?_of_mem known
      by_cases same1 : i = index1
      · refine @List.mem_of_getElem? _ _ index2 _ ?_
        rw [now, if_pos rfl, ← at_i, same1, at1]
      · by_cases same2 : i = index2
        · refine @List.mem_of_getElem? _ _ index1 _ ?_
          rw [now, if_neg apart, if_pos rfl, ← at_i, same2, at2]
        · refine @List.mem_of_getElem? _ _ i _ ?_
          rw [now, if_neg same2, if_neg same1, at_i]
  rw [reorder]
  simp only [place1, place2, if_neg apart]
  refine ⟨_, rfl, ⟨⟨placed.nodup, ?_, fun key absent => ?_, fun key known => ?_⟩, ?_⟩⟩
  · exact moved ▸ placed
  · have before : key ∉ s.data := mt (member key).mpr absent
    refine (congrFun moved key).trans ?_
    rw [Function.update_of_ne (ne_of_mem_of_not_mem second before).symm,
      Function.update_of_ne (ne_of_mem_of_not_mem first before).symm]
    exact consistent.others key before
  · exact consistent.known key ((member key).mp known)
  · dsimp only
    rw [List.length_set, List.length_set]
    exact consistent.few

/-! ## Lists that are too long -/

/-- The chat that is added last is the last one, whatever had to go. -/
theorem applyPeer_foldlM_last {list : List DialogPeer} (consistent : s.Consistent)
    (distinct : (s.data ++ keysOf list).Nodup) (known : ∀ key ∈ keysOf list, s.folderKnown key = true) :
    ∃ s', list.foldlM applyPeer s = some s' ∧ s'.Consistent ∧ SameFilter s s' ∧
      s'.data.getLast? = (s.data ++ keysOf list).getLast? := by
  induction list generalizing s with
  | nil => exact ⟨s, rfl, consistent, .refl s, by rw [keysOf, List.filterMap_nil, List.append_nil]⟩
  | cons first rest ih =>
      rw [List.foldlM_cons, applyPeer_eq]
      cases keyed : first.key with
      | none =>
          have skipped : keysOf (first :: rest) = keysOf rest := List.filterMap_cons_none keyed
          rw [skipped] at distinct known ⊢
          exact ih consistent distinct known
      | some key =>
          have taken : keysOf (first :: rest) = key :: keysOf rest := List.filterMap_cons_some keyed
          rw [taken] at distinct known ⊢
          have absent : key ∉ s.data := fun member =>
            (List.nodup_append'.mp distinct).2.2 member List.mem_cons_self
          obtain ⟨s', added, consistent', same, data⟩ := addPinned_spec consistent (known key List.mem_cons_self)
          rw [if_neg absent] at data
          have part : (s'.data ++ keysOf rest).Sublist (s.data ++ key :: keysOf rest) := by
            rw [data, List.append_assoc]
            exact (List.take_sublist _ _).append (.refl _)
          obtain ⟨s'', done, consistent'', same', last⟩ := ih consistent' (distinct.sublist part)
            fun other member => same.folderKnown ▸ known other (List.mem_cons_of_mem _ member)
          refine ⟨s'', ?_, consistent'', same.trans same', last.trans ?_⟩
          · change (s.addPinned key).bind _ = _
            rw [added]
            exact done
          · rw [data, List.append_assoc, List.singleton_append,
              List.getLast?_append_of_ne_nil _ (List.cons_ne_nil _ _),
              List.getLast?_append_of_ne_nil _ (List.cons_ne_nil _ _)]

/-- A list that is cut ends with another one of its chats. -/
theorem getLast?_take_ne {keys : List Key} (distinct : keys.Nodup) {limit : Nat} (positive : 0 < limit)
    (long : limit < keys.length) : (keys.take limit).getLast? ≠ keys.getLast? := by
  intro same
  rw [List.getLast?_eq_getElem?, List.getLast?_eq_getElem?, List.length_take, Nat.min_eq_left long.le,
    List.getElem?_take, if_pos (by omega), List.getElem?_eq_getElem (by omega), List.getElem?_eq_getElem (by omega),
    Option.some.injEq, distinct.getElem_inj_iff] at same
  omega

/-! ## Runs -/

/-- What the code expects of its callers, and the lists have each chat once. -/
def Allowed (s : PinnedList) : PinnedStep → Prop
  | .setLimit limit => 0 < limit
  | .addPinned key => s.folderKnown key = true
  | .setPinned key _ => s.May key
  | .reorder key1 key2 => key1 ∈ s.data ∧ key2 ∈ s.data ∧ key1 ≠ key2
  | .clear => True
  | .applyPeers list => (keysOf list).Nodup ∧ ∀ key ∈ keysOf list, s.folderKnown key = true
  | .applyHistories list => s.filterId ≠ 0 ∧ list.Nodup
  | .folderKnown _ => True

instance Allowed.decidable (s : PinnedList) : (step : PinnedStep) → Decidable (s.Allowed step)
  | .setLimit limit => inferInstanceAs (Decidable (0 < limit))
  | .addPinned key => inferInstanceAs (Decidable (s.folderKnown key = true))
  | .setPinned key _ => inferInstanceAs (Decidable (s.folderKnown key = true ∨ s.filterId ≠ 0))
  | .reorder key1 key2 => inferInstanceAs (Decidable (key1 ∈ s.data ∧ key2 ∈ s.data ∧ key1 ≠ key2))
  | .clear => inferInstanceAs (Decidable True)
  | .applyPeers list =>
      inferInstanceAs (Decidable ((keysOf list).Nodup ∧ ∀ key ∈ keysOf list, s.folderKnown key = true))
  | .applyHistories list => inferInstanceAs (Decidable (s.filterId ≠ 0 ∧ list.Nodup))
  | .folderKnown _ => inferInstanceAs (Decidable True)

/-- The chats that a step sets. -/
def listed : PinnedStep → Option (List Key)
  | .applyPeers list => some (keysOf list)
  | .applyHistories list => some (list.map Key.history)
  | _ => none

/-- A list that is set is not longer than the limit. -/
def Fits (s : PinnedList) (step : PinnedStep) : Prop := ∀ keys ∈ listed step, keys.length ≤ s.limit

instance Fits.decidable (s : PinnedList) (step : PinnedStep) : Decidable (s.Fits step) :=
  inferInstanceAs (Decidable (∀ keys ∈ listed step, keys.length ≤ s.limit))

/-- After a step, all is numbered, and of a list that was set the first chats are pinned, as many as the limit
allows. -/
def Right (s : PinnedList) (step : PinnedStep) : Prop :=
  ∃ s', s.step step = some s' ∧ s'.Consistent ∧
    ∀ keys ∈ listed step, s'.data = keys.take (min keys.length s'.limit)

theorem Consistent.folderKnown (consistent : s.Consistent) (key : Key) :
    Consistent { s with folderKnown := Function.update s.folderKnown key true } := by
  refine ⟨⟨consistent.distinct, consistent.placed, consistent.others, fun other pinned => ?_⟩, consistent.few⟩
  refine (consistent.known other pinned).imp_left fun known => ?_
  dsimp only
  rw [Function.update_apply]
  split_ifs
  · rfl
  · exact known

/-- A list that fits is taken as it is. -/
theorem take_of_consistent {s' : PinnedList} {keys : List Key} (consistent : s'.Consistent) (data : s'.data = keys) :
    s'.data = keys.take (min keys.length s'.limit) := by
  have few := consistent.few
  rw [data] at few ⊢
  rw [Nat.min_eq_left few, List.take_length]

theorem step_right {step : PinnedStep} (consistent : s.Consistent) (allowed : s.Allowed step) (fits : s.Fits step) :
    s.Right step := by
  cases step with
  | setLimit limit =>
      obtain ⟨s', done, consistent'⟩ := setLimit_spec consistent.toNumbered allowed consistent
      exact ⟨s', done, consistent', nofun⟩
  | addPinned key =>
      obtain ⟨s', done, consistent', _⟩ := addPinned_spec consistent allowed
      exact ⟨s', done, consistent', nofun⟩
  | setPinned key pinned =>
      obtain ⟨s', done, consistent', _⟩ := setPinned_spec consistent allowed pinned
      exact ⟨s', done, consistent', nofun⟩
  | reorder key1 key2 =>
      obtain ⟨s', done, consistent'⟩ := reorder_spec consistent allowed.1 allowed.2.1 allowed.2.2
      exact ⟨s', done, consistent', nofun⟩
  | clear =>
      obtain ⟨s', done, consistent', _⟩ := clear_spec consistent
      exact ⟨s', done, consistent', nofun⟩
  | applyPeers list =>
      obtain ⟨s', done, consistent', data⟩ := applyPeers_spec consistent allowed.1 allowed.2 (fits _ rfl)
      refine ⟨s', done, consistent', fun keys given => ?_⟩
      cases given
      exact take_of_consistent consistent' data
  | applyHistories list =>
      obtain ⟨s', done, consistent', data⟩ := applyHistories_spec consistent allowed.1 allowed.2
        ((List.length_map _).symm.trans_le (fits _ rfl))
      refine ⟨s', done, consistent', fun keys given => ?_⟩
      cases given
      exact take_of_consistent consistent' data
  | folderKnown key => exact ⟨_, rfl, consistent.folderKnown key, nofun⟩

/-- A list that does not fit makes too many pinned chats, or other ones. -/
theorem step_fits {step : PinnedStep} (consistent : s.Consistent) (allowed : s.Allowed step) (right : s.Right step) :
    s.Fits step := by
  intro keys given
  obtain ⟨s', done, consistent', data⟩ := right
  have kept := data keys given
  by_contra long
  cases step with
  | setLimit _ | addPinned _ | setPinned _ _ | reorder _ _ | clear | folderKnown _ => exact nomatch given
  | applyPeers list =>
      cases given
      obtain ⟨cleared, clears, consistent'', same, none⟩ := clear_spec consistent
      obtain ⟨last, added, _, same', ends⟩ := @applyPeer_foldlM_last cleared list consistent''
        (by rw [none]; exact allowed.1) (same.folderKnown ▸ allowed.2)
      have made : s.applyPeers list = some last := by
        rw [applyPeers, clears]
        exact added
      obtain rfl : last = s' := Option.some.inj (made.symm.trans done)
      have limit := (same.trans same').limit
      rw [none, List.nil_append, kept, limit, Nat.min_eq_right (by omega)] at ends
      exact getLast?_take_ne allowed.1 s.limited (by omega) ends
  | applyHistories list =>
      cases given
      rw [PinnedList.step, applyHistories, if_neg allowed.1] at done
      cases done
      exact long consistent'.few

/-- In every run, all is right after each step if and only if the lists that are set fit. -/
theorem run_right_iff {s : PinnedList} (consistent : s.Consistent) {steps : List PinnedStep}
    (allowed : EveryStep next (fun s step => ∀ s' ∈ s, s'.Allowed step) (some s) steps) :
    EveryStep next (fun s step => ∀ s' ∈ s, s'.Right step) (some s) steps ↔
      EveryStep next (fun s step => ∀ s' ∈ s, s'.Fits step) (some s) steps := by
  have single (s : PinnedList) (P : PinnedList → Prop) : (∀ s' ∈ some s, P s') ↔ P s := by simp
  refine @EveryStep.iff_of_kept _ _ _ _ _ _ (fun s => ∃ s', s = some s' ∧ s'.Consistent) ?_ ?_ _ _ allowed
    ⟨s, rfl, consistent⟩
  · rintro _ step ⟨s, rfl, consistent⟩ allowed
    have first := allowed s rfl
    rw [single, single]
    exact ⟨step_fits consistent first, step_right consistent first⟩
  · rintro _ step ⟨s, rfl, consistent⟩ allowed right
    obtain ⟨s', done, consistent', _⟩ := right s rfl
    exact ⟨s', done, consistent'⟩

/-- A list without chats, of a filter that no chat has an index for. -/
def created (filterId : FilterId) (limit : Nat) (limited : 0 < limit) : PinnedList where
  filterId := filterId
  limit := limit
  limited := limited
  indexes _ _ := 0
  folderKnown _ := true

theorem created_consistent (filterId : FilterId) (limit : Nat) (limited : 0 < limit) :
    Consistent (created filterId limit limited) := by
  refine ⟨⟨List.nodup_nil, placed_nil 1 _, fun _ _ => rfl, fun _ _ => .inl rfl⟩, Nat.zero_le _⟩

def someSteps : List PinnedStep :=
  [.setPinned (.history 1) true, .setPinned (.history 2) true, .addPinned (.history 3), .applyHistories [1, 2],
    .reorder (.history 1) (.history 2), .applyPeers [.peer 4, .peer 0, .folder 1], .setLimit 1]

theorem someSteps_right :
    EveryStep next (fun s step => ∀ s' ∈ s, s'.Right step) (some (created 2 2 (by decide))) someSteps := by
  apply (run_right_iff (created_consistent 2 2 _) ?_).mpr
  · decide
  · decide

/-- A filter with a limit of one chat gets two pinned ones, and of three chats the second one goes. -/
theorem long_lists_not_right :
    ((created 2 1 (by decide)).Allowed (.applyHistories [1, 2]) ∧
        ¬Right (created 2 1 (by decide)) (.applyHistories [1, 2])) ∧
      (created 0 2 (by decide)).Allowed (.applyPeers [.peer 1, .peer 2, .peer 3]) ∧
        ¬Right (created 0 2 (by decide)) (.applyPeers [.peer 1, .peer 2, .peer 3]) := by
  refine ⟨⟨by decide, fun right => ?_⟩, by decide, fun right => ?_⟩
  · obtain ⟨s', done, consistent, _⟩ := right
    cases done
    exact absurd consistent.few (by decide)
  · obtain ⟨s', done, _, first⟩ := right
    cases done
    exact absurd (first _ rfl) (by decide)

end PinnedList

end IMeDesktop.Dialogs
