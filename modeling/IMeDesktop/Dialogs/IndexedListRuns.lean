import IMeDesktop.Dialogs.DialogsListSorted
import IMeDesktop.Dialogs.IndexedList
import IMeDesktop.Lib.Runs

/-! # The indexed list is complete

The list of a letter has exactly the chats of the main list with that letter, all lists are sorted, and a chat has
links to the rows that it has. Every operation keeps this but one: when the list is cleared, only the lists of the
letters are.
-/

namespace IMeDesktop.Dialogs

open Lib

/-! ## Loops over letters -/

/-- The list of a letter. -/
def letterList (index : SortedMap Letter DialogsList) (ch : Letter) : DialogsList := (index.find? ch).getD {}

section Loops

variable {index : SortedMap Letter DialogsList} {letters : List Letter}

theorem letterList_set (index : SortedMap Letter DialogsList) (ch other : Letter) (it : DialogsList) :
    letterList (index.set ch it) other = if other = ch then it else letterList index other := by
  rw [letterList, SortedMap.find?_set]
  split_ifs
  · rfl
  · rfl

theorem letterList_emplace (index : SortedMap Letter DialogsList) (ch other : Letter) :
    letterList (index.emplace ch {}) other = letterList index other := by
  rw [letterList, SortedMap.find?_emplace]
  split_ifs with same
  · rw [same]
    rfl
  · rfl

theorem letterList_delLetter (key : Key) (index : SortedMap Letter DialogsList) (ch other : Letter) :
    letterList (IndexedList.delLetter key index ch) other =
      if other = ch then (letterList index other).del key else letterList index other := by
  unfold IndexedList.delLetter
  cases found : index.find? ch with
  | none =>
      split_ifs with same
      · rw [same, letterList, found]
        rfl
      · rfl
  | some it =>
      dsimp only
      rw [letterList_set]
      split_ifs with same
      · rw [same, letterList, found]
        rfl
      · rfl

/-- What each letter's list becomes, the lists of all other letters are as before. -/
theorem foldlM_letters {f : SortedMap Letter DialogsList → Letter → Option (SortedMap Letter DialogsList)}
    {becomes : Letter → DialogsList → Prop} (nodup : letters.Nodup)
    (each : ∀ index' ch, ch ∈ letters → letterList index' ch = letterList index ch →
      ∃ index'', f index' ch = some index'' ∧ becomes ch (letterList index'' ch) ∧
        ∀ other, other ≠ ch → letterList index'' other = letterList index' other) :
    ∃ index', letters.foldlM f index = some index' ∧ (∀ ch ∈ letters, becomes ch (letterList index' ch)) ∧
      ∀ other, other ∉ letters → letterList index' other = letterList index other := by
  induction letters generalizing index with
  | nil => exact ⟨index, rfl, nofun, fun _ _ => rfl⟩
  | cons ch rest ih =>
      obtain ⟨apart, distinct⟩ := List.nodup_cons.mp nodup
      obtain ⟨index', first, became, frame⟩ := each index ch List.mem_cons_self rfl
      obtain ⟨index'', others, become, frame'⟩ := ih distinct fun any ch' member same =>
        each any ch' (List.mem_cons_of_mem ch member)
          (same.trans (frame ch' (ne_of_mem_of_not_mem member apart)))
      refine ⟨index'', ?_, List.forall_mem_cons.mpr ⟨?_, become⟩, fun other absent => ?_⟩
      · rw [List.foldlM_cons, first]
        exact others
      · rw [frame' ch apart]
        exact became
      · rw [List.mem_cons, not_or] at absent
        rw [frame' other absent.2, frame other absent.1]

theorem foldl_delLetter (nodup : letters.Nodup) (key : Key) (index : SortedMap Letter DialogsList) (ch : Letter) :
    letterList (letters.foldl (IndexedList.delLetter key) index) ch =
      if ch ∈ letters then (letterList index ch).del key else letterList index ch := by
  induction letters generalizing index with
  | nil => rfl
  | cons first rest ih =>
      obtain ⟨apart, distinct⟩ := List.nodup_cons.mp nodup
      rw [List.foldl_cons, ih distinct, letterList_delLetter]
      by_cases here : ch = first
      · subst here
        rw [if_neg apart, if_pos rfl, if_pos List.mem_cons_self]
      · simp [here]

/-- A loop that changes something else beside. -/
theorem foldlM_beside {σ τ : Type} (f : τ → Letter → Option τ) (g : σ → Letter → σ) (a : σ) (b : τ) :
    letters.foldlM (fun x ch => do
        let b ← f x.2 ch
        some (g x.1 ch, b)) (a, b) =
      (letters.foldlM f b).map fun b => (letters.foldl g a, b) := by
  induction letters generalizing a b with
  | nil => rfl
  | cons ch rest ih =>
      simp only [List.foldlM_cons, List.foldl_cons]
      cases next : f b ch with
      | none => rfl
      | some b' =>
          simp only [Option.bind_eq_bind, Option.bind_some]
          exact ih (g a ch) b'

theorem foldl_beside {σ τ : Type} (f : τ → Letter → τ) (g : σ → Letter → σ) (a : σ) (b : τ) :
    letters.foldl (fun x ch => (g x.1 ch, f x.2 ch)) (a, b) = (letters.foldl g a, letters.foldl f b) := by
  induction letters generalizing a b with
  | nil => rfl
  | cons ch rest ih => exact ih (g a ch) (f b ch)

end Loops

/-! ## What a loop does to the list of one letter -/

section Letters

variable {sortKey : Key → SortKey} {key : Key} {index : SortedMap Letter DialogsList} {ch : Letter}

theorem addLetter_spec (sorted : (letterList index ch).Sorted sortKey)
    (absent : key ∉ (letterList index ch).rows) :
    ∃ index', IndexedList.addLetter sortKey key index ch = some index' ∧
      ((letterList index' ch).Sorted sortKey ∧
        ∀ other, other ∈ (letterList index' ch).rows ↔ other = key ∨ other ∈ (letterList index ch).rows) ∧
      ∀ other, other ≠ ch → letterList index' other = letterList index other := by
  obtain ⟨j, added, sorted', members⟩ := DialogsList.addToEnd_spec sorted absent
  have found : (index.emplace ch {}).find? ch = some (letterList index ch) := by
    rw [SortedMap.find?_emplace, if_pos rfl]
    rfl
  refine ⟨(index.emplace ch {}).set ch j, ?_, ?_, fun other different => ?_⟩
  · simp [IndexedList.addLetter, found, added]
  · rw [letterList_set, if_pos rfl]
    exact ⟨sorted', members⟩
  · rw [letterList_set, if_neg different, letterList_emplace]

theorem adjustLetter_spec {list : DialogsList} (becomes : DialogsList → Prop) (has : list.rows ≠ [])
    (here : letterList index ch = list)
    (adjusts : ∃ list', list.adjustByDate sortKey key = some list' ∧ becomes list') :
    ∃ index', IndexedList.adjustLetter sortKey key index ch = some index' ∧ becomes (letterList index' ch) ∧
      ∀ other, other ≠ ch → letterList index' other = letterList index other := by
  obtain ⟨list', adjusted, became⟩ := adjusts
  unfold IndexedList.adjustLetter
  cases found : index.find? ch with
  | none =>
      rw [letterList, found] at here
      exact absurd (here ▸ rfl) has
  | some it =>
      rw [letterList, found] at here
      obtain rfl : it = list := here
      refine ⟨index.set ch list', ?_, ?_, fun other different => ?_⟩
      · simp [adjusted]
      · rw [letterList_set, if_pos rfl]
        exact became
      · rw [letterList_set, if_neg different]

end Letters

/-- What is left to remove, and what is to add, after some of the letters. -/
theorem namesChanged_foldl {letters : List Letter} (nodup : letters.Nodup) (toRemove toAdd : FlatSet Letter)
    (ch : Letter) :
    let (remove, add) := letters.foldl
      (fun (toRemove, toAdd) ch => if ch ∈ toRemove then (toRemove.remove ch, toAdd) else (toRemove, toAdd.insert ch))
      (toRemove, toAdd)
    (ch ∈ remove ↔ ch ∈ toRemove ∧ ch ∉ letters) ∧ (ch ∈ add ↔ ch ∈ toAdd ∨ ch ∈ letters ∧ ch ∉ toRemove) := by
  induction letters generalizing toRemove toAdd with
  | nil => simp
  | cons first rest ih =>
      obtain ⟨apart, distinct⟩ := List.nodup_cons.mp nodup
      rw [List.foldl_cons]
      dsimp only
      by_cases old : first ∈ toRemove
      · rw [if_pos old]
        refine (ih distinct _ toAdd).imp (fun remove => remove.trans ?_) fun add => add.trans ?_
        · rw [FlatSet.mem_remove, List.mem_cons]
          tauto
        · rw [FlatSet.mem_remove, List.mem_cons]
          grind
      · rw [if_neg old]
        refine (ih distinct toRemove _).imp (fun remove => remove.trans ?_) fun add => add.trans ?_
        · rw [List.mem_cons]
          grind
        · rw [FlatSet.mem_insert, List.mem_cons]
          grind

/-- Of two sets, what is to remove and what is to add. -/
theorem namesChanged_spec (oldLetters firstLetters : FlatSet Letter) (ch : Letter) :
    (ch ∈ (IndexedList.namesChanged oldLetters firstLetters).1 ↔ ch ∈ oldLetters ∧ ch ∉ firstLetters) ∧
      (ch ∈ (IndexedList.namesChanged oldLetters firstLetters).2 ↔ ch ∈ firstLetters ∧ ch ∉ oldLetters) := by
  refine (namesChanged_foldl firstLetters.nodup oldLetters .empty ch).imp id fun add => add.trans ?_
  exact or_iff_right (FlatSet.not_mem_empty ch)

/-! ## What is kept -/

namespace ChatsState

/-- The lists are sorted, all rows know their places, so that no chat is there twice, and the list of a letter has
the chats of the main list with the letter. -/
structure Complete (s : ChatsState) : Prop where
  main : s.chats.list.Sorted s.entries.sortKey
  letters : ∀ ch, (letterList s.chats.index ch).Sorted s.entries.sortKey
  members : ∀ ch key, key ∈ (letterList s.chats.index ch).rows ↔
    key ∈ s.chats.list.rows ∧ ch ∈ s.entries.chatListFirstLetters key

/-- The chats that are in the list have links to all of their rows. -/
structure Linked (s : ChatsState) : Prop extends Complete s where
  listed : ∀ key, (s.entries.chatListLinks key).isSome = true ↔ key ∈ s.chats.list.rows
  linked : ∀ key links, s.entries.chatListLinks key = some links →
    ∀ ch, ch ∈ links ↔ ch ∈ s.entries.chatListFirstLetters key

variable {s : ChatsState} {key : Key}

theorem contains_eq_false (complete : s.Complete) (absent : key ∉ s.chats.list.rows) :
    s.chats.list.contains key = false := Bool.eq_false_iff.mpr (mt (complete.main.listed key).mp absent)

theorem mem_foldl_insert (letters : List Letter) (set : FlatSet Letter) (ch : Letter) :
    ch ∈ letters.foldl (fun set ch => set.insert ch) set ↔ ch ∈ set ∨ ch ∈ letters := FlatSet.mem_merge

/-! ## Operations -/

theorem addToEnd_linked (linked : s.Linked) (key : Key) : ∃ s', s.step (.addToEnd key) = some s' ∧ s'.Linked := by
  by_cases member : key ∈ s.chats.list.rows
  · have contained : s.chats.list.contains key = true := (linked.main.listed key).mpr member
    obtain ⟨links, known⟩ := Option.isSome_iff_exists.mp ((linked.listed key).mpr member)
    refine ⟨s, ?_, linked⟩
    have same : Function.update s.entries.chatListLinks key (some links) = s.entries.chatListLinks := by
      rw [← known, Function.update_eq_self]
    simp [step, IndexedList.addToEnd, contained, known, same]
  · have unknown : s.chats.list.contains key = false := contains_eq_false linked.toComplete member
    have unlinked : s.entries.chatListLinks key = none := by
      rw [← Option.not_isSome_iff_eq_none, linked.listed]
      exact member
    have absent (ch : Letter) : key ∉ (letterList s.chats.index ch).rows := fun known =>
      member ((linked.members ch key).mp known).1
    obtain ⟨list, added, sorted, members⟩ := DialogsList.addToEnd_spec linked.main member
    obtain ⟨index, loop, become, others⟩ := @foldlM_letters s.chats.index _ _
      (fun ch it => it.Sorted s.entries.sortKey ∧
        ∀ other, other ∈ it.rows ↔ other = key ∨ other ∈ (letterList s.chats.index ch).rows)
      (s.entries.chatListFirstLetters key).nodup fun index' ch _ same =>
        same ▸ @addLetter_spec s.entries.sortKey key index' ch (same.symm ▸ linked.letters ch) (same.symm ▸ absent ch)
    refine ⟨⟨{ s.entries with
      chatListLinks := Function.update s.entries.chatListLinks key
        (some ((s.entries.chatListFirstLetters key).items.foldl (fun set ch => set.insert ch) .empty)) },
      ⟨list, index⟩⟩, ?_, ⟨⟨sorted, fun ch => ?_, fun ch other => ?_⟩, fun other => ?_, fun other links known ch => ?_⟩⟩
    · rw [step, IndexedList.addToEnd, if_neg (by simp [unknown]), added]
      have both := @foldlM_beside (s.entries.chatListFirstLetters key).items _ _
        (IndexedList.addLetter s.entries.sortKey key) FlatSet.insert .empty s.chats.index
      rw [loop] at both
      simp only [Option.bind_eq_bind, Option.bind_some] at both ⊢
      rw [both]
      simp [unlinked]
    · by_cases own : ch ∈ s.entries.chatListFirstLetters key
      · exact (become ch own).1
      · exact (others ch own) ▸ linked.letters ch
    · by_cases own : ch ∈ s.entries.chatListFirstLetters key
      · rw [(become ch own).2, members, linked.members]
        grind
      · dsimp only
        rw [others ch own, members, linked.members]
        grind
    · rw [members, ← linked.listed]
      by_cases same : other = key
      · simp [same]
      · simp [same]
    · dsimp only at known
      by_cases same : other = key
      · subst same
        rw [Function.update_self] at known
        cases known
        rw [mem_foldl_insert]
        exact or_iff_right (FlatSet.not_mem_empty ch)
      · rw [Function.update_of_ne same] at known
        exact linked.linked other links known ch

theorem sortKeyChanged_linked (linked : s.Linked) (key : Key) (value : SortKey) :
    ∃ s', s.step (.sortKeyChanged key value) = some s' ∧ s'.Linked := by
  by_cases member : key ∈ s.chats.list.rows
  · obtain ⟨links, known⟩ := Option.isSome_iff_exists.mp ((linked.listed key).mpr member)
    have own := linked.linked key links known
    have has (ch : Letter) (letter : ch ∈ links) : key ∈ (letterList s.chats.index ch).rows :=
      (linked.members ch key).mpr ⟨member, (own ch).mp letter⟩
    obtain ⟨list, adjusted, sorted, perm⟩ := DialogsList.adjustByDate_changed linked.main value member
    obtain ⟨index, loop, become, others⟩ := @foldlM_letters s.chats.index _
      (IndexedList.adjustLetter (Function.update s.entries.sortKey key value) key)
      (fun ch it => it.Sorted (Function.update s.entries.sortKey key value) ∧
        it.rows.Perm (letterList s.chats.index ch).rows)
      links.nodup fun index' ch letter same =>
        adjustLetter_spec (fun it => it.Sorted (Function.update s.entries.sortKey key value) ∧ it.rows.Perm _)
          (List.ne_nil_of_mem (has ch letter)) same
          (DialogsList.adjustByDate_changed (linked.letters ch) value (has ch letter))
    refine ⟨⟨{ s.entries with sortKey := Function.update s.entries.sortKey key value }, ⟨list, index⟩⟩, ?_,
      ⟨⟨sorted, fun ch => ?_, fun ch other => ?_⟩, fun other => ?_, linked.linked⟩⟩
    · simp [step, IndexedList.adjustByDate, known, adjusted, loop]
    · by_cases letter : ch ∈ links
      · exact (become ch letter).1
      · have absent : key ∉ (letterList s.chats.index ch).rows := fun known =>
          letter ((own ch).mpr ((linked.members ch key).mp known).2)
        exact (others ch letter) ▸ (linked.letters ch).congr absent
    · dsimp only
      rw [perm.mem_iff]
      by_cases letter : ch ∈ links
      · rw [(become ch letter).2.mem_iff, linked.members]
      · rw [others ch letter, linked.members]
    · rw [perm.mem_iff]
      exact linked.listed other
  · have unlinked : s.entries.chatListLinks key = none := by
      rw [← Option.not_isSome_iff_eq_none, linked.listed]
      exact member
    have absent (ch : Letter) : key ∉ (letterList s.chats.index ch).rows := fun known =>
      member ((linked.members ch key).mp known).1
    refine ⟨⟨{ s.entries with sortKey := Function.update s.entries.sortKey key value }, s.chats⟩, ?_,
      ⟨⟨linked.main.congr member, fun ch => (linked.letters ch).congr (absent ch), linked.members⟩, linked.listed,
        linked.linked⟩⟩
    simp [step, unlinked]

/-- The links are changed letter by letter. -/
theorem foldl_removeChatListEntryByLetter (entries : Entries) (key : Key) (letters : List Letter) :
    letters.foldl (fun entries ch => entries.removeChatListEntryByLetter key ch) entries =
      { entries with
        chatListLinks := Function.update entries.chatListLinks key
          ((entries.chatListLinks key).map fun links => letters.foldl FlatSet.remove links) } := by
  induction letters generalizing entries with
  | nil => simp
  | cons ch rest ih =>
      rw [List.foldl_cons, ih]
      simp [Entries.removeChatListEntryByLetter, Option.map_map, Function.comp_def]

theorem foldl_addChatListEntryByLetter (entries : Entries) (key : Key) (letters : List Letter) :
    letters.foldl (fun entries ch => entries.addChatListEntryByLetter key ch) entries =
      { entries with
        chatListLinks := Function.update entries.chatListLinks key
          ((entries.chatListLinks key).map fun links => letters.foldl FlatSet.insert links) } := by
  induction letters generalizing entries with
  | nil => simp
  | cons ch rest ih =>
      rw [List.foldl_cons, ih]
      simp [Entries.addChatListEntryByLetter, Option.map_map, Function.comp_def]

theorem mem_foldl_remove (letters : List Letter) (set : FlatSet Letter) (ch : Letter) :
    ch ∈ letters.foldl FlatSet.remove set ↔ ch ∈ set ∧ ch ∉ letters := by
  induction letters generalizing set with
  | nil => simp
  | cons first rest ih =>
      rw [List.foldl_cons, ih, FlatSet.mem_remove, List.mem_cons]
      tauto

/-- The lists of the letters after a chat has left some and entered others. -/
theorem index_renamed (linked : s.Linked) (member : key ∈ s.chats.list.rows) {letters toRemove toAdd : FlatSet Letter}
    (remove : ∀ ch, ch ∈ toRemove ↔ ch ∈ s.entries.chatListFirstLetters key ∧ ch ∉ letters)
    (add : ∀ ch, ch ∈ toAdd ↔ ch ∈ letters ∧ ch ∉ s.entries.chatListFirstLetters key) :
    ∃ index, toAdd.items.foldlM (IndexedList.addLetter s.entries.sortKey key)
        (toRemove.items.foldl (IndexedList.delLetter key) s.chats.index) = some index ∧
      ∀ ch, (letterList index ch).Sorted s.entries.sortKey ∧ ∀ other, other ∈ (letterList index ch).rows ↔
        other ∈ s.chats.list.rows ∧ ch ∈ Function.update s.entries.chatListFirstLetters key letters other := by
  have now (ch : Letter) := foldl_delLetter toRemove.nodup key s.chats.index ch
  generalize toRemove.items.foldl (IndexedList.delLetter key) s.chats.index = removed at now ⊢
  have sorted (ch : Letter) : (letterList removed ch).Sorted s.entries.sortKey := by
    rw [now]
    split_ifs
    · exact (DialogsList.del_spec (linked.letters ch)).1
    · exact linked.letters ch
  have members (ch : Letter) (other : Key) : other ∈ (letterList removed ch).rows ↔
      (other ∈ s.chats.list.rows ∧ ch ∈ s.entries.chatListFirstLetters other) ∧ ¬(ch ∈ toRemove ∧ other = key) := by
    rw [now]
    split_ifs with gone
    · rw [(DialogsList.del_spec (linked.letters ch)).2, linked.members]
      exact and_congr_right fun _ => not_congr (and_iff_right gone).symm
    · rw [linked.members]
      exact (and_iff_left fun both => gone both.1).symm
  have absent (ch : Letter) (new : ch ∈ toAdd) : key ∉ (letterList removed ch).rows := fun known =>
    ((add ch).mp new).2 ((members ch key).mp known).1.2
  obtain ⟨index, loop, become, others⟩ := @foldlM_letters removed _ _
    (fun ch it => it.Sorted s.entries.sortKey ∧
      ∀ other, other ∈ it.rows ↔ other = key ∨ other ∈ (letterList removed ch).rows)
    toAdd.nodup fun index' ch new same =>
      same ▸ @addLetter_spec s.entries.sortKey key index' ch (same.symm ▸ sorted ch) (same.symm ▸ absent ch new)
  refine ⟨index, loop, fun ch => ?_⟩
  by_cases new : ch ∈ toAdd
  · refine ⟨(become ch new).1, fun other => ?_⟩
    rw [(become ch new).2, members]
    by_cases same : other = key
    · simp [same, member, ((add ch).mp new).1]
    · simp [same]
  · rw [others ch new]
    refine ⟨sorted ch, fun other => ?_⟩
    rw [members, remove]
    by_cases same : other = key
    · subst same
      rw [add] at new
      rw [Function.update_self]
      tauto
    · simp [same]

theorem firstLettersChanged_linked (linked : s.Linked) (peerId : Nat) (letters : FlatSet Letter) :
    ∃ s', s.step (.firstLettersChanged peerId letters) = some s' ∧ s'.Linked := by
  by_cases member : .history peerId ∈ s.chats.list.rows
  · have contained : s.chats.list.contains (.history peerId) = true := (linked.main.listed _).mpr member
    obtain ⟨links, known⟩ := Option.isSome_iff_exists.mp ((linked.listed _).mpr member)
    have own := linked.linked _ links known
    have changed := namesChanged_spec (s.entries.chatListFirstLetters (.history peerId)) letters
    generalize names : IndexedList.namesChanged (s.entries.chatListFirstLetters (.history peerId)) letters = lists
      at changed
    obtain ⟨toRemove, toAdd⟩ := lists
    obtain ⟨index, loop, renamed⟩ :=
      index_renamed linked member (fun ch => (changed ch).1) fun ch => (changed ch).2
    refine ⟨⟨
      { sortKey := s.entries.sortKey
        chatListFirstLetters := Function.update s.entries.chatListFirstLetters (.history peerId) letters
        chatListLinks := Function.update s.entries.chatListLinks (.history peerId)
          (some (toAdd.items.foldl FlatSet.insert (toRemove.items.foldl FlatSet.remove links))) },
      ⟨s.chats.list, index⟩⟩, ?_, ⟨⟨linked.main, fun ch => (renamed ch).1, fun ch => (renamed ch).2⟩,
        fun other => ?_, fun other links' known' ch => ?_⟩⟩
    · rw [step, IndexedList.adjustNames, if_neg (by simp [contained])]
      simp only [Function.update_self, names]
      rw [foldl_beside (IndexedList.delLetter (.history peerId))
          fun (entries : Entries) ch => entries.removeChatListEntryByLetter (.history peerId) ch,
        foldlM_beside (IndexedList.addLetter s.entries.sortKey (.history peerId))
          fun (entries : Entries) ch => entries.addChatListEntryByLetter (.history peerId) ch,
        loop]
      simp [foldl_removeChatListEntryByLetter, foldl_addChatListEntryByLetter, known]
    · by_cases same : other = .history peerId
      · simp [same, member]
      · simpa [same] using linked.listed other
    · dsimp only at known' ⊢
      by_cases same : other = .history peerId
      · subst same
        rw [Function.update_self] at known' ⊢
        cases known'
        rw [mem_foldl_insert, mem_foldl_remove, own, FlatSet.mem_items, FlatSet.mem_items, (changed ch).1,
          (changed ch).2]
        tauto
      · rw [Function.update_of_ne same] at known' ⊢
        exact linked.linked other links' known' ch
  · have unlinked : s.entries.chatListLinks (.history peerId) = none := by
      rw [← Option.not_isSome_iff_eq_none, linked.listed]
      exact member
    refine ⟨⟨{ s.entries with
      chatListFirstLetters := Function.update s.entries.chatListFirstLetters (.history peerId) letters }, s.chats⟩, ?_,
      ⟨⟨linked.main, linked.letters, fun ch other => ?_⟩, linked.listed, fun other links known => ?_⟩⟩
    · simp [step, IndexedList.adjustNames, contains_eq_false linked.toComplete member]
    · rw [linked.members]
      refine and_congr_right fun known => ?_
      dsimp only
      rw [Function.update_of_ne (ne_of_mem_of_not_mem known member)]
    · have different : other ≠ .history peerId := by
        rintro rfl
        exact absurd (unlinked.symm.trans known) (by simp)
      dsimp only
      rw [Function.update_of_ne different]
      exact linked.linked other links known

theorem del_linked (linked : s.Linked) (key : Key) : ∃ s', s.step (.del key) = some s' ∧ s'.Linked := by
  by_cases member : key ∈ s.chats.list.rows
  · have contained : s.chats.list.contains key = true := (linked.main.listed key).mpr member
    obtain ⟨sorted, members⟩ := @DialogsList.del_spec _ _ key linked.main
    have now (ch : Letter) := foldl_delLetter (s.entries.chatListFirstLetters key).nodup key s.chats.index ch
    refine ⟨_, rfl, ⟨⟨?_, fun ch => ?_, fun ch other => ?_⟩, fun other => ?_, fun other links known ch => ?_⟩⟩
    · simp only [IndexedList.del, contained, if_true]
      exact sorted
    · simp only [IndexedList.del, contained, if_true]
      rw [now]
      split_ifs
      · exact (DialogsList.del_spec (linked.letters ch)).1
      · exact linked.letters ch
    · simp only [IndexedList.del, contained, if_true]
      rw [now, members]
      split_ifs with own
      · rw [(DialogsList.del_spec (linked.letters ch)).2, linked.members]
        tauto
      · rw [linked.members]
        constructor
        · rintro ⟨known, letter⟩
          refine ⟨⟨known, ?_⟩, letter⟩
          rintro rfl
          exact own letter
        · exact fun known => ⟨known.1.1, known.2⟩
    · simp only [IndexedList.del, contained, if_true]
      rw [members, ← linked.listed]
      by_cases same : other = key
      · simp [same]
      · simp [same]
    · dsimp only at known
      by_cases same : other = key
      · subst same
        rw [Function.update_self] at known
        cases known
      · rw [Function.update_of_ne same] at known
        exact linked.linked other links known ch
  · have unlinked : s.entries.chatListLinks key = none := by
      rw [← Option.not_isSome_iff_eq_none, linked.listed]
      exact member
    have same : Function.update s.entries.chatListLinks key none = s.entries.chatListLinks := by
      rw [← unlinked, Function.update_eq_self]
    refine ⟨s, ?_, linked⟩
    simp [step, IndexedList.del, contains_eq_false linked.toComplete member, same]

/-! ## The list is cleared -/

/-- No chat of the list has a letter. -/
def NoLetters (s : ChatsState) : Prop := ∀ key ∈ s.chats.list.rows, (s.entries.chatListFirstLetters key).items = []

theorem clear_complete_iff (linked : s.Linked) : Complete ⟨s.entries, s.chats.clear⟩ ↔ s.NoLetters := by
  constructor
  · intro complete key member
    apply List.eq_nil_iff_forall_not_mem.mpr
    intro ch letter
    exact List.not_mem_nil ((complete.members ch key).mpr ⟨member, letter⟩)
  · intro none
    refine ⟨linked.main, fun ch => ?_, fun ch key => iff_of_false List.not_mem_nil fun known => ?_⟩
    · exact ⟨⟨placed_nil 0 _, fun _ => by simp [letterList, DialogsList.contains, IndexedList.clear]⟩, .nil⟩
    · have letter : ch ∈ (s.entries.chatListFirstLetters key).items := known.2
      rw [none key known.1] at letter
      exact List.not_mem_nil letter

theorem clear_linked (linked : s.Linked) (none : s.NoLetters) : Linked ⟨s.entries, s.chats.clear⟩ :=
  ⟨(clear_complete_iff linked).mpr none, linked.listed, linked.linked⟩

/-! ## Runs -/

/-- The list is cleared only when no chat of it has a letter. -/
def Clears (s : ChatsState) (step : ChatsStep) : Prop := step = .clear → s.NoLetters

/-- After a step, the list is complete. -/
def Right (s : ChatsState) (step : ChatsStep) : Prop := ∃ s', s.step step = some s' ∧ s'.Complete

theorem step_linked {step : ChatsStep} (linked : s.Linked) (clears : s.Clears step) :
    ∃ s', s.step step = some s' ∧ s'.Linked := by
  cases step with
  | addToEnd key => exact addToEnd_linked linked key
  | sortKeyChanged key sortKey => exact sortKeyChanged_linked linked key sortKey
  | firstLettersChanged peerId letters => exact firstLettersChanged_linked linked peerId letters
  | del key => exact del_linked linked key
  | clear => exact ⟨_, rfl, clear_linked linked (clears rfl)⟩

theorem right_iff {step : ChatsStep} (linked : s.Linked) : s.Right step ↔ s.Clears step := by
  constructor
  · rintro ⟨s', done, complete⟩ rfl
    cases done
    exact (clear_complete_iff linked).mp complete
  · intro clears
    obtain ⟨s', done, linked'⟩ := step_linked linked clears
    exact ⟨s', done, linked'.toComplete⟩

/-- Chats that are in no list, and the empty list. -/
def created (sortKey : Key → SortKey) (firstLetters : Key → FlatSet Letter) : ChatsState where
  entries := { sortKey := sortKey, chatListFirstLetters := firstLetters, chatListLinks := fun _ => none }
  chats := {}

theorem created_linked (sortKey : Key → SortKey) (firstLetters : Key → FlatSet Letter) :
    Linked (created sortKey firstLetters) := by
  have none (sortKey : Key → SortKey) : DialogsList.Sorted sortKey {} :=
    ⟨⟨placed_nil 0 _, fun _ => by simp [DialogsList.contains]⟩, .nil⟩
  refine ⟨⟨none sortKey, fun _ => none sortKey, fun _ _ => ?_⟩, fun _ => ?_, fun _ _ linked => ?_⟩
  · exact iff_of_false List.not_mem_nil fun known => List.not_mem_nil known.1
  · exact iff_of_false (by simp [created]) List.not_mem_nil
  · cases linked

theorem run_right_iff_of_linked (linked : s.Linked) (steps : List ChatsStep) :
    EveryStep next (fun s step => ∀ s' ∈ s, s'.Right step) (some s) steps ↔
      EveryStep next (fun s step => ∀ s' ∈ s, s'.Clears step) (some s) steps := by
  have single (s : ChatsState) (P : ChatsState → Prop) : (∀ s' ∈ some s, P s') ↔ P s := by simp
  refine @EveryStep.iff_of_kept _ _ _ _ _ _ (fun s => ∃ s', s = some s' ∧ s'.Linked) ?_ ?_ _ _
    (everyStep_true (some s) steps) ⟨s, rfl, linked⟩
  · rintro _ step ⟨s, rfl, linked⟩ -
    rw [single, single]
    exact right_iff linked
  · rintro _ step ⟨s, rfl, linked⟩ - right
    exact step_linked linked ((right_iff linked).mp (right s rfl))

/-- In every run the list is complete after each step, if and only if it is never cleared while a chat of it has a
letter. -/
theorem run_complete_iff (sortKey : Key → SortKey) (firstLetters : Key → FlatSet Letter) (steps : List ChatsStep) :
    EveryStep next (fun s step => ∀ s' ∈ s, s'.Right step) (some (created sortKey firstLetters)) steps ↔
      EveryStep next (fun s step => ∀ s' ∈ s, s'.Clears step) (some (created sortKey firstLetters)) steps :=
  run_right_iff_of_linked (created_linked sortKey firstLetters) steps

/-- One chat with one letter is added, and the list is cleared. -/
theorem oneChat_cleared_not_complete :
    ¬EveryStep next (fun s step => ∀ s' ∈ s, s'.Right step)
      (some (created (fun _ => 1) fun _ => .ofList [97])) [.addToEnd (.history 1), .clear] := by
  intro right
  obtain ⟨s', done, complete⟩ := right.2.1 _ rfl
  cases done
  have listed := (complete.members 97 (.history 1)).mpr
  exact absurd (listed (by decide)) (by decide)

end ChatsState

end IMeDesktop.Dialogs
