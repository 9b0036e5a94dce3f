import IMeDesktop.Data.ScheduledMessages

/-! # Scheduled messages match the server

The map stands for the items of the list that are on the server, whatever comes. The list stays sorted
but where an item gets its id, for it is not sorted there; and a list that is not empty destroys the
items whose sending failed, which an empty one spares.
-/

namespace IMeDesktop.Data

open Lib ScheduledMessages

namespace ScheduledMessages

/-! ## Positions -/

theorem notLess_iff {a b : HistoryItem} : NotLess a b ↔ a.date < b.date ∨ a.date = b.date ∧ a.id ≤ b.id := by
  unfold NotLess MessagePosition.less HistoryItem.position
  dsimp only
  split_ifs with less greater
  · simp only [false_iff, not_or, not_and, not_lt]
    exact ⟨less.le, fun same => absurd less (by rw [same]; exact lt_irrefl _)⟩
  · simp only [true_iff]
    exact .inl greater
  · have same := le_antisymm (not_lt.mp less) (not_lt.mp greater)
    rw [decide_eq_false_iff_not, not_lt]
    constructor
    · exact fun above => .inr ⟨same, above⟩
    · rintro (before | ⟨-, above⟩)
      · exact absurd before greater
      · exact above

instance : Std.Total NotLess where
  total a b := by
    simp only [notLess_iff]
    rcases lt_trichotomy a.date b.date with less | same | greater
    · exact .inl (.inl less)
    · rcases le_total a.id b.id with below | above
      · exact .inl (.inr ⟨same, below⟩)
      · exact .inr (.inr ⟨same.symm, above⟩)
    · exact .inr (.inl greater)

instance : IsTrans HistoryItem NotLess where
  trans a b c := by
    simp only [notLess_iff]
    rintro (less | ⟨same, below⟩) (less' | ⟨same', below'⟩)
    · exact .inl (less.trans less')
    · exact .inl (same' ▸ less)
    · exact .inl (same ▸ less')
    · exact .inr ⟨same.trans same', below.trans below'⟩

theorem localToRemote_remoteToLocal (id : MsgId) : LocalToRemoteMsgId (RemoteToLocalMsgId id) = id := by
  unfold LocalToRemoteMsgId RemoteToLocalMsgId
  ring

theorem remoteToLocal_localToRemote (id : MsgId) : RemoteToLocalMsgId (LocalToRemoteMsgId id) = id := by
  unfold LocalToRemoteMsgId RemoteToLocalMsgId
  ring

/-! ## Items and the map -/

/-- The map stands for the items that are on the server. -/
structure Kept (h : ScheduledMessages) : Prop where
  addresses : (h.items.map (·.address)).Nodup
  below : ∀ item ∈ h.items, item.address < h.nextAddress
  byId : ∀ id address, h.itemById.find? id = some address ↔
    ∃ item ∈ h.items, item.onServer = true ∧ item.address = address ∧ item.id = RemoteToLocalMsgId id
  client : ∀ item ∈ h.items, item.onServer = false → IsClientMsgId item.id
  unfailed : ∀ item ∈ h.items, item.isSending = true → item.hasFailed = false

theorem Kept.one {h : ScheduledMessages} (kept : Kept h) {a b : HistoryItem} (first : a ∈ h.items)
    (second : b ∈ h.items) (same : a.address = b.address) : a = b :=
  List.inj_on_of_nodup_map kept.addresses first second same

theorem items_modify (h : ScheduledMessages) (address : Nat) (f : HistoryItem → HistoryItem) :
    (h.modify address f).items = h.items.map fun item => if item.address = address then f item else item := by
  unfold modify items list
  cases h.data <;> rfl

theorem itemById_modify (h : ScheduledMessages) (address : Nat) (f : HistoryItem → HistoryItem) :
    (h.modify address f).itemById = h.itemById := by
  unfold modify itemById list
  cases h.data <;> rfl

theorem mem_modify {h : ScheduledMessages} {address : Nat} {f : HistoryItem → HistoryItem} {item : HistoryItem} :
    item ∈ (h.modify address f).items ↔
      ∃ before ∈ h.items, (if before.address = address then f before else before) = item := by
  rw [items_modify, List.mem_map]

/-- An item changes and stays on the server, or stays off it. -/
theorem Kept.modify {h : ScheduledMessages} (kept : Kept h) {address : Nat} {f : HistoryItem → HistoryItem}
    (same : ∀ item ∈ h.items, item.address = address →
      (f item).address = item.address ∧ (f item).id = item.id ∧ (f item).onServer = item.onServer)
    (unfailed : ∀ item ∈ h.items, item.address = address → (f item).isSending = true → (f item).hasFailed = false) :
    Kept (h.modify address f) := by
  have each (item) (inside : item ∈ h.items) :
      (if item.address = address then f item else item).address = item.address ∧
        (if item.address = address then f item else item).id = item.id ∧
        (if item.address = address then f item else item).onServer = item.onServer := by
    split
    · rename_i mine
      exact same item inside mine
    · exact ⟨rfl, rfl, rfl⟩
  refine ⟨?_, ?_, ?_, ?_, ?_⟩
  · rw [items_modify, List.map_map]
    have addresses : h.items.map ((·.address) ∘ fun item => if item.address = address then f item else item) =
        h.items.map (·.address) := List.map_congr_left fun item inside => (each item inside).1
    exact addresses ▸ kept.addresses
  · intro item inside
    obtain ⟨was, before, rfl⟩ := mem_modify.mp inside
    rw [(each was before).1]
    exact kept.below was before
  · intro id address'
    rw [itemById_modify, kept.byId]
    constructor
    · rintro ⟨item, inside, server, here, known⟩
      obtain ⟨sameAddress, sameId, sameServer⟩ := each item inside
      exact ⟨_, mem_modify.mpr ⟨item, inside, rfl⟩, sameServer.trans server, sameAddress.trans here, sameId.trans known⟩
    · rintro ⟨item, inside, server, here, known⟩
      obtain ⟨was, before, rfl⟩ := mem_modify.mp inside
      obtain ⟨sameAddress, sameId, sameServer⟩ := each was before
      exact ⟨was, before, sameServer ▸ server, sameAddress ▸ here, sameId ▸ known⟩
  · intro item inside off
    obtain ⟨was, before, rfl⟩ := mem_modify.mp inside
    obtain ⟨-, sameId, sameServer⟩ := each was before
    rw [sameId]
    exact kept.client was before (sameServer ▸ off)
  · intro item inside
    obtain ⟨was, before, rfl⟩ := mem_modify.mp inside
    split
    · rename_i mine
      exact unfailed was before mine
    · exact kept.unfailed was before

/-! ## Destroying -/

theorem destroy_cases (h : ScheduledMessages) (address : Nat) :
    h.destroy address = h ∧ (∀ item ∈ h.items, item.address ≠ address) ∨
      ∃ item ∈ h.items, item.address = address ∧ h.destroy address =
        { h with data := if (h.items.filter (·.address ≠ address)).isEmpty then none
                  else some ⟨h.items.filter (·.address ≠ address),
                    if item.onServer then h.itemById.erase (LocalToRemoteMsgId item.id) else h.itemById⟩ } := by
  unfold destroy
  cases found : h.items.find? (·.address = address) with
  | none =>
      refine .inl ⟨rfl, ?_⟩
      intro item inside
      simpa using List.find?_eq_none.mp found item inside
  | some item =>
      exact .inr ⟨item, List.mem_of_find?_eq_some found, by simpa using List.find?_some found, rfl⟩

theorem items_destroy (h : ScheduledMessages) (address : Nat) :
    (h.destroy address).items = h.items.filter (·.address ≠ address) := by
  rcases destroy_cases h address with ⟨same, others⟩ | ⟨item, -, -, result⟩
  · rw [same, List.filter_eq_self.mpr]
    exact fun item inside => decide_eq_true (others item inside)
  · rw [result]
    unfold items list
    dsimp only
    split
    · rename_i empty
      exact (List.isEmpty_iff.mp empty).symm
    · rfl

theorem nextAddress_destroy (h : ScheduledMessages) (address : Nat) :
    (h.destroy address).nextAddress = h.nextAddress := by
  rcases destroy_cases h address with ⟨same, -⟩ | ⟨item, -, -, result⟩
  · rw [same]
  · rw [result]

/-- The item leaves the map with the list. -/
theorem find?_destroy {h : ScheduledMessages} (kept : Kept h) (address : Nat) (id : MsgId) (other : Nat) :
    (h.destroy address).itemById.find? id = some other ↔ h.itemById.find? id = some other ∧ other ≠ address := by
  rcases destroy_cases h address with ⟨same, others⟩ | ⟨item, inside, mine, result⟩
  · rw [same]
    refine ⟨fun found => ⟨found, ?_⟩, And.left⟩
    obtain ⟨item, inside, -, here, -⟩ := (kept.byId id other).mp found
    exact here ▸ others item inside
  · rw [result]
    by_cases empty : (h.items.filter (·.address ≠ address)).isEmpty = true
    · rw [if_pos empty]
      refine ⟨nofun, ?_⟩
      rintro ⟨found, different⟩
      obtain ⟨item', inside', -, here, -⟩ := (kept.byId id other).mp found
      have left : item' ∈ h.items.filter (·.address ≠ address) :=
        List.mem_filter.mpr ⟨inside', decide_eq_true (here ▸ different)⟩
      rw [List.isEmpty_iff.mp empty] at left
      cases left
    · rw [if_neg empty]
      have only (found : h.itemById.find? id = some address) : item.onServer = true ∧ LocalToRemoteMsgId item.id = id := by
        obtain ⟨item', inside', server, here, known⟩ := (kept.byId id address).mp found
        rw [kept.one inside inside' (mine.trans here.symm)]
        exact ⟨server, by rw [known, localToRemote_remoteToLocal]⟩
      cases server : item.onServer with
      | false =>
          refine ⟨fun found => ⟨found, ?_⟩, And.left⟩
          intro same
          have found : h.itemById.find? id = some other := found
          have on := (only (same ▸ found)).1
          rw [server] at on
          cases on
      | true =>
          have self : h.itemById.find? (LocalToRemoteMsgId item.id) = some address :=
            (kept.byId _ _).mpr ⟨item, inside, server, mine, (remoteToLocal_localToRemote _).symm⟩
          change (h.itemById.erase (LocalToRemoteMsgId item.id)).find? id = some other ↔ _
          rw [SortedMap.find?_erase]
          split
          · rename_i same
            refine ⟨nofun, ?_⟩
            rintro ⟨found, different⟩
            rw [same, self] at found
            exact absurd (Option.some.inj found).symm different
          · rename_i another
            refine ⟨fun found => ⟨found, ?_⟩, And.left⟩
            intro same
            exact another (only (same ▸ found)).2.symm

theorem Kept.destroy {h : ScheduledMessages} (kept : Kept h) (address : Nat) : Kept (h.destroy address) := by
  have items := items_destroy h address
  refine ⟨?_, ?_, ?_, ?_, ?_⟩
  · rw [items]
    exact kept.addresses.sublist (List.filter_sublist.map _)
  · rw [items, nextAddress_destroy]
    exact fun item inside => kept.below item (List.mem_filter.mp inside).1
  · intro id other
    rw [items, find?_destroy kept, kept.byId]
    constructor
    · rintro ⟨⟨item, inside, server, here, known⟩, different⟩
      exact ⟨item, List.mem_filter.mpr ⟨inside, decide_eq_true (here ▸ different)⟩, server, here, known⟩
    · rintro ⟨item, inside, server, here, known⟩
      obtain ⟨inside, different⟩ := List.mem_filter.mp inside
      exact ⟨⟨item, inside, server, here, known⟩, here ▸ of_decide_eq_true different⟩
  · rw [items]
    exact fun item inside => kept.client item (List.mem_filter.mp inside).1
  · rw [items]
    exact fun item inside => kept.unfailed item (List.mem_filter.mp inside).1

theorem items_foldl_destroy (clear : List Nat) :
    ∀ h : ScheduledMessages, (clear.foldl destroy h).items = h.items.filter (·.address ∉ clear) := by
  induction clear with
  | nil => exact fun h => (List.filter_eq_self.mpr fun _ _ => by simp).symm
  | cons address rest ih =>
      intro h
      rw [List.foldl_cons, ih, items_destroy, List.filter_filter]
      apply List.filter_congr
      intro item _
      simp only [List.mem_cons, not_or, ne_eq, Bool.decide_and]
      rw [Bool.and_comm]

theorem Kept.foldl_destroy (clear : List Nat) :
    ∀ {h : ScheduledMessages}, Kept h → Kept (clear.foldl ScheduledMessages.destroy h) := by
  induction clear with
  | nil => exact id
  | cons address rest ih => exact fun kept => ih (kept.destroy address)

/-! ## Sorting -/

theorem items_sorted (h : ScheduledMessages) : h.sorted.items = h.items.insertionSort NotLess := by
  unfold sorted items list
  cases h.data <;> rfl

theorem mem_sorted {h : ScheduledMessages} {item : HistoryItem} : item ∈ h.sorted.items ↔ item ∈ h.items := by
  rw [items_sorted, List.mem_insertionSort]

theorem itemById_sorted (h : ScheduledMessages) : h.sorted.itemById = h.itemById := by
  unfold sorted itemById list
  cases h.data <;> rfl

theorem Kept.sorted {h : ScheduledMessages} (kept : Kept h) : Kept h.sorted := by
  refine ⟨?_, ?_, ?_, ?_, ?_⟩
  · rw [items_sorted]
    exact ((List.perm_insertionSort NotLess h.items).map _).nodup_iff.mpr kept.addresses
  · exact fun item inside => kept.below item (mem_sorted.mp inside)
  · intro id address
    rw [itemById_sorted, kept.byId]
    simp only [mem_sorted]
  · exact fun item inside => kept.client item (mem_sorted.mp inside)
  · exact fun item inside => kept.unfailed item (mem_sorted.mp inside)

theorem items_updated (h : ScheduledMessages) (clear : List Nat) :
    (h.updated clear).items = (h.items.filter (·.address ∉ clear)).insertionSort NotLess := by
  rw [updated, items_sorted, items_foldl_destroy]

theorem mem_updated {h : ScheduledMessages} {clear : List Nat} {item : HistoryItem} :
    item ∈ (h.updated clear).items ↔ item ∈ h.items ∧ item.address ∉ clear := by
  rw [items_updated, List.mem_insertionSort, List.mem_filter, decide_eq_true_eq]

theorem Kept.updated {h : ScheduledMessages} (kept : Kept h) (clear : List Nat) : Kept (h.updated clear) :=
  (Kept.foldl_destroy clear kept).sorted

/-- Items that are picked from the list are picked by their addresses. -/
theorem Kept.picked {h : ScheduledMessages} (kept : Kept h) {item : HistoryItem} (inside : item ∈ h.items)
    (p : HistoryItem → Bool) : item.address ∈ (h.items.filter p).map (·.address) ↔ p item = true := by
  rw [List.mem_map]
  constructor
  · rintro ⟨other, picked, same⟩
    obtain ⟨inside', picked⟩ := List.mem_filter.mp picked
    rwa [← kept.one inside' inside same]
  · exact fun picked => ⟨item, List.mem_filter.mpr ⟨inside, picked⟩, rfl⟩

/-! ## Appending -/

/-- A new item at the end of the list, in the map if it is on the server. -/
theorem Kept.pushed {h : ScheduledMessages} (kept : Kept h) {item : HistoryItem} (address : item.address = h.nextAddress)
    {itemById : SortedMap MsgId Nat} (client : item.onServer = false → IsClientMsgId item.id)
    (unfailed : item.hasFailed = false)
    (found : ∀ id other, itemById.find? id = some other ↔
      h.itemById.find? id = some other ∨ item.onServer = true ∧ item.address = other ∧ item.id = RemoteToLocalMsgId id) :
    Kept { data := some ⟨h.items ++ [item], itemById⟩, nextAddress := h.nextAddress + 1 } := by
  have mem {x} : x ∈ h.items ++ [item] ↔ x ∈ h.items ∨ x = item := by rw [List.mem_append, List.mem_singleton]
  refine ⟨?_, ?_, ?_, ?_, ?_⟩
  · change ((h.items ++ [item]).map (·.address)).Nodup
    rw [List.map_append, List.map_singleton]
    refine List.nodup_append.mpr ⟨kept.addresses, List.nodup_singleton _, ?_⟩
    intro a old b new
    obtain ⟨other, inside, rfl⟩ := List.mem_map.mp old
    rw [List.mem_singleton.mp new, address]
    exact (kept.below other inside).ne
  · intro x inside
    rcases mem.mp inside with old | rfl
    · exact (kept.below x old).trans (Nat.lt_succ_self _)
    · rw [address]
      exact Nat.lt_succ_self _
  · intro id other
    change itemById.find? id = some other ↔ ∃ x ∈ h.items ++ [item], _
    rw [found, kept.byId]
    constructor
    · rintro (⟨x, inside, rest⟩ | new)
      · exact ⟨x, mem.mpr (.inl inside), rest⟩
      · exact ⟨item, mem.mpr (.inr rfl), new⟩
    · rintro ⟨x, inside, rest⟩
      rcases mem.mp inside with old | rfl
      · exact .inl ⟨x, old, rest⟩
      · exact .inr rest
  · intro x inside off
    rcases mem.mp inside with old | rfl
    · exact kept.client x old off
    · exact client off
  · intro x inside
    rcases mem.mp inside with old | rfl
    · exact kept.unfailed x old
    · exact fun _ => unfailed

/-- What `append` does. -/
structure Appended (h : ScheduledMessages) (message : Message) (h' : ScheduledMessages) (received : Option Nat) :
    Prop extends Kept h' where
  known : ∀ id, (h'.itemById.find? id).isSome = true ↔
    (h.itemById.find? id).isSome = true ∨ id = message.id ∧ IsServerMsgId id ∧ message.here = true
  stay : ∀ id address, h.itemById.find? id = some address → h'.itemById.find? id = some address
  received : received = h'.itemById.find? message.id
  off : ∀ item ∈ h.items, item.onServer = false → item ∈ h'.items

theorem Kept.append {h : ScheduledMessages} (kept : Kept h) (message : Message) :
    Appended h message (h.append message).1 (h.append message).2 := by
  unfold ScheduledMessages.append
  cases found : h.itemById.find? message.id with
  | some existing =>
      have known (id) : (h.itemById.find? id).isSome = true ↔
          (h.itemById.find? id).isSome = true ∨ id = message.id ∧ IsServerMsgId id ∧ message.here = true := by
        refine ⟨.inl, ?_⟩
        rintro (known | ⟨rfl, -⟩)
        · exact known
        · rw [found]
          rfl
      dsimp only
      split
      · refine ⟨kept.modify (fun item _ _ => ⟨rfl, rfl, rfl⟩) fun item inside _ => kept.unfailed item inside, ?_, ?_, ?_,
          ?_⟩
        · rw [itemById_modify]
          exact known
        · rw [itemById_modify]
          exact fun _ _ => id
        · rw [itemById_modify, found]
        · intro item inside off
          refine mem_modify.mpr ⟨item, inside, if_neg ?_⟩
          rintro rfl
          obtain ⟨other, inside', server, same, -⟩ := (kept.byId _ _).mp found
          rw [kept.one inside' inside same, off] at server
          cases server
      · exact ⟨kept, known, fun _ _ => id, found.symm, fun _ inside _ => inside⟩
  | none =>
      have refused (bad : ¬(IsServerMsgId message.id ∧ message.here = true)) : Appended h message h none := by
        refine ⟨kept, ?_, fun _ _ => id, found.symm, fun _ inside _ => inside⟩
        intro id
        refine ⟨.inl, ?_⟩
        rintro (known | ⟨rfl, good⟩)
        · exact known
        · exact absurd good bad
      dsimp only
      split
      · rename_i foreign
        exact refused fun good => foreign good.1
      · split
        · rename_i elsewhere
          exact refused fun good => by simp [good.2] at elsewhere
        · rename_i server here
          have server := not_not.mp server
          have emplaced (id) (other) : (h.itemById.emplace message.id h.nextAddress).find? id = some other ↔
              h.itemById.find? id = some other ∨ id = message.id ∧ h.nextAddress = other := by
            rw [SortedMap.find?_emplace]
            split
            · rename_i same
              rw [same, found]
              simp
            · rename_i other
              simp [other]
          refine ⟨kept.pushed rfl nofun rfl ?_, ?_, ?_, ?_, ?_⟩
          · intro id other
            rw [emplaced]
            refine or_congr_right ⟨?_, ?_⟩
            · rintro ⟨rfl, same⟩
              exact ⟨rfl, same, rfl⟩
            · rintro ⟨-, same, known⟩
              refine ⟨?_, same⟩
              rw [← localToRemote_remoteToLocal id, ← known, localToRemote_remoteToLocal]
          · intro id
            change ((h.itemById.emplace message.id h.nextAddress).find? id).isSome = true ↔ _
            simp only [Option.isSome_iff_exists, emplaced]
            constructor
            · rintro ⟨other, old | ⟨rfl, -⟩⟩
              · exact .inl ⟨other, old⟩
              · exact .inr ⟨rfl, server, by simpa using here⟩
            · rintro (⟨other, old⟩ | ⟨rfl, -⟩)
              · exact ⟨other, .inl old⟩
              · exact ⟨_, .inr ⟨rfl, rfl⟩⟩
          · exact fun id address old => (emplaced id address).mpr (.inl old)
          · exact ((emplaced message.id h.nextAddress).mpr (.inr ⟨rfl, rfl⟩)).symm
          · exact fun item inside _ => List.mem_append_left _ inside

/-- `_data[history]` makes an empty list at most. -/
theorem Kept.opened {h : ScheduledMessages} (kept : Kept h) : Kept { h with data := some h.list } :=
  ⟨kept.addresses, kept.below, kept.byId, kept.client, kept.unfailed⟩

/-! ## Lists -/

theorem Kept.one_id {h : ScheduledMessages} (kept : Kept h) {id other : MsgId} {address : Nat}
    (first : h.itemById.find? id = some address) (second : h.itemById.find? other = some address) : id = other := by
  obtain ⟨a, inside, -, here, known⟩ := (kept.byId _ _).mp first
  obtain ⟨b, inside', -, here', known'⟩ := (kept.byId _ _).mp second
  rw [kept.one inside inside' (here.trans here'.symm)] at known
  rw [← localToRemote_remoteToLocal id, ← known, known', localToRemote_remoteToLocal]

/-- What is received by part of the messages of a list. -/
structure Received (h : ScheduledMessages) (messages : List Message) (pair : ScheduledMessages × List Nat) : Prop
    extends Kept pair.1 where
  known : ∀ id, (pair.1.itemById.find? id).isSome = true ↔ (h.itemById.find? id).isSome = true ∨
    ∃ message ∈ messages, message.id = id ∧ IsServerMsgId id ∧ message.here = true
  received : ∀ id address, pair.1.itemById.find? id = some address →
    (address ∈ pair.2 ↔ ∃ message ∈ messages, message.id = id)
  mapped : ∀ address ∈ pair.2, ∃ id, pair.1.itemById.find? id = some address
  off : ∀ item ∈ h.items, item.onServer = false → item ∈ pair.1.items

theorem Received.next {h : ScheduledMessages} {messages : List Message} {pair : ScheduledMessages × List Nat}
    (received : Received h messages pair) (message : Message) :
    Received h (messages ++ [message]) (receive pair message) := by
  have appended := received.toKept.append message
  unfold receive
  dsimp only
  generalize pair.1.append message = next at appended ⊢
  have mem {m} : m ∈ messages ++ [message] ↔ m ∈ messages ∨ m = message := by
    rw [List.mem_append, List.mem_singleton]
  have got {address} : address ∈ pair.2 ++ next.2.toList ↔
      address ∈ pair.2 ∨ next.1.itemById.find? message.id = some address := by
    rw [List.mem_append, Option.mem_toList, appended.received]
  refine ⟨appended.toKept, ?_, ?_, ?_, fun item inside off => appended.off item (received.off item inside off) off⟩
  · intro id
    rw [appended.known, received.known]
    constructor
    · rintro ((old | ⟨m, inside, rest⟩) | ⟨rfl, good⟩)
      · exact .inl old
      · exact .inr ⟨m, mem.mpr (.inl inside), rest⟩
      · exact .inr ⟨message, mem.mpr (.inr rfl), rfl, good⟩
    · rintro (old | ⟨m, inside, rfl, good⟩)
      · exact .inl (.inl old)
      · rcases mem.mp inside with inside | rfl
        · exact .inl (.inr ⟨m, inside, rfl, good⟩)
        · exact .inr ⟨rfl, good⟩
  · intro id address found
    rw [got]
    constructor
    · rintro (old | new)
      · obtain ⟨other, mapped⟩ := received.mapped address old
        have same := appended.toKept.one_id found (appended.stay other address mapped)
        obtain ⟨m, inside, known⟩ := (received.received other address mapped).mp old
        exact ⟨m, mem.mpr (.inl inside), known.trans same.symm⟩
      · exact ⟨message, mem.mpr (.inr rfl), appended.toKept.one_id new found⟩
    · rintro ⟨m, inside, rfl⟩
      rcases mem.mp inside with inside | rfl
      · cases before : pair.1.itemById.find? m.id with
        | some other =>
            have same := (appended.stay m.id other before).symm.trans found
            rw [Option.some.inj same] at before
            exact .inl ((received.received m.id address before).mpr ⟨m, inside, rfl⟩)
        | none =>
            -- the message was refused before, and another one with its id is not
            have known := (appended.known m.id).mp (by rw [found]; rfl)
            rw [before] at known
            rcases known with old | ⟨same, -⟩
            · cases old
            · exact .inr (same ▸ found)
      · exact .inr found
  · intro address inside
    rcases got.mp inside with old | new
    · obtain ⟨id, mapped⟩ := received.mapped address old
      exact ⟨id, appended.stay id address mapped⟩
    · exact ⟨message.id, new⟩

theorem Received.fold {h : ScheduledMessages} (messages : List Message) :
    ∀ {before : List Message} {pair : ScheduledMessages × List Nat}, Received h before pair →
      Received h (before ++ messages) (messages.foldl receive pair) := by
  induction messages with
  | nil =>
      intro before pair received
      rwa [List.append_nil]
  | cons message rest ih =>
      intro before pair received
      have next := ih (received.next message)
      rwa [List.append_assoc] at next

theorem Kept.received {h : ScheduledMessages} (kept : Kept h) (messages : List Message) :
    Received h messages (messages.foldl receive ({ h with data := some h.list }, [])) := by
  have start : Received h [] ({ h with data := some h.list }, []) := by
    refine ⟨kept.opened, ?_, ?_, nofun, fun _ inside _ => inside⟩
    · intro id
      refine ⟨.inl, ?_⟩
      rintro (old | ⟨m, inside, -⟩)
      · exact old
      · cases inside
    · intro id address _
      refine ⟨nofun, ?_⟩
      rintro ⟨m, inside, -⟩
      cases inside
  exact start.fold messages

/-- A list of messages leaves what it brought and what is being sent. -/
theorem mem_parse {h : ScheduledMessages} (kept : Kept h) {messages : List Message} (some : messages ≠ [])
    {item : HistoryItem} :
    item ∈ (h.parse (.some messages)).items ↔
      item ∈ (messages.foldl receive ({ h with data := .some h.list }, [])).1.items ∧
        (item.isSending = true ∨ item.address ∈ (messages.foldl receive ({ h with data := .some h.list }, [])).2) := by
  have received := kept.received messages
  unfold parse
  cases messages with
  | nil => exact absurd rfl some
  | cons message rest =>
      dsimp only
      generalize (message :: rest).foldl receive ({ h with data := .some h.list }, []) = pair at received ⊢
      rw [mem_updated]
      refine and_congr_right fun inside => ?_
      rw [received.toKept.picked inside]
      simp [imp_iff_not_or]

theorem Kept.clearNotSending {h : ScheduledMessages} (kept : Kept h) : Kept h.clearNotSending := by
  unfold ScheduledMessages.clearNotSending
  split
  · exact kept
  · exact kept.updated _

theorem Kept.parse {h : ScheduledMessages} (kept : Kept h) (messages : Option (List Message)) :
    Kept (h.parse messages) := by
  cases messages with
  | none => exact kept
  | some messages =>
      cases messages with
      | nil => exact kept.clearNotSending
      | cons message rest => exact (kept.received (message :: rest)).toKept.updated _

theorem mem_clearNotSending {h : ScheduledMessages} (kept : Kept h) {item : HistoryItem} :
    item ∈ h.clearNotSending.items ↔ item ∈ h.items ∧ item.onServer = false := by
  unfold clearNotSending
  split
  · rename_i none
    have empty : h.items = [] := by
      unfold items list
      rw [none]
      rfl
    simp [empty]
  · rename_i list known
    have same : list.items = h.items := by
      unfold items ScheduledMessages.list
      rw [known]
      rfl
    rw [mem_updated, same]
    refine and_congr_right fun inside => ?_
    rw [kept.picked inside, Bool.not_eq_true]
    rfl

/-- After a list the items on the server are those of its messages. -/
theorem onServer_parse {h : ScheduledMessages} (kept : Kept h) (messages : List Message) (id : MsgId) :
    (∃ item ∈ (h.parse (some messages)).items, item.onServer = true ∧ item.id = RemoteToLocalMsgId id) ↔
      ∃ message ∈ messages, message.id = id ∧
        ((h.itemById.find? id).isSome = true ∨ IsServerMsgId id ∧ message.here = true) := by
  by_cases empty : messages = []
  · subst empty
    constructor
    · rintro ⟨item, inside, server, -⟩
      have off := ((mem_clearNotSending kept).mp inside).2
      rw [off] at server
      cases server
    · rintro ⟨message, inside, -⟩
      cases inside
  · have received := kept.received messages
    simp only [mem_parse kept empty]
    generalize messages.foldl receive ({ h with data := some h.list }, []) = pair at received ⊢
    constructor
    · rintro ⟨item, ⟨inside, left⟩, server, known⟩
      have found := (received.byId id item.address).mpr ⟨item, inside, server, rfl, known⟩
      have sent : item.isSending = false := by
        simp only [HistoryItem.onServer, Bool.and_eq_true, Bool.not_eq_true'] at server
        exact server.1
      rw [sent] at left
      obtain ⟨message, among, same⟩ := (received.received id item.address found).mp (left.resolve_left nofun)
      rcases (received.known id).mp (by rw [found]; rfl) with old | ⟨other, among', same', good⟩
      · exact ⟨message, among, same, .inl old⟩
      · exact ⟨other, among', same', .inr good⟩
    · rintro ⟨message, among, same, good⟩
      have known : (pair.1.itemById.find? id).isSome = true := by
        refine (received.known id).mpr (good.imp_right fun good => ⟨message, among, same, good⟩)
      obtain ⟨address, found⟩ := Option.isSome_iff_exists.mp known
      have got := (received.received id address found).mpr ⟨message, among, same⟩
      obtain ⟨item, inside, server, rfl, known⟩ := (received.byId id address).mp found
      exact ⟨item, ⟨inside, .inr got⟩, server, known⟩

/-! ## Updates -/

theorem sending_some {h : ScheduledMessages} {address : Nat} {item : HistoryItem} (found : h.sending address = some item) :
    item ∈ h.items ∧ item.address = address ∧ item.isSending = true := by
  have holds := List.find?_some found
  simp only [Bool.and_eq_true, decide_eq_true_eq] at holds
  exact ⟨List.mem_of_find?_eq_some found, holds⟩

theorem off_of_sending {item : HistoryItem} (sending : item.isSending = true) : item.onServer = false := by
  rw [HistoryItem.onServer, sending]
  rfl

theorem Kept.applyDelete {h : ScheduledMessages} (kept : Kept h) (ids : List MsgId) :
    Kept (h.applyDelete ids) ∧ ∀ item ∈ h.items, item.onServer = false → item ∈ (h.applyDelete ids).items := by
  induction ids generalizing h with
  | nil => exact ⟨kept, fun _ inside _ => inside⟩
  | cons id rest ih =>
      have one : Kept (h.deleteOne id) ∧ ∀ item ∈ h.items, item.onServer = false → item ∈ (h.deleteOne id).items := by
        unfold deleteOne
        cases found : h.itemById.find? id with
        | none => exact ⟨kept, fun _ inside _ => inside⟩
        | some address =>
            refine ⟨kept.destroy address, ?_⟩
            intro item inside off
            rw [items_destroy]
            refine List.mem_filter.mpr ⟨inside, decide_eq_true ?_⟩
            rintro rfl
            obtain ⟨other, inside', server, same, -⟩ := (kept.byId _ _).mp found
            rw [kept.one inside' inside same, off] at server
            cases server
      obtain ⟨kept', stay⟩ := ih one.1
      exact ⟨kept', fun item inside off => stay item (one.2 item inside off) off⟩

/-- An id that is new makes the item one of the server. -/
theorem applyMessageId_cases (h : ScheduledMessages) (item : HistoryItem) (id : MsgId) :
    ((h.itemById.find? id).isSome = true ∨ ¬IsServerMsgId id) ∧ h.applyMessageId item id = h.destroy item.address ∨
      h.itemById.find? id = none ∧ IsServerMsgId id ∧
        (h.applyMessageId item id).items = (h.modify item.address (setRealId · (RemoteToLocalMsgId id))).items ∧
        (h.applyMessageId item id).nextAddress = h.nextAddress ∧
        (item ∈ h.items → (h.applyMessageId item id).itemById = h.itemById.emplace id item.address) := by
  unfold applyMessageId
  split
  · rename_i known
    exact .inl ⟨known, rfl⟩
  · rename_i new
    simp only [not_or, Bool.not_eq_true, Option.isSome_eq_false_iff, Option.isNone_iff_eq_none, not_not] at new
    refine .inr ⟨new.1, new.2, ?_, rfl, ?_⟩
    · unfold items list modify
      cases h.data <;> rfl
    · unfold items itemById list modify
      cases h.data with
      | none => exact fun inside => absurd inside List.not_mem_nil
      | some list => exact fun _ => rfl

theorem Kept.applyMessageId {h : ScheduledMessages} (kept : Kept h) {item : HistoryItem} (inside : item ∈ h.items)
    (sending : item.isSending = true) (id : MsgId) : Kept (h.applyMessageId item id) := by
  rcases applyMessageId_cases h item id with ⟨-, result⟩ | ⟨missing, server, items, nextAddress, itemById⟩
  · rw [result]
    exact kept.destroy item.address
  · have mine (x) (member : x ∈ h.items) (same : x.address = item.address) : x = item := kept.one member inside same
    have on : (setRealId item (RemoteToLocalMsgId id)).onServer = true := by
      simp [setRealId, HistoryItem.onServer, kept.unfailed item inside sending]
    have each (x) (member : x ∈ h.items) : (if x.address = item.address then setRealId x (RemoteToLocalMsgId id)
        else x).address = x.address := by
      split <;> rfl
    have mem {x} : x ∈ (h.applyMessageId item id).items ↔ (x ∈ h.items ∧ x.address ≠ item.address) ∨
        x = setRealId item (RemoteToLocalMsgId id) := by
      rw [items, mem_modify]
      constructor
      · rintro ⟨was, before, rfl⟩
        split
        · rename_i same
          exact .inr (by rw [mine was before same])
        · rename_i other
          exact .inl ⟨before, other⟩
      · rintro (⟨member, other⟩ | rfl)
        · exact ⟨x, member, if_neg other⟩
        · exact ⟨item, inside, if_pos rfl⟩
    refine ⟨?_, ?_, ?_, ?_, ?_⟩
    · rw [items, items_modify, List.map_map]
      have addresses : h.items.map ((·.address) ∘ fun x => if x.address = item.address then
          setRealId x (RemoteToLocalMsgId id) else x) = h.items.map (·.address) := List.map_congr_left each
      exact addresses ▸ kept.addresses
    · rw [nextAddress]
      intro x member
      rcases mem.mp member with ⟨old, -⟩ | rfl
      · exact kept.below x old
      · exact kept.below item inside
    · intro other address
      rw [itemById inside, SortedMap.find?_emplace]
      split
      · rename_i same
        subst same
        rw [missing, Option.getD_none, Option.some.injEq]
        constructor
        · rintro rfl
          exact ⟨_, mem.mpr (.inr rfl), on, rfl, rfl⟩
        · rintro ⟨x, member, server', rfl, known⟩
          rcases mem.mp member with ⟨old, -⟩ | rfl
          · have found := (kept.byId other x.address).mpr ⟨x, old, server', rfl, known⟩
            rw [missing] at found
            cases found
          · rfl
      · rename_i another
        rw [kept.byId]
        constructor
        · rintro ⟨x, old, server', rfl, known⟩
          refine ⟨x, mem.mpr (.inl ⟨old, ?_⟩), server', rfl, known⟩
          intro same
          rw [mine x old same, off_of_sending sending] at server'
          cases server'
        · rintro ⟨x, member, server', rfl, known⟩
          rcases mem.mp member with ⟨old, -⟩ | rfl
          · exact ⟨x, old, server', rfl, known⟩
          · have same := congrArg LocalToRemoteMsgId known
            rw [localToRemote_remoteToLocal] at same
            exact absurd (same.symm.trans (localToRemote_remoteToLocal id)) another
    · intro x member off
      rcases mem.mp member with ⟨old, -⟩ | rfl
      · exact kept.client x old off
      · rw [on] at off
        cases off
    · intro x member sending'
      rcases mem.mp member with ⟨old, -⟩ | rfl
      · exact kept.unfailed x old sending'
      · cases sending'

theorem Kept.appendSending {h : ScheduledMessages} (kept : Kept h) (id : ClientMsgId) (date : Int) :
    Kept (h.appendSending id date) := by
  have pushed : Kept { data := some ⟨h.items ++ [⟨h.nextAddress, id, date, true, false⟩], h.itemById⟩
                       nextAddress := h.nextAddress + 1 } :=
    @Kept.pushed _ kept _ rfl h.itemById (fun _ => id.2) rfl fun other address =>
      ⟨.inl, fun either => either.resolve_right nofun⟩
  exact pushed.sorted

theorem Kept.step {h : ScheduledMessages} (kept : Kept h) (e : Event) : Kept (h.step e) := by
  cases e with
  | appendSending id date => exact kept.appendSending id date
  | messageId address id =>
      unfold ScheduledMessages.step
      dsimp only
      split
      · rename_i item found
        obtain ⟨inside, -, sending⟩ := sending_some found
        exact kept.applyMessageId inside sending id
      · exact kept
  | sendFailed address =>
      unfold ScheduledMessages.step
      dsimp only
      split
      · rename_i item found
        obtain ⟨inside, -, sending⟩ := sending_some found
        refine kept.modify ?_ fun _ _ _ => nofun
        intro x member same
        rw [kept.one member inside same]
        refine ⟨rfl, rfl, ?_⟩
        rw [off_of_sending sending]
        rfl
      · exact kept
  | newMessage message => exact (kept.opened.append message).toKept.sorted
  | deleteMessages ids => exact (kept.applyDelete ids).1
  | list messages => exact kept.parse messages
  | removeSending address =>
      unfold ScheduledMessages.step
      dsimp only
      split
      · exact kept.destroy _
      · exact kept
  | checkEntitiesAndUpdate id now =>
      unfold ScheduledMessages.step ScheduledMessages.checkEntitiesAndUpdate
      dsimp only
      split
      · exact kept
      · split
        · split
          · exact kept
          · exact kept.destroy _
        · exact kept
  | sendNowSimpleMessage address now =>
      unfold ScheduledMessages.step
      dsimp only
      split
      · split
        · exact kept
        · exact kept.destroy _
      · exact kept

end ScheduledMessages

end IMeDesktop.Data
