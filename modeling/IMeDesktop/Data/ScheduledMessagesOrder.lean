import IMeDesktop.Data.ScheduledMessagesRuns
import IMeDesktop.Lib.Runs

/-! # Scheduled messages stay in order

The list is sorted wherever an item comes or changes its date, but not where a sent item gets its id.
Nothing but a list of messages destroys an item that is not on the server.
-/

namespace IMeDesktop.Data

open Lib ScheduledMessages

namespace ScheduledMessages

def Ordered (h : ScheduledMessages) : Prop := h.items.Pairwise NotLess

theorem ordered_sorted (h : ScheduledMessages) : Ordered h.sorted := by
  unfold Ordered
  rw [items_sorted]
  exact List.pairwise_insertionSort NotLess h.items

theorem Ordered.destroy {h : ScheduledMessages} (ordered : Ordered h) (address : Nat) : Ordered (h.destroy address) := by
  unfold Ordered
  rw [items_destroy]
  exact ordered.sublist List.filter_sublist

theorem Ordered.applyDelete {h : ScheduledMessages} (ordered : Ordered h) (ids : List MsgId) :
    Ordered (h.applyDelete ids) := by
  induction ids generalizing h with
  | nil => exact ordered
  | cons id rest ih =>
      apply ih
      unfold deleteOne
      split
      · exact ordered.destroy _
      · exact ordered

theorem Ordered.parse {h : ScheduledMessages} (ordered : Ordered h) (messages : Option (List Message)) :
    Ordered (h.parse messages) := by
  cases messages with
  | none => exact ordered
  | some messages =>
      cases messages with
      | nil =>
          unfold ScheduledMessages.parse clearNotSending
          dsimp only
          split
          · exact ordered
          · exact ordered_sorted _
      | cons message rest => exact ordered_sorted _

theorem ordered_appendSending (h : ScheduledMessages) (id : ClientMsgId) (date : Int) :
    Ordered (h.appendSending id date) :=
  List.pairwise_insertionSort NotLess _

/-- A list stays in order if the items stay in order two by two. -/
theorem Ordered.map {h : ScheduledMessages} {f : HistoryItem → HistoryItem} :
    (h.items.map f).Pairwise NotLess ↔ ∀ {a b}, [a, b].Sublist h.items → NotLess (f a) (f b) := by
  rw [List.pairwise_map, List.pairwise_iff_forall_sublist]

theorem Ordered.sendFailed {h : ScheduledMessages} (ordered : Ordered h) (address : Nat) :
    Ordered (h.modify address ScheduledMessages.sendFailed) := by
  unfold Ordered at ordered ⊢
  rw [items_modify, Ordered.map]
  intro a b both
  have before := List.pairwise_iff_forall_sublist.mp ordered both
  have position (item : HistoryItem) :
      (if item.address = address then ScheduledMessages.sendFailed item else item).position = item.position := by
    split <;> rfl
  unfold NotLess at before ⊢
  rw [position, position]
  exact before

/-- An id from the server stands higher than any id that was given here. -/
theorem client_lt_scheduled {own id : MsgId} (client : IsClientMsgId own) (server : IsServerMsgId id) :
    own < RemoteToLocalMsgId id := by
  have below : own < -2 ^ 57 := client.2
  have above : 0 < id := server.1
  unfold RemoteToLocalMsgId ServerMaxMsgId
  have zero : -2 ^ 57 < (0 : Int) := by norm_num
  have one : (0 : Int) < 2 ^ 56 := by norm_num
  linarith

/-- The item that gets its id is to stand behind the items of its date it was before. -/
def Outlasted (h : ScheduledMessages) (item : HistoryItem) (id : MsgId) : Prop :=
  ∀ other, [item, other].Sublist h.items → other.date = item.date → RemoteToLocalMsgId id ≤ other.id

/-- The list is in order after an id if and only if it was not to be sorted. -/
theorem ordered_setRealId_iff {h : ScheduledMessages} (kept : Kept h) (ordered : Ordered h) {item : HistoryItem}
    (inside : item ∈ h.items) (sending : item.isSending = true) {id : MsgId} (server : IsServerMsgId id) :
    Ordered (h.modify item.address (setRealId · (RemoteToLocalMsgId id))) ↔ Outlasted h item id := by
  have only (x) (member : x ∈ h.items) (same : x.address = item.address) : x = item := kept.one member inside same
  have client := kept.client item inside (off_of_sending sending)
  have nodup {a b} (both : [a, b].Sublist h.items) : a.address ≠ b.address :=
    List.pairwise_iff_forall_sublist.mp (List.pairwise_map.mp kept.addresses) both
  unfold Ordered Outlasted at *
  rw [items_modify, Ordered.map]
  constructor
  · intro after other both date
    have different : other.address ≠ item.address := fun same => nodup both same.symm
    have next := after both
    rw [if_pos rfl, if_neg different, notLess_iff] at next
    rcases next with less | ⟨-, above⟩
    · exact absurd less (by rw [date]; exact lt_irrefl _)
    · exact above
  · intro outlasted a b both
    have before := List.pairwise_iff_forall_sublist.mp ordered both
    have first : a ∈ h.items := both.subset List.mem_cons_self
    have second : b ∈ h.items := both.subset (List.mem_cons_of_mem _ List.mem_cons_self)
    split
    · rename_i mine
      rw [if_neg fun same => nodup both (mine.trans same.symm)]
      have same := only a first mine
      subst same
      rcases notLess_iff.mp before with less | ⟨date, -⟩
      · exact notLess_iff.mpr (.inl less)
      · exact notLess_iff.mpr (.inr ⟨date, outlasted b both date.symm⟩)
    · split
      · rename_i mine
        have same := only b second mine
        subst same
        rcases notLess_iff.mp before with less | ⟨date, below⟩
        · exact notLess_iff.mpr (.inl less)
        · exact notLess_iff.mpr (.inr ⟨date, below.trans (client_lt_scheduled client server).le⟩)
      · exact before

/-! ## Runs -/

/-- The event leaves the list in order, and the items that are not on the server in it. -/
def Meets (h : ScheduledMessages) : Event → Prop
  | .messageId address id =>
      ∀ item, h.sending address = some item → h.itemById.find? id = none → IsServerMsgId id → Outlasted h item id
  | .list (some (_ :: _)) => ∀ item ∈ h.items, item.hasFailed = false
  | _ => True

theorem Ordered.step {h : ScheduledMessages} (kept : Kept h) (ordered : Ordered h) {e : Event} (meets : Meets h e) :
    Ordered (h.step e) := by
  cases e with
  | appendSending id date => exact ordered_appendSending h id date
  | messageId address id =>
      unfold ScheduledMessages.step
      dsimp only
      split
      · rename_i item found
        obtain ⟨inside, -, sending⟩ := sending_some found
        rcases applyMessageId_cases h item id with ⟨-, result⟩ | ⟨missing, server, items, -, -⟩
        · rw [result]
          exact ordered.destroy item.address
        · have after := (ordered_setRealId_iff kept ordered inside sending server).mpr (meets item found missing server)
          unfold Ordered at after ⊢
          rwa [items]
      · exact ordered
  | sendFailed address =>
      unfold ScheduledMessages.step
      dsimp only
      split
      · exact ordered.sendFailed _
      · exact ordered
  | newMessage message => exact ordered_sorted _
  | deleteMessages ids => exact ordered.applyDelete ids
  | list messages => exact ordered.parse messages
  | removeSending address =>
      unfold ScheduledMessages.step
      dsimp only
      split
      · exact ordered.destroy _
      · exact ordered
  | checkEntitiesAndUpdate id now =>
      unfold ScheduledMessages.step ScheduledMessages.checkEntitiesAndUpdate
      dsimp only
      split
      · exact ordered
      · split
        · split
          · exact ordered
          · exact ordered.destroy _
        · exact ordered
  | sendNowSimpleMessage address now =>
      unfold ScheduledMessages.step
      dsimp only
      split
      · split
        · exact ordered
        · exact ordered.destroy _
      · exact ordered

/-- A list of messages spares what is not on the server if and only if no sending has failed. -/
theorem parse_spares_iff {h : ScheduledMessages} (kept : Kept h) (message : Message) (rest : List Message) :
    (∀ item ∈ h.items, item.onServer = false → item ∈ (h.parse (some (message :: rest))).items) ↔
      ∀ item ∈ h.items, item.hasFailed = false := by
  have received := kept.received (message :: rest)
  simp only [mem_parse kept (List.cons_ne_nil message rest)]
  constructor
  · intro spared item inside
    by_contra failed
    have off : item.onServer = false := by
      rw [HistoryItem.onServer, Bool.not_eq_false _ |>.mp failed, Bool.not_true, Bool.and_false]
    obtain ⟨left, sending | got⟩ := spared item inside off
    · exact failed (kept.unfailed item inside sending)
    · obtain ⟨id, found⟩ := received.mapped item.address got
      obtain ⟨other, inside', server, same, -⟩ := (received.byId id item.address).mp found
      rw [received.toKept.one inside' left same, off] at server
      cases server
  · intro unfailed item inside off
    refine ⟨received.off item inside off, .inl ?_⟩
    simpa [HistoryItem.onServer, unfailed item inside] using off

theorem parse_spares {h : ScheduledMessages} (kept : Kept h) {messages : Option (List Message)}
    (meets : Meets h (.list messages)) (item : HistoryItem) (inside : item ∈ h.items) (off : item.onServer = false) :
    item ∈ (h.parse messages).items := by
  cases messages with
  | none => exact inside
  | some messages =>
      cases messages with
      | nil => exact (mem_clearNotSending kept).mpr ⟨inside, off⟩
      | cons message rest => exact (parse_spares_iff kept message rest).mpr meets item inside off

/-- A message of the list that has an item, or may get one. -/
def Accepted (h : ScheduledMessages) (message : Message) : Prop :=
  (h.itemById.find? message.id).isSome = true ∨ IsServerMsgId message.id ∧ message.here = true

/-- The map and the list match the server, and what is not on the server is not destroyed for it. -/
theorem run_matches (events : List Event) (every : EveryStep step Meets {} events) :
    let h := ({} : ScheduledMessages).run events
    (∀ id address, h.itemById.find? id = some address ↔
      ∃ item ∈ h.items, item.onServer = true ∧ item.address = address ∧ item.id = RemoteToLocalMsgId id) ∧
    (h.items.map (·.address)).Nodup ∧ h.items.Pairwise NotLess ∧
    (∀ messages id, (∃ item ∈ (h.parse (some messages)).items, item.onServer = true ∧ item.id = RemoteToLocalMsgId id) ↔
      ∃ message ∈ messages, message.id = id ∧ Accepted h message) ∧
    (∀ messages, Meets h (.list messages) →
      ∀ item ∈ h.items, item.onServer = false → item ∈ (h.parse messages).items) ∧
    ∀ ids, ∀ item ∈ h.items, item.onServer = false → item ∈ (h.applyDelete ids).items := by
  intro h
  have ⟨kept, ordered⟩ : Kept h ∧ Ordered h := by
    refine @EveryStep.preserve _ _ _ _ (fun h => Kept h ∧ Ordered h) ?_ _ _ every ⟨⟨.nil, nofun, ?_, nofun, nofun⟩, .nil⟩
    · rintro h e ⟨kept, ordered⟩ meets
      exact ⟨kept.step e, ordered.step kept meets⟩
    · intro id address
      refine ⟨nofun, ?_⟩
      rintro ⟨item, inside, -⟩
      cases inside
  refine ⟨kept.byId, kept.addresses, ordered, ?_, ?_, fun ids => (kept.applyDelete ids).2⟩
  · intro messages id
    rw [onServer_parse kept]
    refine exists_congr fun message => and_congr_right fun _ => and_congr_right ?_
    rintro rfl
    rfl
  · exact fun messages meets => parse_spares kept meets

def earlierId : ClientMsgId := ⟨-2 ^ 57 - 2, by norm_num [IsClientMsgId, StartClientMsgId, EndClientMsgId]⟩

def laterId : ClientMsgId := ⟨-2 ^ 57 - 1, by norm_num [IsClientMsgId, StartClientMsgId, EndClientMsgId]⟩

theorem run_matches_sent :
    let events : List Event := [.appendSending earlierId 10, .messageId 0 5, .appendSending laterId 20, .sendFailed 1,
      .deleteMessages [5]]
    let h := ({} : ScheduledMessages).run events
    EveryStep step Meets {} events ∧ h.items = [⟨1, laterId, 20, false, true⟩] ∧ h.items.Pairwise NotLess ∧
      ∀ ids, ∀ item ∈ h.items, item.onServer = false → item ∈ (h.applyDelete ids).items := by
  intro events h
  have alone : (({} : ScheduledMessages).run [.appendSending earlierId 10]).items.length = 1 := by decide
  have every : EveryStep step Meets {} events := by
    refine ⟨trivial, ?_, trivial, trivial, trivial, trivial⟩
    intro item _ _ _ other both _
    have two := both.length_le
    change 2 ≤ (({} : ScheduledMessages).run [.appendSending earlierId 10]).items.length at two
    omega
  obtain ⟨-, -, ordered, -, -, spared⟩ := run_matches events every
  exact ⟨every, by decide, ordered, spared⟩

/-- A list drops the item whose sending failed, and an id leaves the list out of order. -/
theorem failed_item_dropped :
    (∃ item ∈ (({} : ScheduledMessages).run [.appendSending earlierId 10, .sendFailed 0]).items,
      item.hasFailed = true ∧ item ∉ (({} : ScheduledMessages).run
        [.appendSending earlierId 10, .sendFailed 0, .list (some [⟨5, 20, true, true⟩])]).items) ∧
      ¬(({} : ScheduledMessages).run
        [.appendSending earlierId 10, .appendSending laterId 10, .messageId 0 5]).items.Pairwise NotLess := by
  decide

end ScheduledMessages

end IMeDesktop.Data
