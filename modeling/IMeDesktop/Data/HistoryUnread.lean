import Mathlib

/-! # The unread messages of a chat

A `History` holds a run of the messages of a chat in blocks. How many stay unread when it is
read up to some message is either taken from the number before, less what is read now, or
counted back from the end. The two ways do not leave out the same messages.
-/

namespace IMeDesktop.Data

namespace History

abbrev MsgId := Int

structure HistoryItem where
  id : MsgId
  isRegular : Bool := true
  out : Bool := false
  isFromScheduled : Bool := false
  deriving DecidableEq, Repr

/-- The parts of a `History` that are looked at. -/
structure State where
  blocks : List (List HistoryItem)
  folderKnown : Bool
  loadedAtTop : Bool
  loadedAtBottom : Bool
  inboxReadBefore : Option MsgId
  unreadCount : Option Int
  deriving DecidableEq, Repr

def State.items (h : State) : List HistoryItem := h.blocks.flatten

def State.minMsgId (h : State) : MsgId := ((h.items.find? HistoryItem.isRegular).map HistoryItem.id).getD 0

def State.maxMsgId (h : State) : MsgId := ((h.items.reverse.find? HistoryItem.isRegular).map HistoryItem.id).getD 0

/-- The forward scan: what is behind the last message to read is left out in each block. -/
def countRead (before readTillId : MsgId) : List HistoryItem → Int
  | [] => 0
  | item :: rest =>
      if !item.isRegular || (item.out && !item.isFromScheduled) then countRead before readTillId rest
      else if item.id > readTillId then 0
      else if item.id ≥ before then 1 + countRead before readTillId rest
      else countRead before readTillId rest

/-- The scan from the end. -/
def countFromEnd (readTillId : MsgId) : List HistoryItem → Int
  | [] => 0
  | item :: rest =>
      if item.isRegular then
        if item.id ≤ readTillId then 0
        else if !item.out then 1 + countFromEnd readTillId rest
        else countFromEnd readTillId rest
      else countFromEnd readTillId rest

/-- The number before, where all that is read now is loaded. -/
def State.knownUnread (h : State) (readTillId : MsgId) : Option (MsgId × Int) :=
  match h.inboxReadBefore, h.unreadCount with
  | some before, some unread => if h.minMsgId ≤ before ∧ h.maxMsgId ≥ readTillId then some (before, unread) else none
  | _, _ => none

def State.countStillUnreadLocal (h : State) (readTillId : MsgId) : Option Int :=
  if h.blocks = [] ∨ h.folderKnown = false then none
  else
    match h.knownUnread readTillId with
    | some (before, unread) => some (max (unread - (h.blocks.map (countRead before readTillId)).sum) 0)
    | none =>
        if h.loadedAtBottom = false ∨ (h.loadedAtTop = false ∧ h.minMsgId = 0) ∨ h.minMsgId > readTillId then none
        else some (countFromEnd readTillId h.items.reverse)

/-! ## What is counted -/

def HistoryItem.countable (item : HistoryItem) : Bool := item.isRegular && (!item.out || item.isFromScheduled)

def count (p : MsgId → Bool) (items : List HistoryItem) : Int := items.countP fun item => item.countable && p item.id

/-- The messages of the chat around the ones that are loaded. -/
structure RunOf (messages older newer : List HistoryItem) (h : State) : Prop where
  split : messages = older ++ h.items.filter HistoryItem.isRegular ++ newer
  sorted : messages.Pairwise fun a b => a.id < b.id
  server : ∀ item ∈ messages, 0 < item.id
  atTop : h.loadedAtTop = true → older = []
  atBottom : h.loadedAtBottom = true → newer = []
  unread : ∀ before ∈ h.inboxReadBefore, ∀ n ∈ h.unreadCount, n = count (fun id => before ≤ id) messages

section Counting

variable {p q : MsgId → Bool} {items first second : List HistoryItem} {before readTillId : MsgId}

theorem count_append : count p (first ++ second) = count p first + count p second := by
  simp [count]

theorem count_none (none : ∀ item ∈ items, p item.id = false) : count p items = 0 := by
  have zero : items.countP (fun item => item.countable && p item.id) = 0 := by
    rw [List.countP_eq_zero]
    intro item member
    simp [none item member]
  simp [count, zero]

theorem count_congr (same : ∀ item ∈ items, p item.id = q item.id) : count p items = count q items := by
  unfold count
  congr 1
  apply List.countP_congr
  intro item member
  simp [same item member]

/-- Only regular messages count. -/
theorem count_regular : count p (items.filter HistoryItem.isRegular) = count p items := by
  unfold count
  rw [List.countP_filter]
  congr 2
  funext item
  unfold HistoryItem.countable
  cases item.isRegular
  · simp
  · simp

/-- Two conditions of which never both hold. -/
theorem count_or (apart : ∀ item ∈ items, p item.id = true → q item.id = false) :
    count (fun id => p id || q id) items = count p items + count q items := by
  induction items with
  | nil => rfl
  | cons item rest ih =>
      have here := apart item List.mem_cons_self
      have others := ih fun other member => apart other (List.mem_cons_of_mem _ member)
      unfold count at others ⊢
      simp only [List.countP_cons]
      cases item.countable <;> cases inP : p item.id <;> cases inQ : q item.id <;> grind

/-- One message more at the front. -/
theorem count_cons (item : HistoryItem) (rest : List HistoryItem) :
    count p (item :: rest) = (if item.countable && p item.id then 1 else 0) + count p rest := by
  simp only [count, List.countP_cons]
  split_ifs
  · omega
  · omega

/-- The messages in the order of their ids, as far as these are ids of the server. -/
def Increasing (items : List HistoryItem) : Prop :=
  (items.filter HistoryItem.isRegular).Pairwise fun a b => a.id < b.id

theorem Increasing.tail {item : HistoryItem} (increasing : Increasing (item :: items)) : Increasing items := by
  refine increasing.sublist (List.Sublist.filter _ ?_)
  exact List.sublist_cons_self item items

theorem Increasing.above {item : HistoryItem} (increasing : Increasing (item :: items)) (regular : item.isRegular = true) :
    ∀ other ∈ items.filter HistoryItem.isRegular, item.id < other.id := by
  rw [Increasing, List.filter_cons_of_pos regular] at increasing
  exact (List.pairwise_cons.mp increasing).1

theorem countRead_eq (increasing : Increasing items) :
    countRead before readTillId items = count (fun id => before ≤ id && id ≤ readTillId) items := by
  induction items with
  | nil => rfl
  | cons item rest ih =>
      rw [countRead, ih increasing.tail, count_cons]
      cases counted : item.countable with
      | false =>
          have skipped : (!item.isRegular || (item.out && !item.isFromScheduled)) = true := by
            unfold HistoryItem.countable at counted
            grind
          rw [if_pos skipped]
          simp
      | true =>
          have regular : item.isRegular = true := by
            unfold HistoryItem.countable at counted
            grind
          have taken : ¬ (!item.isRegular || (item.out && !item.isFromScheduled)) = true := by
            unfold HistoryItem.countable at counted
            grind
          rw [if_neg taken, Bool.true_and]
          by_cases behind : item.id > readTillId
          · -- what is behind it in the block is not read either
            have none : count (fun id => before ≤ id && id ≤ readTillId) rest = 0 := by
              rw [← count_regular]
              apply count_none
              intro other member
              have later := increasing.above regular other member
              grind
            have unread : ¬ (decide (before ≤ item.id) && decide (item.id ≤ readTillId)) = true := by grind
            rw [if_pos behind, if_neg unread, none]
            rfl
          · grind

/-- What the scan from the end leaves out. -/
def scheduledAfter (readTillId : MsgId) (items : List HistoryItem) : Nat :=
  items.countP fun item => item.isRegular && (item.out && item.isFromScheduled) && decide (readTillId < item.id)

/-- The scan comes to a message at the front if it did not stop before, or if it makes no difference. -/
theorem countFromEnd_append (item : HistoryItem)
    (passes : ∀ other ∈ items, other.isRegular = true → item.isRegular = true → readTillId < item.id → readTillId < other.id) :
    countFromEnd readTillId (items ++ [item]) = countFromEnd readTillId items + countFromEnd readTillId [item] := by
  induction items with
  | nil =>
      rw [List.nil_append]
      exact (Int.zero_add _).symm
  | cons first rest ih =>
      have others := ih fun other member => passes other (List.mem_cons_of_mem _ member)
      have here := passes first List.mem_cons_self
      rw [List.cons_append, countFromEnd, countFromEnd, others]
      simp only [countFromEnd] at here ⊢
      grind

theorem countFromEnd_eq (increasing : Increasing items) :
    countFromEnd readTillId items.reverse + scheduledAfter readTillId items = count (fun id => readTillId < id) items := by
  induction items with
  | nil => rfl
  | cons item rest ih =>
      have others := ih increasing.tail
      have passes : ∀ other ∈ rest.reverse, other.isRegular = true → item.isRegular = true → readTillId < item.id →
          readTillId < other.id := by
        intro other member regular first unread
        have later := increasing.above first other (List.mem_filter.mpr ⟨List.mem_reverse.mp member, regular⟩)
        exact Int.lt_trans unread later
      rw [List.reverse_cons, countFromEnd_append item passes, count_cons, ← others]
      simp only [countFromEnd, scheduledAfter, HistoryItem.countable, List.countP_cons]
      grind

/-- The blocks are scanned one after another. -/
theorem countRead_blocks {blocks : List (List HistoryItem)} (increasing : Increasing blocks.flatten) :
    (blocks.map (countRead before readTillId)).sum = count (fun id => before ≤ id && id ≤ readTillId) blocks.flatten := by
  induction blocks with
  | nil => rfl
  | cons block blocks ih =>
      rw [Increasing, List.flatten_cons, List.filter_append] at increasing
      obtain ⟨first, others, -⟩ := List.pairwise_append.mp increasing
      rw [List.map_cons, List.sum_cons, List.flatten_cons, count_append, countRead_eq first, ih others]

end Counting

section Run

variable {messages older newer : List HistoryItem} {h : State} {readTillId before : MsgId}

def State.loaded (h : State) : List HistoryItem := h.items.filter HistoryItem.isRegular

theorem minMsgId_eq : h.minMsgId = (h.loaded.head?.map HistoryItem.id).getD 0 := by
  rw [State.minMsgId, State.loaded, List.head?_filter]

theorem maxMsgId_eq : h.maxMsgId = (h.loaded.getLast?.map HistoryItem.id).getD 0 := by
  rw [State.maxMsgId, State.loaded, ← List.head?_filter, List.filter_reverse, List.head?_reverse]

namespace RunOf

theorem increasing (run : RunOf messages older newer h) : Increasing h.items := by
  have sorted := run.sorted
  rw [run.split] at sorted
  exact (List.pairwise_append.mp (List.pairwise_append.mp sorted).1).2.1

theorem older_below (run : RunOf messages older newer h) : ∀ item ∈ older, ∀ other ∈ h.loaded, item.id < other.id := by
  have sorted := run.sorted
  rw [run.split] at sorted
  exact (List.pairwise_append.mp (List.pairwise_append.mp sorted).1).2.2

theorem newer_above (run : RunOf messages older newer h) : ∀ item ∈ h.loaded, ∀ other ∈ newer, item.id < other.id := by
  have sorted := run.sorted
  rw [run.split] at sorted
  intro item member other later
  exact (List.pairwise_append.mp sorted).2.2 item (List.mem_append_right _ member) other later

theorem count_eq (run : RunOf messages older newer h) (p : MsgId → Bool) :
    count p messages = count p older + count p h.items + count p newer := by
  rw [run.split, count_append, count_append, count_regular]

/-- Either a message is loaded, or the positions of the loaded ones are zero. -/
theorem bounds (run : RunOf messages older newer h) :
    (h.loaded = [] ∧ h.minMsgId = 0 ∧ h.maxMsgId = 0) ∨
      ((∀ item ∈ older, item.id < h.minMsgId) ∧ (∀ item ∈ newer, h.maxMsgId < item.id) ∧ 0 < h.minMsgId) := by
  rw [minMsgId_eq, maxMsgId_eq]
  cases head : h.loaded.head? with
  | none =>
      have none := List.head?_eq_none_iff.mp head
      exact .inl ⟨none, rfl, by rw [none]; rfl⟩
  | some first =>
      cases last : h.loaded.getLast? with
      | none =>
          rw [List.getLast?_eq_none_iff.mp last] at head
          cases head
      | some final =>
          have firstLoaded := List.mem_of_mem_head? head
          have finalLoaded := List.mem_of_getLast? last
          refine .inr ⟨fun item member => run.older_below item member first firstLoaded,
            fun item member => run.newer_above final finalLoaded item member, run.server first ?_⟩
          rw [run.split]
          exact List.mem_append_left _ (List.mem_append_right _ firstLoaded)

/-- All that is read now is loaded. -/
theorem read_loaded (run : RunOf messages older newer h) (oldest : h.minMsgId ≤ before) (newest : h.maxMsgId ≥ readTillId) :
    count (fun id => before ≤ id && id ≤ readTillId) messages = count (fun id => before ≤ id && id ≤ readTillId) h.items := by
  have outside : ∀ part, (∀ item ∈ part, item ∈ messages ∧ (h.minMsgId ≠ 0 → item.id < h.minMsgId ∨ h.maxMsgId < item.id)) →
      count (fun id => before ≤ id && id ≤ readTillId) part = 0 := by
    intro part apart
    apply count_none
    intro item member
    obtain ⟨there, away⟩ := apart item member
    have positive := run.server item there
    rcases run.bounds with ⟨-, zero, zero'⟩ | ⟨-, -, filled⟩
    · grind
    · have := away (Int.ne_of_gt filled)
      grind
  have none_older := outside older fun item member => by
    refine ⟨by rw [run.split]; simp [member], fun filled => .inl ?_⟩
    rcases run.bounds with ⟨-, zero, -⟩ | ⟨below, -⟩
    · exact absurd zero filled
    · exact below item member
  have none_newer := outside newer fun item member => by
    refine ⟨by rw [run.split]; simp [member], fun filled => .inr ?_⟩
    rcases run.bounds with ⟨-, zero, -⟩ | ⟨-, above, -⟩
    · exact absurd zero filled
    · exact above item member
  rw [run.count_eq, none_older, none_newer]
  omega

/-- No message above the position is missing at the end. -/
theorem end_loaded (run : RunOf messages older newer h) (bottom : h.loadedAtBottom = true)
    (start : h.loadedAtTop = true ∨ h.minMsgId ≠ 0) (reached : h.minMsgId ≤ readTillId) :
    count (fun id => readTillId < id) messages = count (fun id => readTillId < id) h.items := by
  have none_older : count (fun id => readTillId < id) older = 0 := by
    apply count_none
    intro item member
    rcases run.bounds with ⟨-, zero, -⟩ | ⟨below, -⟩
    · have all := run.atTop (start.resolve_right fun filled => filled zero)
      rw [all] at member
      cases member
    · have := below item member
      grind
  rw [run.count_eq, none_older, run.atBottom bottom, show count _ [] = 0 from rfl]
  omega

end RunOf

/-- No message from the scheduled queue that the scan from the end leaves out. -/
def NoScheduled (h : State) (readTillId : MsgId) : Prop :=
  ∀ item ∈ h.items, item.isRegular = true → readTillId < item.id → item.out = true → item.isFromScheduled = false

theorem noScheduled_iff : NoScheduled h readTillId ↔ scheduledAfter readTillId h.items = 0 := by
  rw [NoScheduled, scheduledAfter, List.countP_eq_zero]
  constructor
  · intro none item member
    have := none item member
    grind
  · intro none item member
    have := none item member
    grind

/-- The count from the number before is always right, and the count from the end if and only if it leaves out no message
from the scheduled queue. -/
theorem countStillUnreadLocal_exact_iff (run : RunOf messages older newer h)
    (ahead : ∀ before ∈ h.inboxReadBefore, before - 1 ≤ readTillId) {n : Int}
    (counted : h.countStillUnreadLocal readTillId = some n) :
    n = count (fun id => readTillId < id) messages ↔ (h.knownUnread readTillId).isSome ∨ NoScheduled h readTillId := by
  unfold State.countStillUnreadLocal at counted
  split at counted
  · cases counted
  · cases known : h.knownUnread readTillId with
    | some found =>
        obtain ⟨before, unread⟩ := found
        rw [known] at counted
        simp only [Option.some.injEq] at counted
        simp only [Option.isSome_some, true_or, iff_true]
        unfold State.knownUnread at known
        split at known
        · rename_i before' unread' before_known unread_known
          split_ifs at known with loaded
          cases known
          have all := run.unread before before_known unread unread_known
          have forward := ahead before before_known
          have split : count (fun id => before ≤ id) messages =
              count (fun id => before ≤ id && id ≤ readTillId) messages + count (fun id => readTillId < id) messages := by
            rw [← count_or]
            · apply count_congr
              intro item _
              grind
            · intro item _ read
              grind
          have positive : 0 ≤ count (fun id => readTillId < id) messages := Int.natCast_nonneg _
          rw [countRead_blocks run.increasing] at counted
          rw [run.read_loaded loaded.1 loaded.2] at split
          unfold State.items at split
          omega
        · cases known
    | none =>
        rw [known] at counted
        simp only at counted
        split_ifs at counted with missing
        cases counted
        simp only [Option.isSome_none, Bool.false_eq_true, false_or, noScheduled_iff]
        have bottom : h.loadedAtBottom = true := by grind
        have start : h.loadedAtTop = true ∨ h.minMsgId ≠ 0 := by grind
        have reached : h.minMsgId ≤ readTillId := by grind
        rw [run.end_loaded bottom start reached, ← countFromEnd_eq run.increasing]
        omega

end Run

/-- Three messages of others, of which the last two are loaded, and a reminder from the scheduled queue. -/
def reminded : State where
  blocks := [[{ id := 4 }, { id := 5 }], [{ id := 6, out := true, isFromScheduled := true }]]
  folderKnown := true
  loadedAtTop := false
  loadedAtBottom := true
  inboxReadBefore := some 2
  unreadCount := some 4

def reminders : List HistoryItem := [{ id := 2 }, { id := 4 }, { id := 5 }, { id := 6, out := true, isFromScheduled := true }]

theorem reminded_run : RunOf reminders [{ id := 2 }] [] reminded := by
  refine ⟨rfl, by simp [reminders], by simp [reminders], nofun, fun _ => rfl, ?_⟩
  rintro before ⟨⟩ n ⟨⟩
  decide

/-- The reminder above the position is not counted. -/
theorem reminder_left_out :
    RunOf reminders [{ id := 2 }] [] reminded ∧ reminded.countStillUnreadLocal 4 = some 1 ∧
      count (fun id => 4 < id) reminders = 2 :=
  ⟨reminded_run, by decide, by decide⟩

/-- Where the first unread message is loaded as well, the reminder is not forgotten. -/
theorem reminder_counted :
    let h : State := { reminded with blocks := [{ id := 2 }] :: reminded.blocks }
    h.countStillUnreadLocal 4 = some 2 ∧ (2 = count (fun id => 4 < id) reminders ↔
      (h.knownUnread 4).isSome ∨ NoScheduled h 4) := by
  intro h
  have run : RunOf reminders [] [] h := by
    refine ⟨rfl, by simp [reminders], by simp [reminders], nofun, fun _ => rfl, ?_⟩
    rintro before ⟨⟩ n ⟨⟩
    decide
  have counted : h.countStillUnreadLocal 4 = some 2 := by decide
  refine ⟨counted, countStillUnreadLocal_exact_iff run ?_ counted⟩
  rintro before ⟨⟩
  decide

end History

end IMeDesktop.Data
