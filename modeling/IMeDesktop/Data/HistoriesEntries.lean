import IMeDesktop.Data.HistoriesAnswers

/-! # Entries of the dialogs list that are asked for

Callbacks wait in `_dialogRequestsPending` till the posted call, and in `_dialogRequests` for the
answer. While a deletion or a read position is in flight the entry is postponed by a flag, which is
up exactly when an entry was asked for and such a request is sent. No callback is lost or run twice;
but the flag goes down when the last such request is finished, and an answer that was overtaken by it
may still be on its way.
-/

namespace IMeDesktop.Data

open Histories

namespace Histories

open Lib

theorem postponeEntryRequest_iff {s : State} :
    s.postponeEntryRequest = true ↔ ∃ e ∈ s.sent.entries, e.2.type ≠ .history := by
  simp [State.postponeEntryRequest]

/-- A deletion or a read position is sent. -/
def blocked (h : Histories) : Bool := h.entry.postponeEntryRequest

theorem blocked_iff {h : Histories} : h.blocked = true ↔ ∃ e ∈ h.entry.sent.entries, e.2.type ≠ .history :=
  postponeEntryRequest_iff

theorem blocked_of_sent {h h' : Histories}
    (same : ∀ e, e.2.type ≠ .history → (e ∈ h'.entry.sent.entries ↔ e ∈ h.entry.sent.entries)) :
    h'.blocked = h.blocked := by
  rw [Bool.eq_iff_iff, blocked_iff, blocked_iff]
  constructor
  · rintro ⟨e, inside, blocking⟩
    exact ⟨e, (same e blocking).mp inside, blocking⟩
  · rintro ⟨e, inside, blocking⟩
    exact ⟨e, (same e blocking).mpr inside, blocking⟩

/-- What there is about entries is the same. -/
structure SameEntries (h h' : Histories) : Prop where
  dialogRequests : h'.dialogRequests = h.dialogRequests
  dialogRequestsPending : h'.dialogRequestsPending = h.dialogRequestsPending
  posted : h'.posted = h.posted
  entryRequests : h'.entryRequests = h.entryRequests
  registered : h'.registered = h.registered
  ran : h'.ran = h.ran
  broken : ∀ a ∈ h'.broken, a ∈ h.broken ∨ a = .willReadTill ∨ a = .stateLost ∨ a = .sentReadTill
  flag : h'.entry.postponedRequestEntry = h.entry.postponedRequestEntry

theorem SameEntries.refl (h : Histories) : SameEntries h h := ⟨rfl, rfl, rfl, rfl, rfl, rfl, fun _ => .inl, rfl⟩

theorem SameEntries.trans {h h' h'' : Histories} (first : SameEntries h h') (second : SameEntries h' h'') :
    SameEntries h h'' where
  dialogRequests := second.dialogRequests.trans first.dialogRequests
  dialogRequestsPending := second.dialogRequestsPending.trans first.dialogRequestsPending
  posted := second.posted.trans first.posted
  entryRequests := second.entryRequests.trans first.entryRequests
  registered := second.registered.trans first.registered
  ran := second.ran.trans first.ran
  broken := by
    intro a inside
    rcases second.broken a inside with inside | read
    · exact first.broken a inside
    · exact .inr read
  flag := second.flag.trans first.flag

theorem assert_entries (h : Histories) (holds : Bool) {a : Assertion}
    (read : a = .willReadTill ∨ a = .stateLost ∨ a = .sentReadTill) : SameEntries h (h.assert holds a) := by
  cases holds with
  | true => exact .refl h
  | false =>
      refine ⟨rfl, rfl, rfl, rfl, rfl, rfl, ?_, rfl⟩
      intro b broken
      rcases List.mem_append.mp broken with old | new
      · exact .inl old
      · exact .inr (List.mem_singleton.mp new ▸ read)

/-- Callbacks are run or wait, each once; `held` are those that an answer is running, and `late` is
    whether an answer is being applied. -/
structure Asked (h : Histories) (held : List Callback) (late : Prop) : Prop extends Numbered h where
  flag : h.entry.postponedRequestEntry = (h.dialogRequests.isSome && h.blocked)
  apart : h.dialogRequests = none ∨ h.dialogRequestsPending = none
  answered : h.dialogRequests.isSome = true → h.blocked = true ∨ h.entryRequests ≠ [] ∨ late
  posted : h.dialogRequestsPending.isSome = true → h.posted = true
  kept : (h.ran.map Prod.fst ++ held ++ h.dialogRequests.getD [] ++ h.dialogRequestsPending.getD []).Perm
    (List.range h.registered)
  unbroken : ∀ a ∈ h.broken, a = .willReadTill ∨ a = .stateLost ∨ a = .sentReadTill

namespace Asked

variable {h : Histories} {held : List Callback} {late : Prop}

theorem same {h' : Histories} (asked : Asked h held late) (numbered : Numbered h') (same : SameEntries h h')
    (blocked : h'.blocked = h.blocked) : Asked h' held late := by
  refine ⟨numbered, ?_, ?_, ?_, ?_, ?_, ?_⟩
  · rw [same.flag, same.dialogRequests, blocked]
    exact asked.flag
  · rw [same.dialogRequests, same.dialogRequestsPending]
    exact asked.apart
  · rw [same.dialogRequests, same.entryRequests, blocked]
    exact asked.answered
  · rw [same.dialogRequestsPending, same.posted]
    exact asked.posted
  · rw [same.ran, same.dialogRequests, same.dialogRequestsPending, same.registered]
    exact asked.kept
  · intro a broken
    rcases same.broken a broken with old | read
    · exact asked.unbroken a old
    · exact read

end Asked

/-! ## Asking -/

/-- The callback that is registered, if there is one. -/
def newCallback (h : Histories) (callback : Bool) : List Callback := if callback then [h.registered] else []

theorem requestDialogEntry_cases (h : Histories) (callback : Bool) :
    let registered := h.registered + (h.newCallback callback).length
    (∃ callbacks, h.dialogRequests = some callbacks ∧ h.requestDialogEntry callback =
        { h with registered, dialogRequests := some (callbacks ++ h.newCallback callback) }) ∨
      h.dialogRequests = none ∧
        ((∃ callbacks, h.dialogRequestsPending = some callbacks ∧ h.requestDialogEntry callback =
            { h with registered, dialogRequestsPending := some (callbacks ++ h.newCallback callback) }) ∨
          h.dialogRequestsPending = none ∧ h.requestDialogEntry callback =
            { h with registered, dialogRequestsPending := some (h.newCallback callback), posted := true }) := by
  unfold requestDialogEntry
  dsimp only
  split
  · rename_i callbacks asked
    exact .inl ⟨callbacks, asked, rfl⟩
  · rename_i none
    refine .inr ⟨none, ?_⟩
    split
    · rename_i callbacks pending
      exact .inl ⟨callbacks, pending, rfl⟩
    · rename_i none
      exact .inr ⟨none, rfl⟩

theorem newCallback_perm {h : Histories} (callback : Bool) {a b c : List Callback}
    (perm : (a ++ b ++ c).Perm (List.range h.registered)) :
    (a ++ (b ++ h.newCallback callback) ++ c).Perm (List.range (h.registered + (h.newCallback callback).length)) := by
  cases callback with
  | false => simpa [newCallback] using perm
  | true =>
      have next : List.range (h.registered + (h.newCallback true).length) = List.range h.registered ++ [h.registered] :=
        List.range_succ
      rw [next]
      refine List.Perm.trans ?_ (perm.append_right [h.registered])
      simp only [newCallback, if_true, List.append_assoc]
      exact (List.perm_append_comm.append_left b).append_left a

namespace Asked

variable {h : Histories} {held : List Callback} {late : Prop}

theorem requestDialogEntry (asked : Asked h held late) (callback : Bool) :
    Asked (h.requestDialogEntry callback) held late := by
  have numbered := asked.toNumbered.same (requestDialogEntry_aside h callback).toSameRequests
  have kept := asked.kept
  have flag := asked.flag
  rcases requestDialogEntry_cases h callback with ⟨callbacks, requests, result⟩ |
    ⟨requests, ⟨callbacks, pending, result⟩ | ⟨pending, result⟩⟩
  · have pending : h.dialogRequestsPending = none := by
      rcases asked.apart with none | none
      · rw [requests] at none
        cases none
      · exact none
    rw [requests] at flag kept
    rw [pending] at kept
    rw [result] at numbered ⊢
    refine ⟨numbered, flag, .inr pending, ?_, asked.posted, ?_, asked.unbroken⟩
    · exact fun _ => asked.answered (by rw [requests]; rfl)
    · have more := newCallback_perm callback (a := h.ran.map Prod.fst ++ held) (b := callbacks) (c := []) kept
      simpa [pending] using more
  · rw [requests] at flag kept
    rw [pending] at kept
    rw [result] at numbered ⊢
    refine ⟨numbered, requests ▸ flag, .inl requests, asked.answered, ?_, ?_, asked.unbroken⟩
    · exact fun _ => asked.posted (by rw [pending]; rfl)
    · have more := newCallback_perm callback (a := h.ran.map Prod.fst ++ held) (b := callbacks) (c := []) (by
        simpa using kept)
      simpa [requests] using more
  · rw [requests] at flag kept
    rw [pending] at kept
    rw [result] at numbered ⊢
    refine ⟨numbered, requests ▸ flag, .inl requests, asked.answered, fun _ => rfl, ?_, asked.unbroken⟩
    have more := newCallback_perm callback (a := h.ran.map Prod.fst ++ held) (b := []) (c := []) kept
    simpa [requests] using more

end Asked

/-! ## Sending -/

/-- What sending a request does about entries. -/
structure EntriesSent (h : Histories) (generator : Generator) (h' : Histories) : Prop where
  dialogRequests : h'.dialogRequests = h.dialogRequests
  dialogRequestsPending : h'.dialogRequestsPending = h.dialogRequestsPending
  posted : h'.posted = h.posted
  registered : h'.registered = h.registered
  ran : h'.ran = h.ran
  broken : h'.broken = h.broken
  blocked : h'.blocked = (h.blocked || decide (generator.type ≠ .history))
  flag : h'.entry.postponedRequestEntry = (h.entry.postponedRequestEntry || h'.blocked && h.dialogRequests.isSome) ∨
    h'.entry.postponedRequestEntry = h.entry.postponedRequestEntry ∧ h'.blocked = h.blocked
  entryRequests : h'.entryRequests =
    if generator.type ≠ .history then h.entryRequests.map ({ · with overtaken := true }) else h.entryRequests

theorem sendRequest_entries {h : Histories} (numbered : Numbered h) (generator : Generator) :
    EntriesSent h generator (h.sendRequest generator) := by
  have pushed : (h.pushedState generator).postponeEntryRequest = (h.blocked || decide (generator.type ≠ .history)) := by
    rw [Bool.eq_iff_iff, postponeEntryRequest_iff, Bool.or_eq_true, blocked_iff, decide_eq_true_eq]
    constructor
    · rintro ⟨e, inside, blocking⟩
      rcases (numbered.mem_pushed generator).mp inside with old | rfl
      · exact .inl ⟨e, old, blocking⟩
      · exact .inr blocking
    · rintro (⟨e, inside, blocking⟩ | blocking)
      · exact ⟨e, (numbered.mem_pushed generator).mpr (.inl inside), blocking⟩
      · exact ⟨_, (numbered.mem_pushed generator).mpr (.inr rfl), blocking⟩
  have sending := sendRequest_cases h generator
  generalize h.sendRequest generator = h' at sending ⊢
  cases sending with
  | postponed type deleting =>
      refine ⟨rfl, rfl, rfl, rfl, rfl, rfl, ?_, .inr ⟨rfl, rfl⟩, ?_⟩
      · simp only [type, ne_eq, not_true_eq_false, decide_false, Bool.or_false]
        rfl
      · simp only [type, ne_eq, not_true_eq_false, if_false]
  | @sent sent postponed flights allowed left same later cancelled =>
      -- only history requests are called back
      have blocked : blocked { h.pushedWith generator with
          flights := flights
          state := some { (h.pushedWith generator).entry with sent := sent, postponed := postponed } } =
            (h.pushedState generator).postponeEntryRequest := by
        rw [Bool.eq_iff_iff, blocked_iff, postponeEntryRequest_iff]
        constructor
        · rintro ⟨e, inside, blocking⟩
          exact ⟨e, ((left e).mp inside).1, blocking⟩
        · rintro ⟨e, inside, blocking⟩
          exact ⟨e, (left e).mpr ⟨inside, fun _ => blocking⟩, blocking⟩
      refine ⟨rfl, rfl, rfl, rfl, rfl, rfl, blocked.trans pushed, .inl ?_, rfl⟩
      rw [blocked]
      rfl

namespace Asked

variable {h : Histories} {held : List Callback} {late : Prop}

theorem sendRequest (asked : Asked h held late) (generator : Generator) :
    Asked (h.sendRequest generator) held late := by
  have numbered := asked.toNumbered.sendRequest generator
  have sent := sendRequest_entries asked.toNumbered generator
  generalize h.sendRequest generator = h' at numbered sent ⊢
  refine ⟨numbered, ?_, ?_, ?_, ?_, ?_, ?_⟩
  · rw [sent.dialogRequests]
    rcases sent.flag with flag | ⟨flag, blocked⟩
    · rw [flag, asked.flag, sent.blocked]
      cases h.dialogRequests.isSome <;> cases h.blocked <;> simp
    · rw [flag, blocked]
      exact asked.flag
  · rw [sent.dialogRequests, sent.dialogRequestsPending]
    exact asked.apart
  · rw [sent.dialogRequests, sent.entryRequests, sent.blocked]
    intro some
    rcases asked.answered some with blocked | asked | late
    · exact .inl (by rw [blocked, Bool.true_or])
    · refine .inr (.inl ?_)
      split
      · exact mt List.map_eq_nil_iff.mp asked
      · exact asked
    · exact .inr (.inr late)
  · rw [sent.dialogRequestsPending, sent.posted]
    exact asked.posted
  · rw [sent.ran, sent.dialogRequests, sent.dialogRequestsPending, sent.registered]
    exact asked.kept
  · rw [sent.broken]
    exact asked.unbroken

end Asked

/-! ## Finishing -/

theorem dropSent_entries (h : Histories) (id : Nat) :
    SameEntries h (h.dropSent id) ∧ (h.dropSent id).entry.sent = h.entry.sent.erase id := by
  rcases dropSent_cases h id with ⟨missing, same⟩ | ⟨request, found, result⟩
  · rw [same]
    exact ⟨.refl h, (SortedMap.erase_of_missing missing).symm⟩
  · rw [result]
    exact ⟨⟨rfl, rfl, rfl, rfl, rfl, rfl, fun _ => .inl, rfl⟩, rfl⟩

theorem resendPostponed_entries {h : Histories} (numbered : Numbered h) :
    SameEntries h h.resendPostponed ∧ h.resendPostponed.blocked = h.blocked := by
  rcases resendPostponed_cases numbered with ⟨same, -⟩ | ⟨none, sent, flights, nextApi, resent, result⟩
  · rw [same]
    exact ⟨.refl h, rfl⟩
  · rw [result]
    refine ⟨⟨rfl, rfl, rfl, rfl, rfl, rfl, fun _ => .inl, rfl⟩, ?_⟩
    apply blocked_of_sent
    intro e blocking
    constructor
    · intro inside
      rcases resent.made e inside with old | ⟨p, -, -, -, history, -⟩
      · exact old
      · exact absurd history blocking
    · exact resent.kept e

theorem checkEmptyState_entries (h : Histories) : SameEntries h h.checkEmptyState := by
  unfold checkEmptyState
  cases known : h.state with
  | none => exact .refl h
  | some s =>
      dsimp only
      split
      · rename_i empty
        refine ⟨rfl, rfl, rfl, rfl, rfl, rfl, fun _ => .inl, ?_⟩
        simp only [State.isEmpty, Bool.and_eq_true, Bool.not_eq_true'] at empty
        rw [entry_of_some known, empty.1.1.1.2]
        rfl
      · exact .refl h

/-- A request that is not the last one that blocks the chat. -/
def lastBlocking (h : Histories) (id : Nat) : Bool :=
  h.blocked && !({ h.entry with sent := h.entry.sent.erase id } : State).postponeEntryRequest

/-- What finishing a request does about entries. -/
structure EntriesFinished (h : Histories) (id : Nat) (h' : Histories) : Prop where
  entryRequests : h'.entryRequests = h.entryRequests
  ran : h'.ran = h.ran
  registered : h'.registered = h.registered
  blocked : h'.blocked = ({ h.entry with sent := h.entry.sent.erase id } : State).postponeEntryRequest
  dialogRequests : h.lastBlocking id = false → h'.dialogRequests = h.dialogRequests

theorem erase_blocked {h : Histories} {id : Nat}
    (blocked : ({ h.entry with sent := h.entry.sent.erase id } : State).postponeEntryRequest = true) :
    h.blocked = true := by
  obtain ⟨e, inside, blocking⟩ := postponeEntryRequest_iff.mp blocked
  exact blocked_iff.mpr ⟨e, (SortedMap.mem_erase.mp inside).1, blocking⟩

theorem requestEntryAgain_cases {h : Histories} {callbacks : List Callback}
    (asked : h.entry.postponedRequestEntry = true → h.dialogRequests = some callbacks ∧ h.dialogRequestsPending = none) :
    (h.entry.postponedRequestEntry = true → h.blocked = true) ∧ h.requestEntryAgain = h ∨
      h.entry.postponedRequestEntry = true ∧ h.blocked = false ∧ h.requestEntryAgain =
        { h with dialogRequestsPending := some callbacks, dialogRequests := none, posted := true
                 state := some { h.entry with postponedRequestEntry := false } } := by
  unfold requestEntryAgain
  dsimp only
  split
  · rename_i again
    simp only [Bool.and_eq_true, Bool.not_eq_true'] at again
    obtain ⟨requests, pending⟩ := asked again.1
    refine .inr ⟨again.1, again.2, ?_⟩
    have first : h.assert h.dialogRequests.isSome .entryLost = h := by
      rw [assert, requests]
      rfl
    have second : h.assert h.dialogRequestsPending.isNone .entryPending = h := by
      rw [assert, pending]
      rfl
    rw [first, second, requests, pending]
    rfl
  · rename_i not
    simp only [Bool.and_eq_true, Bool.not_eq_true', not_and, Bool.not_eq_false] at not
    exact .inl ⟨not, rfl⟩

/-- The entry is asked for again when nothing blocks the chat any more. -/
theorem Asked.requestEntryAgain {h h' : Histories} {held : List Callback} {late : Prop} (asked : Asked h held late)
    (numbered : Numbered h'.requestEntryAgain) (same : SameEntries h h') {id : Nat}
    (left : h'.blocked = ({ h.entry with sent := h.entry.sent.erase id } : State).postponeEntryRequest) :
    Asked h'.requestEntryAgain held late ∧ EntriesFinished h id h'.requestEntryAgain := by
  have less : h'.blocked = true → h.blocked = true := fun blocked => erase_blocked (left ▸ blocked)
  have flag : h'.entry.postponedRequestEntry = (h.dialogRequests.isSome && h.blocked) := same.flag.trans asked.flag
  have pending : h.dialogRequests.isSome = true → h'.dialogRequestsPending = none := by
    intro some
    rcases asked.apart with none | none
    · rw [none] at some
      cases some
    · rw [same.dialogRequestsPending, none]
  rcases @requestEntryAgain_cases h' (h.dialogRequests.getD []) (by
    intro up
    rw [flag, Bool.and_eq_true] at up
    obtain ⟨callbacks, requests⟩ := Option.isSome_iff_exists.mp up.1
    rw [same.dialogRequests, requests]
    exact ⟨rfl, pending up.1⟩) with ⟨blocked, result⟩ | ⟨up, unblocked, result⟩
  · rw [result] at numbered ⊢
    have stays : h.dialogRequests.isSome = true → h.blocked = true → h'.blocked = true := by
      intro some before
      exact blocked (by rw [flag, some, before]; rfl)
    refine ⟨⟨numbered, ?_, ?_, ?_, ?_, ?_, ?_⟩, ⟨same.entryRequests, same.ran, same.registered, left, ?_⟩⟩
    · rw [flag, same.dialogRequests]
      cases some : h.dialogRequests.isSome with
      | false => rfl
      | true =>
          rw [Bool.true_and, Bool.true_and, Bool.eq_iff_iff]
          exact ⟨stays some, less⟩
    · rw [same.dialogRequests, same.dialogRequestsPending]
      exact asked.apart
    · rw [same.dialogRequests, same.entryRequests]
      exact fun some => (asked.answered some).imp_left (stays some)
    · rw [same.dialogRequestsPending, same.posted]
      exact asked.posted
    · rw [same.ran, same.dialogRequests, same.dialogRequestsPending, same.registered]
      exact asked.kept
    · intro a broken
      rcases same.broken a broken with old | read
      · exact asked.unbroken a old
      · exact read
    · exact fun _ => same.dialogRequests
  · rw [result] at numbered ⊢
    rw [flag, Bool.and_eq_true] at up
    refine ⟨⟨numbered, rfl, .inl rfl, nofun, fun _ => rfl, ?_, ?_⟩, ⟨same.entryRequests, same.ran, same.registered, left, ?_⟩⟩
    · have kept := asked.kept
      rw [← same.ran, ← same.registered, ← same.dialogRequestsPending, pending up.1] at kept
      simpa using kept
    · intro a broken
      rcases same.broken a broken with old | read
      · exact asked.unbroken a old
      · exact read
    · intro other
      rw [lastBlocking, up.2, ← left, unblocked] at other
      cases other

theorem Asked.finishSentRequest {h : Histories} {held : List Callback} {late : Prop} (asked : Asked h held late)
    (id : Nat) : Asked (h.finishSentRequest id) held late ∧ EntriesFinished h id (h.finishSentRequest id) := by
  have removed : Numbered { h with historyByRequest := h.historyByRequest.filter (· ≠ id) } :=
    asked.toNumbered.same (Aside.fields h).toSameRequests
  have start : SameEntries h { h with historyByRequest := h.historyByRequest.filter (· ≠ id) } :=
    ⟨rfl, rfl, rfl, rfl, rfl, rfl, fun _ => .inl, rfl⟩
  have numbered := (removed.dropSent id).resendPostponed
  obtain ⟨dropped, sent⟩ := dropSent_entries { h with historyByRequest := h.historyByRequest.filter (· ≠ id) } id
  obtain ⟨resent, blocked⟩ := resendPostponed_entries (removed.dropSent id)
  have same := (start.trans dropped).trans resent
  have left : (dropSent { h with historyByRequest := h.historyByRequest.filter (· ≠ id) } id).resendPostponed.blocked =
      ({ h.entry with sent := h.entry.sent.erase id } : State).postponeEntryRequest := by
    rw [blocked, Histories.blocked, State.postponeEntryRequest, sent]
    rfl
  unfold Histories.finishSentRequest
  dsimp only
  generalize (dropSent { h with historyByRequest := h.historyByRequest.filter (· ≠ id) } id).resendPostponed = h'
    at numbered same left ⊢
  have numbered := numbered.same (requestEntryAgain_aside h').toSameRequests
  obtain ⟨again, finished⟩ := asked.requestEntryAgain numbered same left
  have entries := checkEmptyState_entries h'.requestEntryAgain
  have aside := checkEmptyState_aside h'.requestEntryAgain
  have blocked : h'.requestEntryAgain.checkEmptyState.blocked = h'.requestEntryAgain.blocked := by
    rw [Histories.blocked, State.postponeEntryRequest, aside.sent]
    rfl
  refine ⟨again.same (again.toNumbered.same aside.toSameRequests) entries blocked, ⟨?_, ?_, ?_, ?_, ?_⟩⟩
  · exact entries.entryRequests.trans finished.entryRequests
  · exact entries.ran.trans finished.ran
  · exact entries.registered.trans finished.registered
  · exact blocked.trans finished.blocked
  · exact fun other => entries.dialogRequests.trans (finished.dialogRequests other)

/-! ## Calls -/

/-- Requests for entries stay, and are at most overtaken by what blocks the chat now. -/
structure RequestsKept (h h' : Histories) : Prop where
  blocked : h.blocked = true → h'.blocked = true
  length : h'.entryRequests.length = h.entryRequests.length
  overtaken : ∀ r ∈ h'.entryRequests, r.overtaken = true → h'.blocked = true ∨ r ∈ h.entryRequests

theorem RequestsKept.of_eq {h h' : Histories} (blocked : h'.blocked = h.blocked)
    (entryRequests : h'.entryRequests = h.entryRequests) : RequestsKept h h' :=
  ⟨fun before => blocked.trans before, by rw [entryRequests], fun _ inside _ => .inr (entryRequests ▸ inside)⟩

theorem RequestsKept.trans {h h' h'' : Histories} (first : RequestsKept h h') (second : RequestsKept h' h'') :
    RequestsKept h h'' where
  blocked := fun blocked => second.blocked (first.blocked blocked)
  length := second.length.trans first.length
  overtaken := by
    intro r inside overtaken
    rcases second.overtaken r inside overtaken with blocked | inside
    · exact .inl blocked
    · exact (first.overtaken r inside overtaken).imp_left second.blocked

/-- What calls keep about entries. -/
structure EntriesKept (h h' : Histories) : Prop extends RequestsKept h h' where
  ran : h'.ran = h.ran
  asked : h'.dialogRequests.isSome = h.dialogRequests.isSome

theorem EntriesKept.refl (h : Histories) : EntriesKept h h := ⟨.of_eq rfl rfl, rfl, rfl⟩

theorem EntriesKept.trans {h h' h'' : Histories} (first : EntriesKept h h') (second : EntriesKept h' h'') :
    EntriesKept h h'' :=
  ⟨first.toRequestsKept.trans second.toRequestsKept, second.ran.trans first.ran, second.asked.trans first.asked⟩

theorem SameEntries.kept {h h' : Histories} (same : SameEntries h h') (blocked : h'.blocked = h.blocked) :
    EntriesKept h h' :=
  ⟨.of_eq blocked same.entryRequests, same.ran, by rw [same.dialogRequests]⟩

theorem Asked.aside {h h' : Histories} {held : List Callback} {late : Prop} (asked : Asked h held late)
    (requests : SameRequests h h') (same : SameEntries h h') : Asked h' held late ∧ EntriesKept h h' := by
  have blocked : h'.blocked = h.blocked := by
    rw [Histories.blocked, State.postponeEntryRequest, requests.sent]
    rfl
  exact ⟨asked.same (asked.toNumbered.same requests) same blocked, same.kept blocked⟩

theorem requestDialogEntry_kept (h : Histories) (callback : Bool) : EntriesKept h (h.requestDialogEntry callback) := by
  rcases requestDialogEntry_cases h callback with ⟨callbacks, requests, result⟩ |
    ⟨requests, ⟨callbacks, pending, result⟩ | ⟨pending, result⟩⟩
  · rw [result]
    exact ⟨.of_eq rfl rfl, rfl, by rw [requests]; rfl⟩
  · rw [result]
    exact ⟨.of_eq rfl rfl, rfl, rfl⟩
  · rw [result]
    exact ⟨.of_eq rfl rfl, rfl, rfl⟩

theorem sendRequest_kept {h : Histories} (numbered : Numbered h) (generator : Generator) :
    EntriesKept h (h.sendRequest generator) := by
  have sent := sendRequest_entries numbered generator
  refine ⟨⟨?_, ?_, ?_⟩, sent.ran, by rw [sent.dialogRequests]⟩
  · intro blocked
    rw [sent.blocked, blocked, Bool.true_or]
  · rw [sent.entryRequests]
    split
    · rw [List.length_map]
    · rfl
  · intro r inside overtaken
    rw [sent.entryRequests] at inside
    split at inside
    · rename_i blocking
      exact .inl (by rw [sent.blocked, decide_eq_true blocking, Bool.or_true])
    · exact .inr inside

/-- A request of the group of the last message blocks nothing. -/
theorem cancelGroup_entries {h : Histories} {held : List Callback} {late : Prop} (asked : Asked h held late)
    {group : ChatListGroupRequest} (requested : h.chatListGroupRequest = some group) :
    Asked (h.cancelRequest group.requestId) held late ∧ EntriesKept h (h.cancelRequest group.requestId) ∧
      (h.cancelRequest group.requestId).blocked = h.blocked := by
  rcases cancelRequest_cases h group.requestId with ⟨ids, result⟩ | ⟨s, ids, known, result⟩
  · rw [result]
    have same : SameEntries h { h with historyByRequest := ids } := ⟨rfl, rfl, rfl, rfl, rfl, rfl, fun _ => .inl, rfl⟩
    exact ⟨asked.same (asked.toNumbered.same (Aside.fields h).toSameRequests) same rfl, same.kept rfl, rfl⟩
  · have erased := asked.toNumbered.erased known ids group.requestId
    have state := entry_of_some known
    rw [result]
    have same : SameEntries h
        { h with historyByRequest := ids, state := some { s with postponed := s.postponed.erase group.requestId } } :=
      ⟨rfl, rfl, rfl, rfl, rfl, rfl, fun _ => .inl, by rw [state]; rfl⟩
    have unblocked : blocked
        { h with historyByRequest := ids, state := some { s with postponed := s.postponed.erase group.requestId } } =
          h.blocked := by
      rw [Histories.blocked, Histories.blocked, state]
      rfl
    obtain ⟨finished, entries⟩ := (asked.same erased same unblocked).finishSentRequest group.requestId
    have left : (finishSentRequest
        { h with historyByRequest := ids, state := some { s with postponed := s.postponed.erase group.requestId } }
          group.requestId).blocked = h.blocked := by
      rw [entries.blocked, ← unblocked, Bool.eq_iff_iff, postponeEntryRequest_iff, blocked_iff]
      constructor
      · rintro ⟨e, inside, blocking⟩
        exact ⟨e, (SortedMap.mem_erase.mp inside).1, blocking⟩
      · rintro ⟨e, inside, blocking⟩
        refine ⟨e, SortedMap.mem_erase.mpr ⟨inside, ?_⟩, blocking⟩
        exact fun mine => blocking ((erased.group group requested).2 e inside mine)
    have other : lastBlocking
        { h with historyByRequest := ids, state := some { s with postponed := s.postponed.erase group.requestId } }
          group.requestId = false := by
      rw [lastBlocking, ← entries.blocked, left, unblocked]
      cases h.blocked <;> rfl
    exact ⟨finished, ⟨.of_eq left entries.entryRequests, entries.ran, by rw [entries.dialogRequests other]⟩, left⟩

theorem Asked.change {h h' : Histories} {held : List Callback} {late : Prop} (change : Change h h')
    (asked : Asked h held late) : Asked h' held late ∧ EntriesKept h h' := by
  have numbered := asked.toNumbered.requesting change.requesting
  cases change with
  | setInboxReadTill | unreadCount | fakeChatListRequest | willReadTill =>
      exact asked.aside ⟨rfl, rfl, rfl, le_rfl, le_rfl, .inl rfl⟩ ⟨rfl, rfl, rfl, rfl, rfl, rfl, fun _ => .inl, rfl⟩
  | requestDialogEntry callback => exact ⟨asked.requestDialogEntry callback, requestDialogEntry_kept h callback⟩
  | sendRequest generator => exact ⟨asked.sendRequest generator, sendRequest_kept asked.toNumbered generator⟩
  | startGroup id =>
      have sent := asked.sendRequest (.groupAround id)
      have kept := sendRequest_kept asked.toNumbered (.groupAround id)
      exact ⟨⟨numbered, sent.flag, sent.apart, sent.answered, sent.posted, sent.kept, sent.unbroken⟩,
        ⟨⟨kept.blocked, kept.length, kept.overtaken⟩, kept.ran, kept.asked⟩⟩
  | cancelGroup requested =>
      have cancelled := cancelGroup_entries asked requested
      exact ⟨cancelled.1, cancelled.2.1⟩
  | willReadWhen known time =>
      exact asked.aside (.of_state known rfl rfl rfl rfl rfl rfl)
        ⟨rfl, rfl, rfl, rfl, rfl, rfl, fun _ => .inl, by rw [entry_of_some known]; rfl⟩
  | @sendReadRequest s known pending =>
      have broken : SameEntries h (h.assert (s.willReadTill > s.sentReadTill) .willReadTill) :=
        assert_entries h _ (.inl rfl)
      have fields : SameEntries h (h.readFrom s) := ⟨broken.dialogRequests, broken.dialogRequestsPending, broken.posted,
        broken.entryRequests, broken.registered, broken.ran, broken.broken, by rw [entry_of_some known]; rfl⟩
      obtain ⟨start, kept⟩ := asked.aside (readFrom_same known) fields
      exact ⟨start.sendRequest (.readInbox s.willReadTill),
        kept.trans (sendRequest_kept start.toNumbered (.readInbox s.willReadTill))⟩

theorem Asked.changes {h h' : Histories} {held : List Callback} {late : Prop} (changes : Changes h h')
    (asked : Asked h held late) : Asked h' held late ∧ EntriesKept h h' :=
  changes.preserve (P := fun h' => Asked h' held late ∧ EntriesKept h h')
    (fun change ⟨asked, kept⟩ => ⟨(asked.change change).1, kept.trans (asked.change change).2⟩) ⟨asked, .refl h⟩

theorem Asked.feed {h : Histories} {held : List Callback} {late : Prop} (asked : Asked h held late)
    (calls : List Call) : Asked (h.feed calls) held late ∧ EntriesKept h (h.feed calls) :=
  asked.changes (feed_changes h calls)

/-- What the history calls blocks nothing. -/
theorem Asked.callHistory {h : Histories} {held : List Callback} {late : Prop} (asked : Asked h held late)
    (c : HistoryCall) : Asked (h.callHistory c) held late ∧ EntriesKept h (h.callHistory c) ∧
      (h.callHistory c).blocked = h.blocked := by
  obtain ⟨called, kept⟩ := asked.changes (callHistory_changes h c)
  refine ⟨called, kept, ?_⟩
  have history {h : Histories} (numbered : Numbered h) {generator : Generator} (type : generator.type = .history) :
      (h.sendRequest generator).blocked = h.blocked := by
    rw [(sendRequest_entries numbered generator).blocked]
    simp [type]
  cases c with
  | requestDialogEntry callback =>
      have aside := requestDialogEntry_aside h callback
      change (h.requestDialogEntry callback).blocked = h.blocked
      rw [Histories.blocked, State.postponeEntryRequest, aside.sent]
      rfl
  | requestFakeChatListMessage =>
      change h.requestFakeChatListMessage.blocked = h.blocked
      unfold requestFakeChatListMessage
      split
      · rfl
      · have start : Numbered { h with fakeChatListRequest := true } :=
          asked.toNumbered.same (Aside.fields h).toSameRequests
        exact history start rfl
  | requestGroupAround id =>
      change (h.requestGroupAround id).blocked = h.blocked
      unfold requestGroupAround
      dsimp only
      split
      · exact history asked.toNumbered rfl
      · rename_i group requested
        split
        · rfl
        · have ⟨cancelled, _, blocked⟩ := cancelGroup_entries asked requested
          exact (history cancelled.toNumbered rfl).trans blocked

theorem Asked.callHistories {h : Histories} {held : List Callback} {late : Prop} (asked : Asked h held late)
    (calls : List HistoryCall) : Asked (calls.foldl Histories.callHistory h) held late ∧
      EntriesKept h (calls.foldl Histories.callHistory h) ∧ (calls.foldl Histories.callHistory h).blocked = h.blocked := by
  induction calls generalizing h with
  | nil => exact ⟨asked, .refl h, rfl⟩
  | cons c rest ih =>
      obtain ⟨called, kept, blocked⟩ := asked.callHistory c
      obtain ⟨called', kept', blocked'⟩ := ih called
      exact ⟨called', kept.trans kept', blocked'.trans blocked⟩

/-! ## Answers -/

/-- Callbacks that an answer holds are run, each once. -/
theorem Asked.runCallbacks (fresh : Bool) (callbacks : Callback → List Call) {late : Prop} (list : List Callback) :
    ∀ {h : Histories}, Asked h list late →
      Asked (list.foldl (runCallback fresh callbacks) h) [] late ∧
        RequestsKept h (list.foldl (runCallback fresh callbacks) h) ∧
        (list.foldl (runCallback fresh callbacks) h).dialogRequests.isSome = h.dialogRequests.isSome ∧
        ∀ p ∈ (list.foldl (runCallback fresh callbacks) h).ran, p ∈ h.ran ∨ p.2 = fresh := by
  induction list with
  | nil => exact fun asked => ⟨asked, .of_eq rfl rfl, rfl, fun _ => .inl⟩
  | cons callback rest ih =>
      intro h asked
      have one : Asked { h with ran := h.ran ++ [(callback, fresh)] } rest late := by
        refine ⟨asked.toNumbered.same (Aside.fields h).toSameRequests, asked.flag, asked.apart, asked.answered,
          asked.posted, ?_, asked.unbroken⟩
        have kept := asked.kept
        simpa using kept
      obtain ⟨fed, kept⟩ := one.feed (callbacks callback)
      obtain ⟨done, kept', same, ran⟩ := ih fed
      have both := kept.toRequestsKept.trans kept'
      refine ⟨done, ⟨both.blocked, both.length, both.overtaken⟩, same.trans kept.asked, ?_⟩
      intro p inside
      rcases ran p inside with old | new
      · rw [kept.ran] at old
        rcases List.mem_append.mp old with old | mine
        · exact .inl old
        · exact .inr (by rw [List.mem_singleton.mp mine])
      · exact .inr new

/-- What the answer of an entry, or an entry from elsewhere, does to requests and callbacks. -/
structure Applied (fresh : Bool) (h h' : Histories) : Prop extends RequestsKept h h' where
  ran : ∀ p ∈ h'.ran, p ∈ h.ran ∨ p.2 = fresh ∧ h.entry.postponedRequestEntry = false
  up : h.entry.postponedRequestEntry = true → h'.entry.postponedRequestEntry = true

theorem Applied.trans {fresh : Bool} {h h' h'' : Histories} (first : Applied fresh h h')
    (second : Applied fresh h' h'') : Applied fresh h h'' := by
  refine ⟨first.toRequestsKept.trans second.toRequestsKept, ?_, fun up => second.up (first.up up)⟩
  intro p inside
  rcases second.ran p inside with old | ⟨new, down⟩
  · exact first.ran p old
  · refine .inr ⟨new, ?_⟩
    cases flag : h.entry.postponedRequestEntry with
    | false => rfl
    | true => exact (first.up flag).symm.trans down

theorem EntriesKept.applied {h h' : Histories} {held : List Callback} {late : Prop} (kept : EntriesKept h h')
    (before : Asked h held late) (after : Asked h' held late) (fresh : Bool) : Applied fresh h h' := by
  refine ⟨kept.toRequestsKept, fun p inside => .inl (kept.ran ▸ inside), ?_⟩
  intro up
  rw [before.flag, Bool.and_eq_true] at up
  rw [after.flag, kept.asked, up.1, kept.blocked up.2]
  rfl

theorem Asked.runPending {h : Histories} {late : Prop} (asked : Asked h [] late) (fresh : Bool)
    (callbacks : Callback → List Call) :
    Asked (h.runPending fresh callbacks) [] late ∧ RequestsKept h (h.runPending fresh callbacks) ∧
      (∀ p ∈ (h.runPending fresh callbacks).ran, p ∈ h.ran ∨ p.2 = fresh) ∧
      ((h.runPending fresh callbacks).entry.postponedRequestEntry = true → h.entry.postponedRequestEntry = true) := by
  unfold Histories.runPending
  split
  · rename_i pending waits
    have requests : h.dialogRequests = none := by
      rcases asked.apart with none | none
      · exact none
      · rw [none] at waits
        cases waits
    have taken : Asked { h with dialogRequestsPending := none } pending late := by
      refine ⟨asked.toNumbered.same (Aside.fields h).toSameRequests, asked.flag, .inr rfl, asked.answered, nofun, ?_,
        asked.unbroken⟩
      have kept := asked.kept
      rw [waits, requests] at kept
      simpa [requests] using kept
    obtain ⟨done, kept, same, ran⟩ := Asked.runCallbacks fresh callbacks pending taken
    refine ⟨done, ⟨kept.blocked, kept.length, kept.overtaken⟩, ran, ?_⟩
    intro up
    rw [done.flag, same] at up
    simp [requests] at up
  · exact ⟨asked, .of_eq rfl rfl, fun _ => .inl, id⟩

theorem Asked.runRequests {h : Histories} {late : Prop} (asked : Asked h [] late)
    (down : h.entry.postponedRequestEntry = false) (fresh : Bool) (callbacks : Callback → List Call) :
    Asked (h.runRequests fresh callbacks) [] late ∧ RequestsKept h (h.runRequests fresh callbacks) ∧
      (∀ p ∈ (h.runRequests fresh callbacks).ran, p ∈ h.ran ∨ p.2 = fresh) ∧
      (h.runRequests fresh callbacks).dialogRequests.isSome = false := by
  unfold Histories.runRequests
  split
  · rename_i requests waits
    have pending : h.dialogRequestsPending = none := by
      rcases asked.apart with none | none
      · rw [none] at waits
        cases waits
      · exact none
    have taken : Asked { h with dialogRequests := none } requests late := by
      refine ⟨asked.toNumbered.same (Aside.fields h).toSameRequests, down, .inl rfl, nofun, asked.posted, ?_,
        asked.unbroken⟩
      have kept := asked.kept
      rw [waits, pending] at kept
      simpa [pending] using kept
    obtain ⟨done, kept, same, ran⟩ := Asked.runCallbacks fresh callbacks requests taken
    exact ⟨done, ⟨kept.blocked, kept.length, kept.overtaken⟩, ran, same⟩
  · rename_i none
    exact ⟨asked, .of_eq rfl rfl, fun _ => .inl, by rw [none]; rfl⟩

theorem applySentRead_entries (h : Histories) (known : Bool) :
    SameEntries h (h.applySentRead known) ∧ (h.applySentRead known).blocked = h.blocked := by
  unfold applySentRead
  split
  · rename_i s state
    split
    · have same := entry_of_some state
      have aside := checkEmptyState_aside
        (({ h with state := some { s with sentReadTill := 0 } } : Histories).setInboxReadTill s.sentReadTill)
      refine ⟨SameEntries.trans ?_ (checkEmptyState_entries _), ?_⟩
      · exact ⟨rfl, rfl, rfl, rfl, rfl, rfl, fun _ => .inl, by rw [same]; rfl⟩
      · rw [blocked, State.postponeEntryRequest, aside.sent, blocked, same]
        rfl
    · exact ⟨.refl h, rfl⟩
  · exact ⟨.refl h, rfl⟩

/-- A postponed entry waits for what blocks the chat, and not for an answer. -/
theorem Asked.inTime {h : Histories} {held : List Callback} {late : Prop} (asked : Asked h held late)
    (up : h.entry.postponedRequestEntry = true) : Asked h held False := by
  refine ⟨asked.toNumbered, asked.flag, asked.apart, ?_, asked.posted, asked.kept, asked.unbroken⟩
  intro _
  rw [asked.flag, Bool.and_eq_true] at up
  exact .inl up.2

/-- An entry is applied if it is not postponed; then no callback waits for an answer. -/
theorem Asked.dialogEntryApplied {h : Histories} {late : Prop} (asked : Asked h [] late) (fresh : Bool)
    (calls : List HistoryCall) (callbacks : Callback → List Call) :
    Asked (h.dialogEntryApplied fresh calls callbacks) [] False ∧
      Applied fresh h (h.dialogEntryApplied fresh calls callbacks) := by
  rw [dialogEntryApplied_eq]
  split
  · rename_i up
    exact ⟨asked.inTime up, .of_eq rfl rfl, fun _ => .inl, id⟩
  · rename_i down
    have down := Bool.eq_false_iff.mpr down
    obtain ⟨called, kept, blocked⟩ := asked.callHistories calls
    have down' : (calls.foldl Histories.callHistory h).entry.postponedRequestEntry = false := by
      rw [called.flag, kept.asked, blocked, ← asked.flag]
      exact down
    obtain ⟨pended, kept₁, ran₁, up⟩ := called.runPending fresh callbacks
    have down'' : ((calls.foldl Histories.callHistory h).runPending fresh callbacks).entry.postponedRequestEntry =
        false := by
      cases flag : ((calls.foldl Histories.callHistory h).runPending fresh callbacks).entry.postponedRequestEntry with
      | false => rfl
      | true => exact (up flag).symm.trans down'
    obtain ⟨requested, kept₂, ran₂, none⟩ := pended.runRequests down'' fresh callbacks
    obtain ⟨same, blocked'⟩ := applySentRead_entries
      (((calls.foldl Histories.callHistory h).runPending fresh callbacks).runRequests fresh callbacks) h.state.isSome
    have numbered := Moves.preserve (P := Numbered) (fun move numbered => numbered.move move) (applySentRead_moves
      (((calls.foldl Histories.callHistory h).runPending fresh callbacks).runRequests fresh callbacks) h.state.isSome)
      requested.toNumbered
    have result := requested.same numbered same blocked'
    refine ⟨⟨result.toNumbered, result.flag, result.apart, ?_, result.posted, result.kept, result.unbroken⟩, ?_, ?_, ?_⟩
    · rw [same.dialogRequests, none]
      nofun
    · exact ((kept.toRequestsKept.trans kept₁).trans kept₂).trans (.of_eq blocked' same.entryRequests)
    · intro p inside
      rw [same.ran] at inside
      rcases ran₂ p inside with old | new
      · rcases ran₁ p old with old | new
        · exact .inl (kept.ran ▸ old)
        · exact .inr ⟨new, down⟩
      · exact .inr ⟨new, down⟩
    · exact fun up => absurd (up.symm.trans down) nofun

theorem Asked.applyDialog {h : Histories} {late : Prop} (asked : Asked h [] late) (fresh : Bool) (e : Entry)
    (d : Dialog) : Asked (h.applyDialog fresh e d) [] False ∧ Applied fresh h (h.applyDialog fresh e d) := by
  obtain ⟨fields, kept⟩ := asked.changes (applyDialogFields_changes h e.loaded d)
  obtain ⟨fed, kept'⟩ := fields.feed e.between
  obtain ⟨done, applied⟩ := fed.dialogEntryApplied fresh e.history e.callbacks
  exact ⟨done, ((kept.trans kept').applied asked fed fresh).trans applied⟩

/-- The answer to a request of an entry, once the request is gone. -/
theorem Asked.answerEntry {h : Histories} (asked : Asked h [] False) (request : EntryRequest) (e : Entry) :
    Asked (h.answerEntry request e) [] False ∧
      Applied (!request.overtaken) (h.dropEntryRequest request.id) (h.answerEntry request e) := by
  have dropped : Asked (h.dropEntryRequest request.id) [] True :=
    ⟨asked.toNumbered.same (Aside.fields h).toSameRequests, asked.flag, asked.apart, fun _ => .inr (.inr trivial),
      asked.posted, asked.kept, asked.unbroken⟩
  rw [answerEntry_eq]
  dsimp only
  have applied : Asked ((h.dropEntryRequest request.id).applyEntry (!request.overtaken) e) [] True ∧
      Applied (!request.overtaken) (h.dropEntryRequest request.id)
        ((h.dropEntryRequest request.id).applyEntry (!request.overtaken) e) := by
    unfold applyEntry
    split
    · rename_i d _
      obtain ⟨fed, kept⟩ := dropped.feed e.before
      obtain ⟨done, applied⟩ := fed.applyDialog (!request.overtaken) e d
      refine ⟨⟨done.toNumbered, done.flag, done.apart, fun _ => .inr (.inr trivial), done.posted, done.kept,
        done.unbroken⟩, (kept.applied dropped fed _).trans applied⟩
    · exact ⟨dropped, .of_eq rfl rfl, fun _ => .inl, id⟩
  generalize (h.dropEntryRequest request.id).applyEntry (!request.overtaken) e = h' at applied ⊢
  split
  · rename_i up
    exact ⟨applied.1.inTime up, applied.2⟩
  · obtain ⟨done, again⟩ := applied.1.dialogEntryApplied (!request.overtaken) e.again e.callbacks
    exact ⟨done, applied.2.trans again⟩

theorem Asked.readAnswered {h : Histories} {held : List Callback} {late : Prop} (asked : Asked h held late)
    (tillId : MsgId) : Asked (h.readAnswered tillId) held late ∧ EntriesKept h (h.readAnswered tillId) := by
  have requests := readAnswered_same h tillId
  unfold Histories.readAnswered at requests ⊢
  cases known : h.state with
  | none =>
      simp only [known] at requests ⊢
      exact asked.aside requests (assert_entries h false (.inr (.inl rfl)))
  | some s =>
      simp only [known] at requests ⊢
      have state := entry_of_some known
      split at requests
      · rename_i mine
        rw [if_pos mine]
        obtain ⟨done, kept⟩ := @Asked.aside h { h with state := some { s with sentReadDone := true } } _ _ asked
          (.of_state known rfl rfl rfl rfl rfl rfl)
          ⟨rfl, rfl, rfl, rfl, rfl, rfl, fun _ => .inl, by rw [state]; rfl⟩
        split
        · exact ⟨done.requestDialogEntry false, kept.trans (requestDialogEntry_kept _ false)⟩
        · exact asked.aside (.of_state known rfl rfl rfl rfl rfl rfl)
            ⟨rfl, rfl, rfl, rfl, rfl, rfl, fun _ => .inl, by rw [state]; rfl⟩
      · rename_i other
        rw [if_neg other]
        exact asked.aside requests (assert_entries h _ (.inr (.inr rfl)))

/-- What is done with an answer before its request is finished keeps entries as calls do. -/
theorem Asked.prepare {h : Histories} {held : List Callback} {late : Prop} (asked : Asked h held late)
    (generator : Generator) (method : Method) (a : Answer) :
    Asked (h.prepare generator method a) held late ∧ EntriesKept h (h.prepare generator method a) := by
  obtain ⟨done, errorType, offset, before, between, after⟩ := a
  have stay (h : Histories) (asked : Asked h held late) : Asked h held late ∧ EntriesKept h h := ⟨asked, .refl h⟩
  have fed {h : Histories} (asked : Asked h held late) (calls : List Call) :
      Asked (if done then h.feed calls else h) held late ∧ EntriesKept h (if done then h.feed calls else h) := by
    cases done with
    | true => exact asked.feed calls
    | false => exact stay h asked
  have more (generator : Generator) (a : Answer) :
      Asked (if done then (h.feed before).deleteMore generator a else h) held late ∧
        EntriesKept h (if done then (h.feed before).deleteMore generator a else h) := by
    cases done with
    | false => exact stay h asked
    | true =>
        obtain ⟨fed, kept⟩ := asked.feed before
        simp only [if_true]
        unfold deleteMore
        split
        · have sent := fed.sendRequest generator
          have kept' := kept.trans (sendRequest_kept fed.toNumbered generator)
          have ⟨fed', kept''⟩ := sent.feed a.between
          exact ⟨fed', kept'.trans kept''⟩
        · exact ⟨fed, kept⟩
  cases generator with
  | fakeChatListMessage =>
      have ⟨start, kept⟩ : Asked { h with fakeChatListRequest := false } held late ∧
          EntriesKept h { h with fakeChatListRequest := false } :=
        asked.aside (Aside.fields h).toSameRequests ⟨rfl, rfl, rfl, rfl, rfl, rfl, fun _ => .inl, rfl⟩
      obtain ⟨fed, kept'⟩ := start.feed before
      exact ⟨fed, kept.trans kept'⟩
  | groupAround aroundId =>
      obtain ⟨fed₁, kept₁⟩ := fed asked before
      have ⟨dropped, kept₂⟩ : Asked { (if done then h.feed before else h) with chatListGroupRequest := none } held late ∧
          EntriesKept (if done then h.feed before else h)
            { (if done then h.feed before else h) with chatListGroupRequest := none } :=
        fed₁.aside ⟨rfl, rfl, rfl, le_rfl, le_rfl, .inr rfl⟩ ⟨rfl, rfl, rfl, rfl, rfl, rfl, fun _ => .inl, rfl⟩
      obtain ⟨fed₂, kept₃⟩ := fed dropped between
      exact ⟨fed₂, (kept₁.trans kept₂).trans kept₃⟩
  | readInbox tillId =>
      obtain ⟨fed₁, kept₁⟩ := fed asked before
      obtain ⟨read, kept₂⟩ := fed₁.readAnswered tillId
      obtain ⟨sent, kept₃⟩ := read.changes (sendReadRequests_changes _)
      exact ⟨sent, (kept₁.trans kept₂).trans kept₃⟩
  | deleteMessages => exact fed asked before
  | deleteAllMessages till justClear revoke =>
      cases method with
      | deleteChannel => exact fed asked before
      | deleteChat =>
          unfold Histories.prepare
          dsimp only
          split
          · have entries : SameEntries h (h.addChatUser till justClear revoke) :=
              ⟨rfl, rfl, rfl, rfl, rfl, rfl, fun _ => .inl, rfl⟩
            exact ⟨asked.same (asked.toNumbered.addChatUser till justClear revoke) entries rfl, entries.kept rfl⟩
          · exact stay h asked
      | messagesDeleteHistory => exact more (.deleteAllMessages till justClear revoke) _
      | _ => exact stay h asked
  | deleteMessagesByDates minDate maxDate revoke => exact more (.deleteMessagesByDates minDate maxDate revoke) _

end Histories

end IMeDesktop.Data
