import Mathlib.Tactic.Common

/-! # Exceptions of chat filters

The chats that a filter always shows are requested where their folder is not known. Filters wait for that in a
queue, and a request takes as many of them as it may. What a filter misses is added to the request before its
size is looked at, so the filter that is too much is in the request and stays in the queue.

`none` is an assertion that does not hold.
-/

namespace IMeDesktop.Data

abbrev FilterId := Int32

/-- A chat, by its address. -/
abbrev History := Nat

structure ChatFilter where
  id : FilterId
  always : List History
  deriving DecidableEq, Repr

/-- The chats, as they are when a request is made. -/
structure Chats where
  fullSize : Nat
  folderKnown : History → Bool

def kLoadExceptionsAfter : Nat := 100
def kLoadExceptionsPerRequest : Nat := 100

structure ChatFilters where
  list : List ChatFilter
  exceptionsToLoad : List FilterId
  exceptionsLoadRequestId : Nat := 0
  deriving DecidableEq, Repr

/-- What a call returns, and the peers of the request that it sends. -/
structure ExceptionsAnswer where
  result : Bool
  filters : ChatFilters
  sent : Option (List History) := none
  deriving DecidableEq, Repr

namespace ChatFilters

variable (chats : Chats)

/-- The chats of a filter that have to be loaded. -/
def missing (list : List ChatFilter) (id : FilterId) : List History :=
  match list.find? fun filter => filter.id = id with
  | none => []
  | some filter => filter.always.filter fun history => !chats.folderKnown history

/-- What is collected goes to `inputs`; the `result` stays as it was made. -/
def collectExceptions (list : List ChatFilter) (id : FilterId) (inputs : List History) : List History × List History :=
  (inputs ++ missing chats list id, [])

/-- The loop, with the queue that is left. -/
def takeExceptions (list : List ChatFilter) : List FilterId → List History → Option (List FilterId × List History)
  | [], inputs => some ([], inputs)
  | id :: rest, inputs =>
      let (inputs, exceptions) := collectExceptions chats list id inputs
      if inputs.length + exceptions.length > kLoadExceptionsPerRequest then
        if inputs.isEmpty then none else some (id :: rest, inputs)
      else takeExceptions list rest (inputs ++ exceptions)

/-- The id of the next request is taken from outside. -/
def loadNextExceptions (s : ChatFilters) (chatsListLoaded : Bool) (requestId : Nat) : Option ExceptionsAnswer :=
  if s.exceptionsLoadRequestId ≠ 0 then some { result := true, filters := s }
  else if !chatsListLoaded && decide (chats.fullSize < kLoadExceptionsAfter) then some { result := false, filters := s }
  else do
    let (left, inputs) ← takeExceptions chats s.list s.exceptionsToLoad []
    let s := { s with exceptionsToLoad := left }
    if inputs.isEmpty then some { result := false, filters := s }
    else some { result := true, filters := { s with exceptionsLoadRequestId := requestId }, sent := some inputs }

/-! ## The filters of a request -/

/-- A request has what the filters that left the queue miss, and nothing else. -/
structure Loads (s after : ChatFilters) (inputs : List History) : Prop where
  popped : ∃ popped, s.exceptionsToLoad = popped ++ after.exceptionsToLoad ∧
    inputs = popped.flatMap (missing chats s.list)
  bounded : (∀ filter ∈ s.list, (missing chats s.list filter.id).length ≤ kLoadExceptionsPerRequest) →
    inputs.length ≤ kLoadExceptionsPerRequest

/-- Whatever is sent loads the filters that are gone. -/
def LoadsRight (s : ChatFilters) (chatsListLoaded : Bool) (requestId : Nat) : Prop :=
  ∃ answer, s.loadNextExceptions chats chatsListLoaded requestId = some answer ∧
    ∀ inputs ∈ answer.sent, Loads chats s answer.filters inputs

/-- Where the queue is looked at. -/
def Asks (s : ChatFilters) (chatsListLoaded : Bool) : Prop :=
  s.exceptionsLoadRequestId = 0 ∧ (chatsListLoaded = true ∨ kLoadExceptionsAfter ≤ chats.fullSize)

variable {chats} {list : List ChatFilter} {queue : List FilterId} {inputs : List History}

/-- All of the queue is taken, or it is taken up to a filter that is too much, which stays in it. -/
theorem takeExceptions_cases (list : List ChatFilter) (queue : List FilterId) (inputs : List History)
    (few : inputs.length ≤ kLoadExceptionsPerRequest) :
    (inputs ++ queue.flatMap (missing chats list)).length ≤ kLoadExceptionsPerRequest ∧
        takeExceptions chats list queue inputs = some ([], inputs ++ queue.flatMap (missing chats list)) ∨
      ∃ front id back, queue = front ++ id :: back ∧
        (inputs ++ front.flatMap (missing chats list)).length ≤ kLoadExceptionsPerRequest ∧
        kLoadExceptionsPerRequest < (inputs ++ (front ++ [id]).flatMap (missing chats list)).length ∧
        takeExceptions chats list queue inputs =
          some (id :: back, inputs ++ (front ++ [id]).flatMap (missing chats list)) := by
  induction queue generalizing inputs with
  | nil => exact .inl ⟨by simpa using few, by simp [takeExceptions]⟩
  | cons id rest ih =>
      rw [takeExceptions, collectExceptions]
      simp only [List.length_nil, Nat.add_zero, List.append_nil]
      by_cases much : kLoadExceptionsPerRequest < (inputs ++ missing chats list id).length
      · right
        have some : (inputs ++ missing chats list id).isEmpty = false := by
          rw [List.isEmpty_eq_false_iff_exists_mem]
          apply List.exists_mem_of_length_pos
          omega
        refine ⟨[], id, rest, rfl, by simpa using few, by simpa using much, ?_⟩
        rw [if_pos much, some]
        simp
      · rw [if_neg much]
        rcases ih (inputs ++ missing chats list id) (by omega) with ⟨fits, taken⟩ | ⟨front, last, back, split, fits, more, taken⟩
        · left
          simp only [List.append_assoc, List.flatMap_cons] at fits taken ⊢
          exact ⟨fits, taken⟩
        · right
          refine ⟨id :: front, last, back, by rw [split]; rfl, ?_, ?_, ?_⟩
          · simpa only [List.append_assoc, List.flatMap_cons] using fits
          · simpa only [List.append_assoc, List.flatMap_cons, List.cons_append] using more
          · simpa only [List.append_assoc, List.flatMap_cons, List.cons_append] using taken

theorem loadNextExceptions_asks {s : ChatFilters} {chatsListLoaded : Bool} {requestId : Nat}
    (asks : Asks chats s chatsListLoaded) {left : List FilterId}
    (taken : takeExceptions chats s.list s.exceptionsToLoad [] = some (left, inputs)) :
    s.loadNextExceptions chats chatsListLoaded requestId =
      some (if inputs.isEmpty then { result := false, filters := { s with exceptionsToLoad := left } }
        else
          { result := true
            filters := { s with exceptionsToLoad := left, exceptionsLoadRequestId := requestId }
            sent := some inputs }) := by
  obtain ⟨free, loaded⟩ := asks
  have goes : (!chatsListLoaded && decide (chats.fullSize < kLoadExceptionsAfter)) = false := by
    rcases loaded with loaded | loaded
    · simp [loaded]
    · simp [loaded]
  simp only [loadNextExceptions, free, goes, taken, ne_eq, not_true, if_false, Bool.false_eq_true,
    Option.bind_eq_bind, Option.bind_some]
  split
  · rfl
  · rfl

theorem loadNextExceptions_waits {s : ChatFilters} {chatsListLoaded : Bool} (requestId : Nat)
    (waits : ¬Asks chats s chatsListLoaded) :
    ∃ result, s.loadNextExceptions chats chatsListLoaded requestId = some { result := result, filters := s } := by
  rw [loadNextExceptions]
  by_cases free : s.exceptionsLoadRequestId = 0
  · have small : (!chatsListLoaded && decide (chats.fullSize < kLoadExceptionsAfter)) = true := by
      have other : ¬(chatsListLoaded = true ∨ kLoadExceptionsAfter ≤ chats.fullSize) := fun loaded => waits ⟨free, loaded⟩
      simpa [not_or] using other
    rw [if_neg (not_not.mpr free), if_pos small]
    exact ⟨false, rfl⟩
  · rw [if_pos free]
    exact ⟨true, rfl⟩

/-- A request is right if there is none, or if all that the queue misses fits in one. -/
theorem loadNextExceptions_loadsRight_iff (chats : Chats) (s : ChatFilters) (chatsListLoaded : Bool) (requestId : Nat) :
    LoadsRight chats s chatsListLoaded requestId ↔
      (Asks chats s chatsListLoaded →
        (s.exceptionsToLoad.flatMap (missing chats s.list)).length ≤ kLoadExceptionsPerRequest) := by
  by_cases asks : Asks chats s chatsListLoaded
  · rw [forall_prop_of_true asks]
    rcases takeExceptions_cases s.list s.exceptionsToLoad [] (Nat.zero_le _) with
        ⟨fits, taken⟩ | ⟨front, id, back, split, fits, more, taken⟩
    · refine iff_of_true ⟨_, loadNextExceptions_asks asks taken, fun inputs sent => ?_⟩ (by simpa using fits)
      split at sent
      · exact nomatch sent
      · cases sent
        refine ⟨⟨s.exceptionsToLoad, ?_, rfl⟩, fun _ => fits⟩
        split
        · exact (List.append_nil _).symm
        · exact (List.append_nil _).symm
    · simp only [List.nil_append] at fits more taken
      have some : ((front ++ [id]).flatMap (missing chats s.list)).isEmpty = false := by
        rw [List.isEmpty_eq_false_iff_exists_mem]
        apply List.exists_mem_of_length_pos
        omega
      have made := @loadNextExceptions_asks chats _ s chatsListLoaded requestId asks _ taken
      rw [some] at made
      refine iff_of_false ?_ ?_
      · rintro ⟨answer, result, right⟩
        cases result.symm.trans made
        obtain ⟨⟨popped, queue, sent⟩, _⟩ := right _ rfl
        have same : popped = front := List.append_cancel_right (queue.symm.trans split)
        rw [same] at sent
        rw [← sent] at fits
        exact absurd more (Nat.not_lt.mpr fits)
      · rw [split, List.flatMap_append, List.flatMap_cons]
        rw [List.flatMap_append, List.flatMap_singleton] at more
        simp only [List.length_append] at more ⊢
        omega
  · obtain ⟨result, made⟩ := @loadNextExceptions_waits chats s chatsListLoaded requestId asks
    exact iff_of_true ⟨_, made, fun _ sent => nomatch sent⟩ fun asks' => absurd asks' asks

/-- Two filters with sixty chats each, none of which has a known folder. -/
def twoFilters : ChatFilters where
  list := [⟨2, List.range' 0 60⟩, ⟨3, List.range' 60 60⟩]
  exceptionsToLoad := [2, 3]

def unknownChats : Chats where
  fullSize := 0
  folderKnown _ := false

/-- Both filters are in the request, which is too large, and one of them stays in the queue. -/
theorem twoFilters_not_loadsRight :
    (∀ filter ∈ twoFilters.list, (missing unknownChats twoFilters.list filter.id).length ≤ kLoadExceptionsPerRequest) ∧
      twoFilters.loadNextExceptions unknownChats true 1 =
        some { result := true
               filters := { twoFilters with exceptionsToLoad := [3], exceptionsLoadRequestId := 1 }
               sent := some (List.range' 0 120) } ∧
      ¬LoadsRight unknownChats twoFilters true 1 := by
  have made : twoFilters.loadNextExceptions unknownChats true 1 =
      some { result := true
             filters := { twoFilters with exceptionsToLoad := [3], exceptionsLoadRequestId := 1 }
             sent := some (List.range' 0 120) } := by decide +kernel
  have small : ∀ filter ∈ twoFilters.list,
      (missing unknownChats twoFilters.list filter.id).length ≤ kLoadExceptionsPerRequest := by decide +kernel
  refine ⟨small, made, ?_⟩
  rintro ⟨answer, result, right⟩
  cases result.symm.trans made
  have few := (right _ rfl).bounded small
  rw [List.length_range'] at few
  exact absurd few (by decide)

end ChatFilters

end IMeDesktop.Data
