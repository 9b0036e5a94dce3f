import IMeDesktop.Data.RepliesList

/-! # The post in front of its comments

A viewer that has the first comments also gets the post, or the whole album it is in, with a
divider between. What is counted besides is the number of all messages of the slice.
-/

namespace IMeDesktop.Data

/-- An album, as `Groups::find` gives it: there is more than one item. -/
structure Group where
  items : List MsgId
  several : 1 < items.length

/-- The item that `lookupRoot` finds. -/
structure Root where
  id : MsgId
  repliesInboxReadTillFull : MsgId
  group : Option Group

/-- The messages that are put in front. -/
def Root.items (root : Root) : List MsgId := (root.group.map Group.items).getD [root.id]

structure Viewer where
  slice : MessagesSlice := {}
  around : MsgId := 0
  limitBefore : Nat := 0
  limitAfter : Nat := 0
  injectedForRoot : Nat := 0

def ShowAtUnreadMsgId : MsgId := 0

namespace MessagesSlice

/-- The divider is made here, whatever its text is. -/
def injectRootDivider (divider : MsgId) (slice : MessagesSlice) : MessagesSlice :=
  { slice with ids := slice.ids ++ [divider] }

def addCount (slice : MessagesSlice) (count : Nat) : MessagesSlice :=
  { slice with fullCount := slice.fullCount.map (· + (count : Int)) }

/-- The number of all messages fits, with some ids that are not messages. -/
def Counts (slice : MessagesSlice) (aside : Int) : Prop :=
  ∀ full ∈ slice.fullCount, ∀ before ∈ slice.skippedBefore, ∀ after ∈ slice.skippedAfter,
    full = before + (slice.ids.length - aside) + after

end MessagesSlice

namespace Viewer

def injectRootMessage (divider : MsgId) (root : Option Root) (viewer : Viewer) : Viewer :=
  if viewer.slice.skippedBefore ≠ some 0 then { viewer with injectedForRoot := 0 }
  else
    match root with
    | none => { viewer with injectedForRoot := 0 }
    | some root =>
        let slice := viewer.slice.injectRootDivider divider
        match root.group with
        | some group =>
            let count := group.items.length
            let slice := { slice with ids := slice.ids ++ group.items.reverse }.addCount count
            { viewer with slice := slice.addCount count, injectedForRoot := count }
        | none =>
            let slice := { slice with ids := slice.ids ++ [root.id] }
            { viewer with slice := slice.addCount 1, injectedForRoot := 1 }

def injectRootMessageAndReverse (divider : MsgId) (root : Option Root) (viewer : Viewer) : Viewer :=
  let viewer := viewer.injectRootMessage divider root
  { viewer with slice := { viewer.slice with ids := viewer.slice.ids.reverse } }

def lookAround (root : Option Root) (viewer : Viewer) : MsgId :=
  if viewer.around ≠ ShowAtUnreadMsgId then viewer.around
  else (root.map Root.repliesInboxReadTillFull).getD viewer.around

end Viewer

namespace RepliesList

/-- `buildFromData` as a whole. A viewer that has to wait keeps what it had. -/
def buildViewer (divider : MsgId) (root : Option Root) (r : RepliesList) (viewer : Viewer) :
    Option (Bool × Viewer × RepliesList) :=
  match r.buildFromData viewer.slice (viewer.lookAround root) viewer.limitBefore viewer.limitAfter with
  | none => none
  | some (none, r) => some (false, viewer, r)
  | some (some slice, r) => some (true, { viewer with slice }.injectRootMessageAndReverse divider root, r)

section Injected

variable {divider : MsgId} {root : Root} {viewer : Viewer}

/-- What is injected in front of the first comments: an album is counted twice. -/
theorem injectRootMessage_start (start : viewer.slice.skippedBefore = some 0) :
    viewer.injectRootMessage divider (some root) =
      { viewer with
        slice := { viewer.slice with
          ids := viewer.slice.ids ++ divider :: root.items.reverse
          fullCount := viewer.slice.fullCount.map fun full =>
            if root.group.isSome then full + root.items.length + root.items.length else full + root.items.length }
        injectedForRoot := root.items.length } := by
  rw [Viewer.injectRootMessage, if_neg (not_not_intro start)]
  rcases root with ⟨id, readTill, group⟩
  cases group with
  | none => simp [Root.items, MessagesSlice.injectRootDivider, MessagesSlice.addCount]
  | some group =>
      simp [Root.items, MessagesSlice.injectRootDivider, MessagesSlice.addCount, Function.comp_def]

theorem root_items_pos : 0 < root.items.length := by
  rcases root with ⟨id, readTill, group⟩
  cases group with
  | none => exact Nat.zero_lt_one
  | some group => exact Nat.lt_trans Nat.zero_lt_one group.several

/-- A slice that is shown has the number of all messages if the list has. -/
theorem buildFromData_fullCount {r r' : RepliesList} {was slice : MessagesSlice} {around : MsgId}
    {limitBefore limitAfter : Nat} (known : r.fullCount ≠ none)
    (built : r.buildFromData was around limitBefore limitAfter = some (some slice, r')) : slice.fullCount ≠ none := by
  unfold buildFromData at built
  split at built
  · cases built
    nofun
  · split at built
    · cases built
    · dsimp only at built
      split at built
      · cases built
      · obtain ⟨_, -, same⟩ := Option.map_eq_some_iff.mp built
        cases same
        exact known

/-- The number of all messages grows with the messages that are injected, and goes on to fit, if and only if the post is
not in an album. The divider is not counted in any case. -/
theorem buildViewer_counts_iff {r r' : RepliesList} (divider : MsgId) (root : Root) {viewer : Viewer}
    {slice : MessagesSlice} (known : r.fullCount ≠ none)
    (built : r.buildFromData viewer.slice (viewer.lookAround (some root)) viewer.limitBefore viewer.limitAfter =
      some (some slice, r')) (start : slice.skippedBefore = some 0) :
    ∃ shown, buildViewer divider (some root) r viewer = some (true, shown, r') ∧
      shown.slice.ids = root.items ++ divider :: slice.ids.reverse ∧
      (shown.slice.fullCount = slice.fullCount.map (· + (root.items.length : Int)) ↔ root.group = none) ∧
      (slice.Counts 0 → slice.skippedAfter ≠ none → (shown.slice.Counts 1 ↔ root.group = none)) ∧
      (slice.Counts 0 → slice.skippedAfter ≠ none → ¬ shown.slice.Counts 0) := by
  have injected := @injectRootMessage_start divider root { viewer with slice } start
  obtain ⟨full, counted⟩ := Option.ne_none_iff_exists'.mp (buildFromData_fullCount known built)
  have several := @root_items_pos root
  refine ⟨_, by rw [buildViewer, built], ?_⟩
  rw [Viewer.injectRootMessageAndReverse, injected]
  simp only [counted, Option.map_some, Option.some.injEq, MessagesSlice.Counts, Option.mem_def, start, forall_eq',
    List.length_reverse, List.length_append, List.length_cons]
  refine ⟨by simp, ?_, fun counts later => ?_, fun counts later fits => ?_⟩
  · cases root.group with
    | none => simp
    | some group =>
        simp only [Option.isSome_some, if_true, reduceCtorEq, iff_false]
        omega
  · obtain ⟨after, behind⟩ := Option.ne_none_iff_exists'.mp later
    have before := counts after behind
    simp only [behind, Option.some.injEq, forall_eq']
    cases root.group with
    | none =>
        simp only [Option.isSome_none, Bool.false_eq_true, if_false, iff_true]
        omega
    | some group =>
        simp only [Option.isSome_some, if_true, reduceCtorEq, iff_false]
        omega
  · obtain ⟨after, behind⟩ := Option.ne_none_iff_exists'.mp later
    have before := counts after behind
    have now := fits after behind
    have album : root.group.isSome = true → 1 < root.items.length := by
      rcases root with ⟨id, readTill, group⟩
      cases group with
      | none => nofun
      | some group => exact fun _ => group.several
    split at now
    · have := album ‹_›
      omega
    · omega

end Injected

/-- The comments 7 and 5 of the post 1. -/
def twoComments : RepliesList := { list := [7, 5], skippedBefore := some 0, skippedAfter := some 0, fullCount := some 2 }

/-- A viewer of both. -/
def bothShown : Viewer := { around := 7, limitBefore := 5, limitAfter := 5 }

def album : Group := ⟨[1, 2, 3], by decide⟩

/-- The whole thread, as it is before the post is put in front of it. -/
theorem twoComments_built : twoComments.buildFromData bothShown.slice 7 5 5 =
    some (some { ids := [7, 5], nearestToAround := 7, fullCount := some 2, skippedBefore := some 0, skippedAfter := some 0 },
      twoComments) := by
  rfl

theorem single_post_counted : ∃ shown, buildViewer 100 (some ⟨1, 0, none⟩) twoComments bothShown = some (true, shown, twoComments) ∧
    shown.slice.ids = [1, 100, 5, 7] ∧ shown.slice.fullCount = some 3 := by
  obtain ⟨shown, built, ids, counts, -⟩ :=
    buildViewer_counts_iff 100 ⟨1, 0, none⟩ (by decide) twoComments_built rfl
  exact ⟨shown, built, ids, counts.mpr rfl⟩

/-- With the album of the post five messages are shown, and eight are counted. -/
theorem album_counted_twice :
    ∃ shown, buildViewer 100 (some ⟨1, 0, some album⟩) twoComments bothShown = some (true, shown, twoComments) ∧
      shown.slice.ids = [1, 2, 3, 100, 5, 7] ∧ shown.slice.fullCount = some 8 ∧
      ¬ shown.slice.Counts 0 ∧ ¬ shown.slice.Counts 1 := by
  refine ⟨_, rfl, rfl, rfl, fun fits => ?_, fun fits => ?_⟩
  · exact absurd (fits 8 rfl 0 rfl 0 rfl) (by decide)
  · exact absurd (fits 8 rfl 0 rfl 0 rfl) (by decide)

end RepliesList

end IMeDesktop.Data
