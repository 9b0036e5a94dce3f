import IMeDesktop.History.UnreadThings
import IMeDesktop.Lib.Runs

/-! # The count of unread things follows the server

Every operation is told by the count of its list and the ids that are loaded, whether the lists are there or not.
With that, a count that is known stays the true one, unless something new comes while not all is loaded, or an answer
without ids is taken for the end.
-/

namespace IMeDesktop.HistoryUnreadThings

open Lib

@[simp]
theorem All.list_setList (data : All) (type : ThingType) (list : ThingsList) :
    (data.setList type list).list type = list := by
  cases type with
  | mentions => rfl
  | reactions => rfl

namespace Things

variable {s : Things} {type : ThingType} {known : Bool}

/-- The ids that are loaded. -/
def loaded (s : Things) (type : ThingType) : FlatSet MsgId :=
  match s.data with
  | some data => (data.list type).messages
  | none => .empty

theorem loadedCount_eq (s : Things) (type : ThingType) : s.loadedCount type = (s.loaded type).size := by
  unfold loadedCount loaded
  cases s.data with
  | none => rfl
  | some data => rfl

/-! ## What the operations do -/

theorem createData_list (known : Bool) (type : ThingType) :
    (createData known).list type = { count := if known then some 0 else none } := by
  cases known with
  | false => cases type <;> rfl
  | true => cases type <;> rfl

theorem eq_empty_of_size {set : FlatSet MsgId} (none : (set.size : Int) ≤ 0) : set = .empty := by
  apply FlatSet.ext
  apply List.length_eq_zero_iff.mp
  change set.size = 0
  omega

/-- The count is set, but not to less than is loaded; the ids stay. -/
theorem setListCount_spec (known : s.known = true) (data : All) (type : ThingType) (count : Int) :
    (s.setListCount data type count).count type = some (max (data.list type).loadedCount count) ∧
      (s.setListCount data type count).loaded type = (data.list type).messages := by
  have most : (if (data.list type).loadedCount > count then (data.list type).loadedCount else count) =
      max (data.list type).loadedCount count := by
    split_ifs
    · omega
    · omega
  unfold setListCount
  simp only [most]
  split_ifs with dropped
  · have few : ((data.list type).messages.size : Int) ≤ 0 := by
      have loaded : (data.list type).loadedCount ≤ 0 := by omega
      exact loaded
    constructor
    · simp [Things.count, known, dropped.1]
    · exact (eq_empty_of_size few).symm
  · simp [Things.count, loaded]

theorem setCount_spec (s : Things) (was : known = true → s.known = true) (type : ThingType) (count : Int) :
    (s.setCount known type count).count type = some (max (s.loadedCount type) count) ∧
      (s.setCount known type count).loaded type = s.loaded type := by
  have now : (if known then s else { s with known := true }).known = true := by
    cases known with
    | false => rfl
    | true => exact was rfl
  have same : (if known then s else { s with known := true }).data = s.data := by
    cases known with
    | false => rfl
    | true => rfl
  unfold setCount
  generalize (if known then s else { s with known := true }) = s' at now same
  simp only [same]
  cases there : s.data with
  | none =>
      simp only [loaded, loadedCount, there]
      split_ifs with none
      · simp [Things.count, same, there, now, none]
      · have set := setListCount_spec now (createData known) type count
        rw [createData_list] at set
        exact set
  | some data =>
      have set := setListCount_spec now data type count
      simp only [loaded, loadedCount, there]
      exact set

theorem setCount_data (s : Things) (data : All) (type : ThingType) (count : Int) :
    (setCount { s with data := some data } s.known type count).count type =
        some (max (data.list type).loadedCount count) ∧
      (setCount { s with data := some data } s.known type count).loaded type = (data.list type).messages :=
  setCount_spec { s with data := some data } id type count

/-- The lists are made without a change of what they say. -/
theorem created_spec (s : Things) (type : ThingType) :
    ((s.data.getD (createData s.known)).list type).count = s.count type ∧
      ((s.data.getD (createData s.known)).list type).messages = s.loaded type := by
  unfold count loaded
  cases s.data with
  | none =>
      rw [Option.getD_none, createData_list]
      exact ⟨rfl, rfl⟩
  | some data => exact ⟨rfl, rfl⟩

/-- As many ids are loaded as are counted. -/
def AllLoaded (s : Things) (type : ThingType) : Prop :=
  ∃ count, s.count type = some count ∧ 0 ≤ count ∧ count ≤ s.loadedCount type

theorem allLoaded_iff (s : Things) (type : ThingType) :
    (s.count type).getD (-1) ≥ 0 ∧ s.loadedCount type ≥ (s.count type).getD (-1) ↔ s.AllLoaded type := by
  unfold AllLoaded
  cases s.count type with
  | none => simp
  | some count => simp

instance AllLoaded.decidable (s : Things) (type : ThingType) : Decidable (s.AllLoaded type) :=
  decidable_of_iff _ (allLoaded_iff s type)

/-- When all is loaded, what is added is counted. -/
theorem add_counted {msgId : MsgId} {addType : AddType} {count : Int} (admits : s.broadcast = false)
    (known : s.count type = some count) (least : 0 ≤ count) (all : count ≤ s.loadedCount type)
    (adds : addType = .new ∨ msgId ∉ s.loaded type) :
    (s.add type msgId addType).1.count type = some (max (((s.loaded type).insert msgId).size : Int) (count + 1)) ∧
      (s.add type msgId addType).1.loaded type = (s.loaded type).insert msgId := by
  obtain ⟨same, messages⟩ := created_spec s type
  have whole := (allLoaded_iff s type).mpr ⟨count, known, least, all⟩
  unfold add
  rw [if_neg (by simp [admits])]
  simp only [ThingsList.loadedCount, same, messages]
  rw [← loadedCount_eq, if_pos whole, if_pos adds, known]
  have set := setCount_data s ((s.data.getD (createData s.known)).setList type
    { count := some count, messages := (s.loaded type).insert msgId }) type (count + 1)
  rw [All.list_setList] at set
  exact set

/-- Something new that comes when not all is loaded is neither counted nor loaded. -/
theorem add_new_skipped {msgId : MsgId} (skips : s.broadcast = true ∨ ¬s.AllLoaded type) :
    (s.add type msgId .new).1.count type = s.count type ∧ (s.add type msgId .new).1.loaded type = s.loaded type := by
  obtain ⟨same, messages⟩ := created_spec s type
  unfold add
  by_cases admits : s.broadcast = true
  · rw [if_pos admits]
    exact ⟨rfl, rfl⟩
  · have some := (or_iff_right admits).mp skips
    simp only [admits, Bool.false_eq_true, if_false, ThingsList.loadedCount, same, messages]
    rw [← loadedCount_eq, if_neg (mt (allLoaded_iff s type).mp some), if_neg (by simp)]
    exact ⟨same, messages⟩

/-- Something that is counted already may be loaded. -/
theorem add_existing {msgId : MsgId} (counted : s.AllLoaded type → msgId ∈ s.loaded type) :
    (s.add type msgId .existing).1.count type = s.count type ∧
      ((s.add type msgId .existing).1.loaded type = s.loaded type ∨
        (s.add type msgId .existing).1.loaded type = (s.loaded type).insert msgId) := by
  obtain ⟨same, messages⟩ := created_spec s type
  unfold add
  by_cases admits : s.broadcast = true
  · rw [if_pos admits]
    exact ⟨rfl, .inl rfl⟩
  · simp only [admits, Bool.false_eq_true, if_false, ThingsList.loadedCount, same, messages]
    rw [← loadedCount_eq]
    by_cases all : s.AllLoaded type
    · rw [if_pos ((allLoaded_iff s type).mpr all), if_neg (by simpa using counted all)]
      exact ⟨same, .inl messages⟩
    · rw [if_neg (mt (allLoaded_iff s type).mp all)]
      split_ifs
      · exact ⟨by simp [count], .inr (by simp [loaded])⟩
      · exact ⟨same, .inl messages⟩

/-- What is erased is not counted any more. -/
theorem erase_spec (s : Things) (type : ThingType) (msgId : MsgId) :
    (s.erase type msgId).loaded type = (s.loaded type).remove msgId ∧
      ((s.erase type msgId).count type = s.count type ∧ (∀ count, s.count type = some count → count ≤ 0) ∨
        ∃ count, s.count type = some count ∧
          (s.erase type msgId).count type = some (max (((s.loaded type).remove msgId).size : Int) (count - 1))) := by
  unfold erase
  cases there : s.data with
  | none =>
      refine ⟨by simp [loaded, there, FlatSet.remove, FlatSet.empty], .inl ⟨rfl, fun count known => ?_⟩⟩
      simp only [Things.count, there] at known
      split_ifs at known
      cases known
      exact le_refl 0
  | some data =>
      have same : (data.list type).count = s.count type := by simp [count, there]
      have messages : (data.list type).messages = s.loaded type := by simp [loaded, there]
      simp only [same, messages]
      by_cases some : (s.count type).getD (-1) > 0
      · rw [if_pos some]
        have set := setCount_data s (data.setList type
          { count := s.count type, messages := (s.loaded type).remove msgId }) type ((s.count type).getD (-1) - 1)
        rw [All.list_setList] at set
        refine ⟨set.2, .inr ?_⟩
        cases known : s.count type with
        | none => simp [known] at some
        | some count =>
            rw [known] at set
            exact ⟨count, rfl, set.1⟩
      · rw [if_neg some]
        refine ⟨by simp [loaded], .inl ⟨by simp [Things.count], fun count known => ?_⟩⟩
        rw [known, Option.getD_some] at some
        omega

/-- The ids are gone, and the count is zero if it was not before. -/
theorem clear_spec (s : Things) (type : ThingType) :
    (s.count type = some 0 ∨ s.data = none) ∧ s.clear type = s ∨
      (s.clear type).count type = some 0 ∧ (s.clear type).loaded type = .empty := by
  unfold clear
  cases there : s.data with
  | none => exact .inl ⟨.inr rfl, rfl⟩
  | some data =>
      by_cases none : (s.count type).getD (-1) = 0
      · refine .inl ⟨.inl ?_, if_pos none⟩
        cases known : s.count type with
        | none => simp [known] at none
        | some count => simpa [known] using none
      · have set := setCount_data s (data.setList type { data.list type with messages := .empty }) type 0
        rw [All.list_setList] at set
        refine .inr ?_
        simp only [if_neg none]
        exact set

/-- What stays loaded when an answer comes. -/
def kept (s : Things) (type : ThingType) (alreadyLoaded : Int) : FlatSet MsgId :=
  if alreadyLoaded = 0 then .empty else s.loaded type

/-- The ids of an answer. -/
def idsOf (slice : Slice) : List MsgId := (slice.vmessages.filter (·.2)).map (·.1)

theorem setCount_merged (s : Things) (data : All) (type : ThingType) (ids : List MsgId) (count : Int) :
    let list := { data.list type with messages := (data.list type).messages.merge ids }
    (setCount { s with data := some (data.setList type list) } s.known type count).loaded type =
        (data.list type).messages.merge ids ∧
      (setCount { s with data := some (data.setList type list) } s.known type count).count type =
        some (max (((data.list type).messages.merge ids).size : Int) count) := by
  have set := setCount_data s
    (data.setList type { data.list type with messages := (data.list type).messages.merge ids }) type count
  rw [All.list_setList] at set
  exact set.symm

/-- Without ids, the count is what is loaded. -/
theorem addSlice_spec (s : Things) (type : ThingType) (slice : Slice) (alreadyLoaded : Int) :
    (s.addSlice type slice alreadyLoaded).loaded type = (s.kept type alreadyLoaded).merge (idsOf slice) ∧
      (s.addSlice type slice alreadyLoaded).count type =
        some (max (((s.kept type alreadyLoaded).merge (idsOf slice)).size : Int)
          (if idsOf slice ≠ [] then slice.fullCount else (s.kept type alreadyLoaded).size)) := by
  have ids : slice.vmessages.filter (·.2) ≠ [] ↔ idsOf slice ≠ [] := not_congr List.map_eq_nil_iff.symm
  unfold addSlice
  simp only [ids]
  cases there : s.data with
  | none =>
      have nothing : s.kept type alreadyLoaded = .empty := by simp [kept, loaded, there]
      rw [nothing]
      by_cases received : slice.vmessages = []
      · have none : idsOf slice = [] := by simp [idsOf, received]
        rw [none]
        simp only [received]
        exact (setCount_spec { s with data := .none } id type 0).symm
      · have merged := setCount_merged s (createData s.known) type (idsOf slice)
          (if idsOf slice ≠ [] then slice.fullCount else 0)
        simp only [Option.map_none, ne_eq, received, not_false_eq_true, Option.isNone_none, and_self, if_true,
          Option.map_some]
        rw [createData_list] at merged ⊢
        exact merged
  | some data =>
      have messages : (data.list type).messages = s.loaded type := by simp [loaded, there]
      simp only [Option.map_some, Option.isNone_some, Bool.false_eq_true, and_false, if_false]
      by_cases first : alreadyLoaded = 0
      · have nothing : s.kept type alreadyLoaded = .empty := if_pos first
        have merged := setCount_merged s (data.setList type { data.list type with messages := .empty }) type
          (idsOf slice) (if idsOf slice ≠ [] then slice.fullCount else 0)
        rw [All.list_setList] at merged
        simp only [if_pos first, nothing, All.list_setList]
        exact merged
      · have all : s.kept type alreadyLoaded = s.loaded type := if_neg first
        have merged := setCount_merged s data type (idsOf slice)
          (if idsOf slice ≠ [] then slice.fullCount else (s.loaded type).size)
        simp only [if_neg first, all, ThingsList.loadedCount, messages] at merged ⊢
        exact merged

end Things

/-! ## What is true -/

/-- A chat, and what of it is unread. -/
structure State where
  chat : Things
  things : Finset MsgId

inductive Step where
  | setCount
  | addSlice (slice : Slice) (alreadyLoaded : Int)
  | addNew (msgId : MsgId)
  | addExisting (msgId : MsgId)
  | erase (msgId : MsgId)
  | clear
  deriving DecidableEq, Repr

namespace State

def step (type : ThingType) (s : State) : Step → State
  | .setCount => { s with chat := s.chat.setCount s.chat.known type s.things.card }
  | .addSlice slice alreadyLoaded => { s with chat := s.chat.addSlice type slice alreadyLoaded }
  | .addNew msgId => { chat := (s.chat.add type msgId .new).1, things := insert msgId s.things }
  | .addExisting msgId => { s with chat := (s.chat.add type msgId .existing).1 }
  | .erase msgId => { chat := s.chat.erase type msgId, things := s.things.erase msgId }
  | .clear => { chat := s.chat.clear type, things := ∅ }

/-- What comes is true. -/
def Truthful (s : State) : Step → Prop
  | .setCount => True
  | .addSlice slice _ => slice.fullCount = s.things.card ∧ ∀ msgId ∈ Things.idsOf slice, msgId ∈ s.things
  | .addNew msgId => msgId ∉ s.things
  | .addExisting msgId => msgId ∈ s.things
  | .erase msgId => msgId ∈ s.things
  | .clear => True

instance Truthful.decidable (s : State) : (step : Step) → Decidable (s.Truthful step)
  | .setCount => .isTrue trivial
  | .addSlice slice _ =>
      inferInstanceAs (Decidable (slice.fullCount = s.things.card ∧ ∀ msgId ∈ Things.idsOf slice, msgId ∈ s.things))
  | .addNew msgId => inferInstanceAs (Decidable (msgId ∉ s.things))
  | .addExisting msgId => inferInstanceAs (Decidable (msgId ∈ s.things))
  | .erase msgId => inferInstanceAs (Decidable (msgId ∈ s.things))
  | .clear => .isTrue trivial

/-- A count that is known is the true one, and what is loaded is true, and not more than the count. -/
structure Follows (type : ThingType) (s : State) : Prop where
  count : ∀ count, s.chat.count type = some count → count = s.things.card
  loaded : ∀ msgId ∈ s.chat.loaded type, msgId ∈ s.things
  fits : ∀ count, s.chat.count type = some count → s.chat.loadedCount type ≤ count

/-- Something new comes while all that is counted is loaded, and an answer has ids, or all is loaded. -/
def Fits (type : ThingType) (s : State) : Step → Prop
  | .addNew _ => s.chat.count type = none ∨ s.chat.broadcast = false ∧ s.chat.AllLoaded type
  | .addSlice slice alreadyLoaded =>
      Things.idsOf slice ≠ [] ∨ (s.chat.kept type alreadyLoaded).size = s.things.card
  | _ => True

instance Fits.decidable (type : ThingType) (s : State) : (step : Step) → Decidable (s.Fits type step)
  | .addNew _ =>
      inferInstanceAs (Decidable (s.chat.count type = none ∨ s.chat.broadcast = false ∧ s.chat.AllLoaded type))
  | .addSlice slice alreadyLoaded =>
      inferInstanceAs (Decidable (Things.idsOf slice ≠ [] ∨ (s.chat.kept type alreadyLoaded).size = s.things.card))
  | .setCount => .isTrue trivial
  | .addExisting _ => .isTrue trivial
  | .erase _ => .isTrue trivial
  | .clear => .isTrue trivial

variable {type : ThingType} {s : State}

theorem size_le_card {set : FlatSet MsgId} {things : Finset MsgId} (all : ∀ msgId ∈ set, msgId ∈ things) :
    set.size ≤ things.card := by
  rw [← FlatSet.card_toFinset]
  apply Finset.card_le_card
  intro msgId member
  exact all msgId (FlatSet.mem_toFinset.mp member)

/-- The first two say the third. -/
theorem follows_of {chat : Things} {things : Finset MsgId}
    (count : ∀ count, chat.count type = some count → count = things.card)
    (loaded : ∀ msgId ∈ chat.loaded type, msgId ∈ things) : Follows type ⟨chat, things⟩ := by
  refine ⟨count, loaded, fun n known => ?_⟩
  have few := size_le_card loaded
  rw [Things.loadedCount_eq, count n known]
  exact_mod_cast few

/-- A count that was set to what is true, or to what is loaded and true. -/
theorem follows_set {chat : Things} {things : Finset MsgId} {set : FlatSet MsgId} {count : Int}
    (loaded : chat.loaded type = set) (counts : chat.count type = some (max (set.size : Int) count))
    (all : ∀ msgId ∈ set, msgId ∈ things) (true_count : count = things.card) : Follows type ⟨chat, things⟩ := by
  apply follows_of
  · intro n known
    have few := size_le_card all
    rw [counts, true_count] at known
    have same := Option.some.inj known
    omega
  · rw [loaded]
    exact all

/-- All is loaded, and so is everything. -/
theorem Follows.mem_of_allLoaded (follows : s.Follows type) (all : s.chat.AllLoaded type) {msgId : MsgId}
    (member : msgId ∈ s.things) : msgId ∈ s.chat.loaded type := by
  obtain ⟨count, known, _, enough⟩ := all
  rw [Things.loadedCount_eq, follows.count count known] at enough
  have subset : (s.chat.loaded type).toFinset ⊆ s.things := fun other known =>
    follows.loaded other (FlatSet.mem_toFinset.mp known)
  have whole : (s.chat.loaded type).toFinset = s.things := by
    apply Finset.eq_of_subset_of_card_le subset
    rw [FlatSet.card_toFinset]
    exact_mod_cast enough
  exact FlatSet.mem_toFinset.mp (whole ▸ member)

/-! ## Steps -/

theorem setCount_follows (follows : s.Follows type) : (step type s .setCount).Follows type := by
  obtain ⟨counts, loaded⟩ := Things.setCount_spec s.chat id type s.things.card
  rw [Things.loadedCount_eq] at counts
  exact follows_set loaded counts follows.loaded rfl

theorem addSlice_follows_iff {slice : Slice} {alreadyLoaded : Int} (follows : s.Follows type)
    (truthful : s.Truthful (.addSlice slice alreadyLoaded)) :
    (step type s (.addSlice slice alreadyLoaded)).Follows type ↔ s.Fits type (.addSlice slice alreadyLoaded) := by
  obtain ⟨loaded, counts⟩ := Things.addSlice_spec s.chat type slice alreadyLoaded
  have kept : ∀ msgId ∈ s.chat.kept type alreadyLoaded, msgId ∈ s.things := by
    intro msgId member
    unfold Things.kept at member
    split_ifs at member
    · exact absurd member (FlatSet.not_mem_empty msgId)
    · exact follows.loaded msgId member
  have all : ∀ msgId ∈ (s.chat.kept type alreadyLoaded).merge (Things.idsOf slice), msgId ∈ s.things := by
    intro msgId member
    rcases FlatSet.mem_merge.mp member with old | new
    · exact kept msgId old
    · exact truthful.2 msgId new
  by_cases none : Things.idsOf slice = []
  · have same : (s.chat.kept type alreadyLoaded).merge [] = s.chat.kept type alreadyLoaded := rfl
    rw [none, same, if_neg (by simp), max_self] at counts
    constructor
    · intro follows'
      have whole := follows'.count _ counts
      exact .inr (by exact_mod_cast whole)
    · intro fits
      have whole := (or_iff_right (not_not.mpr none)).mp fits
      rw [none, same] at loaded
      refine follows_of (fun count known => ?_) (loaded ▸ kept)
      rw [counts] at known
      cases known
      exact_mod_cast whole
  · rw [if_pos none] at counts
    exact iff_of_true (follows_set loaded counts all truthful.1) (.inl none)

theorem addNew_follows_iff {msgId : MsgId} (follows : s.Follows type) (truthful : s.Truthful (.addNew msgId)) :
    (step type s (.addNew msgId)).Follows type ↔ s.Fits type (.addNew msgId) := by
  have more : (insert msgId s.things).card = s.things.card + 1 := Finset.card_insert_of_notMem truthful
  have grown : ∀ other ∈ s.chat.loaded type, other ∈ insert msgId s.things := fun other member =>
    Finset.mem_insert_of_mem (follows.loaded other member)
  by_cases all : s.chat.broadcast = false ∧ s.chat.AllLoaded type
  · obtain ⟨admits, count, known, least, enough⟩ := all
    obtain ⟨counts, loaded⟩ := @Things.add_counted s.chat type msgId .new count admits known least enough (.inl rfl)
    refine iff_of_true (follows_set loaded counts (fun other member => ?_) ?_)
      (.inr ⟨admits, count, known, least, enough⟩)
    · rcases FlatSet.mem_insert.mp member with rfl | member
      · exact Finset.mem_insert_self other s.things
      · exact grown other member
    · rw [more, follows.count count known]
      rfl
  · have skips : s.chat.broadcast = true ∨ ¬s.chat.AllLoaded type := by
      rw [not_and_or, Bool.not_eq_false] at all
      exact all
    obtain ⟨counts, loaded⟩ := @Things.add_new_skipped s.chat type msgId skips
    cases known : s.chat.count type with
    | none =>
        refine iff_of_true (follows_of (fun count set => ?_) (loaded ▸ grown)) (.inl known)
        rw [counts, known] at set
        cases set
    | some count =>
        refine iff_of_false (fun follows' => ?_) fun fits => ?_
        · have before := follows.count count known
          have after := follows'.count count (counts.trans known)
          change count = ((insert msgId s.things).card : Int) at after
          rw [more] at after
          omega
        · rcases fits with none | fits
          · exact absurd (known.symm.trans none) (by simp)
          · exact all fits

theorem addExisting_follows {msgId : MsgId} (follows : s.Follows type) (truthful : s.Truthful (.addExisting msgId)) :
    (step type s (.addExisting msgId)).Follows type := by
  obtain ⟨counts, loaded⟩ := @Things.add_existing s.chat type msgId fun all => follows.mem_of_allLoaded all truthful
  apply follows_of
  · intro count known
    exact follows.count count (counts.symm.trans known)
  · rcases loaded with same | more
    · rw [same]
      exact follows.loaded
    · rw [more]
      intro other member
      rcases FlatSet.mem_insert.mp member with rfl | member
      · exact truthful
      · exact follows.loaded other member

theorem erase_follows {msgId : MsgId} (follows : s.Follows type) (truthful : s.Truthful (.erase msgId)) :
    (step type s (.erase msgId)).Follows type := by
  obtain ⟨loaded, counts⟩ := Things.erase_spec s.chat type msgId
  have fewer := Finset.card_erase_of_mem truthful
  have some : 0 < s.things.card := Finset.card_pos.mpr ⟨msgId, truthful⟩
  have all : ∀ other ∈ (s.chat.loaded type).remove msgId, other ∈ s.things.erase msgId := by
    intro other member
    obtain ⟨known, different⟩ := FlatSet.mem_remove.mp member
    exact Finset.mem_erase.mpr ⟨different, follows.loaded other known⟩
  rcases counts with ⟨same, none⟩ | ⟨count, known, counts⟩
  · refine follows_of (fun count known => ?_) (loaded ▸ all)
    rw [same] at known
    have least := none count known
    have before := follows.count count known
    omega
  · refine follows_set loaded counts all ?_
    have before := follows.count count known
    omega

theorem clear_follows (follows : s.Follows type) : (step type s .clear).Follows type := by
  rcases Things.clear_spec s.chat type with ⟨none, same⟩ | ⟨counts, loaded⟩
  · have nothing : ∀ msgId, msgId ∉ s.chat.loaded type := by
      intro msgId member
      rcases none with zero | none
      · have empty := follows.count 0 zero
        have some := Finset.card_pos.mpr ⟨msgId, follows.loaded msgId member⟩
        omega
      · rw [Things.loaded, none] at member
        exact FlatSet.not_mem_empty msgId member
    rw [step, same]
    apply follows_of
    · intro count known
      rcases none with zero | none
      · rw [zero] at known
        cases known
        rfl
      · rw [Things.count, none] at known
        dsimp only at known
        split_ifs at known
        cases known
        rfl
    · exact fun msgId member => absurd member (nothing msgId)
  · apply follows_of
    · intro count known
      rw [counts] at known
      cases known
      rfl
    · rw [loaded]
      exact fun msgId member => absurd member (FlatSet.not_mem_empty msgId)

theorem step_follows_iff {next : Step} (follows : s.Follows type) (truthful : s.Truthful next) :
    (step type s next).Follows type ↔ s.Fits type next := by
  cases next with
  | setCount => exact iff_of_true (setCount_follows follows) trivial
  | addSlice slice alreadyLoaded => exact addSlice_follows_iff follows truthful
  | addNew msgId => exact addNew_follows_iff follows truthful
  | addExisting msgId => exact iff_of_true (addExisting_follows follows truthful) trivial
  | erase msgId => exact iff_of_true (erase_follows follows truthful) trivial
  | clear => exact iff_of_true (clear_follows follows) trivial

/-! ## Runs -/

/-- In every run in which what comes is true, the count follows after each step, if and only if each step fits. -/
theorem run_follows_iff {s : State} (follows : s.Follows type) {steps : List Step}
    (truthful : EveryStep (step type) Truthful s steps) :
    EveryStep (step type) (fun s next => (step type s next).Follows type) s steps ↔
      EveryStep (step type) (Fits type) s steps := by
  apply truthful.iff_of_kept _ _ follows
  · exact fun s next follows truthful => step_follows_iff follows truthful
  · exact fun s next _ _ follows => follows

/-- A chat of which nothing is known. -/
def unknown (things : Finset MsgId) : State := ⟨{}, things⟩

theorem unknown_follows (type : ThingType) (things : Finset MsgId) : (unknown things).Follows type :=
  follows_of nofun fun _ member => absurd member (FlatSet.not_mem_empty _)

/-- Two mentions are counted and loaded, a third one comes, and all are read one after another. -/
def threeMentions : List Step :=
  [.setCount, .addSlice (.messages [(3, true), (5, true)]) 0, .addNew 8, .addExisting 3, .erase 5, .erase 3, .clear]

theorem threeMentions_follow :
    EveryStep (step .mentions) (fun s next => (step .mentions s next).Follows .mentions) (unknown {3, 5})
      threeMentions := by
  apply (run_follows_iff (unknown_follows .mentions {3, 5}) ?_).mpr
  · decide
  · decide

/-- Two mentions are counted, and a third one comes that is not. -/
theorem new_mention_not_counted :
    EveryStep (step .mentions) Truthful (unknown {3, 5}) [.setCount, .addNew 8] ∧
      ¬EveryStep (step .mentions) (fun s next => (step .mentions s next).Follows .mentions) (unknown {3, 5})
        [.setCount, .addNew 8] := by
  refine ⟨by decide, fun follows => ?_⟩
  have counted := follows.2.1.count 2 (by decide)
  exact absurd counted (by decide)

end State

end IMeDesktop.HistoryUnreadThings
