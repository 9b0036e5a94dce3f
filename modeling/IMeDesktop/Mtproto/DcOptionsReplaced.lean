import IMeDesktop.Lib.MapDifference
import IMeDesktop.Mtproto.DcOptionsRuns

/-! # A list that replaces the options

An endpoint is known by its data centre, its address and its port. Of the options with one of each the first
counts, and a list in which all of them are known is not stored.
-/

namespace IMeDesktop.Mtproto.DcOptions

open Lib MapDifference

/-- `max` in `CountOptionsDifference`. -/
def maxId : DcId := Int32.maxValue

/-- The loop of `CountOptionsDifference`, with the greatest id for the end of a map. `none` when it reads
past an end. -/
def walk : Nat → List (DcId × List Endpoint) → List (DcId × List Endpoint) → Option (List DcId)
  | 0, _, _ => some []
  | turns + 1, a, b =>
      if a = [] ∧ b = [] then some []
      else
        let aId := (a.head?.map Prod.fst).getD maxId
        let bId := (b.head?.map Prod.fst).getD maxId
        if aId < bId then (walk turns a.tail b).map (aId :: ·)
        else if bId < aId then (walk turns a b.tail).map (bId :: ·)
        else
          match a, b with
          | i :: a, j :: b => if equal i.2 j.2 then walk turns a b else (walk turns a b).map (aId :: ·)
          | _, _ => none

namespace Changed

/-- The options, and the data centres that `_changed` is fired for. -/
def processFromList (immutable : Bool) (options : DcOptions) (list : List MTPDcOption) (overwriting : Bool) :
    Option (DcOptions × List DcId) :=
  if list = [] ∨ immutable = true then some (options, [])
  else
    let data := list.reduceOption.foldl (fun data option => (ApplyOneOption data (endpointOf option)).1)
      (if overwriting then .empty else options.data)
    (walk (options.data.size + data.size) options.data.entries data.entries).map fun result =>
      (if result = [] then unlocked options else unlocked { options with data := data }, result)

def setFromList (immutable : Bool) (options : DcOptions) (list : List MTPDcOption) : Option (DcOptions × List DcId) :=
  processFromList immutable options list true

end Changed

/-! ## Tables -/

/-- Every table is made so. -/
def applied (list : List Endpoint) : EndpointsMap :=
  list.foldl (fun data endpoint => (ApplyOneOption data endpoint).1) .empty

def endpointsOf (data : EndpointsMap) (dcId : DcId) : List Endpoint := (data.find? dcId).getD []

def address (endpoint : Endpoint) : Bytes × Int32 := (endpoint.ip, endpoint.port)

/-- The first endpoint of the data centre with its address. -/
def First (list : List Endpoint) (dcId : DcId) (endpoint : Endpoint) : Prop :=
  ∃ before after, list = before ++ endpoint :: after ∧ endpoint.id = dcId ∧
    ∀ other ∈ before, other.id = dcId → address other ≠ address endpoint

/-- What is stored for a data centre. -/
def stored (data : EndpointsMap) (dcId : DcId) : Set Endpoint := {endpoint | endpoint ∈ endpointsOf data dcId}

/-- What a list has for a data centre. -/
def parsed (list : List MTPDcOption) (dcId : DcId) : Set Endpoint :=
  {endpoint | First (list.reduceOption.map endpointOf) dcId endpoint}

variable {data : EndpointsMap} {list : List Endpoint} {endpoint : Endpoint} {dcId : DcId}

theorem applied_concat (list : List Endpoint) (endpoint : Endpoint) :
    applied (list ++ [endpoint]) = (ApplyOneOption (applied list) endpoint).1 := by
  rw [applied, List.foldl_append]
  rfl

theorem find?_applyOne (data : EndpointsMap) (endpoint : Endpoint) (dcId : DcId) :
    (ApplyOneOption data endpoint).1.find? dcId =
      if dcId = endpoint.id ∧ ¬ ∃ other ∈ endpointsOf data endpoint.id, address other = address endpoint then
        some (endpointsOf data dcId ++ [endpoint])
      else data.find? dcId := by
  have known : ∀ list : List Endpoint, (list.any fun other => other.ip = endpoint.ip && other.port = endpoint.port) =
      decide (∃ other ∈ list, address other = address endpoint) := by
    intro list
    rw [Bool.eq_iff_iff, known_iff, decide_eq_true_eq]
    simp only [address, Prod.mk.injEq]
  unfold ApplyOneOption endpointsOf
  cases found : data.find? endpoint.id with
  | none =>
      dsimp only
      rw [SortedMap.find?_emplace]
      by_cases own : dcId = endpoint.id
      · subst own
        simp [found]
      · simp [own]
  | some kept =>
      dsimp only
      rw [known, Option.getD_some]
      by_cases there : ∃ other ∈ kept, address other = address endpoint
      · simp [there]
      · rw [if_neg (by simpa using there)]
        dsimp only
        rw [SortedMap.find?_set]
        by_cases own : dcId = endpoint.id
        · subst own
          simp [found, there]
        · simp [own]

theorem endpointsOf_applyOne (data : EndpointsMap) (endpoint : Endpoint) (dcId : DcId) :
    endpointsOf (ApplyOneOption data endpoint).1 dcId =
      if dcId = endpoint.id ∧ ¬ ∃ other ∈ endpointsOf data endpoint.id, address other = address endpoint then
        endpointsOf data dcId ++ [endpoint]
      else endpointsOf data dcId := by
  rw [endpointsOf, find?_applyOne]
  split
  · rfl
  · rfl

theorem first_concat {last : Endpoint} : First (list ++ [last]) dcId endpoint ↔
    First list dcId endpoint ∨
      endpoint = last ∧ last.id = dcId ∧ ∀ other ∈ list, other.id = dcId → address other ≠ address last := by
  constructor
  · rintro ⟨before, after, eq, own, fresh⟩
    cases after using List.reverseRecOn with
    | nil =>
        obtain ⟨rfl, same⟩ := List.append_inj' eq rfl
        cases same
        exact .inr ⟨rfl, own, fresh⟩
    | append_singleton after other =>
        rw [← List.cons_append, ← List.append_assoc] at eq
        obtain ⟨same, -⟩ := List.append_inj' eq rfl
        exact .inl ⟨before, after, same, own, fresh⟩
  · rintro (⟨before, after, rfl, own, fresh⟩ | ⟨rfl, own, fresh⟩)
    · exact ⟨before, after ++ [last], by simp, own, fresh⟩
    · exact ⟨list, [], rfl, own, fresh⟩

/-- Every address in a list has a first endpoint. -/
theorem first_address {place : Bytes × Int32} : (∃ endpoint, First list dcId endpoint ∧ address endpoint = place) ↔
    ∃ endpoint ∈ list, endpoint.id = dcId ∧ address endpoint = place := by
  constructor
  · rintro ⟨endpoint, ⟨before, after, rfl, own, -⟩, here⟩
    exact ⟨endpoint, by simp, own, here⟩
  · induction list using List.reverseRecOn with
    | nil => exact fun ⟨_, member, _⟩ => nomatch member
    | append_singleton list last ih =>
        rintro ⟨endpoint, member, own, here⟩
        by_cases before : ∃ endpoint ∈ list, endpoint.id = dcId ∧ address endpoint = place
        · obtain ⟨first, found, there⟩ := ih before
          exact ⟨first, first_concat.mpr (.inl found), there⟩
        · rcases List.mem_append.mp member with member | member
          · exact absurd ⟨endpoint, member, own, here⟩ before
          · obtain rfl := List.mem_singleton.mp member
            refine ⟨endpoint, first_concat.mpr (.inr ⟨rfl, own, fun other inside same address => ?_⟩), here⟩
            exact before ⟨other, inside, same, address.trans here⟩

/-- The first endpoints of a list are those of its table. -/
theorem mem_endpointsOf_applied : endpoint ∈ endpointsOf (applied list) dcId ↔ First list dcId endpoint := by
  induction list using List.reverseRecOn generalizing endpoint dcId with
  | nil => exact iff_of_false nofun fun ⟨before, after, eq, _⟩ => by simp at eq
  | append_singleton list last ih =>
      have known : (∃ other ∈ endpointsOf (applied list) last.id, address other = address last) ↔
          ∃ other ∈ list, other.id = last.id ∧ address other = address last := by
        rw [← first_address]
        exact exists_congr fun other => and_congr_left' ih
      rw [applied_concat, endpointsOf_applyOne, first_concat]
      split
      · rename_i fresh
        rw [known] at fresh
        rw [List.mem_append, ih, List.mem_singleton]
        grind
      · rename_i other
        rw [known] at other
        rw [ih]
        grind

theorem distinct_applied (list : List Endpoint) (dcId : DcId) :
    ((endpointsOf (applied list) dcId).map address).Nodup := by
  induction list using List.reverseRecOn with
  | nil => exact List.nodup_nil
  | append_singleton list last ih =>
      rw [applied_concat, endpointsOf_applyOne]
      split
      · rename_i fresh
        obtain ⟨rfl, fresh⟩ := fresh
        rw [List.map_append, List.map_singleton, List.nodup_append]
        refine ⟨ih, List.nodup_singleton _, fun first member last inside same => ?_⟩
        obtain ⟨other, kept, rfl⟩ := List.mem_map.mp member
        rw [List.mem_singleton.mp inside] at same
        exact fresh ⟨other, kept, same⟩
      · exact ih

theorem present_applied (list : List Endpoint) (dcId : DcId) : (applied list).find? dcId ≠ some [] := by
  induction list using List.reverseRecOn with
  | nil => exact nofun
  | append_singleton list last ih =>
      rw [applied_concat, find?_applyOne]
      split
      · simp
      · exact ih

/-- The table has a data centre exactly when the list does. -/
theorem contains_applied : (∃ endpoint ∈ list, endpoint.id = dcId) ↔ ∃ item ∈ (applied list).entries, item.1 = dcId := by
  constructor
  · rintro ⟨endpoint, member, own⟩
    obtain ⟨first, found, -⟩ := first_address.mpr ⟨endpoint, member, own, rfl⟩
    cases here : (applied list).find? dcId with
    | none =>
        have inside := mem_endpointsOf_applied.mpr found
        rw [endpointsOf, here] at inside
        cases inside
    | some kept => exact ⟨_, SortedMap.find?_eq_some.mp here, rfl⟩
  · rintro ⟨item, member, rfl⟩
    have found := SortedMap.find?_eq_some.mpr member
    cases kept : item.2 with
    | nil =>
        rw [kept] at found
        exact absurd found (present_applied list item.1)
    | cons first rest =>
        have inside : first ∈ endpointsOf (applied list) item.1 := by
          rw [endpointsOf, found, kept]
          exact List.mem_cons_self
        obtain ⟨before, after, rfl, own, -⟩ := mem_endpointsOf_applied.mp inside
        exact ⟨first, by simp, own⟩

/-! ## Differences -/

theorem difference_eq (turns : Nat) (a b : List (DcId × List Endpoint)) :
    difference turns a b = differences equal turns a b := by
  induction turns generalizing a b with
  | zero => cases a <;> cases b <;> rfl
  | succ turns ih =>
      cases a with
      | nil => rfl
      | cons i a =>
          cases b with
          | nil => rfl
          | cons j b =>
              rw [difference, differences, ih, ih, ih]
              by_cases less : i.1 < j.1
              · rw [if_pos less, if_pos less]
              · by_cases greater : j.1 < i.1
                · rw [if_neg less, if_neg less, if_pos greater, if_pos greater]
                · rw [if_neg less, if_neg less, if_neg greater, if_neg greater]

/-- Lists without the same address twice are equal when they have the same addresses. -/
theorem equal_iff {m n : List Endpoint} (distinctM : (m.map address).Nodup) (distinctN : (n.map address).Nodup) :
    equal m n = true ↔ Set.image address {endpoint | endpoint ∈ m} = Set.image address {endpoint | endpoint ∈ n} := by
  have found : equal m n = true ↔ m.length = n.length ∧ m.map address ⊆ n.map address := by
    unfold equal
    rw [Bool.and_eq_true, decide_eq_true_eq, List.all_eq_true, List.subset_def, List.forall_mem_map]
    simp only [known_iff, List.mem_map, address, Prod.mk.injEq]
  have image : ∀ l : List Endpoint, Set.image address {endpoint | endpoint ∈ l} = {place | place ∈ l.map address} := by
    intro l
    ext place
    simp
  rw [found, image, image]
  constructor
  · rintro ⟨size, inside⟩
    have perm : (m.map address).Perm (n.map address) :=
      (distinctM.subperm inside).perm_of_length_le (by rw [List.length_map, List.length_map, size])
    ext place
    exact perm.mem_iff
  · intro same
    have members : ∀ place, place ∈ m.map address ↔ place ∈ n.map address := fun place => Set.ext_iff.mp same place
    have perm := (List.perm_ext_iff_of_nodup distinctM distinctN).mpr members
    have size := perm.length_eq
    rw [List.length_map, List.length_map] at size
    exact ⟨size, perm.subset⟩

theorem difference_nil_left {turns : Nat} {b : List (DcId × List Endpoint)} (enough : b.length ≤ turns) :
    difference turns [] b = b.map Prod.fst := by
  cases turns with
  | zero =>
      obtain rfl : b = [] := List.length_eq_zero_iff.mp (by omega)
      rfl
  | succ turns => rfl

theorem difference_nil_right {turns : Nat} {a : List (DcId × List Endpoint)} (enough : a.length ≤ turns) :
    difference turns a [] = a.map Prod.fst := by
  cases turns with
  | zero =>
      obtain rfl : a = [] := List.length_eq_zero_iff.mp (by omega)
      rfl
  | succ turns =>
      cases a with
      | nil => rfl
      | cons i a => rfl

theorem le_maxId (id : DcId) : id ≤ maxId := Int32.le_iff_toInt_le.mpr (Int.lt_add_one_iff.mp id.toInt_lt)

theorem exists_cons_iff {i : DcId × List Endpoint} {a : List (DcId × List Endpoint)} (less : i.1 < maxId) :
    (∃ item ∈ i :: a, item.1 = maxId) ↔ ∃ item ∈ a, item.1 = maxId := by
  simp [ne_of_lt less]

/-- The walk reads past no end where the greatest id is in both maps, or in none. -/
theorem walk_eq {turns : Nat} {a b : List (DcId × List Endpoint)} (sortedA : a.Pairwise fun x y => x.1 < y.1)
    (sortedB : b.Pairwise fun x y => x.1 < y.1) (enough : a.length + b.length ≤ turns)
    (ends : (∃ item ∈ a, item.1 = maxId) ↔ ∃ item ∈ b, item.1 = maxId) :
    walk turns a b = some (difference turns a b) := by
  induction turns generalizing a b with
  | zero =>
      obtain rfl : a = [] := List.length_eq_zero_iff.mp (by omega)
      obtain rfl : b = [] := List.length_eq_zero_iff.mp (by omega)
      rfl
  | succ turns ih =>
      cases a with
      | nil =>
          cases b with
          | nil => rfl
          | cons j b =>
              simp only [List.length_cons, List.length_nil] at enough
              have less : j.1 < maxId := by
                apply lt_of_le_of_ne (le_maxId j.1)
                intro last
                obtain ⟨_, member, -⟩ := ends.mpr ⟨j, List.mem_cons_self, last⟩
                cases member
              have later := ih sortedA (List.pairwise_cons.mp sortedB).2 (by simp only [List.length_nil]; omega)
                (ends.trans (exists_cons_iff less))
              rw [difference_nil_left (by omega)] at later
              rw [walk, if_neg (by simp)]
              dsimp only [List.head?_nil, List.head?_cons, Option.map_none, Option.map_some, Option.getD_none,
                Option.getD_some]
              rw [if_neg (lt_asymm less), if_pos less, List.tail_cons, later]
              rfl
      | cons i a =>
          obtain ⟨aboveI, restA⟩ := List.pairwise_cons.mp sortedA
          cases b with
          | nil =>
              simp only [List.length_cons, List.length_nil] at enough
              have less : i.1 < maxId := by
                apply lt_of_le_of_ne (le_maxId i.1)
                intro last
                obtain ⟨_, member, -⟩ := ends.mp ⟨i, List.mem_cons_self, last⟩
                cases member
              have later := ih restA sortedB (by simp only [List.length_nil]; omega)
                ((exists_cons_iff less).symm.trans ends)
              rw [difference_nil_right (by omega)] at later
              rw [walk, if_neg (by simp)]
              dsimp only [List.head?_nil, List.head?_cons, Option.map_none, Option.map_some, Option.getD_none,
                Option.getD_some]
              rw [if_pos less, List.tail_cons, later]
              rfl
          | cons j b =>
              obtain ⟨aboveJ, restB⟩ := List.pairwise_cons.mp sortedB
              simp only [List.length_cons] at enough
              rw [walk, if_neg (by simp), difference]
              dsimp only [List.head?_cons, Option.map_some, Option.getD_some]
              by_cases less : i.1 < j.1
              · have top := lt_of_lt_of_le less (le_maxId j.1)
                have later := ih restA sortedB (by simp only [List.length_cons]; omega)
                  ((exists_cons_iff top).symm.trans ends)
                rw [if_pos less, if_pos less, List.tail_cons, later]
                rfl
              · by_cases greater : j.1 < i.1
                · have top := lt_of_lt_of_le greater (le_maxId i.1)
                  have later := ih sortedA restB (by simp only [List.length_cons]; omega)
                    (ends.trans (exists_cons_iff top))
                  rw [if_neg less, if_neg less, if_pos greater, if_pos greater, List.tail_cons, later]
                  rfl
                · have same : j.1 = i.1 := le_antisymm (not_lt.mp less) (not_lt.mp greater)
                  have ends' : (∃ item ∈ a, item.1 = maxId) ↔ ∃ item ∈ b, item.1 = maxId := by
                    by_cases last : i.1 = maxId
                    · rw [last] at aboveI
                      rw [same, last] at aboveJ
                      constructor
                      · rintro ⟨item, member, top⟩
                        exact absurd top (ne_of_gt (aboveI item member))
                      · rintro ⟨item, member, top⟩
                        exact absurd top (ne_of_gt (aboveJ item member))
                    · have top := lt_of_le_of_ne (le_maxId i.1) last
                      exact (exists_cons_iff top).symm.trans (ends.trans (exists_cons_iff (same ▸ top)))
                  have later := ih restA restB (by omega) ends'
                  rw [if_neg less, if_neg less, if_neg greater, if_neg greater, later]
                  split
                  · rfl
                  · rfl

/-! ## What is stored and what is fired -/

/-- The lookups differ exactly when the addresses do. -/
theorem differ_iff (first second : List Endpoint) (dcId : DcId) :
    Differ equal ((applied first).find? dcId) ((applied second).find? dcId) ↔
      Set.image address (stored (applied first) dcId) ≠ Set.image address (stored (applied second) dcId) := by
  have distinctM := distinct_applied first dcId
  have distinctN := distinct_applied second dcId
  have presentM := present_applied first dcId
  have presentN := present_applied second dcId
  unfold stored
  unfold endpointsOf at distinctM distinctN ⊢
  cases left : (applied first).find? dcId with
  | none =>
      rw [differ_none_left]
      cases right : (applied second).find? dcId with
      | none => simp
      | some n =>
          rw [right] at presentN
          have nonempty : n ≠ [] := fun empty => presentN (by rw [empty])
          obtain ⟨other, member⟩ := List.exists_mem_of_ne_nil n nonempty
          refine iff_of_true rfl fun same => ?_
          have inside : address other ∈ Set.image address {endpoint | endpoint ∈ (some n).getD []} := ⟨other, member, rfl⟩
          rw [← same] at inside
          obtain ⟨_, nothing, -⟩ := inside
          cases nothing
  | some m =>
      rw [left] at presentM distinctM
      cases right : (applied second).find? dcId with
      | none =>
          rw [differ_none_right]
          have nonempty : m ≠ [] := fun empty => presentM (by rw [empty])
          obtain ⟨other, member⟩ := List.exists_mem_of_ne_nil m nonempty
          refine iff_of_true rfl fun same => ?_
          have inside : address other ∈ Set.image address {endpoint | endpoint ∈ (some m).getD []} := ⟨other, member, rfl⟩
          rw [same] at inside
          obtain ⟨_, nothing, -⟩ := inside
          cases nothing
      | some n =>
          rw [right] at distinctN
          rw [Option.getD_some] at distinctM distinctN
          rw [differ_some, ← Bool.not_eq_true, equal_iff distinctM distinctN]
          rfl

/-- The walk over two tables reads past no end. -/
theorem walk_applied {first second : List Endpoint}
    (ends : (∃ endpoint ∈ first, endpoint.id = maxId) ↔ ∃ endpoint ∈ second, endpoint.id = maxId) :
    walk ((applied first).size + (applied second).size) (applied first).entries (applied second).entries =
      some (CountOptionsDifference (applied first) (applied second)) := by
  apply walk_eq (applied first).sorted (applied second).sorted le_rfl
  rw [← contains_applied, ← contains_applied]
  exact ends

/-- The data centres whose addresses differ are found. -/
theorem mem_countOptionsDifference (first second : List Endpoint) (dcId : DcId) :
    dcId ∈ CountOptionsDifference (applied first) (applied second) ↔
      Set.image address (stored (applied first) dcId) ≠ Set.image address (stored (applied second) dcId) := by
  have enough : (applied first).entries.length + (applied second).entries.length ≤
      (applied first).size + (applied second).size := le_rfl
  rw [CountOptionsDifference, difference_eq, mem_differences (applied first).sorted (applied second).sorted enough]
  exact differ_iff first second dcId

theorem nodup_countOptionsDifference (a b : EndpointsMap) : (CountOptionsDifference a b).Nodup := by
  have ordered : (differences equal (a.size + b.size) a.entries b.entries).Pairwise (· < ·) :=
    sorted_differences a.sorted b.sorted le_rfl
  rw [CountOptionsDifference, difference_eq]
  exact ordered.imp ne_of_lt

/-- With an empty list, or options that are not to be changed, nothing happens. Otherwise `_changed` is fired for the
data centres whose addresses differ. When there are any the list is stored as it is, with flags and secrets,
and else all stays. -/
theorem setFromList_replaces {options : DcOptions} {table : List Endpoint} {list : List MTPDcOption} (immutable : Bool)
    (built : options.data = applied table)
    (ends : (∃ endpoint ∈ table, endpoint.id = maxId) ↔ ∃ option ∈ list.reduceOption, option.vid = maxId) :
    if list = [] ∨ immutable = true then Changed.setFromList immutable options list = some (options, [])
    else ∃ replaced fired, Changed.setFromList immutable options list = some (replaced, fired) ∧ fired.Nodup ∧
      (∀ dcId, dcId ∈ fired ↔
        Set.image address (stored options.data dcId) ≠ Set.image address (parsed list dcId)) ∧
      (∀ dcId, Set.image address (stored replaced.data dcId) = Set.image address (parsed list dcId)) ∧
      if fired = [] then replaced.data = options.data else ∀ dcId, stored replaced.data dcId = parsed list dcId := by
  by_cases guarded : list = [] ∨ immutable = true
  · rw [if_pos guarded]
    exact if_pos guarded
  · have data : list.reduceOption.foldl (fun data option => (ApplyOneOption data (endpointOf option)).1)
        (if true then (.empty : EndpointsMap) else options.data) = applied (list.reduceOption.map endpointOf) := by
      rw [applied, List.foldl_map]
      rfl
    have same : ∀ dcId, stored (applied (list.reduceOption.map endpointOf)) dcId = parsed list dcId :=
      fun dcId => Set.ext fun endpoint => mem_endpointsOf_applied
    have walked := @walk_applied table (list.reduceOption.map endpointOf) (ends.trans (by simp [endpointOf]))
    have exactly := mem_countOptionsDifference table (list.reduceOption.map endpointOf)
    have once := nodup_countOptionsDifference options.data (applied (list.reduceOption.map endpointOf))
    simp only [same, ← built] at walked exactly
    generalize CountOptionsDifference options.data (applied (list.reduceOption.map endpointOf)) = fired
      at walked exactly once
    have result : Changed.setFromList immutable options list = some (if fired = [] then unlocked options
        else unlocked { options with data := applied (list.reduceOption.map endpointOf) }, fired) := by
      rw [Changed.setFromList, Changed.processFromList, if_neg guarded]
      dsimp only
      rw [data, walked]
      rfl
    rw [if_neg guarded]
    refine ⟨_, fired, result, once, exactly, ?_⟩
    by_cases none : fired = []
    · subst none
      rw [if_pos rfl, if_pos rfl]
      exact ⟨fun dcId => by_contra fun differ => absurd ((exactly dcId).mpr differ) List.not_mem_nil, rfl⟩
    · rw [if_neg none, if_neg none]
      exact ⟨fun dcId => congrArg _ (same dcId), same⟩

/-- Where options may be changed, they change as was said of lists before. -/
theorem changed_setFromList {options : DcOptions} {table : List Endpoint} {list : List MTPDcOption}
    (built : options.data = applied table)
    (ends : (∃ endpoint ∈ table, endpoint.id = maxId) ↔ ∃ option ∈ list.reduceOption, option.vid = maxId) :
    (Changed.setFromList false options list).map Prod.fst = some (options.setFromList list) := by
  have walked := @walk_applied table (list.reduceOption.map endpointOf) (ends.trans (by simp [endpointOf]))
  rw [← built, applied, List.foldl_map] at walked
  unfold Changed.setFromList Changed.processFromList DcOptions.setFromList DcOptions.processFromList
  by_cases empty : list = []
  · rw [if_pos empty, if_pos (.inl empty)]
    rfl
  · rw [if_neg empty, if_neg (by simp [empty])]
    dsimp only
    rw [if_pos rfl, walked]
    rfl

/-- Every state the server brings about has a table that is made so. -/
theorem built_of_reached (code : KeyCode) (environment : Environment) (steps : List Step) :
    ∃ table, (run code (new environment) steps).data = applied table := by
  have start : SoundOptions code (new environment) := soundOptions_new environment
  have sound := start.run steps
  exact ⟨_, (applied_entries sound.data).symm⟩

/-! ## A new secret -/

def secretless : MTPDdcOption where
  vid := 2
  vflags := 0
  vip_address := ⟨[0x31], by decide⟩
  vport := 443
  vsecret := none

def newSecret : MTPDdcOption :=
  { secretless with vflags := 4, vsecret := some ⟨List.replicate 16 0x61, by decide⟩ }

def oldOptions : DcOptions := { environment := .production, data := applied [endpointOf secretless] }

theorem other_port_replaces : ∃ replaced fired,
    Changed.setFromList false oldOptions [some { newSecret with vport := 80 }] = some (replaced, fired) ∧
      ∀ dcId, Set.image address (stored replaced.data dcId) =
        Set.image address (parsed [some { newSecret with vport := 80 }] dcId) := by
  have result := @setFromList_replaces oldOptions [endpointOf secretless] [some { newSecret with vport := 80 }] false
    rfl (by decide)
  rw [if_neg (by simp)] at result
  obtain ⟨replaced, fired, eq, -, -, all, -⟩ := result
  exact ⟨replaced, fired, eq, all⟩

/-- A list that only brings a secret and a flag is not stored, and an empty list empties nothing. -/
theorem new_secret_dropped :
    Changed.setFromList false oldOptions [some newSecret] = some (unlocked oldOptions, []) ∧
      stored (unlocked oldOptions).data 2 ≠ parsed [some newSecret] 2 ∧
      Changed.setFromList false oldOptions [] = some (oldOptions, []) ∧ stored oldOptions.data 2 ≠ parsed [] 2 := by
  have old : endpointOf secretless ∈ stored oldOptions.data 2 := List.mem_cons_self
  have listed : endpointOf newSecret ∈ parsed [some newSecret] 2 := ⟨[], [], rfl, rfl, nofun⟩
  refine ⟨rfl, ?_, rfl, ?_⟩
  · intro same
    have there : endpointOf newSecret ∈ stored (unlocked oldOptions).data 2 := same ▸ listed
    exact absurd (List.mem_singleton.mp there) (by decide)
  · intro same
    have there : endpointOf secretless ∈ parsed [] 2 := same ▸ old
    obtain ⟨before, after, eq, -⟩ := there
    simp at eq

end IMeDesktop.Mtproto.DcOptions
