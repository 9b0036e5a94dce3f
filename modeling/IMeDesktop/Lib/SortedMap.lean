import Mathlib

/-! # Maps kept as a list of entries sorted by key

The representation behind a flat map: one contiguous run of entries, strictly
increasing in the key. Sortedness is a field, so every operation has to rebuild
it and no client ever assumes it. Lookup, insertion and removal are described by
membership of entries; iteration order is the order of the list.
-/

namespace IMeDesktop.Lib

/-- Entries in strictly increasing key order. -/
structure SortedMap (κ : Type u) (ν : Type v) [LinearOrder κ] where
  entries : List (κ × ν)
  sorted : entries.Pairwise (fun a b => a.1 < b.1)

namespace SortedMap

variable {κ : Type u} {ν : Type v} [LinearOrder κ]

@[ext]
theorem ext {m n : SortedMap κ ν} (h : m.entries = n.entries) : m = n := by
  cases m
  cases n
  simp_all

instance [DecidableEq ν] : DecidableEq (SortedMap κ ν) := fun m n =>
  decidable_of_iff (m.entries = n.entries) ⟨ext, fun h => h ▸ rfl⟩

def empty : SortedMap κ ν := ⟨[], List.Pairwise.nil⟩

instance : Inhabited (SortedMap κ ν) := ⟨empty⟩

@[simp]
theorem entries_empty : (empty : SortedMap κ ν).entries = [] := rfl

def size (m : SortedMap κ ν) : Nat := m.entries.length

def isEmpty (m : SortedMap κ ν) : Bool := m.entries.isEmpty

@[simp]
theorem isEmpty_iff (m : SortedMap κ ν) : m.isEmpty = true ↔ m.entries = [] := by
  simp [isEmpty]

/-- Keys determine entries, since no key occurs twice. -/
theorem entry_unique (m : SortedMap κ ν) {a b : κ × ν} (ha : a ∈ m.entries)
    (hb : b ∈ m.entries) (same : a.1 = b.1) : a = b := by
  have distinct : (m.entries.map Prod.fst).Nodup :=
    List.pairwise_map.mpr (m.sorted.imp (fun h => ne_of_lt h))
  exact List.inj_on_of_nodup_map distinct ha hb same

theorem nodup_keys (m : SortedMap κ ν) : (m.entries.map Prod.fst).Nodup :=
  List.pairwise_map.mpr (m.sorted.imp fun less => ne_of_lt less)

theorem nodup (m : SortedMap κ ν) : m.entries.Nodup :=
  m.sorted.imp fun h same => absurd (congrArg Prod.fst same) (ne_of_lt h)

/-! ## Lookup -/

/-- The value stored under a key. -/
def find? (m : SortedMap κ ν) (k : κ) : Option ν :=
  (m.entries.find? (fun e => decide (e.1 = k))).map Prod.snd

def contains (m : SortedMap κ ν) (k : κ) : Bool := (m.find? k).isSome

theorem find?_eq_some {m : SortedMap κ ν} {k : κ} {v : ν} :
    m.find? k = some v ↔ (k, v) ∈ m.entries := by
  constructor
  · intro found
    obtain ⟨e, located, rfl⟩ := Option.map_eq_some_iff.mp found
    have key : e.1 = k := by simpa using List.find?_some located
    exact key ▸ List.mem_of_find?_eq_some located
  · intro member
    cases located : m.entries.find? (fun e => decide (e.1 = k)) with
    | none => exact absurd (List.find?_eq_none.mp located _ member) (by simp)
    | some e =>
        have key : e.1 = k := by simpa using List.find?_some located
        have same := m.entry_unique (List.mem_of_find?_eq_some located) member key
        simp only [find?, located, same, Option.map_some]

theorem find?_eq_none {m : SortedMap κ ν} {k : κ} :
    m.find? k = none ↔ ∀ v, (k, v) ∉ m.entries := by
  rw [Option.eq_none_iff_forall_ne_some]
  exact forall_congr' fun v => not_congr find?_eq_some

theorem contains_iff {m : SortedMap κ ν} {k : κ} :
    m.contains k = true ↔ ∃ v, (k, v) ∈ m.entries := by
  rw [contains, Option.isSome_iff_exists]
  exact exists_congr fun v => find?_eq_some

@[simp]
theorem find?_empty (k : κ) : (empty : SortedMap κ ν).find? k = none := rfl

/-- Equal lookups make equal maps. -/
theorem ext_find? {m n : SortedMap κ ν} (h : ∀ k, m.find? k = n.find? k) : m = n := by
  have members : ∀ e, e ∈ m.entries ↔ e ∈ n.entries := by
    rintro ⟨k, v⟩
    rw [← find?_eq_some, ← find?_eq_some, h k]
  have perm := (List.perm_ext_iff_of_nodup m.nodup n.nodup).mpr members
  refine ext (perm.eq_of_pairwise (fun a b _ _ hab hba => absurd hab (lt_asymm hba)) m.sorted n.sorted)

/-! ## Insertion of a missing key -/

/-- Insert at the sorted position, leaving an entry that already has the key. -/
def insertNew (k : κ) (v : ν) : List (κ × ν) → List (κ × ν)
  | [] => [(k, v)]
  | e :: rest =>
      if k < e.1 then (k, v) :: e :: rest
      else if e.1 < k then e :: insertNew k v rest
      else e :: rest

theorem mem_insertNew {k : κ} {v : ν} {e : κ × ν} {l : List (κ × ν)}
    (sorted : l.Pairwise (fun a b => a.1 < b.1)) :
    e ∈ insertNew k v l ↔ e ∈ l ∨ (e = (k, v) ∧ ∀ a ∈ l, a.1 ≠ k) := by
  induction l with
  | nil => simp [insertNew]
  | cons a rest ih =>
      obtain ⟨above, tail⟩ := List.pairwise_cons.mp sorted
      rw [insertNew]
      split
      · rename_i before
        have missing : ∀ b ∈ a :: rest, b.1 ≠ k := by
          intro b member
          rcases List.mem_cons.mp member with rfl | member
          · exact ne_of_gt before
          · exact ne_of_gt (before.trans (above b member))
        constructor
        · intro member
          rcases List.mem_cons.mp member with rfl | member
          · exact .inr ⟨rfl, missing⟩
          · exact .inl member
        · rintro (member | ⟨rfl, -⟩)
          · exact List.mem_cons_of_mem _ member
          · exact List.mem_cons_self
      · split
        · rename_i after
          simp only [List.mem_cons, ih tail, forall_eq_or_imp]
          have : a.1 ≠ k := ne_of_lt after
          tauto
        · rename_i notBefore notAfter
          have same : a.1 = k := le_antisymm (not_lt.mp notBefore) (not_lt.mp notAfter)
          simp [same]

theorem insertNew_sorted {k : κ} {v : ν} {l : List (κ × ν)}
    (sorted : l.Pairwise (fun a b => a.1 < b.1)) :
    (insertNew k v l).Pairwise (fun a b => a.1 < b.1) := by
  induction l with
  | nil => simp [insertNew]
  | cons a rest ih =>
      obtain ⟨above, tail⟩ := List.pairwise_cons.mp sorted
      rw [insertNew]
      split
      · rename_i before
        refine List.pairwise_cons.mpr ⟨?_, sorted⟩
        intro b member
        rcases List.mem_cons.mp member with rfl | member
        · exact before
        · exact before.trans (above b member)
      · split
        · rename_i after
          refine List.pairwise_cons.mpr ⟨?_, ih tail⟩
          intro b member
          rcases (mem_insertNew tail).mp member with member | ⟨rfl, -⟩
          · exact above b member
          · exact after
        · exact sorted

/-- Insert unless the key is present; the stored value wins. -/
def emplace (m : SortedMap κ ν) (k : κ) (v : ν) : SortedMap κ ν :=
  ⟨insertNew k v m.entries, insertNew_sorted m.sorted⟩

theorem mem_emplace {m : SortedMap κ ν} {k : κ} {v : ν} {e : κ × ν} :
    e ∈ (m.emplace k v).entries ↔ e ∈ m.entries ∨ (e = (k, v) ∧ m.find? k = none) := by
  rw [emplace, mem_insertNew m.sorted, find?_eq_none]
  refine or_congr_right (and_congr_right fun _ => ⟨fun h w member => h _ member rfl, ?_⟩)
  rintro h ⟨j, w⟩ member rfl
  exact h w member

theorem find?_emplace (m : SortedMap κ ν) (k j : κ) (v : ν) :
    (m.emplace k v).find? j = if j = k then some ((m.find? k).getD v) else m.find? j := by
  ext w
  rw [find?_eq_some, mem_emplace, ← find?_eq_some]
  split
  · rename_i same
    subst same
    cases m.find? j <;> simp [eq_comm]
  · rename_i different
    simp [different]

theorem contains_emplace {m : SortedMap κ ν} {k j : κ} {v : ν} :
    (m.emplace k v).contains j = true ↔ m.contains j = true ∨ j = k := by
  unfold contains
  rw [find?_emplace]
  split_ifs with same <;> simp [same]

theorem emplace_perm {m : SortedMap κ ν} {k : κ} (v : ν) (missing : m.find? k = none) :
    (m.emplace k v).entries.Perm ((k, v) :: m.entries) := by
  have absent : (k, v) ∉ m.entries := find?_eq_none.mp missing v
  refine (List.perm_ext_iff_of_nodup (nodup _) (List.nodup_cons.mpr ⟨absent, m.nodup⟩)).mpr fun e => ?_
  rw [mem_emplace, List.mem_cons]
  simp only [missing, and_true, or_comm]

theorem countP_emplace {m : SortedMap κ ν} {k : κ} {v : ν} (missing : m.find? k = none) (p : κ × ν → Bool) :
    (m.emplace k v).entries.countP p = m.entries.countP p + if p (k, v) then 1 else 0 := by
  rw [(emplace_perm v missing).countP_eq, List.countP_cons]

theorem emplace_of_contains {m : SortedMap κ ν} {k : κ} (v : ν) (present : m.contains k = true) :
    m.emplace k v = m := by
  obtain ⟨w, found⟩ := Option.isSome_iff_exists.mp present
  apply ext_find?
  intro j
  rw [find?_emplace]
  split_ifs with same
  · rw [same, found, Option.getD_some]
  · rfl

/-- A key is not among those above it. -/
theorem countP_above_emplace (m : SortedMap κ ν) (k : κ) (v : ν) :
    (m.emplace k v).entries.countP (fun e => decide (k < e.1)) =
      m.entries.countP (fun e => decide (k < e.1)) := by
  cases present : m.contains k with
  | true => rw [emplace_of_contains v present]
  | false =>
      have missing : m.find? k = none := by simpa [contains] using present
      rw [(emplace_perm v missing).countP_eq, List.countP_cons_of_neg]
      simp

theorem entries_emplace_above {m : SortedMap κ ν} {k : κ} {v : ν} (above : ∀ e ∈ m.entries, e.1 < k) :
    (m.emplace k v).entries = m.entries ++ [(k, v)] := by
  rw [emplace]
  dsimp only
  generalize m.entries = l at above
  induction l with
  | nil => rfl
  | cons e rest ih =>
      have below := above e List.mem_cons_self
      rw [insertNew, if_neg (lt_asymm below), if_pos below, ih fun a member => above a (List.mem_cons_of_mem _ member)]
      rfl

theorem entries_foldl_emplace {m : SortedMap κ ν} {l : List (κ × ν)}
    (sorted : (m.entries ++ l).Pairwise fun a b => a.1 < b.1) :
    (l.foldl (fun m e => m.emplace e.1 e.2) m).entries = m.entries ++ l := by
  induction l generalizing m with
  | nil => exact (List.append_nil _).symm
  | cons e rest ih =>
      have above : ∀ a ∈ m.entries, a.1 < e.1 :=
        fun a member => (List.pairwise_append.mp sorted).2.2 a member e List.mem_cons_self
      have next := @entries_emplace_above _ _ _ m e.1 e.2 above
      rw [List.foldl_cons, ih (by rw [next]; simpa using sorted), next]
      simp

/-- A map is made anew from its entries. -/
theorem foldl_emplace_entries (m : SortedMap κ ν) :
    m.entries.foldl (fun m e => m.emplace e.1 e.2) empty = m := by
  apply ext
  rw [entries_foldl_emplace (by simpa using m.sorted)]
  rfl

/-! ## Removal -/

def erase (m : SortedMap κ ν) (k : κ) : SortedMap κ ν :=
  ⟨m.entries.filter (fun e => decide (e.1 ≠ k)), m.sorted.filter _⟩

theorem mem_erase {m : SortedMap κ ν} {k : κ} {e : κ × ν} :
    e ∈ (m.erase k).entries ↔ e ∈ m.entries ∧ e.1 ≠ k := by
  simp [erase]

theorem find?_erase (m : SortedMap κ ν) (k j : κ) :
    (m.erase k).find? j = if j = k then none else m.find? j := by
  ext w
  rw [find?_eq_some, mem_erase, ← find?_eq_some]
  split <;> simp_all

theorem contains_erase (m : SortedMap κ ν) (k j : κ) :
    (m.erase k).contains j = (decide (j ≠ k) && m.contains j) := by
  unfold contains
  rw [find?_erase]
  split_ifs with same
  · simp [same]
  · simp [same]

theorem erase_of_missing {m : SortedMap κ ν} {k : κ} (missing : m.find? k = none) : m.erase k = m := by
  apply ext_find?
  intro j
  rw [find?_erase]
  split_ifs with same
  · rw [same, missing]
  · rfl

/-- The entries whose keys the other map does not have. -/
def without (m n : SortedMap κ ν) : SortedMap κ ν := ⟨m.entries.filter fun e => !n.contains e.1, m.sorted.filter _⟩

theorem foldl_erase (m n : SortedMap κ ν) : n.entries.foldl (fun m e => m.erase e.1) m = m.without n := by
  have erased : ∀ (l : List (κ × ν)) (m : SortedMap κ ν), (l.foldl (fun m e => m.erase e.1) m).entries =
      m.entries.filter fun e => !l.any (·.1 = e.1) := by
    intro l
    induction l with
    | nil => simp
    | cons e rest ih =>
        intro m
        rw [List.foldl_cons, ih, erase, List.filter_filter]
        apply List.filter_congr
        intro a member
        simp [Bool.and_comm, eq_comm]
  apply ext
  rw [erased]
  apply List.filter_congr
  intro e member
  rw [contains, find?, Option.isSome_map, List.isSome_find?]

/-- What is left when an entry is taken out. -/
theorem perm_erase {m : SortedMap κ ν} {k : κ} {v : ν} (found : m.find? k = some v) :
    m.entries.Perm ((k, v) :: (m.erase k).entries) := by
  have gone : (k, v) ∉ (m.erase k).entries := fun member => (mem_erase.mp member).2 rfl
  refine (List.perm_ext_iff_of_nodup m.nodup (List.nodup_cons.mpr ⟨gone, nodup _⟩)).mpr fun e => ?_
  rw [List.mem_cons, mem_erase]
  constructor
  · intro member
    by_cases same : e.1 = k
    · exact .inl (m.entry_unique member (find?_eq_some.mp found) same)
    · exact .inr ⟨member, same⟩
  · rintro (rfl | ⟨member, -⟩)
    · exact find?_eq_some.mp found
    · exact member

theorem countP_erase {m : SortedMap κ ν} {k : κ} {v : ν} (found : m.find? k = some v) (p : κ × ν → Bool) :
    m.entries.countP p = (m.erase k).entries.countP p + if p (k, v) then 1 else 0 := by
  rw [(perm_erase found).countP_eq, List.countP_cons]

theorem size_erase_le (m : SortedMap κ ν) (k : κ) : (m.erase k).size ≤ m.size := List.length_filter_le _ _

theorem size_emplace_le (m : SortedMap κ ν) (k : κ) (v : ν) : (m.emplace k v).size ≤ m.size + 1 := by
  cases missing : m.find? k with
  | none => exact (emplace_perm v missing).length_eq.le
  | some w =>
      have present : m.contains k = true := by simp [contains, missing]
      rw [emplace_of_contains v present]
      exact Nat.le_succ _

/-- Assign to a key, `operator[]`. -/
def set (m : SortedMap κ ν) (k : κ) (v : ν) : SortedMap κ ν := (m.erase k).emplace k v

theorem find?_set (m : SortedMap κ ν) (k j : κ) (v : ν) :
    (m.set k v).find? j = if j = k then some v else m.find? j := by
  rw [set, find?_emplace, find?_erase, find?_erase, if_pos rfl]
  split_ifs <;> rfl

theorem contains_set (m : SortedMap κ ν) (k j : κ) (v : ν) :
    ((m.erase k).emplace k v).contains j = (decide (j = k) || m.contains j) := by
  have found := find?_set m k j v
  unfold contains
  rw [show ((m.erase k).emplace k v).find? j = _ from found]
  split_ifs with same
  · simp [same]
  · simp [same]

theorem mem_set {m : SortedMap κ ν} {k : κ} {v : ν} {e : κ × ν} :
    e ∈ (m.set k v).entries ↔ e = (k, v) ∨ (e ∈ m.entries ∧ e.1 ≠ k) := by
  rw [set, mem_emplace, mem_erase, find?_erase, if_pos rfl, and_iff_left rfl, or_comm]

/-- Drop the entry with the smallest key, `erase(begin())`. -/
def eraseBegin (m : SortedMap κ ν) : SortedMap κ ν :=
  ⟨m.entries.tail, m.sorted.sublist (List.tail_sublist _)⟩

/-- Repeated `erase(begin())`. -/
def eraseFirst (m : SortedMap κ ν) : Nat → SortedMap κ ν
  | 0 => m
  | n + 1 => m.eraseBegin.eraseFirst n

theorem entries_eraseFirst (m : SortedMap κ ν) (n : Nat) :
    (m.eraseFirst n).entries = m.entries.drop n := by
  induction n generalizing m with
  | zero => rfl
  | succ n ih => rw [eraseFirst, ih, eraseBegin, List.drop_tail]

private theorem mem_drop_largest {l : List (κ × ν)}
    (sorted : l.Pairwise (fun a b => a.1 < b.1)) {e : κ × ν} (member : e ∈ l) (limit : Nat) :
    e ∈ l.drop (l.length - limit) ↔ l.countP (fun a => decide (e.1 < a.1)) < limit := by
  induction l with
  | nil => simp at member
  | cons a rest ih =>
      obtain ⟨above, tail⟩ := List.pairwise_cons.mp sorted
      have bounded := List.countP_le_length (p := fun b => decide (e.1 < b.1)) (l := rest)
      by_cases small : rest.length < limit
      · have all : (a :: rest).length - limit = 0 := by simp only [List.length_cons]; omega
        have notFirst : e = a ∨ e ∈ rest := List.mem_cons.mp member
        rw [all, List.drop_zero]
        refine iff_of_true member ?_
        rcases notFirst with rfl | inside
        · simp only [List.countP_cons, lt_self_iff_false, decide_false, Bool.false_eq_true, if_false]
          omega
        · have := above e inside
          simp only [List.countP_cons, not_lt_of_gt this, decide_false, Bool.false_eq_true, if_false]
          omega
      · have cut : (a :: rest).length - limit = (rest.length - limit) + 1 := by
          simp only [List.length_cons]; omega
        rw [cut, List.drop_succ_cons]
        rcases List.mem_cons.mp member with rfl | inside
        · -- the smallest entry goes: all the others are larger
          have every : rest.countP (fun b => decide (e.1 < b.1)) = rest.length :=
            List.countP_eq_length.mpr fun b hb => by simpa using above b hb
          have gone : e ∉ rest.drop (rest.length - limit) := fun h =>
            absurd (above e (List.mem_of_mem_drop h)) (lt_irrefl _)
          simp only [gone, List.countP_cons, every, lt_self_iff_false, decide_false,
            Bool.false_eq_true, if_false, false_iff]
          omega
        · have later := above e inside
          simpa only [List.countP_cons, not_lt_of_gt later, decide_false, Bool.false_eq_true,
            if_false, Nat.add_zero] using ih tail inside

/-- Trimming to `limit` entries from the front keeps exactly the entries with
    fewer than `limit` larger keys. -/
theorem mem_eraseFirst_excess {m : SortedMap κ ν} {e : κ × ν} (limit : Nat) :
    e ∈ (m.eraseFirst (m.size - limit)).entries ↔
      e ∈ m.entries ∧ m.entries.countP (fun a => decide (e.1 < a.1)) < limit := by
  rw [entries_eraseFirst]
  constructor
  · intro kept
    have member := List.mem_of_mem_drop kept
    exact ⟨member, (mem_drop_largest m.sorted member limit).mp kept⟩
  · rintro ⟨member, few⟩
    exact (mem_drop_largest m.sorted member limit).mpr few

end SortedMap

end IMeDesktop.Lib
