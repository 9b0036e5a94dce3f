import IMeDesktop.Lib.SortedMap

/-! # Where two maps differ

One loop goes along two maps in the order of their keys. The values under one key may be compared in any
way.
-/

namespace IMeDesktop.Lib.MapDifference

variable {κ ν : Type} [LinearOrder κ]

/-- What there may be under one key. -/
inductive Differ (equal : ν → ν → Bool) : Option ν → Option ν → Prop where
  | removed (v : ν) : Differ equal (some v) none
  | added (w : ν) : Differ equal none (some w)
  | changed {v w : ν} (unequal : equal v w = false) : Differ equal (some v) (some w)

/-- The loop, with the most turns it can take. -/
def differences (equal : ν → ν → Bool) : Nat → List (κ × ν) → List (κ × ν) → List κ
  | 0, _, _ => []
  | _ + 1, [], n => n.map Prod.fst
  | _ + 1, m, [] => m.map Prod.fst
  | turns + 1, i :: m, j :: n =>
      if i.1 < j.1 then i.1 :: differences equal turns m (j :: n)
      else if j.1 < i.1 then j.1 :: differences equal turns (i :: m) n
      else if equal i.2 j.2 then differences equal turns m n
      else i.1 :: differences equal turns m n

def value (list : List (κ × ν)) (k : κ) : Option ν := (list.find? fun e => decide (e.1 = k)).map Prod.snd

variable {equal : ν → ν → Bool} {turns : Nat} {m n : List (κ × ν)} {k : κ}

theorem value_cons (e : κ × ν) (list : List (κ × ν)) (k : κ) :
    value (e :: list) k = if e.1 = k then some e.2 else value list k := by
  by_cases here : e.1 = k
  · simp [value, here]
  · simp [value, here]

theorem value_below {list : List (κ × ν)} (above : ∀ e ∈ list, k < e.1) : value list k = none := by
  have missing : (list.find? fun e => decide (e.1 = k)) = none := by
    apply List.find?_eq_none.mpr
    intro e member
    simpa using ne_of_gt (above e member)
  rw [value, missing, Option.map_none]

theorem key_of_value {list : List (κ × ν)} {v : ν} (found : value list k = some v) : (k, v) ∈ list := by
  obtain ⟨e, located, rfl⟩ := Option.map_eq_some_iff.mp found
  have same : e.1 = k := by simpa using List.find?_some located
  rw [← same]
  exact List.mem_of_find?_eq_some located

theorem value_isSome {list : List (κ × ν)} : (value list k).isSome = true ↔ k ∈ list.map Prod.fst := by
  simp [value]

theorem differ_none_left (equal : ν → ν → Bool) (w : Option ν) : Differ equal none w ↔ w.isSome = true := by
  cases w with
  | none => exact iff_of_false nofun Bool.false_ne_true
  | some w => exact iff_of_true (.added w) rfl

theorem differ_none_right (equal : ν → ν → Bool) (v : Option ν) : Differ equal v none ↔ v.isSome = true := by
  cases v with
  | none => exact iff_of_false nofun Bool.false_ne_true
  | some v => exact iff_of_true (.removed v) rfl

theorem differ_some (v w : ν) : Differ equal (some v) (some w) ↔ equal v w = false := by
  constructor
  · intro differ
    cases differ with
    | changed unequal => exact unequal
  · exact .changed

/-- Just the keys where the maps differ are found. -/
theorem mem_differences (sortedM : m.Pairwise fun a b => a.1 < b.1) (sortedN : n.Pairwise fun a b => a.1 < b.1)
    (enough : m.length + n.length ≤ turns) :
    k ∈ differences equal turns m n ↔ Differ equal (value m k) (value n k) := by
  induction turns generalizing m n with
  | zero =>
      obtain rfl : m = [] := List.length_eq_zero_iff.mp (by omega)
      obtain rfl : n = [] := List.length_eq_zero_iff.mp (by omega)
      exact iff_of_false nofun nofun
  | succ turns ih =>
      cases m with
      | nil =>
          rw [differences, ← value_isSome]
          exact (differ_none_left ..).symm
      | cons i m =>
          cases n with
          | nil =>
              rw [differences, ← value_isSome]
              · exact (differ_none_right ..).symm
              · exact nofun
          | cons j n =>
              obtain ⟨aboveI, restM⟩ := List.pairwise_cons.mp sortedM
              obtain ⟨aboveJ, restN⟩ := List.pairwise_cons.mp sortedN
              simp only [List.length_cons] at enough
              rw [differences]
              by_cases less : i.1 < j.1
              · have belowN : value (j :: n) i.1 = none := value_below
                  (List.forall_mem_cons.mpr ⟨less, fun e member => lt_trans less (aboveJ e member)⟩)
                rw [if_pos less, List.mem_cons, ih restM sortedN (by simp only [List.length_cons]; omega), value_cons i m]
                by_cases here : i.1 = k
                · subst here
                  rw [if_pos rfl, belowN]
                  exact iff_of_true (.inl rfl) (.removed _)
                · rw [if_neg here]
                  exact or_iff_right (Ne.symm here)
              · by_cases greater : j.1 < i.1
                · have belowM : value (i :: m) j.1 = none := value_below
                    (List.forall_mem_cons.mpr ⟨greater, fun e member => lt_trans greater (aboveI e member)⟩)
                  rw [if_neg less, if_pos greater, List.mem_cons,
                    ih sortedM restN (by simp only [List.length_cons]; omega), value_cons j n]
                  by_cases here : j.1 = k
                  · subst here
                    rw [if_pos rfl, belowM]
                    exact iff_of_true (.inl rfl) (.added _)
                  · rw [if_neg here]
                    exact or_iff_right (Ne.symm here)
                · have same : j.1 = i.1 := le_antisymm (not_lt.mp less) (not_lt.mp greater)
                  have later := ih restM restN (by omega)
                  rw [if_neg less, if_neg greater, value_cons, value_cons, same]
                  by_cases here : i.1 = k
                  · subst here
                    rw [same] at aboveJ
                    rw [value_below aboveI, value_below aboveJ] at later
                    have missing : i.1 ∉ differences equal turns m n := fun member => nomatch later.mp member
                    rw [if_pos rfl, if_pos rfl, differ_some]
                    split
                    · rename_i eq
                      exact iff_of_false missing (by simp [eq])
                    · rename_i unequal
                      exact iff_of_true List.mem_cons_self (Bool.eq_false_iff.mpr unequal)
                  · rw [if_neg here, if_neg here]
                    split
                    · exact later
                    · rw [List.mem_cons, later]
                      exact or_iff_right (Ne.symm here)

theorem above_differences (sortedM : m.Pairwise fun a b => a.1 < b.1) (sortedN : n.Pairwise fun a b => a.1 < b.1)
    (enough : m.length + n.length ≤ turns) {bound : κ} (aboveM : ∀ e ∈ m, bound < e.1)
    (aboveN : ∀ e ∈ n, bound < e.1) : ∀ k ∈ differences equal turns m n, bound < k := by
  intro k member
  have differ := (mem_differences sortedM sortedN enough).mp member
  cases left : value m k with
  | some v => exact aboveM _ (key_of_value left)
  | none =>
      rw [left, differ_none_left] at differ
      obtain ⟨w, right⟩ := Option.isSome_iff_exists.mp differ
      exact aboveN _ (key_of_value right)

/-- No key is found twice. -/
theorem sorted_differences (sortedM : m.Pairwise fun a b => a.1 < b.1) (sortedN : n.Pairwise fun a b => a.1 < b.1)
    (enough : m.length + n.length ≤ turns) : (differences equal turns m n).Pairwise (· < ·) := by
  induction turns generalizing m n with
  | zero => exact List.Pairwise.nil
  | succ turns ih =>
      cases m with
      | nil => exact List.pairwise_map.mpr sortedN
      | cons i m =>
          cases n with
          | nil => exact List.pairwise_map.mpr sortedM
          | cons j n =>
              obtain ⟨aboveI, restM⟩ := List.pairwise_cons.mp sortedM
              obtain ⟨aboveJ, restN⟩ := List.pairwise_cons.mp sortedN
              simp only [List.length_cons] at enough
              rw [differences]
              by_cases less : i.1 < j.1
              · have fits : m.length + (j :: n).length ≤ turns := by simp only [List.length_cons]; omega
                have above : ∀ e ∈ j :: n, i.1 < e.1 :=
                  List.forall_mem_cons.mpr ⟨less, fun e member => lt_trans less (aboveJ e member)⟩
                rw [if_pos less]
                exact List.pairwise_cons.mpr ⟨above_differences restM sortedN fits aboveI above, ih restM sortedN fits⟩
              · by_cases greater : j.1 < i.1
                · have fits : (i :: m).length + n.length ≤ turns := by simp only [List.length_cons]; omega
                  have above : ∀ e ∈ i :: m, j.1 < e.1 :=
                    List.forall_mem_cons.mpr ⟨greater, fun e member => lt_trans greater (aboveI e member)⟩
                  rw [if_neg less, if_pos greater]
                  exact List.pairwise_cons.mpr ⟨above_differences sortedM restN fits above aboveJ, ih sortedM restN fits⟩
                · have same : j.1 = i.1 := le_antisymm (not_lt.mp less) (not_lt.mp greater)
                  have fits : m.length + n.length ≤ turns := by omega
                  rw [same] at aboveJ
                  rw [if_neg less, if_neg greater]
                  split
                  · exact ih restM restN fits
                  · exact List.pairwise_cons.mpr ⟨above_differences restM restN fits aboveI aboveJ, ih restM restN fits⟩

end IMeDesktop.Lib.MapDifference
