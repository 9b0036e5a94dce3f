import IMeDesktop.Ui.CutPart

/-! # The place where a part ends

The loop comes to the places that are not inside of an emoji or of a character, and counts the characters up to
there. It keeps the best of the places that it came to.
-/

namespace IMeDesktop.Ui

namespace TextUtilities

/-! ## Characters -/

/-- Two surrogates of one character are on both sides. -/
def joins (front back : QString) : Bool := front.getLast?.any isHighSurrogate && back.head?.any isLowSurrogate

/-- How many characters a text has. -/
def codePoints : QString → Nat
  | [] => 0
  | [_] => 1
  | first :: second :: rest =>
      if isHighSurrogate first && isLowSurrogate second then codePoints rest + 1 else codePoints (second :: rest) + 1

theorem not_high_of_low {ch : QChar} (low : isLowSurrogate ch = true) : isHighSurrogate ch = false := by
  simp only [isLowSurrogate, isHighSurrogate, Bool.and_eq_true, decide_eq_true_eq] at low ⊢
  rw [Bool.and_eq_false_iff]
  right
  rw [decide_eq_false_iff_not, UInt16.not_lt]
  exact low.1

theorem codePoints_append {front back : QString} (apart : joins front back = false) :
    codePoints (front ++ back) = codePoints front + codePoints back := by
  induction front using codePoints.induct with
  | case1 => exact (Nat.zero_add _).symm
  | case2 first =>
      cases back with
      | nil => rfl
      | cons second rest =>
          have single : ¬(isHighSurrogate first && isLowSurrogate second) = true := by
            simpa [joins] using apart
          have both : codePoints (first :: second :: rest) = codePoints (second :: rest) + 1 := by
            rw [codePoints, if_neg single]
          exact both.trans (Nat.add_comm _ _)
  | case3 first second rest pair ih =>
      have apart' : joins rest back = false := by
        cases rest with
        | nil => rfl
        | cons third rest => exact apart
      rw [List.cons_append, List.cons_append, codePoints, if_pos pair, ih apart', codePoints, if_pos pair]
      omega
  | case4 first second rest single ih =>
      have apart' : joins (second :: rest) back = false := apart
      rw [List.cons_append, List.cons_append, codePoints, if_neg single, ← List.cons_append, ih apart', codePoints,
        if_neg single]
      omega

theorem codePoints_le_length (text : QString) : codePoints text ≤ text.length := by
  induction text using codePoints.induct with
  | case1 => exact Nat.le_refl _
  | case2 => exact Nat.le_refl _
  | case3 first second rest pair ih =>
      rw [codePoints, if_pos pair, List.length_cons, List.length_cons]
      omega
  | case4 first second rest single ih =>
      rw [codePoints, if_neg single, List.length_cons]
      omega

theorem codePoints_pos {text : QString} (some : text ≠ []) : 0 < codePoints text := by
  induction text using codePoints.induct with
  | case1 => exact absurd rfl some
  | case2 => exact Nat.one_pos
  | case3 first second rest pair _ =>
      rw [codePoints, if_pos pair]
      exact Nat.succ_pos _
  | case4 first second rest single _ =>
      rw [codePoints, if_neg single]
      exact Nat.succ_pos _

/-! ## What is passed at once -/

section Passed

variable {find : Find} {longest : Nat} {text : QString}

/-- An emoji has code units, not more than are there, and has its last character as a whole. -/
structure Finds (find : Find) (longest : Nat) : Prop where
  one : 1 ≤ longest
  positive : ∀ {rest n}, find rest = some n → 0 < n
  inside : ∀ {rest n}, find rest = some n → n ≤ rest.length
  short : ∀ {rest n}, find rest = some n → n ≤ longest
  whole : ∀ {rest n}, find rest = some n → joins (rest.take n) (rest.drop n) = false

/-- An emoji, or a character. -/
def passedLength (find : Find) (rest : QString) : Nat :=
  match find rest with
  | some elen => elen
  | none => if joins (rest.take 1) (rest.drop 1) then 2 else 1

theorem charAt_drop (ch i : Nat) : charAt text (ch + i) = charAt (text.drop ch) i := by
  simp [charAt, List.getD_eq_getElem?_getD]

theorem passEmoji_eq (n : Nat) {ch : Nat} (inside : ch + n ≤ text.length) (s : Nat) :
    passEmoji text n ch s = (ch + n, s + codePoints ((text.drop ch).take n)) := by
  induction n using Nat.strongRecOn generalizing ch s with
  | _ n ih =>
      match n with
      | 0 => rfl
      | 1 =>
          rw [List.drop_eq_getElem_cons (by omega)]
          rfl
      | left + 2 =>
          have first : text.drop ch = charAt text ch :: charAt text (ch + 1) :: text.drop (ch + 2) := by
            rw [List.drop_eq_getElem_cons (by omega), List.drop_eq_getElem_cons (by omega), charAt, charAt,
              List.getD_eq_getElem _ _ (by omega), List.getD_eq_getElem _ _ (by omega)]
          have second : text.drop (ch + 1) = charAt text (ch + 1) :: text.drop (ch + 2) := by
            rw [List.drop_eq_getElem_cons (by omega), charAt, List.getD_eq_getElem _ _ (by omega)]
          rw [passEmoji]
          split_ifs with pair
          · rw [ih left (by omega) (by omega), first, List.take_succ_cons, List.take_succ_cons, codePoints, if_pos pair,
              Prod.mk.injEq]
            omega
          · have fits : ch + 1 + (left + 1) ≤ text.length := by omega
            have more := ih (left + 1) (by omega) fits (s + 1)
            rw [second, List.take_succ_cons] at more
            rw [more, first, List.take_succ_cons, List.take_succ_cons, codePoints, if_neg pair, Prod.mk.injEq]
            omega

theorem drop_eq_charAt_cons {ch : Nat} (inside : ch < text.length) :
    text.drop ch = charAt text ch :: text.drop (ch + 1) := by
  rw [List.drop_eq_getElem_cons inside, charAt, List.getD_eq_getElem _ _ inside]

theorem passOne_eq (finds : Finds find longest) {ch : Nat} (inside : ch < text.length) (s : Nat) :
    passOne find text ch s =
      (ch + passedLength find (text.drop ch) - 1,
        s + codePoints ((text.drop ch).take (passedLength find (text.drop ch))) - 1) := by
  unfold passOne passedLength
  cases found : find (text.drop ch) with
  | some elen =>
      have fits := finds.inside found
      rw [List.length_drop] at fits
      simp only [passEmoji_eq elen (show ch + elen ≤ text.length by omega)]
  | none =>
      rw [drop_eq_charAt_cons inside]
      by_cases more : ch + 1 < text.length
      · rw [drop_eq_charAt_cons more]
        by_cases pair : (isHighSurrogate (charAt text ch) && isLowSurrogate (charAt text (ch + 1))) = true
        · have both := Bool.and_eq_true_iff.mp pair
          simp [joins, more, both.1, both.2, codePoints]
        · have single : ¬(isHighSurrogate (charAt text ch) && decide (ch + 1 < text.length) &&
              isLowSurrogate (charAt text (ch + 1))) = true := by simpa [more] using pair
          rw [if_neg single, if_neg (by simpa [joins] using pair)]
          simp [codePoints]
      · rw [List.drop_of_length_le (Nat.le_of_not_lt more)]
        simp [joins, more, codePoints]

theorem joins_append {front more back : QString} (some : more ≠ []) : joins (front ++ more) back = joins more back := by
  rw [joins, joins, List.getLast?_append, List.getLast?_eq_some_getLast some]
  rfl

theorem joins_take {front back : QString} (apart : joins front back = false) (n : Nat) :
    joins front (back.take n) = false := by
  cases n with
  | zero => simp [joins]
  | succ n =>
      cases back with
      | nil => exact apart
      | cons first rest => exact apart

theorem passedLength_pos (finds : Finds find longest) (rest : QString) : 0 < passedLength find rest := by
  unfold passedLength
  split
  · exact finds.positive ‹_›
  · split_ifs
    · exact Nat.two_pos
    · exact Nat.one_pos

theorem passedLength_le (finds : Finds find longest) {rest : QString} (some : rest ≠ []) :
    passedLength find rest ≤ rest.length := by
  unfold passedLength
  split
  · exact finds.inside ‹_›
  · cases rest with
    | nil => exact absurd rfl some
    | cons first rest =>
        cases rest with
        | nil => simp [joins]
        | cons second rest =>
            simp only [List.length_cons]
            split_ifs <;> omega

theorem passed_apart (finds : Finds find longest) (rest : QString) :
    joins (rest.take (passedLength find rest)) (rest.drop (passedLength find rest)) = false := by
  unfold passedLength
  split
  · exact finds.whole ‹_›
  · split_ifs with pair
    · -- the second one of a pair is not the first one of another
      cases rest with
      | nil => rfl
      | cons first rest =>
          cases rest with
          | nil => simp [joins]
          | cons second rest =>
              have low : isLowSurrogate second = true := by
                simp only [joins, List.take_succ_cons, List.take_zero, List.drop_succ_cons, List.drop_zero,
                  Bool.and_eq_true] at pair
                exact pair.2
              simp [joins, not_high_of_low low]
    · exact Bool.eq_false_iff.mpr pair

theorem passed_points (finds : Finds find longest) (rest : QString) :
    codePoints (rest.take (passedLength find rest)) ≤ longest := by
  unfold passedLength
  split
  · rename_i elen found
    calc
      _ ≤ (rest.take elen).length := codePoints_le_length _
      _ ≤ elen := List.length_take_le _ _
      _ ≤ longest := finds.short found
  · have one := finds.one
    split_ifs with pair
    · cases rest with
      | nil => exact Nat.zero_le _
      | cons first rest =>
          cases rest with
          | nil => exact one
          | cons second rest =>
              simp only [joins, List.take_succ_cons, List.take_zero, List.drop_succ_cons, List.drop_zero] at pair
              have both : (isHighSurrogate first && isLowSurrogate second) = true := pair
              rw [List.take_succ_cons, List.take_succ_cons, codePoints, if_pos both, List.take_zero]
              exact one
    · exact Nat.le_trans (codePoints_le_length _) (Nat.le_trans (List.length_take_le 1 rest) one)

/-! ## The places that the loop comes to -/

/-- Where the loop goes on. -/
def Next (find : Find) (text : QString) (ch next : Nat) : Prop :=
  ch < text.length ∧ next = ch + passedLength find (text.drop ch)

/-- A place that is not inside of an emoji or of a character. -/
def Visits (find : Find) (text : QString) (ch : Nat) : Prop := Relation.ReflTransGen (Next find text) 0 ch

theorem next_unique : Relator.RightUnique (Next find text) := fun _ _ _ one other => one.2.trans other.2.symm

theorem le_of_goes {ch later : Nat} (goes : Relation.ReflTransGen (Next find text) ch later) : ch ≤ later := by
  induction goes with
  | refl => exact Nat.le_refl _
  | tail _ step ih => exact Nat.le_trans ih (step.2 ▸ Nat.le_add_right _ _)

theorem Visits.goes {ch later : Nat} (first : Visits find text ch) (second : Visits find text later)
    (before : ch ≤ later) : Relation.ReflTransGen (Next find text) ch later := by
  rcases Relation.ReflTransGen.total_of_right_unique next_unique first second with up | down
  · exact up
  · cases Nat.le_antisymm before (le_of_goes down)
    exact .refl

/-- Nothing is between a place and the next one. -/
theorem Visits.before {p ch next : Nat} (visited : Visits find text p) (visits : Visits find text ch)
    (step : Next find text ch next) (earlier : p < next) : p ≤ ch := by
  rcases Relation.ReflTransGen.total_of_right_unique next_unique visited visits with up | down
  · exact le_of_goes up
  · rcases Relation.ReflTransGen.cases_head down with same | ⟨other, first, rest⟩
    · exact same.ge
    · cases next_unique first step
      exact absurd earlier (Nat.not_lt.mpr (le_of_goes rest))

theorem Visits.le_length (finds : Finds find longest) {ch : Nat} (visits : Visits find text ch) : ch ≤ text.length := by
  rcases Relation.ReflTransGen.cases_tail visits with start | ⟨last, -, inside, rfl⟩
  · exact start ▸ Nat.zero_le _
  · have some : text.drop last ≠ [] := fun none => Nat.not_le.mpr inside (List.drop_eq_nil_iff.mp none)
    have fits := passedLength_le finds some
    rw [List.length_drop] at fits
    omega

theorem Visits.whole (finds : Finds find longest) {ch : Nat} (visits : Visits find text ch) :
    joins (text.take ch) (text.drop ch) = false := by
  rcases Relation.ReflTransGen.cases_tail visits with start | ⟨last, -, inside, rfl⟩
  · subst start
    rfl
  · have some : (text.drop last).take (passedLength find (text.drop last)) ≠ [] := by
      have pos := passedLength_pos finds (text.drop last)
      intro none
      have size := congrArg List.length none
      rw [List.length_take, List.length_drop, List.length_nil] at size
      omega
    rw [List.take_add, joins_append some, ← List.drop_drop]
    exact passed_apart finds _

theorem Visits.points (finds : Finds find longest) {ch : Nat} (visits : Visits find text ch) (n : Nat) :
    codePoints (text.take (ch + n)) = codePoints (text.take ch) + codePoints ((text.drop ch).take n) := by
  rw [List.take_add]
  exact codePoints_append (joins_take (visits.whole finds) n)

theorem Visits.points_mono (finds : Finds find longest) {ch later : Nat} (visits : Visits find text ch)
    (before : ch ≤ later) : codePoints (text.take ch) ≤ codePoints (text.take later) := by
  obtain ⟨n, rfl⟩ := Nat.exists_eq_add_of_le before
  rw [visits.points finds]
  exact Nat.le_add_right _ _

end Passed

/-! ## The loop -/

section Loop

variable {e : Expressions} {find : Find} {longest : Nat} {left : TextWithEntities} {limit : Nat}

theorem skipEnded_again {entities : List EntityInText} {ch current : Nat} (inside : current ≤ entities.length)
    (ended : ∀ entity ∈ entities.take current, entity.offset + entity.length ≤ ch) :
    skipEnded entities ch current = skipEnded entities ch 0 := by
  have all : ∀ entity ∈ entities.take current, decide (entity.offset + entity.length ≤ (ch : Int)) = true :=
    fun entity member => decide_eq_true (ended entity member)
  have whole : (entities.take current ++ entities.drop current).takeWhile
      (fun entity => decide (entity.offset + entity.length ≤ (ch : Int))) =
        entities.take current ++ (entities.drop current).takeWhile
          (fun entity => decide (entity.offset + entity.length ≤ (ch : Int))) := List.takeWhile_append_of_pos all
  rw [List.take_append_drop] at whole
  rw [skipEnded, skipEnded, List.drop_zero, whole, List.length_append, List.length_take, Nat.min_eq_left inside,
    Nat.zero_add]

theorem take_skipEnded (entities : List EntityInText) (ch : Nat) :
    entities.take (skipEnded entities ch 0) =
      entities.takeWhile fun entity => entity.offset + entity.length ≤ (ch : Int) := by
  rw [skipEnded, Nat.zero_add, List.drop_zero]
  exact (List.prefix_iff_eq_take.mp (List.takeWhile_prefix _)).symm

theorem mem_take_skipEnded {entities : List EntityInText} {ch : Nat} {entity : EntityInText}
    (member : entity ∈ entities.take (skipEnded entities ch 0)) : entity.offset + entity.length ≤ ch := by
  rw [take_skipEnded] at member
  have ended := List.mem_takeWhile_imp member
  exact of_decide_eq_true ended

theorem skipEnded_le (entities : List EntityInText) (ch : Nat) : skipEnded entities ch 0 ≤ entities.length := by
  rw [skipEnded, Nat.zero_add, List.drop_zero]
  exact (List.takeWhile_prefix _).length_le

/-- What the loop makes of a place. -/
def mark (e : Expressions) (left : TextWithEntities) (ch : Nat) : Good :=
  placeAt e left.text left.entities ch (skipEnded left.entities ch 0)

theorem markAs_eq (was now : Good) :
    (was.markAs now = now ∧ was.level ≤ now.level) ∨ (was.markAs now = was ∧ now.level < was.level) := by
  unfold Good.markAs
  split_ifs with better
  · exact .inr ⟨rfl, better⟩
  · exact .inl ⟨rfl, Nat.not_lt.mp better⟩

/-- What the loop knows when it comes to a place. -/
structure Looking (e : Expressions) (find : Find) (left : TextWithEntities) (limit ch s current : Nat) (good : Good) :
    Prop where
  visits : Visits find left.text ch
  points : s = codePoints (left.text.take ch)
  most : s ≤ limit
  inside : current ≤ left.entities.length
  ended : ∀ entity ∈ left.entities.take current, entity.offset + entity.length ≤ ch
  best : ∀ p, Visits find left.text p → p < ch → limit / 2 < codePoints (left.text.take p) →
    (mark e left p).level ≤ good.level
  found : good = {} ∨ ∃ p, Visits find left.text p ∧ p < ch ∧ limit / 2 < codePoints (left.text.take p) ∧
    good = mark e left p

/-- Where the loop ends, and the best place up to there. -/
structure Found (e : Expressions) (find : Find) (left : TextWithEntities) (limit ch : Nat) (good : Good) : Prop where
  visits : Visits find left.text ch
  inside : ch < left.text.length
  most : codePoints (left.text.take ch) ≤ limit
  more : limit < codePoints (left.text.take ch) +
    codePoints ((left.text.drop ch).take (passedLength find (left.text.drop ch)))
  best : ∀ p, Visits find left.text p → p ≤ ch → limit / 2 < codePoints (left.text.take p) →
    (mark e left p).level ≤ good.level
  found : limit / 2 < codePoints (left.text.take ch) → ∃ p, Visits find left.text p ∧ p ≤ ch ∧
    limit / 2 < codePoints (left.text.take p) ∧ good = mark e left p

theorem Looking.passed {ch s current : Nat} {good : Good} (h : Looking e find left limit ch s current good)
    (passed : left.text.length ≤ ch) : codePoints left.text ≤ limit := by
  have most := h.most
  rwa [h.points, List.take_of_length_le passed] at most

theorem findGood_spec (finds : Finds find longest) (steps : Nat) {ch s current : Nat} {good : Good}
    (h : Looking e find left limit ch s current good) (enough : left.text.length ≤ ch + steps) :
    (findGood e find left limit steps ch s current good = none → codePoints left.text ≤ limit) ∧
      ∀ good', findGood e find left limit steps ch s current good = some good' →
        ∃ ch', Found e find left limit ch' good' := by
  induction steps generalizing ch s current good with
  | zero => exact ⟨fun _ => h.passed enough, fun good' none => by cases none⟩
  | succ steps ih =>
      rw [findGood]
      by_cases passed : left.text.length ≤ ch
      · rw [if_pos passed]
        exact ⟨fun _ => h.passed passed, fun good' none => by cases none⟩
      · rw [if_neg passed]
        have inside : ch < left.text.length := Nat.lt_of_not_le passed
        simp only [passOne_eq finds inside, skipEnded_again h.inside h.ended]
        change (_ → _) ∧ _
        generalize marked : (if s > limit / 2 then
          good.markAs (placeAt e left.text left.entities ch (skipEnded left.entities ch 0)) else good) = good'
        have step : Next find left.text ch (ch + passedLength find (left.text.drop ch)) := ⟨inside, rfl⟩
        have positive := passedLength_pos finds (left.text.drop ch)
        have some : (left.text.drop ch).take (passedLength find (left.text.drop ch)) ≠ [] := by
          intro none
          have size := congrArg List.length none
          rw [List.length_take, List.length_drop, List.length_nil] at size
          omega
        have points := codePoints_pos some
        have best : ∀ p, Visits find left.text p → p ≤ ch → limit / 2 < codePoints (left.text.take p) →
            (mark e left p).level ≤ good'.level := by
          intro p visited before half
          rcases Nat.eq_or_lt_of_le before with rfl | earlier
          · rw [← h.points] at half
            rw [if_pos half] at marked
            rcases markAs_eq good (mark e left p) with ⟨same, -⟩ | ⟨same, worse⟩
            · exact (congrArg Good.level (same.symm.trans marked)).le
            · exact worse.le.trans (congrArg Good.level (same.symm.trans marked)).le
          · have known := h.best p visited earlier half
            split_ifs at marked
            · rcases markAs_eq good (mark e left ch) with ⟨same, better⟩ | ⟨same, -⟩
              · exact known.trans (better.trans (congrArg Good.level (same.symm.trans marked)).le)
              · exact known.trans (congrArg Good.level (same.symm.trans marked)).le
            · exact known.trans (congrArg Good.level marked).le
        have found : (good' = {} ∧ ¬ limit / 2 < s) ∨ ∃ p, Visits find left.text p ∧ p ≤ ch ∧
            limit / 2 < codePoints (left.text.take p) ∧ good' = mark e left p := by
          split_ifs at marked with half
          · rcases markAs_eq good (mark e left ch) with ⟨same, -⟩ | ⟨same, worse⟩
            · exact .inr ⟨ch, h.visits, Nat.le_refl _, h.points ▸ half, marked.symm.trans same⟩
            · rcases h.found with none | ⟨p, visited, earlier, late, place⟩
              · rw [none] at worse
                exact absurd worse (Nat.not_lt_zero _)
              · exact .inr ⟨p, visited, earlier.le, late, (marked.symm.trans same).trans place⟩
          · rcases h.found with none | ⟨p, visited, earlier, late, place⟩
            · exact .inl ⟨marked.symm.trans none, half⟩
            · exact .inr ⟨p, visited, earlier.le, late, marked.symm.trans place⟩
        split_ifs with stop
        · refine ⟨fun none => (by cases none), fun result same => ?_⟩
          cases same
          refine ⟨ch, h.visits, inside, h.points ▸ h.most, ?_, best, fun half => ?_⟩
          · rw [← h.points]
            omega
          · rcases found with ⟨-, early⟩ | there
            · exact absurd (h.points ▸ half) early
            · exact there
        · have next : ch + passedLength find (left.text.drop ch) - 1 + 1 =
              ch + passedLength find (left.text.drop ch) := by omega
          have count : s + codePoints ((left.text.drop ch).take (passedLength find (left.text.drop ch))) - 1 + 1 =
              s + codePoints ((left.text.drop ch).take (passedLength find (left.text.drop ch))) := by omega
          rw [next, count]
          refine ih ⟨h.visits.tail step, ?_, by omega, skipEnded_le _ _, ?_, ?_, ?_⟩ (by omega)
          · rw [h.visits.points finds, ← h.points]
          · intro entity member
            have ended := mem_take_skipEnded member
            omega
          · exact fun p visited earlier => best p visited (visited.before h.visits step earlier)
          · rcases found with ⟨none, -⟩ | ⟨p, visited, before, late, place⟩
            · exact .inl none
            · exact .inr ⟨p, visited, by omega, late, place⟩

end Loop

end TextUtilities

end IMeDesktop.Ui
