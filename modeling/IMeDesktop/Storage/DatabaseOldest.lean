import IMeDesktop.Storage.DatabaseStats

/-! # The oldest entries are removed

One pass over the index, in any order, collects entries until they make enough room, and lets
newer ones go when older ones are found. The collected entries are sorted by the time as a signed
number, and a time is not signed: the pass goes wrong where an entry above the sign meets two older
ones, one of them below it.
-/

namespace IMeDesktop.Storage.Cache

open Lib

/-- The size of entries together. -/
def sizes (entries : List (Key × Entry)) : Int := (entries.map fun e => (e.2.size : Int)).sum

@[simp]
theorem sizes_nil : sizes [] = 0 := rfl

@[simp]
theorem sizes_cons (e : Key × Entry) (entries : List (Key × Entry)) :
    sizes (e :: entries) = e.2.size + sizes entries := rfl

theorem sizes_append (front back : List (Key × Entry)) : sizes (front ++ back) = sizes front + sizes back := by
  rw [sizes, List.map_append, List.sum_append]
  rfl

theorem sizes_perm {front back : List (Key × Entry)} (same : front.Perm back) : sizes front = sizes back :=
  (same.map _).sum_eq

namespace DatabaseObject

/-! ## Signed times -/

theorem int64_eq (useTime : UInt64) :
    int64 useTime = if useTime.toNat < 2 ^ 63 then (useTime.toNat : Int) else useTime.toNat - 2 ^ 64 := by
  have bounded := useTime.toNat_lt
  have signed : int64 useTime = useTime.toBitVec.toInt := rfl
  rw [signed, BitVec.toInt_eq_toNat_cond, UInt64.toNat_toBitVec]
  split <;> split <;> omega

/-- Times are compared the other way only across the sign. -/
theorem int64_crossed {a b : UInt64} (ordered : int64 a ≤ int64 b) (crossed : b < a) :
    b.toNat < 2 ^ 63 ∧ 2 ^ 63 ≤ a.toNat := by
  rw [int64_eq, int64_eq] at ordered
  have less := UInt64.lt_iff_toNat_lt.mp crossed
  have bounded := a.toNat_lt
  grind

theorem int64_across {a b : UInt64} (low : a.toNat < 2 ^ 63) (high : 2 ^ 63 ≤ b.toNat) : int64 b < int64 a := by
  rw [int64_eq, int64_eq, if_pos low, if_neg (by omega)]
  have bounded := b.toNat_lt
  omega

/-- The times of entries, with their keys. -/
def useTimes (entries : List (Key × Entry)) : List (Key × UInt64) := entries.map fun e => (e.1, e.2.useTime)

theorem mem_useTimes {entries : List (Key × Entry)} {e : Key × Entry} (member : e ∈ entries) :
    (e.1, e.2.useTime) ∈ useTimes entries := List.mem_map_of_mem member

/-- A time above the sign has two entries below it, and the time of one of these is below the sign. -/
def Straddled (times : List (Key × UInt64)) : Prop :=
  ∃ low ∈ times, ∃ high ∈ times, ∃ other ∈ times, low ≠ other ∧
    low.2.toNat < 2 ^ 63 ∧ 2 ^ 63 ≤ high.2.toNat ∧ other.2 < high.2

theorem Straddled.mono {few many : List (Key × UInt64)} (part : few ⊆ many) (straddled : Straddled few) :
    Straddled many := by
  obtain ⟨low, inLow, high, inHigh, other, inOther, crossed⟩ := straddled
  exact ⟨low, part inLow, high, part inHigh, other, part inOther, crossed⟩

/-! ## One entry -/

section Selecting

variable {removeSize : Int} {oldest : List (Key × Entry)} {e : Key × Entry}

/-- What is not needed is removed from the front, and is not older than what is added. -/
theorem removeFirst_spec (removeSize : Int) (adding : Entry) (oldest : List (Key × Entry)) (size : Int) :
    ∃ removed, oldest = removed ++ (removeFirst removeSize adding oldest size).1 ∧
      (removeFirst removeSize adding oldest size).2 = size - sizes removed ∧
      (∀ x ∈ removed, adding.useTime ≤ x.2.useTime) ∧
      (removed = [] ∨ removeSize ≤ (removeFirst removeSize adding oldest size).2 + adding.size) := by
  fun_induction removeFirst removeSize adding oldest size with
  | case1 size => exact ⟨[], rfl, (Int.sub_zero size).symm, nofun, .inl rfl⟩
  | case2 first rest size removable ih =>
      obtain ⟨removed, split, rest_size, newer, enough⟩ := ih
      refine ⟨first :: removed, congrArg _ split, ?_, ?_, .inr ?_⟩
      · rw [rest_size, sizes_cons]
        omega
      · exact List.forall_mem_cons.mpr ⟨removable.1, newer⟩
      · rcases enough with rfl | enough
        · have room := removable.2
          rw [rest_size, sizes_nil]
          omega
        · exact enough
  | case3 first rest size needed => exact ⟨[], rfl, (Int.sub_zero size).symm, nofun, .inl rfl⟩

theorem emplaceOldest_perm (e : Key × Entry) (oldest : List (Key × Entry)) :
    (emplaceOldest e oldest).Perm (e :: oldest) := by
  induction oldest with
  | nil => exact .refl _
  | cons first rest ih =>
      rw [emplaceOldest]
      split
      · exact .refl _
      · exact (ih.cons first).trans (.swap e first rest)

/-- The order of `oldest`. -/
abbrev Falling (oldest : List (Key × Entry)) : Prop :=
  oldest.Pairwise fun a b => int64 b.2.useTime ≤ int64 a.2.useTime

theorem emplaceOldest_falling (falling : Falling oldest) : Falling (emplaceOldest e oldest) := by
  induction oldest with
  | nil => exact List.pairwise_singleton _ _
  | cons first rest ih =>
      obtain ⟨newest, others⟩ := List.pairwise_cons.mp falling
      rw [emplaceOldest]
      split
      · rename_i newer
        refine List.pairwise_cons.mpr ⟨fun x member => ?_, falling⟩
        rcases List.mem_cons.mp member with rfl | member
        · exact newer.le
        · exact (newest x member).trans newer.le
      · rename_i older
        refine List.pairwise_cons.mpr ⟨fun x member => ?_, ih others⟩
        rcases List.mem_cons.mp ((emplaceOldest_perm e rest).mem_iff.mp member) with rfl | member
        · exact not_lt.mp older
        · exact newest x member

/-- The entries that were seen are those in `oldest` and others, that are not older and not needed. -/
structure Selected (removeSize : Int) (seen oldest : List (Key × Entry)) (size : Int) : Prop where
  weighed : size = sizes oldest
  falling : Falling oldest
  split : ∃ left, (oldest ++ left).Perm seen ∧ (∀ o ∈ oldest, ∀ x ∈ left, o.2.useTime ≤ x.2.useTime) ∧
    (left = [] ∨ removeSize ≤ size)

variable {size : Int} {seen : List (Key × Entry)}

theorem Selected.start (removeSize : Int) : Selected removeSize [] [] 0 :=
  ⟨rfl, .nil, [], .refl _, nofun, .inl rfl⟩

/-- An entry is compared with the front of `oldest`: it is not older than any of them. -/
theorem Selected.passed (selected : Selected removeSize seen oldest size) (fine : ¬Straddled (useTimes (e :: seen)))
    (new : ∀ x ∈ seen, x.1 ≠ e.1) {first o : Key × Entry} (head : oldest.head? = some first)
    (later : ¬e.2.useTime < first.2.useTime) (member : o ∈ oldest) : o.2.useTime ≤ e.2.useTime := by
  obtain ⟨-, falling, left, split, -⟩ := selected
  have inSeen {x} (member : x ∈ oldest) : x ∈ seen := split.mem_iff.mp (List.mem_append_left _ member)
  have front : first ∈ oldest := List.mem_of_mem_head? (by rw [head]; rfl)
  by_contra newer
  have newer := UInt64.not_le.mp newer
  -- the front is below the sign, and `o` above it
  have ordered : int64 o.2.useTime ≤ int64 first.2.useTime := by
    cases oldest with
    | nil => cases member
    | cons f rest =>
        cases head
        rcases List.mem_cons.mp member with rfl | member
        · exact le_rfl
        · exact (List.pairwise_cons.mp falling).1 o member
  obtain ⟨low, high⟩ := int64_crossed ordered (UInt64.lt_of_le_of_lt (UInt64.not_lt.mp later) newer)
  refine fine ⟨_, mem_useTimes (List.mem_cons_of_mem _ (inSeen front)), _,
    mem_useTimes (List.mem_cons_of_mem _ (inSeen member)), _, mem_useTimes List.mem_cons_self, ?_, low, high, newer⟩
  intro same
  exact new first (inSeen front) (Prod.mk.inj same).1

/-- What stays in `oldest` is not newer than what is removed. -/
theorem Selected.kept (selected : Selected removeSize seen oldest size) (fine : ¬Straddled (useTimes (e :: seen)))
    (new : ∀ x ∈ seen, x.1 ≠ e.1) {removed rest : List (Key × Entry)} (parts : oldest = removed ++ rest)
    {x o : Key × Entry} (gone : x ∈ removed) (stays : o ∈ rest) (older : e.2.useTime ≤ x.2.useTime) :
    o.2.useTime ≤ x.2.useTime := by
  obtain ⟨-, falling, left, split, -⟩ := selected
  subst parts
  have inSeen {y} (member : y ∈ removed ++ rest) : y ∈ seen := split.mem_iff.mp (List.mem_append_left _ member)
  have ordered := (List.pairwise_append.mp falling).2.2 x gone o stays
  have known := inSeen (List.mem_append_left _ gone)
  by_contra newer
  have newer := UInt64.not_le.mp newer
  obtain ⟨low, high⟩ := int64_crossed ordered newer
  refine fine ⟨_, mem_useTimes (List.mem_cons_of_mem _ known), _,
    mem_useTimes (List.mem_cons_of_mem _ (inSeen (List.mem_append_right _ stays))), _,
    mem_useTimes List.mem_cons_self, ?_, low, high, UInt64.lt_of_le_of_lt older newer⟩
  intro same
  exact new x known (Prod.mk.inj same).1

/-- An entry that is not stale is added, or is not older than any that is collected. -/
theorem Selected.next (selected : Selected removeSize seen oldest size)
    {stale : SortedMap Key Unit} (fresh : stale.contains e.1 = false) (fine : ¬Straddled (useTimes (e :: seen)))
    (new : ∀ x ∈ seen, x.1 ≠ e.1) :
    Selected removeSize (e :: seen) (collectSize stale removeSize (oldest, size) e).1
      (collectSize stale removeSize (oldest, size) e).2 := by
  have passed := @Selected.passed _ _ e _ _ selected fine new
  have kept := @Selected.kept _ _ e _ _ selected fine new
  obtain ⟨known, falling, left, split, apart, enough⟩ := selected
  rw [collectSize]
  dsimp only
  rw [fresh, if_neg Bool.false_ne_true]
  split
  · rename_i added
    obtain ⟨removed, parts, rest_size, newer, room⟩ := removeFirst_spec removeSize e.2 oldest size
    generalize removeFirst removeSize e.2 oldest size = rest at parts rest_size room ⊢
    have placed := emplaceOldest_perm e rest.1
    have whole := congrArg sizes parts
    rw [sizes_append] at whole
    have rest_falling : Falling rest.1 := (List.pairwise_append.mp (parts ▸ falling)).2.1
    refine ⟨?_, emplaceOldest_falling rest_falling, removed ++ left, ?_, ?_, ?_⟩
    · rw [sizes_perm placed, sizes_cons, rest_size, known]
      omega
    · have regrouped : (rest.1 ++ (removed ++ left)).Perm seen := by
        refine List.Perm.trans ?_ split
        rw [parts, ← List.append_assoc]
        exact List.perm_append_comm.append_right left
      exact (placed.append_right _).trans (regrouped.cons e)
    · intro o member x other
      rcases List.mem_append.mp other with inRemoved | inLeft <;>
        rcases List.mem_cons.mp (placed.mem_iff.mp member) with rfl | member
      · exact newer x inRemoved
      · exact kept parts inRemoved member (newer x inRemoved)
      · rcases added with few | older
        · rcases enough with rfl | enough
          · cases inLeft
          · omega
        · cases oldest with
          | nil => cases older
          | cons first others =>
              have older := of_decide_eq_true older
              exact UInt64.le_trans (UInt64.le_of_lt older) (apart first List.mem_cons_self x inLeft)
      · exact apart o (parts ▸ List.mem_append_right _ member) x inLeft
    · rcases room with rfl | room
      · rw [rest_size, sizes_nil]
        rcases enough with rfl | enough
        · exact .inl rfl
        · right
          omega
      · exact .inr room
  · rename_i skipped
    obtain ⟨enough, later⟩ := not_or.mp skipped
    refine ⟨known, falling, e :: left, ?_, ?_, .inr (not_lt.mp enough)⟩
    · exact List.perm_middle.trans (split.cons e)
    · intro o member x other
      rcases List.mem_cons.mp other with rfl | inLeft
      · cases oldest with
        | nil => cases member
        | cons first others => exact passed rfl (fun older => later (decide_eq_true older)) member
      · exact apart o member x inLeft

end Selecting

/-! ## The whole pass -/

/-- The entries without the given keys. -/
def outside (keys : SortedMap Key Unit) (entries : List (Key × Entry)) : List (Key × Entry) :=
  entries.filter fun e => !keys.contains e.1

/-- The entries with the given keys. -/
def within (keys : SortedMap Key Unit) (entries : List (Key × Entry)) : List (Key × Entry) :=
  entries.filter fun e => keys.contains e.1

theorem sizes_split (keys : SortedMap Key Unit) (entries : List (Key × Entry)) :
    sizes (within keys entries) + sizes (outside keys entries) = sizes entries := by
  rw [← sizes_append]
  exact sizes_perm (List.filter_append_perm _ entries)

/-- In any order, what is not stale is selected from. -/
theorem Selected.walked {removeSize : Int} (stale : SortedMap Key Unit) (entries : List (Key × Entry))
    {seen oldest : List (Key × Entry)} {size : Int} (selected : Selected removeSize seen oldest size)
    (distinct : ((entries ++ seen).map Prod.fst).Nodup)
    (fine : ¬Straddled (useTimes (outside stale entries ++ seen))) :
    ∃ seen', seen'.Perm (outside stale entries ++ seen) ∧
      Selected removeSize seen' (entries.foldl (collectSize stale removeSize) (oldest, size)).1
        (entries.foldl (collectSize stale removeSize) (oldest, size)).2 := by
  induction entries generalizing seen oldest size with
  | nil => exact ⟨seen, .refl _, selected⟩
  | cons e rest ih =>
      obtain ⟨new, others⟩ := List.nodup_cons.mp distinct
      rw [List.foldl_cons]
      cases known : stale.contains e.1 with
      | true =>
          have same : outside stale (e :: rest) = outside stale rest :=
            List.filter_cons_of_neg (by rw [known]; exact Bool.false_ne_true)
          have unchanged : collectSize stale removeSize (oldest, size) e = (oldest, size) := by
            rw [collectSize]
            exact if_pos known
          rw [same] at fine ⊢
          rw [unchanged]
          exact ih selected others fine
      | false =>
          have same : outside stale (e :: rest) = e :: outside stale rest :=
            List.filter_cons_of_pos (by rw [known]; rfl)
          have moved : (outside stale rest ++ e :: seen).Perm (e :: outside stale rest ++ seen) := List.perm_middle
          rw [same] at fine ⊢
          have next := selected.next (e := e) known
            (fun crossed => fine (crossed.mono (List.map_subset _ (by grind)))) (by grind)
          obtain ⟨seen', all, done⟩ := ih next ((List.perm_middle.map _).nodup_iff.mpr distinct)
            (fun crossed => fine (crossed.mono (List.map_subset _ moved.subset)))
          exact ⟨seen', all.trans moved, done⟩

/-- Every entry has a size, and the sizes that are counted are those of the entries. -/
structure Counted (d : DatabaseObject) (stale : Stale) : Prop where
  positive : ∀ e ∈ d.map.entries, 0 < e.2.size
  whole : d.totalSize = sizes d.map.entries
  stale : stale.totalSize = sizes (within stale.keys d.map.entries)

/-- Enough is added to what is stale, nothing of it newer than what is left. -/
structure Collected (limit : Nat) (entries : List (Key × Entry)) (stale now : Stale) : Prop where
  kept : ∀ key, stale.keys.contains key = true → now.keys.contains key = true
  enough : sizes (outside now.keys entries) ≤ limit
  weighed : now.totalSize = sizes (within now.keys entries)
  oldest : ∀ e ∈ entries, stale.keys.contains e.1 = false → now.keys.contains e.1 = true →
    ∀ x ∈ outside now.keys entries, e.2.useTime ≤ x.2.useTime

theorem contains_added (keys : SortedMap Key Unit) (oldest : List (Key × Entry)) (key : Key) :
    (oldest.foldl (fun keys e => keys.emplace e.1 ()) keys).contains key = true ↔
      keys.contains key = true ∨ key ∈ oldest.map Prod.fst := by
  induction oldest generalizing keys with
  | nil => simp
  | cons first rest ih =>
      rw [List.foldl_cons, ih, SortedMap.contains_emplace]
      grind

/-- Besides what is collected, the rest of the selection is left. -/
theorem outside_added {entries oldest left : List (Key × Entry)} {stale : SortedMap Key Unit}
    (distinct : (entries.map Prod.fst).Nodup) (split : (oldest ++ left).Perm (outside stale entries)) :
    (outside (oldest.foldl (fun keys e => keys.emplace e.1 ()) stale) entries).Perm left := by
  have selected : ((oldest ++ left).map Prod.fst).Nodup :=
    (split.map _).nodup_iff.mpr ((List.filter_sublist.map _).nodup distinct)
  rw [List.map_append] at selected
  obtain ⟨-, -, disjoint⟩ := List.nodup_append.mp selected
  have twice : outside (oldest.foldl (fun keys e => keys.emplace e.1 ()) stale) entries =
      (outside stale entries).filter fun e => decide (e.1 ∉ oldest.map Prod.fst) := by
    rw [outside, outside, List.filter_filter]
    refine List.filter_congr fun e _ => ?_
    rw [Bool.eq_iff_iff, Bool.not_eq_true', ← Bool.not_eq_true, contains_added, not_or]
    simp [and_comm]
  have gone : oldest.filter (fun e => decide (e.1 ∉ oldest.map Prod.fst)) = [] :=
    List.filter_eq_nil_iff.mpr fun e member => by simpa using ⟨_, member⟩
  have stays : left.filter (fun e => decide (e.1 ∉ oldest.map Prod.fst)) = left :=
    List.filter_eq_self.mpr fun e member => decide_eq_true fun among =>
      disjoint e.1 among e.1 (List.mem_map_of_mem member) rfl
  rw [twice]
  refine (split.symm.filter _).trans ?_
  rw [List.filter_append, gone, stays, List.nil_append]

/-- The selection is what is collected. -/
theorem Collected.selected {entries left oldest : List (Key × Entry)} {stale : Stale} {limit : Nat} {size : Int}
    (distinct : (entries.map Prod.fst).Nodup) (known : size = sizes oldest)
    (split : (oldest ++ left).Perm (outside stale.keys entries))
    (apart : ∀ o ∈ oldest, ∀ x ∈ left, o.2.useTime ≤ x.2.useTime) (room : sizes left ≤ limit)
    (weighed : stale.totalSize = sizes (within stale.keys entries)) :
    Collected limit entries stale
      { keys := oldest.foldl (fun keys e => keys.emplace e.1 ()) stale.keys
        totalSize := stale.totalSize + size } where
  kept key stale := (contains_added _ _ _).mpr (.inl stale)
  enough := (sizes_perm (outside_added distinct split)).trans_le room
  weighed := by
    have before := sizes_split stale.keys entries
    have after := sizes_split (oldest.foldl (fun keys e => keys.emplace e.1 ()) stale.keys) entries
    rw [sizes_perm (outside_added distinct split)] at after
    rw [← sizes_perm split, sizes_append] at before
    dsimp only
    omega
  oldest := by
    intro e member fresh collected x other
    rcases (contains_added _ _ _).mp collected with already | among
    · exact absurd (already.symm.trans fresh) Bool.true_eq_false.mp
    · obtain ⟨o, inOldest, key⟩ := List.mem_map.mp among
      have known := List.mem_of_mem_filter (split.mem_iff.mp (List.mem_append_left _ inOldest))
      obtain rfl := List.inj_on_of_nodup_map distinct known member key
      exact apart o inOldest x ((outside_added distinct split).mem_iff.mp other)

/-- In times that are not across the sign, the oldest are collected. -/
theorem collectSizeStale_collects (settings : Settings) (d : DatabaseObject) (walk : Iteration) {stale : Stale}
    (limited : 0 < settings.totalSizeLimit) (counted : Counted d stale)
    (fine : ¬Straddled (useTimes (outside stale.keys d.map.entries))) :
    Collected settings.totalSizeLimit d.map.entries stale (d.collectSizeStale settings walk stale) := by
  obtain ⟨-, whole, weighed⟩ := counted
  have distinct := d.map.nodup_keys
  have parts := sizes_split stale.keys d.map.entries
  rw [collectSizeStale, if_pos limited]
  dsimp only
  split
  · rename_i fits
    have all := Collected.selected distinct sizes_nil.symm (.refl (outside stale.keys d.map.entries)) nofun
      (by omega : sizes (outside stale.keys d.map.entries) ≤ settings.totalSizeLimit) weighed
    rw [Int.add_zero] at all
    exact all
  · rename_i crowded
    have walked := walk.perm d.map.entries
    have same : (outside stale.keys (walk.order d.map.entries)).Perm (outside stale.keys d.map.entries) :=
      walked.filter _
    obtain ⟨seen, all, done⟩ := Selected.walked stale.keys (walk.order d.map.entries)
      (Selected.start (d.totalSize - stale.totalSize - settings.totalSizeLimit))
      (by rw [List.append_nil]; exact (walked.map _).nodup_iff.mpr distinct)
      (by rw [List.append_nil]; exact fun crossed => fine (crossed.mono (same.map _).subset))
    rw [List.append_nil] at all
    obtain ⟨known, -, left, split, apart, enough⟩ := done
    have whole_split := split.trans (all.trans same)
    refine Collected.selected distinct known whole_split apart ?_ weighed
    have counts := sizes_perm whole_split
    rw [sizes_append] at counts
    rcases enough with rfl | enough
    · exact Int.natCast_nonneg _
    · omega

/-! ## Times of both sides of the sign -/

/-- The entry below the sign may be the oldest of all. -/
theorem Straddled.minimal {times : List (Key × UInt64)} (straddled : Straddled times) :
    ∃ low ∈ times, ∃ high ∈ times, ∃ other ∈ times, low ≠ other ∧ low.2.toNat < 2 ^ 63 ∧
      2 ^ 63 ≤ high.2.toNat ∧ other.2 < high.2 ∧ ∀ x ∈ times, low.2 ≤ x.2 := by
  obtain ⟨low, inLow, high, inHigh, other, inOther, apart, below, above, less⟩ := straddled
  obtain ⟨first, inFirst, least⟩ := times.toFinset.exists_min_image (fun e => e.2.toNat)
    ⟨low, List.mem_toFinset.mpr inLow⟩
  have least {x} (member : x ∈ times) : first.2 ≤ x.2 :=
    UInt64.le_iff_toNat_le.mpr (least x (List.mem_toFinset.mpr member))
  have below_first := UInt64.le_iff_toNat_le.mp (least inLow)
  refine ⟨first, List.mem_toFinset.mp inFirst, high, inHigh, ?_⟩
  by_cases same : first = other
  · exact ⟨low, inLow, fun equal => apart (equal.symm.trans same), by omega, above,
      UInt64.lt_iff_toNat_lt.mpr (by omega), fun x => least⟩
  · exact ⟨other, inOther, same, by omega, above, less, fun x => least⟩

/-- Two entries come first. -/
def leading (first second : Key × Entry) : Iteration where
  order entries :=
    let rest := entries.filter fun e => e ≠ first
    entries.filter (fun e => e = first) ++ (rest.filter (fun e => e = second) ++ rest.filter fun e => e ≠ second)
  perm entries := by
    have parted (p : Key × Entry) (entries : List (Key × Entry)) :
        (entries.filter (fun e => e = p) ++ entries.filter fun e => e ≠ p).Perm entries := by
      simpa only [decide_not] using List.filter_append_perm (fun e => decide (e = p)) entries
    exact ((parted second _).append_left _).trans (parted first entries)

theorem leading_order {entries : List (Key × Entry)} {first second : Key × Entry} (nodup : entries.Nodup)
    (inFirst : first ∈ entries) (inSecond : second ∈ entries) (apart : second ≠ first) :
    ∃ rest, (leading first second).order entries = first :: second :: rest := by
  have only {l : List (Key × Entry)} {e} (nodup : l.Nodup) (member : e ∈ l) :
      l.filter (fun x => x = e) = [e] := by
    rw [List.filter_eq, List.count_eq_one_of_mem nodup member]
    rfl
  have among : second ∈ entries.filter fun e => e ≠ first :=
    List.mem_filter.mpr ⟨inSecond, decide_eq_true apart⟩
  simp only [leading]
  rw [only nodup inFirst, only (nodup.filter _) among]
  exact ⟨_, rfl⟩

/-- An entry above the sign, and then the oldest one, are both kept. -/
theorem collectSize_stuck {low high : Key × Entry} (below : low.2.useTime.toNat < 2 ^ 63)
    (above : 2 ^ 63 ≤ high.2.useTime.toNat) (sized : 0 < high.2.size) (rest : List (Key × Entry))
    (least : ∀ x ∈ rest, low.2.useTime ≤ x.2.useTime) :
    (high :: low :: rest).foldl (collectSize .empty (low.2.size + 1)) ([], 0) =
      ([low, high], (high.2.size + low.2.size : Int)) := by
  have taken : collectSize .empty (low.2.size + 1) ([], 0) high = ([high], (high.2.size : Int)) := by
    have needed : (0 : Int) < low.2.size + 1 := by omega
    simp [collectSize, SortedMap.contains, needed, removeFirst, emplaceOldest]
  have both : collectSize .empty (low.2.size + 1) ([high], (high.2.size : Int)) low =
      ([low, high], (high.2.size + low.2.size : Int)) := by
    have older : low.2.useTime < high.2.useTime := UInt64.lt_iff_toNat_lt.mpr (by omega)
    have needed : ¬(high.2.size + low.2.size - (low.2.size + 1) ≥ (high.2.size : Int)) := by omega
    simp only [collectSize, SortedMap.contains, SortedMap.find?_empty, Option.isSome_none, Bool.false_eq_true,
      if_false, List.head?_cons, Option.any_some, decide_eq_true older, or_true, if_true, removeFirst, needed,
      and_false, emplaceOldest, int64_across below above]
  rw [List.foldl_cons, taken, List.foldl_cons, both]
  induction rest with
  | nil => rfl
  | cons e rest ih =>
      have later := least e List.mem_cons_self
      have enough : ¬(high.2.size + low.2.size : Int) < low.2.size + 1 := by omega
      have passed : collectSize .empty (low.2.size + 1) ([low, high], (high.2.size + low.2.size : Int)) e =
          ([low, high], (high.2.size + low.2.size : Int)) := by
        simp [collectSize, SortedMap.contains, enough, later]
      rw [List.foldl_cons, passed]
      exact ih fun x member => least x (List.mem_cons_of_mem _ member)

/-- An entry of two bytes. -/
def short (e : Key × UInt64) : Key × Entry := (e.1, { useTime := e.2, size := 2 })

theorem short_injective : Function.Injective short := by
  rintro ⟨key, time⟩ ⟨key', time'⟩ same
  simpa [short] using same

theorem sizes_short (times : List (Key × UInt64)) : sizes (times.map short) = 2 * times.length := by
  induction times with
  | nil => rfl
  | cons first rest ih =>
      rw [List.map_cons, sizes_cons, ih, List.length_cons]
      simp only [short]
      omega

/-- A database of short entries with these times. -/
def withTimes (times : SortedMap Key UInt64) : DatabaseObject where
  binlog := { data := [] }
  map := ⟨times.entries.map short, List.pairwise_map.mpr times.sorted⟩
  totalSize := 2 * times.entries.length

/-- The limit asks for three bytes. -/
def limitedSettings {count : Nat} (enough : 3 ≤ count) : Settings :=
  { defaultSettings with
    maxDataSize := 2
    totalSizeLimit := 2 * count - 3
    storesSome := by decide
    sized := by decide
    total := .inr (by omega) }

theorem outside_empty (entries : List (Key × Entry)) : outside .empty entries = entries :=
  List.filter_eq_self.mpr fun _ _ => rfl

theorem withTimes_counted (times : SortedMap Key UInt64) : Counted (withTimes times) {} where
  positive e member := by
    obtain ⟨t, -, rfl⟩ := List.mem_map.mp member
    exact Nat.two_pos
  whole := (sizes_short times.entries).symm
  stale := by
    have all := sizes_split .empty (withTimes times).map.entries
    rw [outside_empty] at all
    have nothing : sizes (within .empty (withTimes times).map.entries) = 0 := by omega
    exact nothing.symm

theorem useTimes_withTimes (times : SortedMap Key UInt64) :
    useTimes (outside .empty (withTimes times).map.entries) = times.entries := by
  rw [outside_empty]
  exact (List.map_map ..).trans (List.map_id _)

/-- The newer entry goes, and an older one is left. -/
theorem straddled_newer_collected {times : SortedMap Key UInt64} (straddled : Straddled times.entries) :
    ∃ settings walk, 0 < settings.totalSizeLimit ∧ ¬Collected settings.totalSizeLimit
      (withTimes times).map.entries {} ((withTimes times).collectSizeStale settings walk {}) := by
  obtain ⟨low, inLow, high, inHigh, other, inOther, apart, below, above, less, least⟩ := straddled.minimal
  have lower : low ≠ high := by
    rintro rfl
    omega
  have third : other ≠ high := by
    rintro rfl
    exact UInt64.lt_irrefl _ less
  have three : 3 ≤ times.entries.length := by
    have part : [low, high, other].Subperm times.entries :=
      List.subperm_of_subset (by simp [lower, apart, third.symm]) (by simp [inLow, inHigh, inOther])
    exact part.length_le
  have inside {e} (member : e ∈ times.entries) : short e ∈ (withTimes times).map.entries :=
    List.mem_map_of_mem member
  obtain ⟨rest, walked⟩ := leading_order (withTimes times).map.nodup (inside inHigh) (inside inLow)
    (short_injective.ne lower)
  have later (x) (member : x ∈ rest) : low.2 ≤ x.2.useTime := by
    have known := ((leading _ _).perm _).subset (walked ▸ List.mem_cons_of_mem _ (List.mem_cons_of_mem _ member))
    obtain ⟨t, inTimes, rfl⟩ := List.mem_map.mp known
    exact least t inTimes
  have stuck := @collectSize_stuck (short low) (short high) below above Nat.two_pos rest later
  have limited : 0 < (limitedSettings three).totalSizeLimit := by
    simp only [limitedSettings]
    omega
  have asked : ((withTimes times).totalSize - ({} : Stale).totalSize - (limitedSettings three).totalSizeLimit : Int) =
      (short low).2.size + 1 := by
    simp only [withTimes, limitedSettings, short]
    omega
  have result : (withTimes times).collectSizeStale (limitedSettings three) (leading (short high) (short low)) {} =
      { keys := (SortedMap.empty.emplace (short low).1 ()).emplace (short high).1 ()
        totalSize := 0 + ((short high).2.size + (short low).2.size) } := by
    rw [collectSizeStale, if_pos limited, asked]
    dsimp only
    rw [if_neg (by omega), walked, stuck]
    rfl
  refine ⟨limitedSettings three, leading (short high) (short low), limited, ?_⟩
  rintro ⟨-, -, -, oldest⟩
  rw [result] at oldest
  have key_ne {a b} (inA : a ∈ times.entries) (inB : b ∈ times.entries) (apart : a ≠ b) : a.1 ≠ b.1 :=
    fun same => apart (times.entry_unique inA inB same)
  have left : short other ∈ outside ((SortedMap.empty.emplace (short low).1 ()).emplace (short high).1 ())
      (withTimes times).map.entries := by
    refine List.mem_filter.mpr ⟨inside inOther, ?_⟩
    rw [Bool.not_eq_true', ← Bool.not_eq_true, SortedMap.contains_emplace, SortedMap.contains_emplace]
    rintro ((found | same) | same)
    · exact Bool.false_ne_true found
    · exact key_ne inOther inLow apart.symm same
    · exact key_ne inOther inHigh third same
  have newer := oldest _ (inside inHigh) rfl (SortedMap.contains_emplace.mpr (.inr rfl)) _ left
  exact UInt64.not_le.mpr less newer

/-- Exactly among use times that are not across the sign, the oldest entries are collected, and enough of them,
for all sizes, limits and orders of the entries. -/
theorem collectSizeStale_collects_iff (times : SortedMap Key UInt64) :
    (∀ settings d walk stale, 0 < settings.totalSizeLimit → Counted d stale →
        useTimes (outside stale.keys d.map.entries) = times.entries →
        Collected settings.totalSizeLimit d.map.entries stale (d.collectSizeStale settings walk stale)) ↔
      ¬Straddled times.entries := by
  constructor
  · intro always straddled
    obtain ⟨settings, walk, limited, fails⟩ := straddled_newer_collected straddled
    exact fails (always settings (withTimes times) walk {} limited (withTimes_counted times)
      (useTimes_withTimes times))
  · intro fine settings d walk stale limited counted same
    exact collectSizeStale_collects settings d walk limited counted (same ▸ fine)

/-- The first time is above the sign. -/
def crossing : SortedMap Key UInt64 :=
  ⟨[(⟨0, 0⟩, 0x8000000000000000), (⟨0, 1⟩, 1), (⟨0, 2⟩, 1)], by decide⟩

/-- The newest entry of three is collected, and an older one is left. -/
theorem newest_entry_collected : Counted (withTimes crossing) {} ∧
    ¬Collected 3 (withTimes crossing).map.entries {}
      ((withTimes crossing).collectSizeStale (limitedSettings le_rfl) ⟨id, .refl⟩ {}) := by
  refine ⟨withTimes_counted crossing, fun collected => ?_⟩
  have newer := collected.oldest (short (⟨0, 0⟩, 0x8000000000000000)) (by decide) (by decide) (by decide)
    (short (⟨0, 2⟩, 1)) (by decide)
  exact absurd newer (by decide)

end DatabaseObject

end IMeDesktop.Storage.Cache
