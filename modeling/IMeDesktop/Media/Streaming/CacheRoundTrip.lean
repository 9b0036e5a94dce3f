import IMeDesktop.Media.Streaming.Slices

/-! # Values of the streaming cache are read back

The parts that a slice or the header can hold are the same after they were written to the
cache and read again. For that a value with gaps must never have a size of one without gaps.
-/

namespace IMeDesktop.Media.Streaming

open Lib

/-- What can be held of something of `size` bytes: parts at multiples of the part size, which are full
or go up to the end. -/
structure Held (size : Nat) (parts : PartsMap) : Prop where
  aligned : ∀ part ∈ parts.entries, part.1 % kPartSize = 0
  inside : ∀ part ∈ parts.entries, part.1 < size
  length : ∀ part ∈ parts.entries, part.2.length = min kPartSize (size - part.1)

variable {size : Nat} {parts : PartsMap}

theorem kPartSize_eq : kPartSize = 131072 := rfl

theorem kInSlice_eq : kInSlice = 8388608 := rfl

theorem kMaxOnlyInHeader_eq : kMaxOnlyInHeader = 10485760 := rfl

theorem partsOnlyInHeader : kMaxOnlyInHeader / kPartSize = 80 := by
  rw [kMaxOnlyInHeader_eq, kPartSize_eq]

theorem toInt32_small {n : Nat} (small : n < 2 ^ 31) : toInt32 n = n := by
  rw [toInt32]
  split <;> omega

theorem toInt32_bits {n : Nat} (bits : n < 2 ^ 32) : (toInt32 n % 2 ^ 32).toNat = n := by
  rw [toInt32]
  split <;> omega

/-! ## The parts one by one -/

theorem takeInt_append {n : Nat} (small : n < 2 ^ 32) (rest : Bytes) :
    takeInt (toLittleEndian 4 n ++ rest) = (some n, rest) := by
  have length := length_toLittleEndian 4 n
  rw [takeInt, if_neg (by simp), List.take_left' length, List.drop_left' length, fromLittleEndian_toLittleEndian small]

theorem takeBytes_append {bytes : Bytes} (filled : bytes ≠ []) (small : bytes.length ≤ kPartSize) (rest : Bytes) :
    takeBytes (bytes ++ rest) bytes.length = (bytes, rest) := by
  have positive := List.length_pos_of_ne_nil filled
  rw [kPartSize_eq] at small
  have notEmpty : ¬ (toInt32 bytes.length ≤ 0 || (bytes ++ rest).length < bytes.length) = true := by
    rw [toInt32_small (by omega)]
    simp
    omega
  rw [takeBytes, if_neg notEmpty, List.take_left, List.drop_left]

/-- A part as it can be read when not more than `maxSize` bytes are expected. -/
def Fits (maxSize : Nat) (part : Nat × Bytes) : Prop :=
  part.2 ≠ [] ∧ part.2.length ≤ kPartSize ∧ part.1 + part.2.length ≤ maxSize

theorem Held.fits (held : Held size parts) {part : Nat × Bytes} (member : part ∈ parts.entries) : Fits size part := by
  have inside := held.inside part member
  have length := held.length part member
  rw [kPartSize_eq] at length
  refine ⟨?_, ?_, ?_⟩
  · apply List.ne_nil_of_length_pos
    omega
  · rw [kPartSize_eq]
    omega
  · omega

theorem parseParts_serializeParts {maxSize : Nat} (bits : maxSize < 2 ^ 32) {parts : List (Nat × Bytes)}
    (fits : ∀ part ∈ parts, Fits maxSize part) (result : PartsMap) (rest : Bytes) :
    parseParts maxSize parts.length result (serializeParts parts ++ rest) =
      (parts.foldl (fun result part => result.emplace part.1 part.2) result, rest) := by
  induction parts generalizing result with
  | nil => rfl
  | cons part parts ih =>
      obtain ⟨filled, small, inside⟩ := fits part List.mem_cons_self
      have positive := List.length_pos_of_ne_nil filled
      have split : serializeParts (part :: parts) ++ rest = toLittleEndian 4 part.1 ++ (toLittleEndian 4 part.2.length ++
          (part.2 ++ (serializeParts parts ++ rest))) := by
        simp [serializeParts]
      rw [List.length_cons, parseParts, split, takeInt_append (by omega)]
      dsimp only
      rw [takeInt_append (by omega)]
      dsimp only [Option.getD_some]
      simp only [takeBytes_append filled small]
      rw [if_neg, ih fun other member => fits other (List.mem_cons_of_mem _ member)]
      · rfl
      · simp only [Bool.or_eq_true, decide_eq_true_eq]
        omega

theorem parseComplexCachedMap_serialize {maxSize : Int} (bits : maxSize = toInt32 size) (small : size < 2 ^ 32)
    (held : Held size parts) (few : parts.size ≤ kMaxOnlyInHeader / kPartSize) (rest : Bytes) :
    parseComplexCachedMap .empty (serializeComplexSlice parts ++ rest) maxSize = (parts, rest) := by
  have fewer : parts.size ≤ 80 := few
  rw [serializeComplexSlice, List.append_assoc, parseComplexCachedMap, takeInt_append (by omega)]
  dsimp only
  by_cases none : parts.size = 0
  · have empty : parts = .empty := SortedMap.ext (List.eq_nil_of_length_eq_zero none)
    rw [if_pos (by simp [none]), empty]
    rfl
  · rw [if_neg (by simp only [none, decide_false, Bool.false_or, decide_eq_true_eq]; omega), bits, toInt32_bits small,
      SortedMap.size, parseParts_serializeParts small fun part member => held.fits member, SortedMap.foldl_emplace_entries]

/-! ## A value without gaps -/

/-- The parts come one after the other. -/
def Consecutive : Nat → List (Nat × Bytes) → Prop
  | _, [] => True
  | offset, part :: parts => part.1 = offset ∧ Consecutive (offset + part.2.length) parts

/-- What is not loaded starts behind the last part only if there is no gap before it. -/
theorem consecutive_of_till {parts : List (Nat × Bytes)} {offset : Nat}
    (spaced : parts.Pairwise fun a b => a.1 + a.2.length ≤ b.1) (behind : ∀ part ∈ parts, offset ≤ part.1)
    (reaches : parts.getLast?.any (findNotLoadedStart parts offset > ·.1) = true) : Consecutive offset parts := by
  induction parts generalizing offset with
  | nil => trivial
  | cons part parts ih =>
      obtain ⟨before, later⟩ := List.pairwise_cons.mp spaced
      have start := behind part List.mem_cons_self
      by_cases here : part.1 = offset
      · refine ⟨here, ?_⟩
        cases parts with
        | nil => trivial
        | cons next rest =>
            apply ih later
            · intro other member
              rw [← here]
              exact before other member
            · rw [findNotLoadedStart, if_pos ⟨here.le, by omega⟩] at reaches
              rw [← here]
              simpa using reaches
      · have stops : findNotLoadedStart (part :: parts) offset = offset := by
          rw [findNotLoadedStart, if_neg]
          omega
        rw [stops] at reaches
        obtain ⟨last, found⟩ : ∃ last, (part :: parts).getLast? = some last :=
          ⟨_, List.getLast?_eq_some_getLast (List.cons_ne_nil _ _)⟩
        have member := behind last (List.mem_of_getLast? found)
        simp [found] at reaches
        omega

theorem Consecutive.end_eq {parts : List (Nat × Bytes)} {offset : Nat} (consecutive : Consecutive offset parts)
    {last : Nat × Bytes} (found : parts.getLast? = some last) :
    offset + (parts.flatMap Prod.snd).length = last.1 + last.2.length := by
  induction parts generalizing offset with
  | nil => cases found
  | cons part parts ih =>
      obtain ⟨here, later⟩ := consecutive
      cases parts with
      | nil =>
          obtain rfl : part = last := by simpa using found
          simp [here]
      | cons next rest =>
          rw [List.getLast?_cons_cons] at found
          have := ih later found
          rw [List.flatMap_cons, List.length_append]
          omega

/-- The value is cut where the parts begin. -/
theorem Consecutive.windows {parts : List (Nat × Bytes)} {k : Nat} {front : Bytes}
    (consecutive : Consecutive (k * kPartSize) parts) (at_ : front.length = k * kPartSize)
    (full : parts.Pairwise fun a _ => a.2.length = kPartSize) (small : ∀ part ∈ parts, part.2.length ≤ kPartSize) :
    (List.range' k parts.length).map (fun i =>
      (i * kPartSize, window (front ++ parts.flatMap Prod.snd) (i * kPartSize) kPartSize)) = parts := by
  induction parts generalizing k front with
  | nil => rfl
  | cons part parts ih =>
      obtain ⟨here, later⟩ := consecutive
      obtain ⟨isFull, others⟩ := List.pairwise_cons.mp full
      have short := small part List.mem_cons_self
      have first : window (front ++ (part :: parts).flatMap Prod.snd) (k * kPartSize) kPartSize = part.2 := by
        rw [window, List.drop_left' at_, List.flatMap_cons]
        cases parts with
        | nil => rw [List.flatMap_nil, List.append_nil, List.take_of_length_le short]
        | cons next rest => rw [List.take_left' (isFull next List.mem_cons_self)]
      rw [List.length_cons, List.range'_succ, List.map_cons, first, ← here]
      congr 1
      cases parts with
      | nil => rfl
      | cons next rest =>
          have width := isFull next List.mem_cons_self
          have next_ : (k + 1) * kPartSize = k * kPartSize + part.2.length := by rw [width, Nat.add_mul, Nat.one_mul]
          have rest_ := @ih (k + 1) (front ++ part.2) (next_ ▸ later) (by rw [List.length_append, at_, next_]) others
            fun other member => small other (List.mem_cons_of_mem _ member)
          rw [List.append_assoc] at rest_
          exact rest_

theorem Consecutive.length_bounds {parts : List (Nat × Bytes)}
    (full : parts.Pairwise fun a _ => a.2.length = kPartSize)
    (small : ∀ part ∈ parts, part.2 ≠ [] ∧ part.2.length ≤ kPartSize) :
    ((parts.flatMap Prod.snd).length + kPartSize - 1) / kPartSize = parts.length := by
  induction parts with
  | nil => rfl
  | cons part parts ih =>
      obtain ⟨isFull, others⟩ := List.pairwise_cons.mp full
      obtain ⟨filled, short⟩ := small part List.mem_cons_self
      have positive := List.length_pos_of_ne_nil filled
      have rest := ih others fun other member => small other (List.mem_cons_of_mem _ member)
      rw [List.flatMap_cons, List.length_append, List.length_cons, ← rest]
      rw [kPartSize_eq] at short isFull ⊢
      cases parts with
      | nil =>
          simp only [List.flatMap_nil, List.length_nil]
          omega
      | cons next others =>
          have := isFull next List.mem_cons_self
          omega

theorem Held.spaced (held : Held size parts) :
    parts.entries.Pairwise fun a b => a.2.length = kPartSize ∧ a.1 + a.2.length ≤ b.1 := by
  apply List.Pairwise.imp_of_mem _ parts.sorted
  intro a b first second less
  have alignedA := held.aligned a first
  have alignedB := held.aligned b second
  have inside := held.inside b second
  have length := held.length a first
  rw [kPartSize_eq] at alignedA alignedB length ⊢
  omega

/-- The writer's test for a value without gaps. -/
def continuous (parts : PartsMap) : Bool := parts.entries.getLast?.any (findNotLoadedStart parts.entries 0 > ·.1)

theorem Held.consecutive (held : Held size parts) (whole : continuous parts = true) : Consecutive 0 parts.entries :=
  consecutive_of_till (held.spaced.imp And.right) (fun _ _ => Nat.zero_le _) whole

theorem Held.length_contiguous (held : Held size parts) (whole : continuous parts = true) :
    (parts.entries.flatMap Prod.snd).length ≤ size ∧
      ((parts.entries.flatMap Prod.snd).length % kPartSize = 0 ∨ (parts.entries.flatMap Prod.snd).length = size) := by
  have consecutive := held.consecutive whole
  cases found : parts.entries.getLast? with
  | none =>
      rw [List.getLast?_eq_none_iff.mp found]
      exact ⟨Nat.zero_le _, .inl rfl⟩
  | some last =>
      have ends := consecutive.end_eq found
      have member := List.mem_of_getLast? found
      have aligned := held.aligned last member
      have inside := held.inside last member
      have length := held.length last member
      rw [kPartSize_eq] at aligned length ⊢
      omega

theorem Held.parse_contiguous (held : Held size parts) (whole : continuous parts = true) :
    parseCachedMap .empty (parts.entries.flatMap Prod.snd) size = (parts, []) := by
  obtain ⟨small, contiguous⟩ := held.length_contiguous whole
  have consecutive : Consecutive (0 * kPartSize) parts.entries := by simpa using held.consecutive whole
  have full := held.spaced.imp And.left
  have bounds : ∀ part ∈ parts.entries, part.2 ≠ [] ∧ part.2.length ≤ kPartSize :=
    fun part member => ⟨(held.fits member).1, (held.fits member).2.1⟩
  have windows := @Consecutive.windows _ 0 [] consecutive (by simp) full fun part member => (bounds part member).2
  rw [List.nil_append, ← List.range_eq_range'] at windows
  have taken : isContiguousSerialization (parts.entries.flatMap Prod.snd).length size = true := by
    simp only [isContiguousSerialization, Bool.or_eq_true, decide_eq_true_eq, Nat.cast_inj]
    exact contiguous
  rw [parseCachedMap, if_pos taken, if_neg (by omega), Consecutive.length_bounds full bounds]
  dsimp only
  rw [List.foldl_map]
  have folded := congrArg (List.foldl (fun (m : PartsMap) e => m.emplace e.1 e.2) .empty) windows
  rw [List.foldl_map, SortedMap.foldl_emplace_entries] at folded
  rw [folded]

/-! ## A value with gaps -/

theorem padded_eq (maxSize : Int) (data : Bytes) :
    ∃ zeros, zeros ≤ 2 ∧ padded maxSize data = data ++ List.replicate zeros 0 ∧
      isContiguousSerialization (data.length + zeros) maxSize = false := by
  have cases_ := not_contiguous_thrice data.length maxSize
  cases first : isContiguousSerialization data.length maxSize with
  | false => exact ⟨0, by omega, by rw [padded, if_neg (by simp [first])]; simp, first⟩
  | true =>
      cases second : isContiguousSerialization (data.length + 1) maxSize with
      | false =>
          refine ⟨1, by omega, ?_, second⟩
          rw [padded, if_pos first, padded, if_neg (by simp [second])]
          rfl
      | true =>
          have third : isContiguousSerialization (data.length + 2) maxSize = false := by simpa [first, second] using cases_
          refine ⟨2, le_rfl, ?_, third⟩
          rw [padded, if_pos first, padded, if_pos (by simpa using second), padded, if_neg (by simp [third])]
          simp

theorem parse_padded {maxSize : Int} (bits : maxSize = toInt32 size) (small : size < 2 ^ 32) (held : Held size parts)
    (few : parts.size ≤ kMaxOnlyInHeader / kPartSize) (more : Bytes) :
    ∃ zeros ≤ 2, parseCachedMap .empty (padded maxSize (serializeComplexSlice parts ++ more)) maxSize =
      (parts, more ++ List.replicate zeros 0) := by
  obtain ⟨zeros, atMost, same, apart⟩ := padded_eq maxSize (serializeComplexSlice parts ++ more)
  refine ⟨zeros, atMost, ?_⟩
  rw [same, parseCachedMap, List.length_append, List.length_replicate, apart, if_neg Bool.false_ne_true, List.append_assoc]
  exact parseComplexCachedMap_serialize bits small held few _

/-- A value is written without gaps if it can be. -/
def serialized (maxSize : Int) (parts : PartsMap) : Bytes :=
  if continuous parts then parts.entries.flatMap Prod.snd else padded maxSize (serializeComplexSlice parts)

theorem parse_serialized {maxSize : Int} (bits : maxSize = toInt32 size) (small : size < 2 ^ 31) (held : Held size parts)
    (few : parts.size ≤ kMaxOnlyInHeader / kPartSize) :
    (parseCachedMap .empty (serialized maxSize parts) maxSize).1 = parts ∧
      isContiguousSerialization (serialized maxSize parts).length maxSize = continuous parts := by
  rw [serialized]
  cases whole : continuous parts with
  | true =>
      rw [toInt32_small small] at bits
      rw [if_pos rfl, bits, held.parse_contiguous whole]
      refine ⟨rfl, ?_⟩
      simp only [isContiguousSerialization, Bool.or_eq_true, decide_eq_true_eq, Nat.cast_inj]
      exact (held.length_contiguous whole).2
  | false =>
      obtain ⟨zeros, -, parsed⟩ := parse_padded bits (by omega) held few []
      obtain ⟨more, -, same, apart⟩ := padded_eq maxSize (serializeComplexSlice parts)
      rw [List.append_nil] at parsed
      rw [if_neg Bool.false_ne_true, parsed]
      refine ⟨rfl, ?_⟩
      rw [same, List.length_append, List.length_replicate]
      exact apart

/-! ## The slices -/

theorem Held.size_le (held : Held size parts) : parts.size ≤ (size + kPartSize - 1) / kPartSize := by
  have ordered : (parts.entries.map fun part => part.1 / kPartSize).Pairwise (· < ·) := by
    apply List.pairwise_map.mpr
    apply List.Pairwise.imp_of_mem _ parts.sorted
    intro a b first second less
    have alignedA := held.aligned a first
    have alignedB := held.aligned b second
    rw [kPartSize_eq] at alignedA alignedB ⊢
    omega
  have below : (parts.entries.map fun part => part.1 / kPartSize).toFinset ⊆
      Finset.range ((size + kPartSize - 1) / kPartSize) := by
    intro i member
    obtain ⟨part, there, rfl⟩ := List.mem_map.mp (List.mem_toFinset.mp member)
    have inside := held.inside part there
    rw [Finset.mem_range, kPartSize_eq]
    omega
  have counted := Finset.card_le_card below
  rw [List.toFinset_card_of_nodup (ordered.imp ne_of_lt), List.length_map, Finset.card_range] at counted
  exact counted

/-- Few parts without gaps are all in the first slice. -/
theorem Held.good_of_continuous (held : Held size parts) (few : parts.size ≤ kMaxPartsInHeader)
    (whole : continuous parts = true) : parts.entries.countP (kInSlice ≤ ·.1) = 0 := by
  have bound : ∀ (l : List (Nat × Bytes)) (offset : Nat), Consecutive offset l → (∀ part ∈ l, part.2.length ≤ kPartSize) →
      ∀ part ∈ l, part.1 < offset + l.length * kPartSize := by
    intro l
    induction l with
    | nil => exact nofun
    | cons first rest ih =>
        intro offset ⟨here, later⟩ small part member
        have short := small first List.mem_cons_self
        rw [kPartSize_eq] at short
        rw [List.length_cons, kPartSize_eq]
        obtain rfl | inside := List.mem_cons.mp member
        · omega
        · have := ih _ later (fun other member => small other (List.mem_cons_of_mem _ member)) part inside
          rw [kPartSize_eq] at this
          omega
  apply List.countP_eq_zero.mpr
  intro part member
  have below := bound _ 0 (held.consecutive whole) (fun other there => (held.fits there).2.1) part member
  have few : parts.entries.length ≤ 64 := few
  rw [kPartSize_eq] at below
  rw [kInSlice_eq, decide_eq_true_eq]
  omega

theorem slicesCount_eq {count : Nat} (known : slicesCount size = .ok count) (positive : 0 < count)
    (bits : size < 2 ^ 32) : count = (size + kInSlice - 1) / kInSlice ∧ count < 511 := by
  rw [slicesCount] at known
  split at known
  · rename_i few
    have same := Except.ok.inj known
    rw [kInSlice_eq] at few same ⊢
    omega
  · cases known

namespace Slices

/-- What the slices and the header of a file hold. -/
structure Held (s : Slices) : Prop where
  positive : 0 < s.size
  bits : s.size < 2 ^ 32
  count : if s.isFullInHeader then s.data = [] else slicesCount s.size = .ok s.data.length
  header : Streaming.Held s.size s.header.parts
  few : s.isFullInHeader = false → s.header.parts.size ≤ kMaxPartsInHeader
  slices : ∀ i slice, s.data[i]? = some slice → Streaming.Held (s.sliceSize (i + 1)) slice.parts

variable {s : Slices}

theorem Held.sliceSize_le (held : s.Held) {i : Nat} {slice : Slice} (there : s.data[i]? = some slice) :
    maxSliceSize (i + 1) s.size = .ok (toInt32 (s.sliceSize (i + 1))) ∧ s.sliceSize (i + 1) ≤ kInSlice := by
  have inside := (List.getElem?_eq_some_iff.mp there).1
  have count := held.count
  split at count
  · rw [count] at inside
    cases inside
  · obtain ⟨exact_, few⟩ := slicesCount_eq count (by omega) held.bits
    rw [kInSlice_eq] at exact_
    have last : i + 1 = s.data.length → s.sliceSize (i + 1) = s.size - i * kInSlice := by
      intro last
      rw [sliceSize, if_neg (by omega), Nat.add_sub_cancel]
    have before : i + 1 ≠ s.data.length → s.sliceSize (i + 1) = kInSlice := by
      intro before
      rw [sliceSize, if_pos (by omega)]
    rw [maxSliceSize, if_neg (Nat.succ_ne_zero i), count]
    simp only [bind, Except.bind, pure, Except.pure]
    by_cases here : i + 1 = s.data.length
    · rw [if_pos here, last here, Nat.add_sub_cancel]
      refine ⟨rfl, ?_⟩
      rw [kInSlice_eq]
      omega
    · rw [if_neg here, before here]
      exact ⟨rfl, le_rfl⟩

/-- The number under which a slice is put to the cache. -/
def written (s : Slices) (sliceNumber : Nat) : Nat := if s.isGoodHeader && sliceNumber = 1 then 0 else sliceNumber

def included (s : Slices) (sliceNumber : Nat) : Option PartsMap :=
  if s.isGoodHeader && sliceNumber = 0 then s.data[0]?.map (·.parts.without s.header.parts) else none

theorem serializeAndUnload_ok {number : Nat} {slice : Slice} (there : s.slice? number = some slice)
    (filled : slice.parts.isEmpty = false) (plain : (s.isGoodHeader && decide (number = 0)) = false) {maxSize : Int}
    (size : maxSliceSize number s.size = .ok maxSize) :
    ∃ s', s.serializeAndUnload number = .ok (⟨number, serialized maxSize slice.parts⟩, s') := by
  rw [serializeAndUnload, there]
  dsimp only
  rw [filled, if_neg Bool.false_ne_true, plain, if_neg Bool.false_ne_true, serialized, continuous]
  split
  · exact ⟨_, rfl⟩
  · rw [if_neg Bool.false_ne_true]
    simp only [bind, Except.bind, size, List.append_nil]
    exact ⟨_, rfl⟩

theorem serializeAndUnload_good {first : Slice} (good : s.isGoodHeader = true) (filled : s.header.parts.isEmpty = false)
    (there : s.data[0]? = some first) (loaded : first.flags.loadedFromCache = true) :
    ∃ s', s.serializeAndUnload 0 = .ok (⟨0, padded (toInt32 s.size) (serializeComplexSlice s.header.parts ++
      serializeComplexSlice (first.parts.without s.header.parts))⟩, s') := by
  rw [serializeAndUnload, slice?, if_pos rfl]
  dsimp only
  rw [filled, if_neg Bool.false_ne_true]
  have never : (s.header.parts.entries.getLast?.any fun part => decide (0 > part.1)) = false := by
    cases s.header.parts.entries.getLast? <;> simp
  simp only [good, decide_true, Bool.and_self, if_true, never, Bool.false_eq_true, if_false]
  rw [serializeAndUnloadFirstSliceNoHeader, there]
  dsimp only
  rw [if_pos loaded, SortedMap.foldl_erase]
  exact ⟨_, rfl⟩

theorem parseCacheEntry_eq {data : Bytes} {number size : Nat} {maxSize : Int} (known : maxSliceSize number size = .ok maxSize) :
    parseCacheEntry data number size =
      parseIncluded (parseCachedMap .empty data maxSize).1 (parseCachedMap .empty data maxSize).2 number size := by
  rw [parseCacheEntry, known]
  rfl

theorem parseIncluded_good {parts : PartsMap} {remaining : Bytes} {size : Nat} {maxSize : Int}
    (good : Streaming.computeIsGoodHeader size parts = true) (known : maxSliceSize 1 size = .ok maxSize) :
    parseIncluded parts remaining 0 size = .ok ⟨parts, some (parseCachedMap .empty remaining maxSize).1⟩ := by
  rw [parseIncluded, good, known, if_pos (by simp)]
  rfl

theorem parseCacheEntry_plain {data : Bytes} {number size : Nat} {maxSize : Int} {parts : PartsMap}
    (known : maxSliceSize number size = .ok maxSize) (parsed : (parseCachedMap .empty data maxSize).1 = parts)
    (plain : (decide (number = 0) && Streaming.computeIsGoodHeader size parts) = false) :
    parseCacheEntry data number size = .ok ⟨parts, none⟩ := by
  rw [parseCacheEntry_eq known, parsed, parseIncluded, plain, if_neg Bool.false_ne_true]

theorem length_serializeParts {parts : List (Nat × Bytes)} (full : ∀ part ∈ parts, part.2.length = kPartSize) :
    (serializeParts parts).length = parts.length * (8 + kPartSize) := by
  induction parts with
  | nil => rfl
  | cons part parts ih =>
      have here := full part List.mem_cons_self
      have rest := ih fun other member => full other (List.mem_cons_of_mem _ member)
      rw [serializeParts] at rest ⊢
      rw [List.flatMap_cons, List.length_append, rest, List.length_append, List.length_append, length_toLittleEndian,
        length_toLittleEndian, here, List.length_cons]
      ring

/-- The first slice behind a good header is never of the size of one without gaps. -/
theorem parse_included {parts : PartsMap} (held : Streaming.Held kInSlice parts) {zeros : Nat} (atMost : zeros ≤ 2) :
    (parseCachedMap .empty (serializeComplexSlice parts ++ List.replicate zeros 0) kInSlice).1 = parts := by
  have full : ∀ part ∈ parts.entries, part.2.length = kPartSize := by
    intro part member
    have aligned := held.aligned part member
    have inside := held.inside part member
    have length := held.length part member
    rw [kInSlice_eq] at inside length
    rw [kPartSize_eq] at aligned length ⊢
    omega
  have few : parts.size ≤ 64 := by
    have := held.size_le
    rw [kInSlice_eq, kPartSize_eq] at this
    omega
  have length : (serializeComplexSlice parts ++ List.replicate zeros 0).length =
      4 + parts.size * (8 + kPartSize) + zeros := by
    rw [serializeComplexSlice, List.length_append, List.length_append, length_toLittleEndian, length_serializeParts full,
      List.length_replicate, SortedMap.size]
  have apart : isContiguousSerialization (serializeComplexSlice parts ++ List.replicate zeros 0).length kInSlice = false := by
    rw [isContiguousSerialization, Bool.or_eq_false_iff, decide_eq_false_iff_not, decide_eq_false_iff_not, length]
    rw [kInSlice_eq, kPartSize_eq]
    omega
  have small : kInSlice < 2 ^ 31 := by
    rw [kInSlice_eq]
    norm_num
  have bits : kInSlice < 2 ^ 32 := small.trans (by norm_num)
  have fewer : parts.size ≤ kMaxOnlyInHeader / kPartSize := by
    rw [partsOnlyInHeader]
    exact few.trans (by norm_num)
  have parsed := @parseComplexCachedMap_serialize kInSlice parts kInSlice (toInt32_small small).symm bits held fewer
    (List.replicate zeros 0)
  rw [parseCachedMap, apart, if_neg Bool.false_ne_true, parsed]

theorem Held.without (held : s.Held) {first : Slice} (there : s.data[0]? = some first)
    (big : s.isFullInHeader = false) : maxSliceSize 1 s.size = .ok kInSlice ∧
      Streaming.Held kInSlice (first.parts.without s.header.parts) := by
  have inside := (List.getElem?_eq_some_iff.mp there).1
  have count := held.count
  rw [big, if_neg Bool.false_ne_true] at count
  obtain ⟨exact_, -⟩ := slicesCount_eq count inside held.bits
  have several : 1 < s.data.length := by
    rw [isFullInHeader, Streaming.isFullInHeader, kMaxOnlyInHeader_eq, decide_eq_false_iff_not] at big
    rw [kInSlice_eq] at exact_
    omega
  have size : s.sliceSize 1 = kInSlice := if_pos several
  obtain ⟨known, -⟩ := held.sliceSize_le there
  have parts := held.slices 0 first there
  rw [size] at parts
  have small : kInSlice < 2 ^ 31 := by
    rw [kInSlice_eq]
    norm_num
  rw [Nat.zero_add, size, toInt32_small small] at known
  have sub : ∀ part ∈ (first.parts.without s.header.parts).entries, part ∈ first.parts.entries :=
    fun part member => List.mem_of_mem_filter member
  exact ⟨known, fun part member => parts.aligned part (sub part member), fun part member => parts.inside part (sub part member),
    fun part member => parts.length part (sub part member)⟩

/-- What is put to the cache is read back: the parts, and those of the first slice that come with a good header. Its
size says whether it was written without gaps. -/
theorem parseCacheEntry_serialized (held : s.Held) (mode : s.headerMode = s.modeFromHeader) {number : Nat} {slice : Slice}
    (there : s.slice? (s.written number) = some slice) (inside : number ≤ s.data.length)
    (filled : slice.parts.isEmpty = false)
    (first : s.isGoodHeader = true → s.written number = 0 →
      ∃ first, s.data[0]? = some first ∧ first.flags.loadedFromCache = true) :
    ∃ saved s' maxSize, s.serializeAndUnloadSlice number = .ok (saved, s') ∧ saved.number = s.written number ∧
      parseCacheEntry saved.data saved.number s.size = .ok ⟨slice.parts, s.included (s.written number)⟩ ∧
      maxSliceSize saved.number s.size = .ok maxSize ∧
      isContiguousSerialization saved.data.length maxSize =
        (!(s.isGoodHeader && decide (s.written number = 0)) && continuous slice.parts) := by
  have known : s.headerMode ≠ .unknown ∧ s.headerMode ≠ .noCache := by
    rw [mode, modeFromHeader]
    split_ifs <;> exact ⟨nofun, nofun⟩
  have unfolded : s.serializeAndUnloadSlice number = s.serializeAndUnload (s.written number) := by
    rw [serializeAndUnloadSlice, if_neg, written]
    rintro (unknown | noCache | outside)
    · exact known.1 unknown
    · exact known.2 noCache
    · omega
  rw [unfolded]
  generalize s.written number = n at there first
  cases kind : s.isGoodHeader && decide (n = 0) with
  | true =>
      obtain ⟨good, zero⟩ := Bool.and_eq_true_iff.mp kind
      obtain rfl : n = 0 := by simpa using zero
      obtain rfl : s.header = slice := by simpa [slice?] using there
      obtain ⟨first, here, loaded⟩ := first good rfl
      have isGood : s.isFullInHeader = false ∧ s.computeIsGoodHeader = true := by
        have good : s.headerMode = .good := by simpa [isGoodHeader] using good
        rw [mode, modeFromHeader] at good
        split_ifs at good with full goodHeader
        exact ⟨by simpa using full, goodHeader⟩
      obtain ⟨s', serialized⟩ := serializeAndUnload_good good filled here loaded
      obtain ⟨size, held'⟩ := held.without here isGood.1
      have few : s.header.parts.size ≤ kMaxOnlyInHeader / kPartSize := by
        rw [partsOnlyInHeader]
        exact (held.few isGood.1).trans (by norm_num [kMaxPartsInHeader])
      obtain ⟨zeros, atMost, parsed⟩ := parse_padded rfl held.bits held.header few
        (serializeComplexSlice (first.parts.without s.header.parts))
      obtain ⟨more, -, same, apart⟩ := padded_eq (toInt32 s.size) (serializeComplexSlice s.header.parts ++
        serializeComplexSlice (first.parts.without s.header.parts))
      refine ⟨_, s', toInt32 s.size, serialized, rfl, ?_, rfl, ?_⟩
      · have goodParts : Streaming.computeIsGoodHeader s.size s.header.parts = true := isGood.2
        have header : maxSliceSize 0 s.size = .ok (toInt32 s.size) := rfl
        rw [parseCacheEntry_eq header, parsed, parseIncluded_good goodParts size, parse_included held' atMost, included,
          kind, if_pos rfl, here]
        rfl
      · rw [same, List.length_append, List.length_replicate, apart]
        rfl
  | false =>
      have plain : s.included n = none := by rw [included, kind, if_neg Bool.false_ne_true]
      rw [plain, Bool.not_false, Bool.true_and]
      by_cases zero : n = 0
      · subst zero
        obtain rfl : s.header = slice := by simpa [slice?] using there
        obtain ⟨s', done⟩ := serializeAndUnload_ok there filled kind rfl
        suffices read : (parseCachedMap .empty (serialized (toInt32 s.size) s.header.parts) (toInt32 s.size)).1 =
              s.header.parts ∧
            isContiguousSerialization (serialized (toInt32 s.size) s.header.parts).length (toInt32 s.size) =
              continuous s.header.parts ∧ s.computeIsGoodHeader = false by
          exact ⟨_, s', toInt32 s.size, done, rfl, parseCacheEntry_plain rfl read.1 (by simpa [computeIsGoodHeader] using read.2.2), rfl,
            read.2.1⟩
        have notGood : s.headerMode ≠ .good := by simpa [isGoodHeader] using kind
        rw [mode, modeFromHeader] at notGood
        cases full : s.isFullInHeader with
        | true =>
            have small := full
            rw [isFullInHeader, Streaming.isFullInHeader, decide_eq_true_eq, kMaxOnlyInHeader_eq] at small
            have few := held.header.size_le
            rw [kPartSize_eq] at few
            obtain ⟨parsed, form⟩ := parse_serialized rfl (by omega) held.header (by rw [partsOnlyInHeader]; omega)
            exact ⟨parsed, form, by rw [computeIsGoodHeader, Streaming.computeIsGoodHeader, ← isFullInHeader, full]; rfl⟩
        | false =>
            have few := held.few full
            have bad : s.computeIsGoodHeader = false := by
              cases good : s.computeIsGoodHeader with
              | false => rfl
              | true => simp [full, good] at notGood
            have gaps : continuous s.header.parts = false := by
              cases whole : continuous s.header.parts with
              | false => rfl
              | true =>
                  have none := held.header.good_of_continuous few whole
                  rw [computeIsGoodHeader, Streaming.computeIsGoodHeader, ← isFullInHeader, full, none] at bad
                  cases bad
            have fewer : s.header.parts.size ≤ kMaxOnlyInHeader / kPartSize := by
              rw [partsOnlyInHeader]
              exact few.trans (by norm_num [kMaxPartsInHeader])
            obtain ⟨zeros, -, parsed⟩ := parse_padded rfl held.bits held.header fewer []
            obtain ⟨more, -, same, apart⟩ := padded_eq (toInt32 s.size) (serializeComplexSlice s.header.parts)
            rw [List.append_nil] at parsed
            rw [serialized, gaps, if_neg Bool.false_ne_true, parsed, same, List.length_append, List.length_replicate]
            exact ⟨rfl, apart, bad⟩
      · obtain ⟨i, rfl⟩ := Nat.exists_eq_succ_of_ne_zero zero
        have here : s.data[i]? = some slice := by simpa [slice?] using there
        obtain ⟨size, small⟩ := held.sliceSize_le here
        rw [kInSlice_eq] at small
        have held' := held.slices i slice here
        have few : slice.parts.size ≤ kMaxOnlyInHeader / kPartSize := by
          have := held'.size_le
          rw [kPartSize_eq] at this
          rw [partsOnlyInHeader]
          omega
        obtain ⟨s', done⟩ := serializeAndUnload_ok there filled kind size
        obtain ⟨parsed, form⟩ := parse_serialized rfl (by omega) held' few
        exact ⟨_, s', _, done, rfl, parseCacheEntry_plain size parsed (by simp), size, form⟩

def zeros : Bytes := List.replicate kPartSize 0

/-- A file of a hundred parts, of which two are in the first slice and one of them in the header. -/
def hundredParts : Slices where
  data := [{
    parts := ⟨[(0, zeros), (kPartSize, zeros)], by simp [kPartSize_eq]⟩
    flags := { loadedFromCache := true } }, {}]
  header := { parts := ⟨[(0, zeros)], List.pairwise_singleton _ _⟩ }
  size := 100 * kPartSize
  headerMode := .good

theorem hundredParts_size : hundredParts.size = 13107200 := rfl

theorem hundredParts_big : hundredParts.isFullInHeader = false := by
  rw [isFullInHeader, Streaming.isFullInHeader, decide_eq_false_iff_not, hundredParts_size, kMaxOnlyInHeader_eq]
  omega

theorem held_zeros {size : Nat} {parts : PartsMap} (aligned : ∀ part ∈ parts.entries, part.1 % kPartSize = 0)
    (inside : ∀ part ∈ parts.entries, part.1 + kPartSize ≤ size) (same : ∀ part ∈ parts.entries, part.2 = zeros) :
    Streaming.Held size parts := by
  have length : zeros.length = kPartSize := List.length_replicate
  refine ⟨aligned, fun part member => ?_, fun part member => ?_⟩
  · have := inside part member
    rw [kPartSize_eq] at this
    omega
  · have := inside part member
    rw [same part member, length]
    omega

theorem hundredParts_held : hundredParts.Held := by
  have two : (hundredParts.size + kInSlice - 1) % 2 ^ 32 / kInSlice = 2 := by
    rw [hundredParts_size, kInSlice_eq]
    norm_num
  refine ⟨?_, ?_, ?_, ?_, ?_, ?_⟩
  · rw [hundredParts_size]
    norm_num
  · rw [hundredParts_size]
    norm_num
  · rw [hundredParts_big, if_neg Bool.false_ne_true, slicesCount, two]
    rfl
  · rw [hundredParts_size]
    apply held_zeros <;> simp [hundredParts, kPartSize_eq]
  · intro _
    simp [hundredParts, SortedMap.size, kMaxPartsInHeader]
  · intro i slice there
    rcases i with _ | _ | i
    · obtain rfl : _ = slice := Option.some.inj there
      have size : hundredParts.sliceSize (0 + 1) = 8388608 := rfl
      rw [size]
      apply held_zeros <;> simp [kPartSize_eq]
    · obtain rfl : _ = slice := Option.some.inj there
      apply held_zeros <;> simp
    · cases there

theorem hundredParts_mode : hundredParts.headerMode = hundredParts.modeFromHeader := by
  have none : hundredParts.header.parts.entries.countP (kInSlice ≤ ·.1) = 0 := by
    simp [hundredParts, kInSlice_eq]
  have good : hundredParts.computeIsGoodHeader = true := by
    have big : Streaming.isFullInHeader hundredParts.size = false := hundredParts_big
    rw [computeIsGoodHeader, Streaming.computeIsGoodHeader, big, none]
    rfl
  rw [modeFromHeader, hundredParts_big, good]
  rfl

theorem hundredParts_parsed :
    ∃ saved s' maxSize, hundredParts.serializeAndUnloadSlice 1 = .ok (saved, s') ∧ saved.number = 0 ∧
      parseCacheEntry saved.data saved.number hundredParts.size =
        .ok ⟨hundredParts.header.parts, hundredParts.included 0⟩ ∧
      maxSliceSize saved.number hundredParts.size = .ok maxSize ∧
      isContiguousSerialization saved.data.length maxSize = (!true && continuous hundredParts.header.parts) :=
  parseCacheEntry_serialized hundredParts_held hundredParts_mode rfl (by decide) rfl fun _ _ => ⟨_, rfl, rfl⟩

end Slices

end IMeDesktop.Media.Streaming
