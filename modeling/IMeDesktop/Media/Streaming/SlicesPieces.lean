import IMeDesktop.Lib.Attempt
import IMeDesktop.Media.Streaming.Slices

/-! # What is streamed is the file

As long as the loader and the cache have parts of one file, each buffer that is filled has the bytes of the file,
whatever was unloaded and read back in between. The program may be terminated by an assertion.
-/

namespace IMeDesktop.Media.Streaming

open Lib

/-- Any assertion may fail, but the one of the copying. -/
def otherAssertion (assertion : Assertion) : Prop := assertion ≠ .copyLoaded

theorem fails {α : Type} {post : α → Prop} {assertion : Assertion} (other : assertion ≠ .copyLoaded) :
    Yields otherAssertion post (.error assertion) := other

/-! ## Pieces of a file -/

section Pieces

variable {file bytes : Bytes} {base offset : Nat} {parts added : List (Nat × Bytes)} {map : PartsMap}

/-- A part of the file at an offset from a place on, which is full or goes up to the end. -/
structure Piece (file : Bytes) (base offset : Nat) (bytes : Bytes) : Prop where
  aligned : offset % kPartSize = 0
  inside : base + offset < file.length
  bytes : bytes = window file (base + offset) kPartSize

theorem Piece.length (piece : Piece file base offset bytes) :
    bytes.length = min kPartSize (file.length - (base + offset)) := by
  rw [piece.bytes, window, List.length_take, List.length_drop]

theorem Piece.of_file (piece : Piece file base offset bytes) : bytes <+: file.drop (base + offset) := by
  rw [piece.bytes]
  exact List.take_prefix _ _

/-- A part of the header is the same part of its slice. -/
theorem Piece.moved (piece : Piece file 0 offset bytes) :
    Piece file (offset / kInSlice * kInSlice) (offset - offset / kInSlice * kInSlice) bytes := by
  obtain ⟨aligned, inside, same⟩ := piece
  have place := Nat.add_sub_of_le (Nat.div_mul_le_self offset kInSlice)
  rw [Nat.zero_add] at inside same
  refine ⟨?_, place.symm ▸ inside, place.symm ▸ same⟩
  have size : kPartSize = 131072 := rfl
  have width : kInSlice = 8388608 := rfl
  rw [size] at aligned ⊢
  rw [width]
  omega

/-- Parts of a file from a place on. -/
def Pieces (file : Bytes) (base : Nat) (parts : List (Nat × Bytes)) : Prop :=
  ∀ part ∈ parts, Piece file base part.1 part.2

theorem Pieces.emplace (pieces : Pieces file base map.entries) (piece : Piece file base offset bytes) :
    Pieces file base (map.emplace offset bytes).entries := by
  intro part member
  rcases SortedMap.mem_emplace.mp member with old | ⟨rfl, -⟩
  · exact pieces part old
  · exact piece

theorem Pieces.emplaceAll (pieces : Pieces file base map.entries) (more : Pieces file base added) :
    Pieces file base (added.foldl (fun parts part => parts.emplace part.1 part.2) map).entries := by
  induction added generalizing map with
  | nil => exact pieces
  | cons part added ih =>
      obtain ⟨first, rest⟩ := List.forall_mem_cons.mp more
      exact ih (pieces.emplace first) rest

theorem Piece.window (piece : Piece file base offset bytes) {filled till : Nat} (starts : offset ≤ filled)
    (inside : filled ≤ till) (ends : till ≤ offset + bytes.length) :
    Lib.window bytes (filled - offset) (till - filled) = Lib.window file (base + filled) (till - filled) := by
  have length := piece.length
  rw [piece.bytes, window_window (by omega)]
  congr 1
  omega

/-- One part is copied, and the next ones behind it. -/
theorem copyLoaded_cons (piece : Piece file base offset bytes) {filled till : Nat} (starts : offset ≤ filled)
    (some : filled < min (offset + bytes.length) till)
    (later : Yields otherAssertion
      (· = window file (base + min (offset + bytes.length) till) (till - min (offset + bytes.length) till))
      (copyLoaded parts (min (offset + bytes.length) till) till)) :
    Yields otherAssertion (· = window file (base + filled) (till - filled))
      (copyLoaded ((offset, bytes) :: parts) filled till) := by
  unfold copyLoaded
  simp only
  rw [if_pos ⟨starts, some⟩]
  have short := Nat.min_le_left (offset + bytes.length) till
  have upper := Nat.min_le_right (offset + bytes.length) till
  generalize min (offset + bytes.length) till = copyTill at *
  refine Yields.map (later.imp fun more same => ?_)
  have next : base + copyTill = base + filled + (copyTill - filled) := by omega
  have size : till - filled = copyTill - filled + (till - copyTill) := by omega
  rw [same, piece.window starts some.le short, next, size, ← window_add]

/-- Behind the first part the parts are copied as far as no gap was found. -/
theorem copyLoaded_later (pieces : Pieces file base parts) (sorted : parts.Pairwise fun a b => a.1 < b.1)
    {seen till : Nat} (behind : ∀ part ∈ parts, seen ≤ part.1) (before : ∀ part ∈ parts, part.1 < till)
    (reaches : till ≤ findNotLoadedStart parts seen) :
    Yields otherAssertion (· = window file (base + min seen till) (till - min seen till))
      (copyLoaded parts (min seen till) till) := by
  induction parts generalizing seen with
  | nil =>
      have full : till - min seen till = 0 := by
        rw [findNotLoadedStart] at reaches
        omega
      rw [full, window, List.take_zero]
      exact rfl
  | cons part parts ih =>
      obtain ⟨start, bytes⟩ := part
      obtain ⟨piece, others⟩ := List.forall_mem_cons.mp pieces
      obtain ⟨starts, -⟩ := List.forall_mem_cons.mp behind
      obtain ⟨early, stops⟩ := List.forall_mem_cons.mp before
      obtain ⟨above, ordered⟩ := List.pairwise_cons.mp sorted
      unfold findNotLoadedStart at reaches
      simp only at piece starts early above reaches
      have length := piece.length
      have taken : start ≤ seen ∧ start + bytes.length ≥ seen := by
        by_contra missed
        rw [if_neg missed] at reaches
        omega
      rw [if_pos taken] at reaches
      obtain rfl : seen = start := Nat.le_antisymm starts taken.1
      have here : min seen till = seen := Nat.min_eq_left early.le
      have size : kPartSize = 131072 := rfl
      rw [here]
      refine copyLoaded_cons piece (Nat.le_refl _) ?_ (ih others ordered ?_ stops reaches)
      · have inside := piece.inside
        omega
      · intro next member
        have aligned := (others next member).aligned
        have aligned' := piece.aligned
        have less := above next member
        rw [size] at aligned aligned' length
        omega

end Pieces

/-! ## One slice -/

section Slice

variable {file bytes : Bytes} {base offset : Nat} {data : PartsMap} {slice : Slice}

theorem Slice.addPart_pieces (pieces : Pieces file base slice.parts.entries)
    (piece : Piece file base offset bytes) :
    Yields otherAssertion (fun slice => Pieces file base slice.parts.entries) (slice.addPart offset bytes) := by
  unfold Slice.addPart
  split_ifs
  · exact fails nofun
  · exact pieces.emplace piece

theorem Slice.processCacheData_pieces (pieces : Pieces file base slice.parts.entries)
    (more : Pieces file base data.entries) :
    Yields otherAssertion (fun slice => Pieces file base slice.parts.entries) (slice.processCacheData data) := by
  unfold Slice.processCacheData
  split_ifs
  · exact more
  · exact pieces.emplaceAll more
  · exact fails nofun

/-- The parts that are copied: the last one that starts up to a place, and those behind it. -/
theorem parts_from {map : PartsMap} {start till : Nat} (inside : start < till)
    (some : (map.entries.takeWhile (·.1 ≤ start)).length ≠ 0) :
    ∃ first rest, (map.entries.drop ((map.entries.takeWhile (·.1 ≤ start)).length - 1)).takeWhile (·.1 < till) =
        first :: rest ∧ (first :: rest).Sublist map.entries ∧ first.1 ≤ start ∧
      ∀ part ∈ rest, start < part.1 ∧ part.1 < till := by
  have split := List.takeWhile_append_dropWhile (p := fun part : Nat × Bytes => decide (part.1 ≤ start))
    (l := map.entries)
  have last := List.head?_dropWhile_not (fun part : Nat × Bytes => decide (part.1 ≤ start)) map.entries
  have below : ∀ part ∈ map.entries.takeWhile (·.1 ≤ start), part.1 ≤ start := fun part member => by
    simpa using List.mem_takeWhile_imp member
  have sorted := map.sorted
  generalize map.entries.takeWhile (fun part => decide (part.1 ≤ start)) = front at *
  generalize map.entries.dropWhile (fun part => decide (part.1 ≤ start)) = behind at *
  have nonempty : front ≠ [] := fun empty => some (empty ▸ rfl)
  obtain ⟨init, first, rfl⟩ : ∃ init first, front = init ++ [first] :=
    ⟨front.dropLast, front.getLast nonempty, (List.dropLast_append_getLast nonempty).symm⟩
  have starts : first.1 ≤ start := below first (List.mem_append_right _ List.mem_cons_self)
  have above : ∀ part ∈ behind, start < part.1 := by
    rw [← split] at sorted
    have ordered := (List.pairwise_append.mp sorted).2.1
    cases behind with
    | nil => exact List.forall_mem_nil _
    | cons head more =>
        have out : start < head.1 := by simpa using last
        rw [List.forall_mem_cons]
        exact ⟨out, fun part member => out.trans ((List.pairwise_cons.mp ordered).1 part member)⟩
  have dropped : map.entries.drop ((init ++ [first]).length - 1) = first :: behind := by
    rw [← split, List.length_append, List.length_singleton, Nat.add_sub_cancel, List.append_assoc, List.drop_left]
    rfl
  refine ⟨first, behind.takeWhile (·.1 < till), ?_, ?_, starts, fun part member => ⟨?_, ?_⟩⟩
  · rw [dropped, List.takeWhile_cons, if_pos (decide_eq_true (lt_of_le_of_lt starts inside))]
  · have whole := List.drop_sublist ((init ++ [first]).length - 1) map.entries
    rw [dropped] at whole
    exact ((List.takeWhile_sublist _).cons_cons first).trans whole
  · exact above part ((List.takeWhile_sublist _).subset member)
  · simpa using List.mem_takeWhile_imp member

/-- What is ready to be copied has no gap. -/
theorem Slice.prepareFill_pieces (pieces : Pieces file base slice.parts.entries) {start till : Nat}
    (inside : start < till) (fits : base + till ≤ file.length) (ready : (slice.prepareFill start till).ready = true) :
    Yields otherAssertion (· = window file (base + start) (till - start))
      (copyLoaded (slice.prepareFill start till).loaded start till) := by
  unfold Slice.prepareFill at ready ⊢
  simp only at ready ⊢
  split_ifs at ready ⊢ with none late
  obtain ⟨⟨offset, bytes⟩, rest, parts, sublist, starts, behind⟩ := parts_from inside none
  simp only at starts
  have reaches := Nat.le_of_not_lt late
  rw [parts] at reaches ⊢
  have piece : Piece file base offset bytes := pieces _ (sublist.subset List.mem_cons_self)
  have others : Pieces file base rest := fun part member =>
    pieces part (sublist.subset (List.mem_cons_of_mem _ member))
  have sorted := (List.pairwise_cons.mp (slice.parts.sorted.sublist sublist)).2
  have length := piece.length
  have aligned := piece.aligned
  have size : kPartSize = 131072 := rfl
  unfold findNotLoadedStart at reaches
  simp only at reaches
  rw [size] at aligned length reaches
  have taken : offset ≤ start / 131072 * 131072 ∧ offset + bytes.length ≥ start / 131072 * 131072 := by
    by_contra missed
    rw [if_neg missed] at reaches
    omega
  rw [if_pos taken] at reaches
  -- a part that ends where the range starts is not followed by the next one
  have same : offset = start / 131072 * 131072 := by
    by_contra earlier
    have stops : findNotLoadedStart rest (offset + bytes.length) = offset + bytes.length := by
      cases rest with
      | nil => rfl
      | cons next more =>
          have far := (behind next List.mem_cons_self).1
          rw [findNotLoadedStart, if_neg (by omega)]
    omega
  refine copyLoaded_cons piece starts (by omega) (copyLoaded_later others sorted (fun part member => ?_)
    (fun part member => (behind part member).2) reaches)
  have far := (behind part member).1
  have aligned' := (others part member).aligned
  rw [size] at aligned'
  omega

end Slice

namespace Slices

/-! ## All slices -/

section Slices

variable {file bytes : Bytes} {s s' : Slices} {i n offset : Nat} {slice : Slice} {parts : PartsMap}

/-- The slices have parts of the file only. -/
structure Streams (file : Bytes) (s : Slices) : Prop where
  size : s.size = file.length
  header : Pieces file 0 s.header.parts.entries
  slices : ∀ i slice, s.data[i]? = some slice → Pieces file (i * kInSlice) slice.parts.entries

/-- Flags and modes say nothing of the parts. -/
theorem Streams.of_same (h : s.Streams file) (size : s'.size = s.size) (header : s'.header.parts = s.header.parts)
    (data : s'.data.map Slice.parts = s.data.map Slice.parts) : s'.Streams file := by
  refine ⟨size.trans h.size, header ▸ h.header, fun i slice there => ?_⟩
  have known : (s.data.map Slice.parts)[i]? = some slice.parts := by
    rw [← data, List.getElem?_map, there]
    rfl
  rw [List.getElem?_map, Option.map_eq_some_iff] at known
  obtain ⟨old, found, same⟩ := known
  exact same ▸ h.slices i old found

theorem Streams.set (h : s.Streams file) (pieces : Pieces file (i * kInSlice) slice.parts.entries) :
    ({ s with data := s.data.set i slice } : Slices).Streams file := by
  refine ⟨h.size, h.header, fun j other there => ?_⟩
  rw [List.getElem?_set] at there
  split_ifs at there with same inside
  · cases there
    exact same ▸ pieces
  · exact h.slices j other there

theorem Streams.pieces (h : s.Streams file) (there : s.slice? n = some slice) :
    Pieces file ((n - 1) * kInSlice) slice.parts.entries := by
  unfold slice? at there
  split_ifs at there with header
  · cases there
    rw [header, Nat.zero_sub, Nat.zero_mul]
    exact h.header
  · exact h.slices _ slice there

theorem Streams.setSlice (h : s.Streams file) (pieces : Pieces file ((n - 1) * kInSlice) slice.parts.entries) :
    (s.setSlice n slice).Streams file := by
  unfold Slices.setSlice
  split_ifs with header
  · rw [header, Nat.zero_sub, Nat.zero_mul] at pieces
    exact ⟨h.size, pieces, h.slices⟩
  · exact h.set pieces

theorem Streams.modifySlice (h : s.Streams file) {f : Slice → Attempt Slice}
    (keeps : ∀ slice, Pieces file (i * kInSlice) slice.parts.entries →
      Yields otherAssertion (fun slice => Pieces file (i * kInSlice) slice.parts.entries) (f slice)) :
    Yields otherAssertion (Streams file) (s.modifySlice i f) := by
  unfold Slices.modifySlice
  cases there : s.data[i]? with
  | none => exact fails nofun
  | some slice => exact Yields.map ((keeps slice (h.slices i slice there)).imp fun _ pieces => h.set pieces)

theorem Streams.headerDone (h : s.Streams file) (fromCache : Bool) :
    Yields otherAssertion (Streams file) (s.headerDone fromCache) := by
  unfold Slices.headerDone
  simp only
  split_ifs
  · exact h
  · exact h.of_same rfl rfl rfl
  · exact fails nofun
  · refine h.of_same rfl rfl ?_
    rw [List.map_map]
    rfl

/-- While the parts of the header are added to the slices. -/
def Applying (file : Bytes) (left : List (Nat × Bytes)) (s : Slices) : Prop := s.Streams file ∧ Pieces file 0 left

/-- A part of the header is the same part of its slice. -/
theorem Streams.applyWhile (h : s.Streams file) (predicate : Nat → Bool) :
    Yields otherAssertion (Streams file) (s.applyWhile predicate) := by
  have pieces : Pieces file 0 (s.header.parts.entries.takeWhile fun part => predicate (part.1 / kInSlice)) :=
    fun part member => h.header part ((List.takeWhile_sublist _).subset member)
  have step : ∀ part left s, Applying file (part :: left) s → Yields otherAssertion (Applying file left)
      (s.modifySlice (part.1 / kInSlice) (·.addPart (part.1 - part.1 / kInSlice * kInSlice) part.2)) := by
    rintro part left s ⟨h, pieces⟩
    obtain ⟨piece, later⟩ := List.forall_mem_cons.mp pieces
    exact (h.modifySlice fun slice held => Slice.addPart_pieces held piece.moved).imp fun _ next => ⟨next, later⟩
  exact (Yields.foldlM step _ ⟨h, pieces⟩).imp fun _ both => both.1

theorem Streams.applyHeaderCacheData (h : s.Streams file) :
    Yields otherAssertion (Streams file) s.applyHeaderCacheData := by
  unfold Slices.applyHeaderCacheData
  split_ifs
  · exact h
  · exact h.applyWhile _
  · exact h
  · exact h.headerDone true
  · exact (h.applyWhile _).bind fun _ next => next.headerDone true

theorem Streams.checkSliceFullLoaded (h : s.Streams file) (n : Nat) :
    Yields otherAssertion (Streams file) (s.checkSliceFullLoaded n) := by
  unfold Slices.checkSliceFullLoaded
  split_ifs
  · exact h
  · cases there : s.slice? n with
    | none => exact fails nofun
    | some slice =>
        have held := h.pieces there
        have marked : ∀ full, (s.setSlice n (withFull slice full)).Streams file := fun full => h.setSlice held
        simp only
        split_ifs
        · exact (marked false).of_same rfl rfl rfl
        · exact (marked true).of_same rfl rfl rfl
        · exact h

theorem Streams.takeResult (h : s.Streams file) (more : Pieces file ((n - 1) * kInSlice) parts.entries) :
    Yields otherAssertion (Streams file) (s.takeResult n parts) := by
  unfold Slices.takeResult
  cases there : s.slice? n with
  | none => exact fails nofun
  | some slice =>
      simp only
      have taken := Slice.processCacheData_pieces (h.pieces there) more
      split_ifs with unasked inside
      · exact h
      · exact taken.bind fun slice pieces => ((h.setSlice pieces).checkSliceFullLoaded n).bind fun s h => h
      · refine taken.bind fun slice pieces => ((h.setSlice pieces).checkSliceFullLoaded n).bind fun s h => ?_
        refine h.applyHeaderCacheData.bind fun s h => ?_
        split_ifs
        · exact h.modifySlice fun slice pieces => pieces
        · exact h

theorem Streams.processCacheResult (h : s.Streams file) (more : Pieces file ((n - 1) * kInSlice) parts.entries) :
    Yields otherAssertion (Streams file) (s.processCacheResult n parts) := by
  unfold Slices.processCacheResult
  split_ifs with again
  · cases there : s.data[0]? with
    | none => exact fails nofun
    | some first =>
        simp only
        split_ifs
        · exact h
        · have header : n = 0 := by
            rw [Bool.and_eq_true, decide_eq_true_eq] at again
            exact again.1
          rw [header] at more
          refine Streams.takeResult ?_ more
          exact h.of_same rfl rfl rfl
  · exact h.takeResult more

theorem Streams.processCachedSizes (h : s.Streams file) (sizes : List Nat) :
    Yields otherAssertion (Streams file) (s.processCachedSizes sizes) := by
  unfold Slices.processCachedSizes
  split_ifs with differ
  · exact fails nofun
  · refine h.of_same rfl rfl (List.ext_getElem? fun i => ?_)
    have same : sizes.length = s.data.length := not_not.mp differ
    simp only [List.getElem?_map, List.getElem?_mapIdx]
    cases there : s.data[i]? with
    | none =>
        have outside : (s.data.zip sizes)[i]? = none := by
          rw [List.getElem?_eq_none_iff] at there ⊢
          rw [List.length_zip]
          omega
        rw [outside]
        rfl
    | some slice =>
        obtain ⟨inside, -⟩ := List.getElem?_eq_some_iff.mp there
        have both : (s.data.zip sizes)[i]? = some (slice, sizes[i]) := by
          rw [List.getElem?_zip_eq_some]
          exact ⟨there, List.getElem?_eq_getElem _⟩
        rw [both]
        rfl

theorem Streams.processPart (h : s.Streams file) (piece : Piece file 0 offset bytes) :
    Yields otherAssertion (Streams file) (s.processPart offset bytes) := by
  have next : ∀ header : Slice, Pieces file 0 header.parts.entries → Yields otherAssertion (Streams file)
      (({ s with header := header } : Slices).modifySlice (offset / kInSlice)
        (·.addPart (offset - offset / kInSlice * kInSlice) bytes) >>=
          (·.checkSliceFullLoaded (offset / kInSlice + 1))) := by
    intro header pieces
    have h : ({ s with header := header } : Slices).Streams file := ⟨h.size, pieces, h.slices⟩
    exact (h.modifySlice fun slice pieces => Slice.addPart_pieces pieces piece.moved).bind fun s h =>
      h.checkSliceFullLoaded _
  unfold Slices.processPart
  simp only
  split_ifs with full outside known few
  · refine (Slice.addPart_pieces h.header piece).bind fun header pieces => ?_
    have h : ({ s with header := header } : Slices).Streams file := ⟨h.size, pieces, h.slices⟩
    exact h.checkSliceFullLoaded 0
  · exact fails nofun
  · exact h
  · exact (Slice.addPart_pieces h.header piece).bind next
  · exact next s.header h.header

end Slices

end Slices

end IMeDesktop.Media.Streaming
