import IMeDesktop.Media.Streaming.SlicesPieces

/-! # The buffers that are filled

Each call to the slices keeps what they know of the file, so a whole run of calls does.
-/

namespace IMeDesktop.Media.Streaming

open Lib

namespace Slices

/-! ## Slices are unloaded -/

section Unloads

variable {file : Bytes} {s : Slices} {i : Nat}

theorem yields_slicesCount (size : Nat) : Yields otherAssertion (fun _ => True) (slicesCount size) := by
  unfold slicesCount
  simp only
  split_ifs
  · trivial
  · exact fails nofun

theorem yields_maxSliceSize (number size : Nat) : Yields otherAssertion (fun _ => True) (maxSliceSize number size) := by
  unfold maxSliceSize
  split_ifs
  · trivial
  · exact (yields_slicesCount size).bind fun _ _ => trivial

theorem yields_bind {α β : Type} {attempt : Attempt (α × Slices)} {next : α × Slices → Attempt β} {post : β → Prop}
    (first : Yields otherAssertion (fun out => out.2.Streams file) attempt)
    (second : ∀ value (s : Slices), s.Streams file → Yields otherAssertion post (next (value, s))) :
    Yields otherAssertion post (attempt >>= next) :=
  first.bind fun out h => second out.1 out.2 h

theorem Streams.nothing (h : s.Streams file) (flags : Flags) :
    ({ s with data := s.data.set i { flags := flags } } : Slices).Streams file := h.set (List.forall_mem_nil _)

theorem Streams.serializeAndUnloadFirst (h : s.Streams file) :
    Yields otherAssertion (fun saved => saved.2.Streams file) s.serializeAndUnloadFirstSliceNoHeader := by
  unfold Slices.serializeAndUnloadFirstSliceNoHeader
  cases there : s.data[0]? with
  | none => exact fails nofun
  | some first =>
      simp only
      split_ifs
      · exact h.nothing _
      · exact fails nofun

theorem Streams.serializeAndUnload (h : s.Streams file) (n : Nat) :
    Yields otherAssertion (fun saved => saved.2.Streams file) (s.serializeAndUnload n) := by
  unfold Slices.serializeAndUnload
  cases there : s.slice? n with
  | none => exact fails nofun
  | some slice =>
      have pieces := h.pieces there
      have unloaded : Pieces file ((n - 1) * kInSlice)
          (if n = 0 then { slice with flags := { slice.flags with changedSinceCache := false } }
            else unloadSlice slice).parts.entries := by
        split_ifs
        · exact pieces
        · exact List.forall_mem_nil _
      have nothing : Yields otherAssertion (fun out => out.2.Streams file) (Except.ok (([] : Bytes), s)) := h
      simp only
      split
      · exact fails nofun
      · split
        · split
          · exact h.setSlice unloaded
          · refine yields_bind h.serializeAndUnloadFirst fun more s h => (yields_maxSliceSize _ _).bind fun _ _ => ?_
            exact h.setSlice unloaded
        · split
          · exact h.setSlice unloaded
          · refine yields_bind nothing fun more s h => (yields_maxSliceSize _ _).bind fun _ _ => ?_
            exact h.setSlice unloaded

theorem Streams.serializeAndUnloadSlice (h : s.Streams file) (n : Nat) :
    Yields otherAssertion (fun saved => saved.2.Streams file) (s.serializeAndUnloadSlice n) := by
  unfold Slices.serializeAndUnloadSlice
  split_ifs
  · exact fails nofun
  · exact h.serializeAndUnload _
  · exact h.serializeAndUnload _

theorem Streams.serializeAndUnloadUnused (h : s.Streams file) :
    Yields otherAssertion (fun saved => saved.2.Streams file) s.serializeAndUnloadUnused := by
  unfold Slices.serializeAndUnloadUnused
  split_ifs
  · exact h
  · cases used : s.usedSlices with
    | nil => exact h
    | cons purgeSlice usedSlices =>
        have purged : ({ s with usedSlices := usedSlices } : Slices).Streams file := h.of_same rfl rfl rfl
        simp only
        cases there : s.data[purgeSlice]? with
        | none => exact fails nofun
        | some slice =>
            simp only
            split_ifs
            · exact purged
            · exact purged.nothing _
            · exact Yields.map ((purged.serializeAndUnloadSlice _).imp fun _ next => next)

theorem Streams.unloadToCache (h : s.Streams file) :
    Yields otherAssertion (fun saved => saved.2.Streams file) s.unloadToCache := by
  unfold Slices.unloadToCache
  split_ifs
  · exact h
  · exact Yields.map ((h.serializeAndUnloadSlice _).imp fun _ next => next)
  · cases s.data.findIdx? (·.flags.changedSinceCache) with
    | none => exact h
    | some i => exact Yields.map ((h.serializeAndUnloadSlice _).imp fun _ next => next)

end Unloads

/-! ## A buffer is filled -/

section Fills

variable {file : Bytes} {s : Slices} {i offset till : Nat}

/-- A buffer that is filled has the bytes of the file. -/
def Filled (file : Bytes) (start length : Nat) (out : FillResult × Slices) : Prop :=
  out.2.Streams file ∧ (out.1.state = .success → out.1.buffer = window file start length)

theorem Streams.handleReadFromCache (h : s.Streams file) {result : FillResult} (waits : result.state ≠ .success) :
    Yields otherAssertion (fun out => out.2.Streams file ∧ out.1.state ≠ .success)
      (s.handleReadFromCache i result) := by
  unfold Slices.handleReadFromCache
  cases there : s.data[i]? with
  | none => exact fails nofun
  | some slice =>
      have pieces := h.slices i slice there
      simp only
      split_ifs
      · exact ⟨h, waits⟩
      · exact ⟨h, FillState.noConfusion⟩
      · exact ⟨h.set pieces, FillState.noConfusion⟩

theorem Streams.fillFromHeader (h : s.Streams file) {length : Nat} (positive : 0 < length)
    (fits : offset + length ≤ file.length) :
    Yields otherAssertion (Filled file offset length) (s.fillFromHeader offset length) := by
  unfold Slices.fillFromHeader
  simp only
  split_ifs with ready
  · have copied := Slice.prepareFill_pieces h.header (Nat.lt_add_of_pos_right positive)
      (by rwa [Nat.zero_add]) ready
    rw [Nat.zero_add, Nat.add_sub_cancel_left] at copied
    exact copied.bind fun buffer same => ⟨h, fun _ => same⟩
  · exact ⟨h, FillState.noConfusion⟩

theorem Streams.fillOne (h : s.Streams file) (i : Nat) (inside : offset < till)
    (fits : i * kInSlice + till ≤ file.length) :
    Yields otherAssertion (Filled file (i * kInSlice + offset) (till - offset)) (s.fillOne i offset till) := by
  unfold Slices.fillOne
  cases there : s.data[i]? with
  | none => exact fails nofun
  | some slice =>
      simp only
      split_ifs with ready
      · refine (Slice.prepareFill_pieces (h.slices i slice there) inside fits ready).bind fun buffer same => ?_
        have marked : (s.markSliceUsed i).Streams file := h.of_same rfl rfl rfl
        exact yields_bind marked.serializeAndUnloadUnused fun toCache s h => ⟨h, fun _ => same⟩
      · exact (h.handleReadFromCache FillState.noConfusion).imp fun out both =>
          ⟨both.1, fun done => absurd done both.2⟩

theorem Streams.fillTwo (h : s.Streams file) (i : Nat) (inside : offset < kInSlice) (positive : 0 < till)
    (fits : (i + 1) * kInSlice + till ≤ file.length) :
    Yields otherAssertion (Filled file (i * kInSlice + offset) (kInSlice - offset + till))
      (s.fillTwo i offset till) := by
  unfold Slices.fillTwo
  cases first : s.data[i]? with
  | none => exact fails nofun
  | some slice =>
      cases second : s.data[i + 1]? with
      | none => exact fails nofun
      | some next =>
          simp only
          split_ifs with ready
          · rw [Bool.and_eq_true] at ready
            have width : i * kInSlice + kInSlice = (i + 1) * kInSlice := by rw [Nat.add_mul, Nat.one_mul]
            refine (Slice.prepareFill_pieces (h.slices i slice first) inside (by omega) ready.1).bind
              fun buffer same => ?_
            refine (Slice.prepareFill_pieces (h.slices _ next second) positive fits ready.2).bind fun more goesOn => ?_
            have marked : ((s.markSliceUsed i).markSliceUsed (i + 1)).Streams file := h.of_same rfl rfl rfl
            refine yields_bind marked.serializeAndUnloadUnused fun toCache s h => ⟨h, fun _ => ?_⟩
            have place : i * kInSlice + offset + (kInSlice - offset) = (i + 1) * kInSlice := by omega
            rw [window_add, place, ← same]
            rw [Nat.add_zero, Nat.sub_zero] at goesOn
            rw [← goesOn]
          · refine (h.handleReadFromCache FillState.noConfusion).bind ?_
            rintro ⟨result, s⟩ ⟨h, waits⟩
            exact (h.handleReadFromCache waits).imp fun out both => ⟨both.1, fun done => absurd done both.2⟩

theorem Streams.fill (h : s.Streams file) (offset length : Nat) :
    Yields otherAssertion (fun out => Filled file offset length out ∧ offset + length ≤ file.length)
      (s.fill offset length) := by
  unfold Slices.fill
  by_cases wrong : length = 0 ∨ offset ≥ s.size ∨ offset + length > s.size ∨ length > kInSlice
  · rw [if_pos wrong]
    exact fails nofun
  · rw [if_neg wrong]
    have fits : offset + length ≤ file.length := by
      rw [← h.size]
      omega
    have positive : 0 < length := by omega
    have before := Nat.div_mul_le_self offset kInSlice
    have place := Nat.add_sub_of_le before
    simp only
    split_ifs with cached waits header one two
    · exact ⟨⟨h, FillState.noConfusion⟩, fits⟩
    · exact fails nofun
    · exact (h.fillFromHeader positive fits).imp fun _ filled => ⟨filled, fits⟩
    · have size : offset + length - offset / kInSlice * kInSlice - (offset - offset / kInSlice * kInSlice) =
          length := by omega
      have inside : offset - offset / kInSlice * kInSlice < offset + length - offset / kInSlice * kInSlice := by omega
      have filled := h.fillOne (offset / kInSlice) inside (by omega)
      rw [place, size] at filled
      exact filled.imp fun _ filled => ⟨filled, fits⟩
    · have width : kInSlice = 8388608 := rfl
      have inside : offset - offset / kInSlice * kInSlice < kInSlice := by
        rw [width] at before ⊢
        omega
      have next : (offset / kInSlice + 1) * kInSlice < offset + length := by
        rw [width] at two ⊢
        omega
      have size : kInSlice - (offset - offset / kInSlice * kInSlice) +
          (offset + length - (offset / kInSlice + 1) * kInSlice) = length := by
        rw [width] at next ⊢
        omega
      have more : 0 < offset + length - (offset / kInSlice + 1) * kInSlice := by omega
      have filled := h.fillTwo (offset / kInSlice) inside more (by omega)
      rw [place, size] at filled
      exact filled.imp fun _ filled => ⟨filled, fits⟩
    · exact fails nofun

theorem Streams.partForDownloader (h : s.Streams file) (offset : Nat) :
    s.partForDownloader offset <+: file.drop offset := by
  unfold Slices.partForDownloader
  cases found : s.header.parts.find? offset with
  | some bytes =>
      have piece := (h.header _ (SortedMap.find?_eq_some.mp found)).of_file
      rwa [Nat.zero_add] at piece
  | none =>
      simp only
      split_ifs
      · exact List.nil_prefix
      · cases there : s.data[offset / kInSlice]? with
        | none => exact List.nil_prefix
        | some slice =>
            rw [Option.bind_some]
            cases known : slice.parts.find? (offset - offset / kInSlice * kInSlice) with
            | none => exact List.nil_prefix
            | some bytes =>
                have piece := (h.slices _ slice there _ (SortedMap.find?_eq_some.mp known)).of_file
                rwa [Nat.add_sub_of_le (Nat.div_mul_le_self offset kInSlice)] at piece

end Fills

/-! ## A run of calls -/

/-- What the reader calls, with what it was given by the loader and the cache. -/
inductive Call where
  | processCacheResult (sliceNumber : Nat) (result : PartsMap)
  | processCachedSizes (sizes : List Nat)
  | processPart (offset : Nat) (bytes : Bytes)
  | headerDone
  | fill (offset length : Nat)
  | unloadToCache
  | partForDownloader (offset : Nat)

/-- The loader and the cache give parts of this file, which are full or go up to its end. -/
def Call.Of (file : Bytes) : Call → Prop
  | .processCacheResult sliceNumber result => Pieces file ((sliceNumber - 1) * kInSlice) result.entries
  | .processPart offset bytes => Piece file 0 offset bytes
  | _ => True

/-- Bytes that are given out, with the place they were asked for. -/
structure Given where
  offset : Nat
  length : Nat
  bytes : Bytes
  deriving DecidableEq, Repr

def given (offset length : Nat) (result : FillResult) : List Given :=
  if result.state = .success then [⟨offset, length, result.buffer⟩] else []

def call (s : Slices) : Call → Attempt (List Given × Slices)
  | .processCacheResult sliceNumber result => (s.processCacheResult sliceNumber result).map fun s => ([], s)
  | .processCachedSizes sizes => (s.processCachedSizes sizes).map fun s => ([], s)
  | .processPart offset bytes => (s.processPart offset bytes).map fun s => ([], s)
  | .headerDone => (s.headerDone false).map fun s => ([], s)
  | .fill offset length => (s.fill offset length).map fun out => (given offset length out.1, out.2)
  | .unloadToCache => s.unloadToCache.map fun out => ([], out.2)
  | .partForDownloader offset =>
      let bytes := s.partForDownloader offset
      .ok ([⟨offset, bytes.length, bytes⟩], s)

def run (s : Slices) : List Call → Attempt (List Given × Slices)
  | [] => .ok ([], s)
  | call :: calls => do
      let first ← s.call call
      let later ← run first.2 calls
      return (first.1 ++ later.1, later.2)

section Runs

variable {file : Bytes} {s : Slices}

/-- Bytes that are the ones of the file where they were asked for. -/
def Given.Right (file : Bytes) (given : Given) : Prop :=
  given.bytes = window file given.offset given.length ∧ given.bytes.length = given.length

theorem Streams.call (h : s.Streams file) {call : Call} (right : call.Of file) :
    Yields otherAssertion (fun out => out.2.Streams file ∧ ∀ given ∈ out.1, given.Right file) (s.call call) := by
  have nothing : ∀ s : Slices, s.Streams file → s.Streams file ∧ ∀ given ∈ ([] : List Given), given.Right file :=
    fun s h => ⟨h, List.forall_mem_nil _⟩
  cases call with
  | processCacheResult sliceNumber result => exact Yields.map ((h.processCacheResult right).imp nothing)
  | processCachedSizes sizes => exact Yields.map ((h.processCachedSizes sizes).imp nothing)
  | processPart offset bytes => exact Yields.map ((h.processPart right).imp nothing)
  | headerDone => exact Yields.map ((h.headerDone false).imp nothing)
  | fill offset length =>
      refine Yields.map ((h.fill offset length).imp fun out filled => ⟨filled.1.1, ?_⟩)
      unfold given
      split_ifs with success
      · rw [List.forall_mem_singleton]
        have same := filled.1.2 success
        exact ⟨same, same ▸ length_window filled.2⟩
      · exact List.forall_mem_nil _
  | unloadToCache => exact Yields.map (h.unloadToCache.imp fun out next => nothing out.2 next)
  | partForDownloader offset =>
      refine ⟨h, ?_⟩
      rw [List.forall_mem_singleton]
      exact ⟨List.prefix_iff_eq_take.mp (h.partForDownloader offset), rfl⟩

theorem Streams.run (h : s.Streams file) {calls : List Call} (right : ∀ call ∈ calls, call.Of file) :
    Yields otherAssertion (fun out => out.2.Streams file ∧ ∀ given ∈ out.1, given.Right file) (s.run calls) := by
  induction calls generalizing s with
  | nil => exact ⟨h, List.forall_mem_nil _⟩
  | cons call calls ih =>
      obtain ⟨first, later⟩ := List.forall_mem_cons.mp right
      refine (h.call first).bind fun out held => (ih held.1 later).bind fun more rest => ⟨rest.1, ?_⟩
      rw [List.forall_mem_append]
      exact ⟨held.2, rest.2⟩

theorem streams_create (file : Bytes) (useCache : Bool) :
    Yields otherAssertion (Streams file) (create file.length useCache) := by
  have empty : ∀ (count i : Nat) (slice : Slice), (List.replicate count ({} : Slice))[i]? = some slice →
      Pieces file (i * kInSlice) slice.parts.entries := by
    intro count i slice there
    rw [List.getElem?_replicate] at there
    split_ifs at there
    cases there
    exact List.forall_mem_nil _
  unfold create
  split_ifs
  · exact fails nofun
  · exact ⟨rfl, List.forall_mem_nil _, empty 0⟩
  · exact (yields_slicesCount _).bind fun count _ => ⟨rfl, List.forall_mem_nil _, empty count⟩
  · exact ⟨rfl, List.forall_mem_nil _, empty 0⟩
  · exact (yields_slicesCount _).bind fun count _ => ⟨rfl, List.forall_mem_nil _, empty count⟩

/-- Whatever is loaded, unloaded and read back in between, all bytes that are given out are the ones of the file, and no
gap is met when they are copied. -/
theorem gives_file (file : Bytes) (useCache : Bool) (calls : List Call) (right : ∀ call ∈ calls, call.Of file) :
    (create file.length useCache >>= (·.run calls)) ≠ .error .copyLoaded ∧
      ∀ out finish, create file.length useCache >>= (·.run calls) = .ok (out, finish) →
        ∀ given ∈ out, given.Right file := by
  have ran := (streams_create file useCache).bind fun start h => h.run right
  constructor
  · intro gap
    rw [gap] at ran
    exact ran rfl
  · intro out finish done
    rw [done] at ran
    exact ran.2

end Runs

/-- A file of four bytes, of which two are asked for before and after it is loaded. -/
def fourBytes : Bytes := [1, 2, 3, 4]

def fourCalls : List Call := [.fill 1 2, .processPart 0 fourBytes, .fill 1 2, .partForDownloader 0]

theorem fourBytes_given : ∃ out finish, create fourBytes.length false >>= (·.run fourCalls) = .ok (out, finish) ∧
    out.map Given.bytes = [[2, 3], [1, 2, 3, 4]] ∧ ∀ given ∈ out, given.Right fourBytes := by
  have right : ∀ call ∈ fourCalls, call.Of fourBytes := by
    intro call member
    simp only [fourCalls, List.mem_cons, List.not_mem_nil, or_false] at member
    rcases member with rfl | rfl | rfl | rfl
    · trivial
    · exact ⟨rfl, by decide, rfl⟩
    · trivial
    · trivial
  obtain ⟨finish, ran⟩ : ∃ finish, create fourBytes.length false >>= (·.run fourCalls) =
      .ok ([⟨1, 2, [2, 3]⟩, ⟨0, 4, [1, 2, 3, 4]⟩], finish) := ⟨_, rfl⟩
  exact ⟨_, _, ran, rfl, (gives_file fourBytes false fourCalls right).2 _ _ ran⟩

end Slices

end IMeDesktop.Media.Streaming
