import IMeDesktop.Storage.FileDownloadParts

/-! # A download from its start to its end

A loader ends with the last part it waits for, when it has asked for all it is to load. Whatever the order of
the parts, it then has the file up to the end of the last one.
-/

namespace IMeDesktop.Storage.FileDownload

open Lib MtpFileLoader

variable {fill : UInt8} {whole : Bytes} {l : MtpFileLoader} {received offset : Nat}

/-- What is put in the cache for a file: all of it, or a part from the front. -/
def Cacheable (whole value : Bytes) : Prop := value = whole ∨ ∃ size, value = partialPrefix ++ whole.take size

/-- A loader that is not finished. -/
structure Loading (whole : Bytes) (l : MtpFileLoader) (received : Nat) : Prop where
  opened : Opened l
  full : l.fullSize = whole.length
  load : l.loadSize ≤ whole.length
  parts : Parts whole l.content l.nextRequestOffset l.sent
  near : l.nextRequestOffset = 0 ∨ l.nextRequestOffset < l.loadSize + kDownloadPartSize
  last : l.lastComplete = true → whole.length ≤ l.nextRequestOffset
  count : (l.content.length : Int) - l.skippedBytes = received
  calls : l.finalized = 0
  put : l.put = []

/-- A loader that got its last part. -/
structure Done (whole : Bytes) (l : MtpFileLoader) (received : Nat) : Prop where
  finished : l.finished = true
  closed : l.fileIsOpen = false
  full : l.fullSize = whole.length
  none : l.sent = []
  aligned : kDownloadPartSize ∣ l.nextRequestOffset
  all : l.loadSize ≤ l.nextRequestOffset
  near : l.nextRequestOffset < l.loadSize + kDownloadPartSize
  load : l.loadSize ≤ whole.length
  content : l.content = whole.take l.nextRequestOffset
  calls : l.finalized = 1
  count : l.toFile = false → (l.data.length : Int) - l.skippedBytes = received
  put : ∀ value ∈ l.put, Cacheable whole value

/-! ## One part -/

theorem content_eq (opened : l.fileIsOpen = l.toFile) : l.content = if l.fileIsOpen then l.file else l.data := by
  rw [content, opened]

theorem Loading.currentOffset (loading : Loading whole l received) : l.currentOffset = received := by
  have count := loading.count
  rw [content_eq loading.opened.opened] at count
  rw [MtpFileLoader.currentOffset, ← count]
  split
  · rfl
  · rfl

theorem part_ne_nil (begins : offset < whole.length) : part whole offset ≠ [] := by
  apply List.ne_nil_of_length_pos
  rw [length_part, partSize_eq]
  omega

/-- An awaited part is written. -/
theorem Loading.write (loading : Loading whole l received) (member : offset ∈ l.sent) (fill : UInt8) :
    Loading whole ({ l with sent := l.sent.erase offset }.writeResultPart fill offset (part whole offset))
      (received + (part whole offset).length) := by
  have nonempty := part_ne_nil (loading.parts.place member).1
  have mode := loading.opened.opened
  obtain ⟨data, file, fill', result, stored, other⟩ :=
    @writeResultPart_eq fill { l with sent := l.sent.erase offset } _ nonempty mode offset
  have content : ({ l with sent := l.sent.erase offset } : MtpFileLoader).content = l.content := rfl
  rw [content] at result stored
  rw [result]
  constructor
  · exact ⟨loading.opened.unfinished, mode, fun toFile => (other toFile).trans (loading.opened.other toFile)⟩
  · exact loading.full
  · exact loading.load
  · have moved := loading.parts.arrive member fill'
    rw [← stored] at moved
    exact moved
  · exact loading.near
  · exact loading.last
  · have counted := loading.parts.count member fill'
    have count := loading.count
    rw [← stored] at counted
    change ((if l.toFile then file else data).length : Int) -
      (l.skippedBytes + skips l.content.length offset (part whole offset).length) = _
    push_cast
    change ((if l.toFile then file else data).length : Int) - _ = _ at counted
    omega
  · exact loading.calls
  · exact loading.put

/-- A part that is not of a whole number of kilobytes is the last one. -/
theorem Loading.mark (loading : Loading whole l received) {bytes : Bytes}
    (last : bytes = [] ∨ bytes.length % 1024 ≠ 0 → whole.length ≤ l.nextRequestOffset) :
    Loading whole (if bytes = [] ∨ bytes.length % 1024 ≠ 0 then { l with lastComplete := true } else l) received := by
  split
  · rename_i short
    obtain ⟨unfinished, mode, other⟩ := loading.opened
    exact ⟨⟨unfinished, mode, other⟩, loading.full, loading.load, loading.parts, loading.near, fun _ => last short, loading.count,
      loading.calls, loading.put⟩
  · exact loading

theorem finalizeResult_eq (l : MtpFileLoader) : l.finalizeResult = { l with
    finalized := l.finalized + 1
    finished := true
    fileIsOpen := false
    file := if l.hasFilename && l.toCache = .loadToCacheAsWell then l.data else l.file
    put := if l.localStatus = .notFound ∧ l.toCache = .loadToCacheAsWell ∧ l.data.length ≤ kMaxFileInMemory ∧ l.hasCacheKey
      then l.put ++ [if l.fullSize = 0 ∨ l.data.length = l.fullSize then l.data else partialPrefix ++ l.data]
      else l.put } := by
  unfold finalizeResult
  by_cases file : (l.hasFilename && decide (l.toCache = .loadToCacheAsWell)) = true
  · simp only [if_pos file]
    split
    · rfl
    · rfl
  · simp only [if_neg file]
    split
    · rfl
    · rfl

/-- What goes to the cache is not loaded to a file. -/
theorem memory_of_cached (cached : l.toCache = .loadToCacheAsWell) : l.toFile = false := by
  rw [toFile, cached]
  exact Bool.and_false _

theorem Loading.cacheable (loading : Loading whole l received) (eq : l.content = whole.take l.nextRequestOffset) :
    ∀ value ∈ l.finalizeResult.put, Cacheable whole value := by
  intro value member
  rw [finalizeResult_eq] at member
  dsimp only at member
  rw [loading.put, List.nil_append] at member
  split at member
  · rename_i cached
    have stored : l.content = l.data := if_neg (ne_true_of_eq_false (memory_of_cached cached.2.1))
    rw [stored] at eq
    rw [List.mem_singleton.mp member]
    split
    · rename_i all
      rw [loading.full] at all
      left
      rw [eq, List.length_take] at all
      rw [eq, List.take_of_length_le (by omega)]
    · exact .inr ⟨_, congrArg _ eq⟩
  · cases member

/-- With nothing awaited and nothing to ask for, the result is final. -/
theorem Loading.finalize (loading : Loading whole l received) (none : l.sent = [])
    (all : l.loadSize ≤ l.nextRequestOffset) (positive : 0 < l.nextRequestOffset) :
    Done whole l.finalizeResult received := by
  have parts := loading.parts
  rw [none] at parts
  have complete := parts.complete positive
  have count := loading.count
  rw [finalizeResult_eq]
  constructor
  · rfl
  · rfl
  · exact loading.full
  · exact none
  · exact parts.aligned
  · exact all
  · exact loading.near.resolve_left (by omega)
  · exact loading.load
  · rw [← complete]
    cases file : l.toFile with
    | true =>
        have other : ¬ (l.hasFilename && decide (l.toCache = .loadToCacheAsWell)) = true := by
          intro cached
          have memory := memory_of_cached (of_decide_eq_true ((Bool.and_eq_true _ _).mp cached).2)
          rw [memory] at file
          cases file
        rw [content, content, if_pos file, if_neg other]
        exact if_pos file
    | false =>
        have stored : l.content = l.data := if_neg (ne_true_of_eq_false file)
        rw [stored]
        exact if_neg (ne_true_of_eq_false file)
  · rw [loading.calls]
  · intro memory
    have file : l.toFile = false := memory
    have stored : l.content = l.data := if_neg (ne_true_of_eq_false file)
    rw [stored] at count
    exact count
  · have cacheable := loading.cacheable complete
    rw [finalizeResult_eq] at cacheable
    exact cacheable

/-! ## Every event -/

/-- A loader that has something to wait for or to ask for, unless it is to load nothing, and one that ended. -/
inductive State (whole : Bytes) (d : Download) : Prop where
  | loading (sound : Loading whole d.loader d.received)
      (pending : d.loader.sent = [] → d.loader.nextRequestOffset = 0 ∨ d.loader.nextRequestOffset < d.loader.loadSize)
  | done (sound : Done whole d.loader d.received)

/-- The end of `feedPart`. -/
theorem Loading.settle (loading : Loading whole l received) (asked : 0 < l.nextRequestOffset) :
    State whole
      { loader := if !l.haveSentRequests && (l.lastComplete || (l.fullSize ≠ 0 && l.nextRequestOffset ≥ l.loadSize))
          then l.finalizeResult else l
        received := received } := by
  have load := loading.load
  have full := loading.full
  have near := loading.near
  split
  · rename_i ends
    rw [haveSentRequests] at ends
    simp only [Bool.and_eq_true, Bool.or_eq_true, Bool.not_eq_true', decide_eq_false_iff_not, decide_eq_true_eq,
      not_not] at ends
    refine .done (loading.finalize ends.1 ?_ asked)
    rcases ends.2 with last | all
    · exact Nat.le_trans load (loading.last last)
    · exact all.2
  · rename_i goes
    refine .loading loading fun none => .inr ?_
    have noneSent : l.sent = [] := none
    by_contra all
    apply goes
    have known : l.fullSize ≠ 0 := by
      rw [partSize_eq] at near
      have ahead := loading.parts.ahead
      have aligned := loading.parts.aligned
      rw [partSize_eq] at ahead aligned
      omega
    simp [haveSentRequests, noneSent, known, Nat.not_lt.mp all]

/-- A part that was awaited makes the loader go on or end. -/
theorem feedPart_state (loading : Loading whole l received) (member : offset ∈ l.sent) (fill : UInt8) :
    State whole
      { loader := { l with sent := l.sent.erase offset }.feedPart fill offset (part whole offset)
        received := received + (part whole offset).length } := by
  have next := (loading.parts.awaited offset member).2
  have nonempty := part_ne_nil (loading.parts.place member).1
  have short : part whole offset = [] ∨ (part whole offset).length % 1024 ≠ 0 → whole.length ≤ l.nextRequestOffset := by
    have aligned := loading.parts.aligned
    have multiple := (loading.parts.awaited offset member).1
    have length := length_part whole offset
    rintro (empty | odd)
    · exact absurd empty nonempty
    · rw [partSize_eq] at *
      omega
  have written := loading.write member fill
  obtain ⟨data, file, -, result, -⟩ :=
    @writeResultPart_eq fill { l with sent := l.sent.erase offset } _ nonempty loading.opened.opened offset
  rw [feedPart]
  rw [result] at written ⊢
  apply (written.mark short).settle
  split
  · exact Nat.zero_lt_of_lt next
  · exact Nat.zero_lt_of_lt next

theorem Loading.request (loading : Loading whole l received) (below : l.nextRequestOffset < l.loadSize) :
    Loading whole l.takeNextRequestOffset received := by
  have load := loading.load
  obtain ⟨unfinished, mode, other⟩ := loading.opened
  refine ⟨⟨unfinished, mode, other⟩, loading.full, load, loading.parts.request (by omega), .inr ?_, fun last => ?_,
    loading.count, loading.calls, loading.put⟩
  · dsimp only [takeNextRequestOffset]
    omega
  · have past := loading.last last
    dsimp only [takeNextRequestOffset]
    omega

theorem Loading.increase (loading : Loading whole l received) {size : Nat} (more : l.loadSize < size)
    (fits : size ≤ whole.length) : Loading whole { l with loadSize := size } received := by
  have near := loading.near
  obtain ⟨unfinished, mode, other⟩ := loading.opened
  refine ⟨⟨unfinished, mode, other⟩, loading.full, fits, loading.parts, ?_, loading.last, loading.count, loading.calls,
    loading.put⟩
  dsimp only
  omega

theorem step_state {d d' : Download} {event : Event} (known : 0 < whole.length) (state : State whole d)
    (result : step fill whole d event = some d') : State whole d' := by
  cases event with
  | request =>
      rw [step] at result
      split at result
      · rename_i ready
        cases result
        simp only [readyToRequest, Bool.and_eq_true, Bool.or_eq_true, Bool.not_eq_true', decide_eq_true_eq] at ready
        cases state with
        | done sound => rw [sound.finished] at ready; simp at ready
        | loading sound pending =>
            have full := sound.full
            have below : d.loader.nextRequestOffset < d.loader.loadSize := ready.2.resolve_left (by omega)
            refine .loading (sound.request below) fun none => ?_
            simp [takeNextRequestOffset] at none
      · cases result
  | arrive offset =>
      rw [step] at result
      split at result
      · rename_i member
        cases result
        cases state with
        | done sound =>
            rw [sound.none] at member
            cases member
        | loading sound _ => exact feedPart_state sound member fill
      · cases result
  | increaseLoadSize size =>
      rw [step] at result
      split at result
      · cases result
      · rename_i unfinished
        cases state with
        | done sound => exact absurd sound.finished unfinished
        | loading sound pending =>
            rw [increaseLoadSize] at result
            split at result
            · rename_i grows
              cases result
              rw [sound.full] at grows
              refine .loading (sound.increase grows.1 grows.2) fun none => (pending none).imp_right fun before => ?_
              exact Nat.lt_trans before grows.1
            · cases result

/-! ## The start -/

/-- A new loader. -/
def fresh (hasFilename hasCacheKey : Bool) (toCache : LoadToCacheSetting) (whole : Bytes) (loadSize : Nat) :
    MtpFileLoader :=
  { hasFilename := hasFilename
    hasCacheKey := hasCacheKey
    toCache := toCache
    fullSize := whole.length
    loadSize := loadSize }

/-- What the cache has: nothing, or so many bytes from the front. -/
def foundOf (whole : Bytes) : Option Nat → Bytes
  | none => []
  | some size => partialPrefix ++ whole.take size

namespace MtpFileLoader

def asksCache (l : MtpFileLoader) : Bool := l.toCache = .loadToCacheAsWell && l.hasCacheKey

/-- The cache has all that is to be loaded. -/
def answersAtOnce (l : MtpFileLoader) (found : Bytes) : Bool :=
  l.asksCache && found ≠ [] && l.loadSize + kPrefix ≤ found.length

/-- The bytes of whole parts are taken from the cache, or all of them if they are enough. -/
def taken (l : MtpFileLoader) (found : Bytes) : Nat :=
  if l.answersAtOnce found then found.length - kPrefix
  else if l.asksCache then (found.length - kPrefix) / kDownloadPartSize * kDownloadPartSize
  else 0

end MtpFileLoader

def begin (fill : UInt8) (l : MtpFileLoader) (found : Bytes) : Download where
  loader := l.start fill found
  received := l.taken found

theorem asksCache_iff : l.asksCache = true ↔ l.toCache = .loadToCacheAsWell ∧ l.hasCacheKey = true := by
  rw [asksCache, Bool.and_eq_true, decide_eq_true_eq]

variable {hasFilename hasCacheKey : Bool} {toCache : LoadToCacheSetting} {loadSize : Nat} {cached : Option Nat}

theorem length_partialPrefix : partialPrefix.length = kPrefix := rfl

theorem isPrefixOf_found (bytes : Bytes) : partialPrefix.isPrefixOf (partialPrefix ++ bytes) = true :=
  List.isPrefixOf_iff_prefix.mpr (List.prefix_append _ _)

/-- An opened loader without parts. -/
theorem loading_fresh (inside : loadSize ≤ whole.length) :
    Loading whole ({ fresh hasFilename hasCacheKey toCache whole loadSize with localStatus := .notFound }.checkForOpen) 0 := by
  unfold checkForOpen fresh
  by_cases memory : (!hasFilename || decide (toCache ≠ .loadToFileOnly)) = true
  · have closed : (hasFilename && decide (toCache = .loadToFileOnly)) = false := by
      cases hasFilename
      · rfl
      · simpa using memory
    simp only [memory, Bool.true_or, if_true]
    refine ⟨⟨rfl, closed.symm, fun _ => rfl⟩, rfl, inside, ?_, .inl rfl, nofun, ?_, rfl, rfl⟩
    · rw [content]
      split
      · exact .start whole
      · exact .start whole
    · rw [content]
      split
      · rfl
      · rfl
  · have opened : (hasFilename && decide (toCache = .loadToFileOnly)) = true := by
      cases hasFilename
      · exact absurd rfl memory
      · simpa using memory
    simp only [memory, Bool.or_false, Bool.false_eq_true, if_false]
    refine ⟨⟨rfl, opened.symm, fun _ => rfl⟩, rfl, inside, ?_, .inl rfl, nofun, ?_, rfl, rfl⟩
    · rw [content]
      split
      · exact .start whole
      · exact .start whole
    · rw [content]
      split
      · rfl
      · rfl

theorem nextRequestOffset_checkForOpen (l : MtpFileLoader) : l.checkForOpen.nextRequestOffset = l.nextRequestOffset := by
  unfold checkForOpen
  split
  · rfl
  · rfl

theorem patch_empty (fill : UInt8) (bytes : Bytes) : patch fill [] 0 bytes = bytes := patch_behind (Nat.le_refl _)

/-- Whole parts from the cache are taken for received ones. -/
theorem startLoadingWithPartial_state {size : Nat} (inside : loadSize ≤ whole.length)
    (memory : toCache = .loadToCacheAsWell) (few : min size whole.length < loadSize) (fill : UInt8) :
    State whole
      { loader := ({ fresh hasFilename hasCacheKey toCache whole loadSize with
          localStatus := .notFound }.checkForOpen.startLoadingWithPartial fill (partialPrefix ++ whole.take size))
        received := min size whole.length / kDownloadPartSize * kDownloadPartSize } := by
  subst memory
  have closed : ∀ l : MtpFileLoader, l.toCache = .loadToCacheAsWell → l.checkForOpen = l := by
    intro l cached
    simp [checkForOpen, cached]
  have length : (partialPrefix ++ whole.take size).length - kPrefix = min size whole.length := by
    rw [List.length_append, length_partialPrefix, List.length_take, Nat.add_sub_cancel_left]
  have bytes : (partialPrefix ++ whole.take size).drop kPrefix = whole.take size := by
    rw [← length_partialPrefix, List.drop_left]
  rw [closed _ rfl, startLoadingWithPartial]
  dsimp only
  rw [length, bytes]
  generalize eq : min size whole.length / kDownloadPartSize * kDownloadPartSize = use
  have multiple : kDownloadPartSize ∣ use := ⟨_, eq.symm.trans (Nat.mul_comm _ _)⟩
  have fits : use ≤ min size whole.length := eq ▸ Nat.div_mul_le_self _ _
  split
  · rename_i positive
    have front : (whole.take size).take use = whole.take use := by
      rw [List.take_take, Nat.min_eq_left (by omega)]
    have takes : (whole.take use).length = use := by
      rw [List.length_take]
      omega
    have nonempty : whole.take use ≠ [] := List.ne_nil_of_length_pos (by omega)
    have written : Loading whole { fresh hasFilename hasCacheKey .loadToCacheAsWell whole loadSize with
        localStatus := .notFound
        nextRequestOffset := use
        data := patch fill [] 0 (whole.take use)
        skippedBytes := 0 + skips 0 0 (whole.take use).length } use := by
      rw [patch_empty]
      have content : ∀ m : MtpFileLoader, m.toCache = .loadToCacheAsWell → m.content = m.data :=
        fun m cached => if_neg (ne_true_of_eq_false (memory_of_cached cached))
      refine ⟨⟨rfl, (memory_of_cached rfl).symm, fun file => ?_⟩, rfl, inside, ?_, .inr ?_, nofun, ?_, rfl, rfl⟩
      · exact absurd ((memory_of_cached rfl).symm.trans file) Bool.false_ne_true
      · rw [content _ rfl]
        exact .take multiple positive (by omega)
      · dsimp only [fresh]
        omega
      · rw [content _ rfl]
        dsimp only
        rw [takes]
        simp [skips]
    rw [front, feedPart, writeResultPart_memory nonempty rfl]
    refine (written.mark ?_).settle ?_
    · rintro (empty | odd)
      · exact absurd empty nonempty
      · rw [partSize_eq] at multiple
        omega
    · split
      · exact positive
      · exact positive
  · rename_i none
    obtain rfl : use = 0 := by omega
    have loading : Loading whole
        ({ fresh hasFilename hasCacheKey .loadToCacheAsWell whole loadSize with localStatus := .notFound }.checkForOpen) 0 :=
      loading_fresh inside
    rw [closed _ rfl] at loading
    exact .loading loading fun _ => .inl rfl

/-- A loader that asks for parts. -/
theorem begin_state (inside : loadSize ≤ whole.length)
    (asks : (fresh hasFilename hasCacheKey toCache whole loadSize).answersAtOnce (foundOf whole cached) = false)
    (fill : UInt8) :
    State whole (begin fill (fresh hasFilename hasCacheKey toCache whole loadSize) (foundOf whole cached)) := by
  have nothing : State whole
      { loader := { fresh hasFilename hasCacheKey toCache whole loadSize with localStatus := .notFound }.checkForOpen
        received := 0 } :=
    .loading (loading_fresh inside) fun _ => .inl (nextRequestOffset_checkForOpen _)
  unfold begin start
  rw [taken, if_neg (ne_true_of_eq_false asks)]
  by_cases cache : (fresh hasFilename hasCacheKey toCache whole loadSize).asksCache = true
  · rw [if_pos cache]
    have set := asksCache_iff.mp cache
    rw [if_pos set, localLoaded]
    cases cached with
    | none =>
        have missing : foundOf whole none = [] := rfl
        have zero : ((foundOf whole none).length - kPrefix) / kDownloadPartSize * kDownloadPartSize = 0 := by
          rw [missing, List.length_nil, Nat.zero_sub, Nat.zero_div, Nat.zero_mul]
        rw [if_pos missing, zero]
        exact nothing
    | some size =>
        have there : foundOf whole (some size) ≠ [] := nofun
        have length : (foundOf whole (some size)).length = kPrefix + min size whole.length := by
          rw [foundOf, List.length_append, length_partialPrefix, List.length_take]
        have few : min size whole.length < loadSize := by
          simp only [answersAtOnce, cache, there, length, Bool.true_and, decide_eq_false_iff_not, ne_eq, not_false_eq_true,
            decide_true, Nat.not_le] at asks
          change kPrefix + _ < loadSize + _ at asks
          omega
        have partly : (partialPrefix.isPrefixOf (foundOf whole (some size)) &&
            decide ((foundOf whole (some size)).length <
              (fresh hasFilename hasCacheKey toCache whole loadSize).loadSize + kPrefix)) = true := by
          rw [Bool.and_eq_true, decide_eq_true_eq, length]
          exact ⟨isPrefixOf_found _, by rw [Nat.add_comm]; exact Nat.add_lt_add_right few _⟩
        rw [if_neg there]
        dsimp only
        rw [if_pos partly, length, Nat.add_sub_cancel_left]
        exact startLoadingWithPartial_state inside set.1 few fill
  · rw [if_neg cache, if_neg fun set => cache (asksCache_iff.mpr set)]
    exact nothing

theorem run_snoc (fill : UInt8) (whole : Bytes) (d : Download) (events : List Event) (event : Event) :
    run fill whole d (events ++ [event]) = (run fill whole d events).bind fun d => step fill whole d event :=
  List.foldl_concat ..

theorem run_state {d d' : Download} {events : List Event} (known : 0 < whole.length) (state : State whole d)
    (reached : run fill whole d events = some d') : State whole d' := by
  induction events using List.reverseRecOn generalizing d' with
  | nil =>
      cases reached
      exact state
  | append_singleton events event ih =>
      rw [run_snoc] at reached
      obtain ⟨middle, before, result⟩ := Option.bind_eq_some_iff.mp reached
      exact step_state known (ih before) result

end IMeDesktop.Storage.FileDownload
