import IMeDesktop.Storage.FileDownloadRuns

/-! # A download gives the file

Every request and every part brings a download nearer to its end, and there is always one of them until then.
So it ends, and it ends once.
-/

namespace IMeDesktop.Storage.FileDownload

open Lib MtpFileLoader

variable {fill : UInt8} {whole : Bytes} {l : MtpFileLoader}

/-! ## How far a download is -/

/-- The events that are no order from outside. -/
def Event.works : Event → Bool
  | .request => true
  | .arrive _ => true
  | .increaseLoadSize _ => false

/-- Two for each part that came and one for each that is awaited. -/
def worked (l : MtpFileLoader) : Int := 2 * (l.nextRequestOffset / kDownloadPartSize : Nat) - l.sent.length

/-- The requests are not changed by what is written. -/
theorem asked_writeResultPart (fill : UInt8) (l : MtpFileLoader) (offset : Nat) (bytes : Bytes) :
    (l.writeResultPart fill offset bytes).nextRequestOffset = l.nextRequestOffset ∧
      (l.writeResultPart fill offset bytes).sent = l.sent := by
  unfold writeResultPart
  dsimp only
  split_ifs <;> exact ⟨rfl, rfl⟩

theorem asked_feedPart (fill : UInt8) (l : MtpFileLoader) (offset : Nat) (bytes : Bytes) :
    (l.feedPart fill offset bytes).nextRequestOffset = l.nextRequestOffset ∧
      (l.feedPart fill offset bytes).sent = l.sent := by
  rw [← (asked_writeResultPart fill l offset bytes).1, ← (asked_writeResultPart fill l offset bytes).2, feedPart]
  generalize l.writeResultPart fill offset bytes = l
  split_ifs
  · rw [finalizeResult_eq]
    exact ⟨rfl, rfl⟩
  · exact ⟨rfl, rfl⟩
  · rw [finalizeResult_eq]
    exact ⟨rfl, rfl⟩
  · exact ⟨rfl, rfl⟩

theorem sent_checkForOpen (l : MtpFileLoader) : l.checkForOpen.sent = l.sent := by
  unfold checkForOpen
  split
  · rfl
  · rfl

theorem finishWithBytes_eq (l : MtpFileLoader) (data : Bytes) : l.finishWithBytes data = { l with
    data := data
    localStatus := .loaded
    file := if l.hasFilename && l.toCache = .loadToCacheAsWell then data else l.file
    finished := true
    fileIsOpen := false } := by
  unfold finishWithBytes
  by_cases file : (l.hasFilename && decide (l.toCache = .loadToCacheAsWell)) = true
  · simp only [if_pos file]
  · simp only [if_neg file]

theorem sent_start (fill : UInt8) (l : MtpFileLoader) (found : Bytes) : (l.start fill found).sent = l.sent := by
  unfold MtpFileLoader.start localLoaded startLoadingWithPartial
  dsimp only
  split_ifs
  all_goals simp only [(asked_feedPart ..).2, sent_checkForOpen, finishWithBytes_eq]

theorem step_works {d d' : Download} {event : Event} (result : step fill whole d event = some d') :
    worked d'.loader = worked d.loader + if event.works then 1 else 0 := by
  cases event with
  | request =>
      rw [step] at result
      split at result
      · cases result
        have next : (d.loader.nextRequestOffset + kDownloadPartSize) / kDownloadPartSize =
            d.loader.nextRequestOffset / kDownloadPartSize + 1 := Nat.add_div_right _ (by decide)
        simp only [worked, takeNextRequestOffset, next, List.length_append, List.length_singleton, Event.works, if_true]
        push_cast
        omega
      · cases result
  | arrive offset =>
      rw [step] at result
      split at result
      · rename_i member
        cases result
        have positive := List.length_pos_of_mem member
        simp only [worked, (asked_feedPart ..).1, (asked_feedPart ..).2, List.length_erase_of_mem member, Event.works,
          if_true]
        omega
      · cases result
  | increaseLoadSize size =>
      rw [step] at result
      split at result
      · cases result
      · rw [increaseLoadSize] at result
        split at result
        · cases result
          exact (add_zero _).symm
        · cases result

theorem run_works {d d' : Download} {events : List Event} (reached : run fill whole d events = some d') :
    worked d'.loader = worked d.loader + events.countP Event.works := by
  induction events using List.reverseRecOn generalizing d' with
  | nil =>
      cases reached
      exact (add_zero _).symm
  | append_singleton events event ih =>
      rw [run_snoc] at reached
      obtain ⟨middle, before, result⟩ := Option.bind_eq_some_iff.mp reached
      rw [step_works result, ih before, List.countP_append, List.countP_singleton]
      push_cast
      split
      · omega
      · omega

/-! ## What a state tells -/

/-- A size up to the end of its last part. -/
def roundedUp (size : Nat) : Nat := (size + kDownloadPartSize - 1) / kDownloadPartSize * kDownloadPartSize

theorem Done.roundedUp {received : Nat} (done : Done whole l received) :
    l.nextRequestOffset = roundedUp l.loadSize := by
  have aligned := done.aligned
  have all := done.all
  have near := done.near
  rw [FileDownload.roundedUp]
  rw [partSize_eq] at *
  omega

theorem Loading.goes {received : Nat} (loading : Loading whole l received) (known : 0 < whole.length)
    (positive : 0 < l.loadSize) (pending : l.sent = [] → l.nextRequestOffset = 0 ∨ l.nextRequestOffset < l.loadSize) :
    l.sent ≠ [] ∨ l.readyToRequest = true := by
  by_cases none : l.sent = []
  · right
    have below : l.nextRequestOffset < l.loadSize := (pending none).elim (fun zero => zero ▸ positive) id
    have load := loading.load
    have goes : l.lastComplete = false := by
      by_contra last
      have past := loading.last (Bool.not_eq_false _ ▸ last)
      omega
    have full : l.fullSize ≠ 0 := by
      rw [loading.full]
      omega
    simp [readyToRequest, loading.opened.unfinished, goes, full, below]
  · exact .inl none

theorem State.worked_le {d : Download} (state : State whole d) :
    worked d.loader ≤ 2 * (FileDownload.roundedUp whole.length / kDownloadPartSize : Nat) := by
  have next : d.loader.nextRequestOffset < whole.length + kDownloadPartSize := by
    cases state with
    | loading sound => exact sound.parts.ahead
    | done sound =>
        have near := sound.near
        have load := sound.load
        omega
  have least : d.loader.nextRequestOffset / kDownloadPartSize ≤
      FileDownload.roundedUp whole.length / kDownloadPartSize := by
    rw [FileDownload.roundedUp]
    rw [partSize_eq] at *
    omega
  rw [worked]
  omega

/-! ## The download -/

variable {hasFilename hasCacheKey : Bool} {toCache : LoadToCacheSetting} {loadSize : Nat} {cached : Option Nat}

/-- What the cache has is the result, as it is. -/
theorem begin_at_once (fill : UInt8)
    (answers : (fresh hasFilename hasCacheKey toCache whole loadSize).answersAtOnce (foundOf whole cached) = true) :
    begin fill (fresh hasFilename hasCacheKey toCache whole loadSize) (foundOf whole cached) =
      { loader := { fresh hasFilename hasCacheKey toCache whole loadSize with
          localStatus := .loading }.finishWithBytes ((foundOf whole cached).drop kPrefix)
        received := (foundOf whole cached).length - kPrefix } := by
  have asked := answers
  simp only [answersAtOnce, Bool.and_eq_true, decide_eq_true_eq] at asked
  obtain ⟨⟨cache, there⟩, enough⟩ := asked
  cases cached with
  | none => exact absurd rfl there
  | some size =>
      have start : ¬ (partialPrefix.isPrefixOf (foundOf whole (some size)) &&
          decide ((foundOf whole (some size)).length <
            (fresh hasFilename hasCacheKey toCache whole loadSize).loadSize + kPrefix)) = true := by
        rw [Bool.and_eq_true, decide_eq_true_eq]
        exact fun less => absurd enough (Nat.not_le.mpr less.2)
      unfold begin MtpFileLoader.start
      rw [taken, if_pos answers, if_pos (asksCache_iff.mp cache), localLoaded, if_neg there]
      dsimp only
      have partly : partialPrefix.isPrefixOf (foundOf whole (some size)) = true := isPrefixOf_found _
      rw [if_neg start, if_pos partly]

/-- Nothing happens to a loader that is finished and waits for nothing. -/
theorem run_finished {d d' : Download} {events : List Event} (finished : d.loader.finished = true)
    (none : d.loader.sent = []) (reached : run fill whole d events = some d') : d' = d := by
  induction events using List.reverseRecOn generalizing d' with
  | nil =>
      cases reached
      rfl
  | append_singleton events event ih =>
      rw [run_snoc] at reached
      obtain ⟨middle, before, result⟩ := Option.bind_eq_some_iff.mp reached
      obtain rfl := ih before
      cases event with
      | request => simp [step, readyToRequest, finished] at result
      | arrive offset => simp [step, none] at result
      | increaseLoadSize size => simp [step, finished] at result

/-- Where the cache has enough, its bytes are the result, and `finalizeResult` is not called. Otherwise it is called
once and with the last awaited part, for the file up to the end of the last part that was to be loaded; until then there
is always a part that is awaited or asked for, unless nothing is to be loaded, and so often no more can happen than
there are parts. -/
theorem download_assembles (fill : UInt8) (hasFilename hasCacheKey : Bool) (toCache : LoadToCacheSetting)
    (cached : Option Nat) (events : List Event) {d : Download} (known : 0 < whole.length)
    (inside : loadSize ≤ whole.length)
    (reached : run fill whole
      (begin fill (fresh hasFilename hasCacheKey toCache whole loadSize) (foundOf whole cached)) events = some d) :
    if (fresh hasFilename hasCacheKey toCache whole loadSize).answersAtOnce (foundOf whole cached) = true then
      d.loader.finished = true ∧ d.loader.finalized = 0 ∧ d.loader.sent = [] ∧
        d.loader.content = (foundOf whole cached).drop kPrefix ∧ d.loader.currentOffset = d.received
    else
      (d.loader.finished = false ∨ d.loader.toFile = false → d.loader.currentOffset = d.received) ∧
      d.loader.finalized = (if d.loader.finished then 1 else 0) ∧
      (d.loader.finished = true → d.loader.sent = [] ∧
        d.loader.content = whole.take (min d.loader.fullSize (roundedUp d.loader.loadSize))) ∧
      (d.loader.finished = false → 0 < d.loader.loadSize → d.loader.sent ≠ [] ∨ d.loader.readyToRequest = true) ∧
      events.countP Event.works ≤ 2 * (roundedUp whole.length / kDownloadPartSize) := by
  by_cases answers :
      (fresh hasFilename hasCacheKey toCache whole loadSize).answersAtOnce (foundOf whole cached) = true
  · rw [if_pos answers]
    have begins := begin_at_once fill answers
    rw [finishWithBytes_eq] at begins
    rw [begins] at reached
    obtain rfl := run_finished rfl rfl reached
    have cache : (fresh hasFilename hasCacheKey toCache whole loadSize).asksCache = true := by
      simp only [answersAtOnce, Bool.and_eq_true] at answers
      exact answers.1.1
    have memory := memory_of_cached (asksCache_iff.mp cache).1
    refine ⟨rfl, rfl, rfl, if_neg (ne_true_of_eq_false memory), ?_⟩
    change ((List.drop kPrefix (foundOf whole cached)).length : Int) - 0 = _
    rw [List.length_drop, Int.sub_zero]
  · rw [if_neg answers]
    have starts := begin_state inside (Bool.eq_false_iff.mpr answers) fill
    have state := run_state known starts reached
    refine ⟨?_, ?_, ?_, ?_, ?_⟩
    · rintro (unfinished | memory)
      · cases state with
        | loading sound => exact sound.currentOffset
        | done sound =>
            rw [sound.finished] at unfinished
            cases unfinished
      · cases state with
        | loading sound => exact sound.currentOffset
        | done sound =>
            rw [currentOffset, sound.closed]
            exact sound.count memory
    · cases state with
      | loading sound =>
          rw [sound.calls, sound.opened.unfinished]
          rfl
      | done sound =>
          rw [sound.calls, sound.finished]
          rfl
    · intro finished
      cases state with
      | loading sound =>
          rw [sound.opened.unfinished] at finished
          cases finished
      | done sound =>
          refine ⟨sound.none, ?_⟩
          rw [sound.content, sound.full, ← sound.roundedUp, List.take_eq_take_iff]
          omega
    · intro unfinished positive
      cases state with
      | loading sound pending => exact sound.goes known positive pending
      | done sound =>
          rw [sound.finished] at unfinished
          cases unfinished
    · have count := run_works reached
      have upper := state.worked_le
      have lower : 0 ≤ worked (begin fill (fresh hasFilename hasCacheKey toCache whole loadSize)
          (foundOf whole cached)).loader := by
        have none := sent_start fill (fresh hasFilename hasCacheKey toCache whole loadSize) (foundOf whole cached)
        rw [worked, begin, none]
        exact Int.sub_nonneg_of_le (Int.natCast_nonneg _)
      omega

/-- What a download puts in the cache is what a later one may find there. -/
theorem put_cacheable (fill : UInt8) (hasFilename hasCacheKey : Bool) (toCache : LoadToCacheSetting)
    (cached : Option Nat) (events : List Event) {d : Download} (known : 0 < whole.length)
    (inside : loadSize ≤ whole.length)
    (reached : run fill whole
      (begin fill (fresh hasFilename hasCacheKey toCache whole loadSize) (foundOf whole cached)) events = some d) :
    ∀ value ∈ d.loader.put, Cacheable whole value := by
  by_cases answers :
      (fresh hasFilename hasCacheKey toCache whole loadSize).answersAtOnce (foundOf whole cached) = true
  · have begins := begin_at_once fill answers
    rw [finishWithBytes_eq] at begins
    rw [begins] at reached
    obtain rfl := run_finished rfl rfl reached
    exact nofun
  · have starts := begin_state inside (Bool.eq_false_iff.mpr answers) fill
    cases run_state known starts reached with
    | loading sound =>
        rw [sound.put]
        exact nofun
    | done sound => exact sound.put

/-! ## Two bytes -/

theorem two_bytes_loaded :
    ∃ d, run 0 [1, 2] (begin 0 (fresh true true .loadToFileOnly [1, 2] 1) (foundOf [1, 2] none)) [.request, .arrive 0] =
        some d ∧ d.loader.finished = true ∧ d.loader.finalized = 1 ∧ d.loader.content = [1, 2] := by
  obtain ⟨d, reached, finished, full, load⟩ : ∃ d, run 0 [1, 2]
      (begin 0 (fresh true true .loadToFileOnly [1, 2] 1) (foundOf [1, 2] none)) [.request, .arrive 0] = some d ∧
        d.loader.finished = true ∧ d.loader.fullSize = 2 ∧ d.loader.loadSize = 1 :=
    ⟨_, rfl, by decide, by decide, by decide⟩
  have all := download_assembles 0 true true .loadToFileOnly none [.request, .arrive 0] (by decide) (by decide) reached
  rw [if_neg (by decide)] at all
  obtain ⟨-, calls, result, -⟩ := all
  have content := (result finished).2
  rw [finished] at calls
  rw [full, load] at content
  exact ⟨d, reached, finished, calls, content⟩

/-- A byte in the cache is enough for a loader of one byte, though its file has two and a part is longer. -/
theorem cached_byte_not_finalized :
    (∃ d, run 0 [1, 2] (begin 0 (fresh false true .loadToCacheAsWell [1, 2] 1) (foundOf [1, 2] (some 1))) [] = some d ∧
        d.loader.finished = true) ∧
      ∀ events d,
        run 0 [1, 2] (begin 0 (fresh false true .loadToCacheAsWell [1, 2] 1) (foundOf [1, 2] (some 1))) events = some d →
          d.loader.finalized = 0 ∧
            d.loader.content ≠ [1, 2].take (min d.loader.fullSize (roundedUp d.loader.loadSize)) := by
  constructor
  · exact ⟨_, rfl, by decide⟩
  · intro events d reached
    obtain rfl := run_finished (by decide) (by decide) reached
    exact ⟨by decide, by decide⟩

end IMeDesktop.Storage.FileDownload
