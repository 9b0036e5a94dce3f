import IMeDesktop.Storage.FileDownload

/-! # The parts of a file come in any order

While parts are awaited the others are where they belong, and the store ends with one of them. So a part that
is written in front of the end fills a hole, and what was skipped is made up for.
-/

namespace IMeDesktop.Storage.FileDownload

open Lib

namespace MtpFileLoader

def toFile (l : MtpFileLoader) : Bool := l.hasFilename && l.toCache = .loadToFileOnly

/-- What is loaded so far. -/
def content (l : MtpFileLoader) : Bytes := if l.toFile then l.file else l.data

/-- What a write at an offset adds to the skipped bytes. -/
def skips (size offset count : Nat) : Int := if offset < size then -count else offset - size

/-- A loader that writes to the file it opened, or to memory. -/
structure Opened (l : MtpFileLoader) : Prop where
  unfinished : l.finished = false
  opened : l.fileIsOpen = l.toFile
  other : l.toFile = true → l.data = []

end MtpFileLoader

open MtpFileLoader

variable {fill : UInt8} {whole : Bytes} {l : MtpFileLoader}

/-! ## One write -/

theorem writeResultPart_memory {buffer : Bytes} (nonempty : buffer ≠ []) (closed : l.fileIsOpen = false) (offset : Nat) :
    l.writeResultPart fill offset buffer = { l with
      data := patch fill l.data offset buffer
      skippedBytes := l.skippedBytes + skips l.data.length offset buffer.length } := by
  unfold writeResultPart
  rw [if_neg nonempty, if_neg (by simp [closed])]
  rcases Nat.lt_trichotomy offset l.data.length with inside | rfl | behind
  · simp only [if_neg (show ¬ offset > l.data.length by omega), if_neg (show ¬ offset = l.data.length by omega)]
    rw [patch_inside (by omega) rfl, skips, if_pos inside]
    rfl
  · simp only [if_neg (show ¬ l.data.length > l.data.length by omega), if_true]
    rw [patch_behind (Nat.le_refl _), resize_length, skips, if_neg (by omega), sub_self, add_zero]
  · simp only [if_pos behind, length_resize, if_true]
    rw [patch_behind (by omega), skips, if_neg (by omega)]

theorem writeResultPart_file {buffer : Bytes} (nonempty : buffer ≠ []) (opened : l.fileIsOpen = true) (offset : Nat) :
    l.writeResultPart fill offset buffer = { l with
      file := patch 0 l.file offset buffer
      skippedBytes := l.skippedBytes + skips l.file.length offset buffer.length } := by
  unfold writeResultPart skips
  rw [if_neg nonempty, if_pos opened]
  dsimp only
  congr 1
  split_ifs
  · rfl
  · rfl
  · omega

/-- What a write does, wherever it goes. -/
theorem writeResultPart_eq {buffer : Bytes} (nonempty : buffer ≠ []) (opened : l.fileIsOpen = l.toFile) (offset : Nat) :
    ∃ data file fill', l.writeResultPart fill offset buffer = { l with
        data := data
        file := file
        skippedBytes := l.skippedBytes + skips l.content.length offset buffer.length } ∧
      (if l.toFile then file else data) = patch fill' l.content offset buffer ∧ (l.toFile = true → data = l.data) := by
  cases file : l.toFile with
  | true =>
      have content : l.content = l.file := if_pos file
      rw [writeResultPart_file nonempty (opened.trans file), content]
      exact ⟨_, _, 0, rfl, rfl, fun _ => rfl⟩
  | false =>
      have content : l.content = l.data := if_neg (by simp [file])
      rw [writeResultPart_memory nonempty (opened.trans file), content]
      exact ⟨_, _, fill, rfl, rfl, nofun⟩

/-! ## Parts in a store -/

/-- The requests up to an offset, and a store with the parts that are not awaited. -/
structure Parts (whole store : Bytes) (next : Nat) (sent : List Nat) : Prop where
  aligned : kDownloadPartSize ∣ next
  ahead : next < whole.length + kDownloadPartSize
  awaited : ∀ offset ∈ sent, kDownloadPartSize ∣ offset ∧ offset < next
  once : sent.Nodup
  stored : ∀ offset, kDownloadPartSize ∣ offset → offset < next → offset ∉ sent →
    Agrees store whole offset (min (offset + kDownloadPartSize) whole.length)
  tail : store.length = 0 ∨ ∃ offset, kDownloadPartSize ∣ offset ∧ offset < next ∧ offset ∉ sent ∧
    store.length = min (offset + kDownloadPartSize) whole.length

theorem partSize_eq : kDownloadPartSize = 131072 := rfl

theorem length_part (whole : Bytes) (offset : Nat) :
    (part whole offset).length = min kDownloadPartSize (whole.length - offset) := by
  rw [part, List.length_take, List.length_drop]

namespace Parts

variable {store : Bytes} {next offset : Nat} {sent : List Nat}

theorem request (parts : Parts whole store next sent) (below : next < whole.length) :
    Parts whole store (next + kDownloadPartSize) (sent ++ [next]) := by
  have aligned := parts.aligned
  have awaited := parts.awaited
  rw [partSize_eq] at aligned awaited
  constructor
  · rw [partSize_eq]
    omega
  · omega
  · intro offset member
    rw [partSize_eq]
    rcases List.mem_append.mp member with old | new
    · have before := awaited offset old
      omega
    · rw [List.mem_singleton.mp new]
      omega
  · rw [List.nodup_append]
    refine ⟨parts.once, List.nodup_singleton _, fun a inside b last same => ?_⟩
    rw [List.mem_singleton.mp last] at same
    have before := awaited a inside
    omega
  · intro offset multiple before missing
    rw [List.mem_append, List.mem_singleton, not_or] at missing
    apply parts.stored offset multiple _ missing.1
    rw [partSize_eq] at before multiple
    omega
  · refine parts.tail.imp_right fun ⟨offset, multiple, before, missing, length⟩ => ?_
    refine ⟨offset, multiple, by omega, ?_, length⟩
    rw [List.mem_append, List.mem_singleton, not_or]
    exact ⟨missing, by omega⟩

/-- An awaited part begins in the file, and in front of the end of the store only if it ends there too. -/
theorem place (parts : Parts whole store next sent) (member : offset ∈ sent) :
    offset < whole.length ∧
      (offset < store.length → offset + (part whole offset).length ≤ store.length) := by
  have aligned := parts.aligned
  have ahead := parts.ahead
  obtain ⟨multiple, before⟩ := parts.awaited offset member
  rw [partSize_eq] at aligned ahead multiple
  refine ⟨by omega, fun inside => ?_⟩
  rw [length_part, partSize_eq]
  rcases parts.tail with none | ⟨last, lastMultiple, lastBefore, missing, length⟩
  · omega
  · have other : offset ≠ last := fun same => missing (same ▸ member)
    rw [partSize_eq] at lastMultiple length
    omega

/-- What is not skipped grows by the bytes of a part. -/
theorem count (parts : Parts whole store next sent) (member : offset ∈ sent) (fill : UInt8) :
    ((patch fill store offset (part whole offset)).length : Int) - skips store.length offset (part whole offset).length =
      store.length + (part whole offset).length := by
  obtain ⟨-, inside⟩ := parts.place member
  rw [length_patch, skips]
  split
  · rename_i before
    have fits := inside before
    omega
  · omega

theorem arrive (parts : Parts whole store next sent) (member : offset ∈ sent) (fill : UInt8) :
    Parts whole (patch fill store offset (part whole offset)) next (sent.erase offset) := by
  have length := length_part whole offset
  obtain ⟨multiple, before⟩ := parts.awaited offset member
  obtain ⟨begins, inside⟩ := parts.place member
  have erased : ∀ other, other ∉ sent.erase offset → other = offset ∨ other ∉ sent := by
    intro other missing
    rw [parts.once.mem_erase_iff] at missing
    tauto
  constructor
  · exact parts.aligned
  · exact parts.ahead
  · exact fun other member => parts.awaited other (List.mem_of_mem_erase member)
  · exact parts.once.erase offset
  · intro other otherMultiple otherBefore missing
    rcases erased other missing with rfl | kept
    · exact agrees_patch
    · by_cases same : other = offset
      · exact absurd member (same ▸ kept)
      · apply (parts.stored other otherMultiple otherBefore kept).patch
        rw [partSize_eq] at multiple otherMultiple length ⊢
        omega
  · right
    rw [length_patch, length]
    by_cases grows : store.length ≤ offset
    · refine ⟨offset, multiple, before, fun member => ?_, ?_⟩
      · exact (parts.once.mem_erase_iff.mp member).1 rfl
      · omega
    · rcases parts.tail with none | ⟨last, lastMultiple, lastBefore, missing, ends⟩
      · omega
      · have fits := inside (by omega)
        refine ⟨last, lastMultiple, lastBefore, fun member => missing (List.mem_of_mem_erase member), ?_⟩
        omega

/-- With no part awaited, all of them are there. -/
theorem complete (parts : Parts whole store next []) (positive : 0 < next) : store = whole.take next := by
  have aligned := parts.aligned
  have all : Agrees store whole 0 (min next whole.length) := by
    constructor
    · have last := (parts.stored (next - kDownloadPartSize) (by rw [partSize_eq] at *; omega)
        (by rw [partSize_eq] at *; omega) nofun).inside
      rw [partSize_eq] at *
      omega
    · intro i _ below
      have here := parts.stored (i / kDownloadPartSize * kDownloadPartSize) ⟨i / kDownloadPartSize, Nat.mul_comm _ _⟩
        (by rw [partSize_eq] at *; omega) nofun
      apply here.same
      · rw [partSize_eq]
        omega
      · rw [partSize_eq]
        omega
  have length : store.length = min next whole.length := by
    have least := all.inside
    rcases parts.tail with none | ⟨last, multiple, before, -, length⟩
    · omega
    · rw [partSize_eq] at *
      omega
  rw [all.eq_take length, List.take_eq_take_iff]
  omega

theorem start (whole : Bytes) : Parts whole [] 0 [] where
  aligned := Nat.dvd_zero _
  ahead := by rw [partSize_eq]; omega
  awaited := nofun
  once := List.nodup_nil
  stored _ _ before := absurd before (Nat.not_lt_zero _)
  tail := .inl rfl

/-- The parts in front of an offset are there. -/
theorem take {use : Nat} (multiple : kDownloadPartSize ∣ use) (positive : 0 < use) (fits : use ≤ whole.length) :
    Parts whole (whole.take use) use [] := by
  have length : (whole.take use).length = use := by
    rw [List.length_take]
    omega
  constructor
  · exact multiple
  · rw [partSize_eq]
    omega
  · exact nofun
  · exact List.nodup_nil
  · intro offset inside before _
    rw [partSize_eq] at *
    constructor
    · omega
    · intro i _ below
      rw [List.getElem?_take, if_pos (by omega)]
  · refine .inr ⟨use - kDownloadPartSize, ?_, ?_, nofun, ?_⟩
    all_goals rw [partSize_eq] at *
    all_goals omega

end Parts

end IMeDesktop.Storage.FileDownload
