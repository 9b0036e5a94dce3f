import IMeDesktop.Storage.WriteManager

/-! # Local files survive

Where the file with a final name is there while the plain one is written, a name is read at every moment: as it was
before, or as it was given to be written. Without it, what the plain file had is lost when it is opened.

Without crashes, what was given last for a name either waits or is read. Something is scheduled while something waits,
so that in the end it is read.
-/

namespace IMeDesktop.Storage.Details

open Lib DataStream

section Reading

variable {crypto : Crypto} {files : Files} {value : FileReadDescriptor}

/-- What a name is read as. -/
def Shows (crypto : Crypto) (files : Files) (value : FileReadDescriptor) : Prop :=
  ∃ left, ReadFile crypto files = some (value, left)

theorem toTry_safe (there : (files .safe).isSome = true) : toTry files = (.safe, none) := if_pos there

theorem toTry_simple (safe : files .safe = none) {file : File} (simple : files .simple = some file)
    (backup : files .backup = none) : toTry files = (.simple, none) := by
  rw [toTry, safe, simple, backup]
  rfl

theorem toTry_backup (safe : files .safe = none) (simple : files .simple = none) :
    toTry files = (.backup, none) := by
  rw [toTry, safe, simple]
  rfl

/-- One file to read from. -/
theorem ReadFile_only {name : Postfix} (only : toTry files = (name, none)) :
    ReadFile crypto files =
      ((files name).bind fun file => readBytes crypto file.bytes).map fun read => (read, files) := by
  rw [ReadFile, only]
  cases read : (files name).bind fun file => readBytes crypto file.bytes with
  | none => simp [read]
  | some result => simp [read]

theorem shows_safe {file : File} (safe : files .safe = some file) :
    Shows crypto files value ↔ readBytes crypto file.bytes = some value := by
  have only : toTry files = (.safe, none) := toTry_safe (by rw [safe]; rfl)
  rw [Shows, ReadFile_only only, safe, Option.bind_some]
  constructor
  · rintro ⟨left, read⟩
    obtain ⟨result, done, same⟩ := Option.map_eq_some_iff.mp read
    rw [done, (Prod.mk.inj same).1]
  · intro read
    exact ⟨files, by rw [read]; rfl⟩

/-- What is read is read again. -/
theorem ReadFile_again {left : Files} (read : ReadFile crypto files = some (value, left)) :
    Shows crypto left value := by
  have only : ∀ {name : Postfix} {file : File} {files : Files}, toTry files = (name, none) → files name = some file →
      readBytes crypto file.bytes = some value → Shows crypto files value := fun first there result =>
    ⟨_, ReadFile_first crypto first there result⟩
  cases safe : files .safe with
  | some file =>
      have kept := read
      rw [ReadFile_only (toTry_safe (by rw [safe]; rfl))] at kept
      obtain ⟨result, -, same⟩ := Option.map_eq_some_iff.mp kept
      cases (Prod.mk.inj same).2
      exact ⟨_, read⟩
  | none =>
      cases simple : files .simple with
      | none =>
          have kept := read
          rw [ReadFile_only (toTry_backup safe simple)] at kept
          obtain ⟨result, -, same⟩ := Option.map_eq_some_iff.mp kept
          cases (Prod.mk.inj same).2
          exact ⟨_, read⟩
      | some plain =>
          cases backup : files .backup with
          | none =>
              have kept := read
              rw [ReadFile_only (toTry_simple safe simple backup)] at kept
              obtain ⟨result, -, same⟩ := Option.map_eq_some_iff.mp kept
              cases (Prod.mk.inj same).2
              exact ⟨_, read⟩
          | some legacy =>
              -- one of the two is removed
              have one : toTry (files.set .backup none) = (.simple, none) := toTry_simple safe simple rfl
              have other : toTry (files.set .simple none) = (.backup, none) := toTry_backup safe rfl
              rw [ReadFile] at read
              simp only [toTry, safe, simple, backup, Option.isSome_none, Bool.false_eq_true, if_false] at read
              by_cases older : plain.lastModified < legacy.lastModified
              · simp only [older, if_true, backup, Option.bind_some] at read
                cases first : readBytes crypto legacy.bytes with
                | some result =>
                    simp only [first, Option.some.injEq, Prod.mk.injEq] at read
                    obtain ⟨rfl, rfl⟩ := read
                    exact only other backup first
                | none =>
                    simp only [first, Option.bind_eq_bind, Option.bind_some, simple] at read
                    obtain ⟨result, second, same⟩ := Option.bind_eq_some_iff.mp read
                    cases same
                    exact only one simple second
              · simp only [older, if_false, simple, Option.bind_some] at read
                cases first : readBytes crypto plain.bytes with
                | some result =>
                    simp only [first, Option.some.injEq, Prod.mk.injEq] at read
                    obtain ⟨rfl, rfl⟩ := read
                    exact only one simple first
                | none =>
                    simp only [first, Option.bind_eq_bind, Option.bind_some, backup] at read
                    obtain ⟨result, second, same⟩ := Option.bind_eq_some_iff.mp read
                    cases same
                    exact only other backup second

end Reading

/-! ## One file is written -/

section Writing

variable {crypto : Crypto} {files : Files} {value : FileReadDescriptor} (writing : Writing) (now : Nat)
  (content : Content crypto)

/-- While the plain file is written, the one with the final name is there. -/
def Writing.Guarded (files : Files) : Prop :=
  writing.saved = true ∨ writing.opened = false ∨ (files .safe).isSome = true

instance (files : Files) : Decidable (writing.Guarded files) :=
  inferInstanceAs (Decidable (_ ∨ _ ∨ _))

theorem writeNow_shows (done : writing.saved = true ∨ writing.opened = true) :
    Shows crypto (writeNow writing now content.entry files) content.value := by
  obtain ⟨name, only, there⟩ := toTry_writeNow done now content.entry files
  exact ⟨_, ReadFile_first crypto only there content.reads⟩

theorem writeNow_nothing (saved : writing.saved = false) (opened : writing.opened = false) :
    writeNow writing now content.entry files = files := by
  rw [writeNow, saved, opened]
  rfl

/-- What is read afterwards. -/
theorem writeNow_either (shows : Shows crypto files value) :
    Shows crypto (writeNow writing now content.entry files) value ∨
      Shows crypto (writeNow writing now content.entry files) content.value := by
  by_cases done : writing.saved = true ∨ writing.opened = true
  · exact .inr (writeNow_shows writing now content done)
  · rw [not_or, Bool.not_eq_true, Bool.not_eq_true] at done
    rw [writeNow_nothing writing now content done.1 done.2]
    exact .inl shows

theorem writeSteps_shows (shows : Shows crypto files value) (guarded : writing.Guarded files) :
    ∀ cut ∈ writeSteps writing now content.entry files,
      Shows crypto cut value ∨ Shows crypto cut content.value := by
  have new : ∀ {files : Files}, files .safe = some ⟨content.entry.bytes, now⟩ → Shows crypto files content.value :=
    fun safe => (shows_safe safe).mpr content.reads
  intro cut member
  unfold writeSteps at member
  cases saved : writing.saved with
  | true =>
      simp only [saved, if_true, List.mem_cons, List.not_mem_nil, or_false] at member
      right
      rcases member with rfl | rfl | rfl
      · exact new rfl
      · exact new rfl
      · exact new rfl
  | false =>
      cases opened : writing.opened with
      | false => simp [saved, opened] at member
      | true =>
          have safe : (files .safe).isSome = true := by simpa [Writing.Guarded, saved, opened] using guarded
          obtain ⟨file, safe⟩ := Option.isSome_iff_exists.mp safe
          have old : ∀ {other : Files}, other .safe = files .safe → Shows crypto other value := fun same =>
            (shows_safe (same.trans safe)).mpr ((shows_safe safe).mp shows)
          simp only [saved, opened, Bool.false_eq_true, if_false, if_true, List.mem_append, List.mem_map,
            List.mem_cons, List.not_mem_nil, or_false] at member
          rcases member with ⟨length, -, rfl⟩ | rfl | rfl
          · exact .inl (old rfl)
          · exact .inl (old rfl)
          · right
            split_ifs
            · exact new rfl
            · exact ⟨_, ReadFile_first crypto (toTry_simple rfl rfl rfl) rfl content.reads⟩

/-- A name that has no file from before has to be guarded. -/
theorem writeSteps_shows_iff (shows : Shows crypto files value) (backup : files .backup = none) :
    (∀ cut ∈ writeSteps writing now content.entry files, Shows crypto cut value ∨ Shows crypto cut content.value) ↔
      writing.Guarded files := by
  refine ⟨fun each => ?_, writeSteps_shows writing now content shows⟩
  by_contra unguarded
  simp only [Writing.Guarded, not_or, Bool.not_eq_true, Bool.not_eq_false] at unguarded
  obtain ⟨saved, opened, safe⟩ := unguarded
  -- right after the plain file was opened
  have member : files.set .simple (some ⟨[], now⟩) ∈ writeSteps writing now content.entry files := by
    simp only [writeSteps, saved, opened, Bool.false_eq_true, if_false, if_true]
    refine List.mem_append_left _ (List.mem_map.mpr ⟨0, List.mem_range.mpr (Nat.succ_pos _), rfl⟩)
  have unread : ∀ value, ¬Shows crypto (files.set .simple (some ⟨[], now⟩)) value := by
    have none : files .safe = .none := Option.not_isSome_iff_eq_none.mp (by rw [safe]; exact Bool.false_ne_true)
    have only : toTry (files.set .simple (some ⟨[], now⟩)) = (.simple, .none) := toTry_simple none rfl backup
    rintro value ⟨left, read⟩
    rw [ReadFile_only only] at read
    cases read
  rcases each _ member with old | new
  · exact unread _ old
  · exact unread _ new

end Writing

/-! ## Runs with crashes -/

namespace WriteManager

variable {crypto : Crypto} {ν : Type} [DecidableEq ν] {m : WriteManager ν crypto} {base : ν}

theorem mem_place {base other : ν} {content new : Content crypto} {l : List (ν × Content crypto)}
    (member : (other, content) ∈ place base new l) : (other, content) = (base, new) ∨ (other, content) ∈ l := by
  induction l with
  | nil => exact .inl (List.mem_singleton.mp member)
  | cons first rest ih =>
      rw [place] at member
      split_ifs at member with same
      · rcases List.mem_cons.mp member with here | there
        · exact .inl here
        · exact .inr (List.mem_cons_of_mem _ there)
      · rcases List.mem_cons.mp member with here | there
        · exact .inr (here ▸ List.mem_cons_self)
        · exact (ih there).imp_right (List.mem_cons_of_mem _)

theorem mem_dropFirst {base : ν} {entry : ν × Content crypto} {l : List (ν × Content crypto)}
    (member : entry ∈ dropFirst base l) : entry ∈ l := by
  induction l with
  | nil => exact member
  | cons first rest ih =>
      rw [dropFirst] at member
      split_ifs at member
      · exact List.mem_cons_of_mem _ member
      · rcases List.mem_cons.mp member with rfl | there
        · exact List.mem_cons_self
        · exact List.mem_cons_of_mem _ (ih there)

/-- The writes of a name are guarded where they are made. -/
def GuardedAll (base : ν) : List (Made ν crypto) → Folder ν → Prop
  | [], _ => True
  | made :: rest, folder =>
      (made.base = base → made.writing.Guarded (folder base)) ∧ GuardedAll base rest (made.apply folder)

def Event.asked : Event ν crypto → Call ν crypto
  | .call asked => asked
  | .crash asked _ => asked

def Guarded (base : ν) (m : WriteManager ν crypto) (event : Event ν crypto) : Prop :=
  GuardedAll base (m.made event.asked) m.folder

/-- What a call is given for a name. -/
def given (base : ν) : Call ν crypto → List (Content crypto)
  | .write other content => if other = base then [content] else []
  | .writeSync made => if made.base = base then [made.content] else []
  | .writeScheduled _ _ => []
  | .writeSyncAll _ => []
  | .readFile _ => []

theorem apply_other {made : Made ν crypto} (other : made.base ≠ base) (folder : Folder ν) :
    made.apply folder base = folder base := Function.update_of_ne (Ne.symm other) _ _

theorem apply_same {made : Made ν crypto} (same : made.base = base) (folder : Folder ν) :
    made.apply folder base = writeNow made.writing made.now made.content.entry (folder base) := by
  subst same
  exact Function.update_self _ _ _

omit [DecidableEq ν] in
theorem mem_madeOf {works : Nat → Writing × Nat} {made : Made ν crypto} {rounds : Nat} {l : List (ν × Content crypto)}
    (member : made ∈ madeOf works rounds l) : (made.base, made.content) ∈ l := by
  induction l generalizing rounds with
  | nil => cases rounds <;> cases member
  | cons first rest ih =>
      cases rounds with
      | zero => cases member
      | succ rounds =>
          rcases List.mem_cons.mp member with rfl | later
          · exact List.mem_cons_self
          · exact List.mem_cons_of_mem _ (ih later)

/-- What waits is written in order. -/
theorem writeAll_eq (works : Nat → Writing × Nat) (rounds : Nat) (m : WriteManager ν crypto) :
    writeAll works rounds m =
      { m with
        folder := (madeOf works rounds m.scheduled).foldl (fun folder made => made.apply folder) m.folder
        scheduled := m.scheduled.drop rounds } := by
  induction rounds generalizing m with
  | zero => rfl
  | succ rounds ih =>
      obtain ⟨folder, scheduled, posted⟩ := m
      cases scheduled with
      | nil => rfl
      | cons first rest =>
          simp only [writeAll, writeOneScheduledNow, ih]
          rfl

theorem writeScheduled_eq (writing : Writing) (now : Nat) (m : WriteManager ν crypto) :
    m.writeScheduled writing now =
      { folder := (madeOf (fun _ => (writing, now)) 1 m.scheduled).foldl (fun folder made => made.apply folder) m.folder
        scheduled := m.scheduled.drop 1
        posted := if m.scheduled.drop 1 ≠ [] then m.posted - 1 + 1 else m.posted - 1 } := by
  obtain ⟨folder, scheduled, posted⟩ := m
  cases scheduled with
  | nil => rfl
  | cons first rest =>
      simp only [writeScheduled, writeOneScheduledNow, true_and, List.drop_succ_cons, List.drop_zero]
      split_ifs
      · rfl
      · rfl

theorem call_folder (m : WriteManager ν crypto) (asked : Call ν crypto) :
    (m.call asked).folder = (m.made asked).foldl (fun folder made => made.apply folder) m.folder ∨
      ∃ other, asked = .readFile other := by
  cases asked with
  | write => exact .inl rfl
  | writeSync => exact .inl rfl
  | writeScheduled writing now => exact .inl (congrArg WriteManager.folder (writeScheduled_eq writing now m))
  | writeSyncAll works => exact .inl (congrArg WriteManager.folder (writeAll_eq works _ m))
  | readFile other => exact .inr ⟨other, rfl⟩

theorem mem_made {asked : Call ν crypto} {made : Made ν crypto} (member : made ∈ m.made asked)
    (same : made.base = base) : made.content ∈ given base asked ∨ (base, made.content) ∈ m.scheduled := by
  cases asked with
  | write => cases member
  | writeSync =>
      cases List.mem_singleton.mp member
      exact .inl (by simp [given, same])
  | writeScheduled => exact .inr (same ▸ mem_madeOf member)
  | writeSyncAll => exact .inr (same ▸ mem_madeOf member)
  | readFile => cases member

theorem mem_scheduled_call {asked : Call ν crypto} {content : Content crypto}
    (member : (base, content) ∈ (m.call asked).scheduled) :
    content ∈ given base asked ∨ (base, content) ∈ m.scheduled := by
  cases asked with
  | write other new =>
      rcases mem_place member with same | before
      · cases same
        exact .inl (by simp [given])
      · exact .inr before
  | writeSync made => exact .inr (mem_dropFirst member)
  | writeScheduled writing now =>
      rw [call, writeScheduled_eq] at member
      exact .inr (List.mem_of_mem_drop member)
  | writeSyncAll works =>
      rw [call, writeSyncAll, writeAll_eq] at member
      exact .inr (List.mem_of_mem_drop member)
  | readFile other =>
      rw [call, readFile] at member
      split at member
      · exact .inr member
      · exact .inr member

theorem shows_readFile {value : FileReadDescriptor} (shows : Shows crypto (m.folder base) value) (other : ν) :
    Shows crypto ((m.readFile other).folder base) value := by
  unfold readFile
  split
  · exact shows
  · rename_i result files found
    change Shows crypto (Function.update m.folder other files base) value
    by_cases same : other = base
    · subst same
      obtain ⟨left, read⟩ := shows
      cases found.symm.trans read
      rw [Function.update_self]
      exact ReadFile_again found
    · rwa [Function.update_of_ne (Ne.symm same)]

/-- What may be read as a name, and what waits for it. -/
structure Keeps (base : ν) (known : FileReadDescriptor → Prop) (m : WriteManager ν crypto) : Prop where
  shows : ∃ value, known value ∧ Shows crypto (m.folder base) value
  waits : ∀ content, (base, content) ∈ m.scheduled → known content.value

section Kept

variable {known : FileReadDescriptor → Prop}

theorem shows_apply {made : Made ν crypto} {folder : Folder ν}
    (shows : ∃ value, known value ∧ Shows crypto (folder base) value)
    (new : made.base = base → known made.content.value) :
    ∃ value, known value ∧ Shows crypto (made.apply folder base) value := by
  obtain ⟨value, fine, read⟩ := shows
  by_cases same : made.base = base
  · rw [apply_same same]
    rcases writeNow_either made.writing made.now made.content read with old | written
    · exact ⟨value, fine, old⟩
    · exact ⟨_, new same, written⟩
  · rw [apply_other same]
    exact ⟨value, fine, read⟩

theorem shows_foldl {mades : List (Made ν crypto)} {folder : Folder ν}
    (shows : ∃ value, known value ∧ Shows crypto (folder base) value)
    (new : ∀ made ∈ mades, made.base = base → known made.content.value) :
    ∃ value, known value ∧ Shows crypto (mades.foldl (fun folder made => made.apply folder) folder base) value := by
  induction mades generalizing folder with
  | nil => exact shows
  | cons made rest ih =>
      rw [List.forall_mem_cons] at new
      exact ih (shows_apply shows new.1) new.2

/-- At every moment, when the writes are guarded. -/
theorem shows_foldersOf {mades : List (Made ν crypto)} {folder : Folder ν}
    (shows : ∃ value, known value ∧ Shows crypto (folder base) value)
    (new : ∀ made ∈ mades, made.base = base → known made.content.value) (guarded : GuardedAll base mades folder) :
    ∀ cut ∈ foldersOf mades folder, ∃ value, known value ∧ Shows crypto (cut base) value := by
  induction mades generalizing folder with
  | nil =>
      intro cut member
      cases List.mem_singleton.mp member
      exact shows
  | cons made rest ih =>
      rw [List.forall_mem_cons] at new
      intro cut member
      rcases List.mem_cons.mp member with rfl | member
      · exact shows
      · rcases List.mem_append.mp member with inside | later
        · obtain ⟨files, step, rfl⟩ := List.mem_map.mp inside
          by_cases same : made.base = base
          · obtain ⟨value, fine, read⟩ := shows
            subst same
            rw [Function.update_self]
            have either := writeSteps_shows made.writing made.now made.content read (guarded.1 rfl) files step
            rcases either with old | written
            · exact ⟨value, fine, old⟩
            · exact ⟨_, new.1 rfl, written⟩
          · rw [Function.update_of_ne (Ne.symm same)]
            exact shows
        · exact ih (shows_apply shows new.1) new.2 guarded.2 cut later

theorem Keeps.call (h : Keeps base known m) {asked : Call ν crypto}
    (new : ∀ content ∈ given base asked, known content.value) : Keeps base known (m.call asked) := by
  have all : ∀ content, content ∈ given base asked ∨ (base, content) ∈ m.scheduled → known content.value := by
    rintro content (now | before)
    · exact new content now
    · exact h.waits content before
  refine ⟨?_, fun content member => all content (mem_scheduled_call member)⟩
  rcases m.call_folder asked with same | ⟨other, rfl⟩
  · rw [same]
    exact shows_foldl h.shows fun made member same => all _ (mem_made member same)
  · obtain ⟨value, fine, read⟩ := h.shows
    exact ⟨value, fine, shows_readFile read other⟩

theorem Keeps.step (h : Keeps base known m) {event : Event ν crypto} (guarded : m.Guarded base event)
    (new : ∀ content ∈ given base event.asked, known content.value) : Keeps base known (m.step event) := by
  cases event with
  | call asked => exact h.call new
  | crash asked after =>
      refine ⟨?_, fun content member => by cases member⟩
      have fine : ∀ made ∈ m.made asked, made.base = base → known made.content.value := fun made member same => by
        rcases mem_made member same with now | before
        · exact new _ now
        · exact h.waits _ before
      have each := shows_foldersOf h.shows fine guarded
      rw [WriteManager.step, List.getD_eq_getElem?_getD]
      cases found : (foldersOf (m.made asked) m.folder)[after]? with
      | none => exact h.shows
      | some cut => exact each cut (List.mem_of_getElem? found)

end Kept

/-- However often it crashes, a name is read at every moment, as it was or as it was given to be written. -/
theorem shows_run {value : FileReadDescriptor} (shows : Shows crypto (m.folder base) value)
    {events : List (Event ν crypto)} (guarded : EveryStep WriteManager.step (Guarded base) m events) :
    ∃ value', Shows crypto ((events.foldl WriteManager.step m).folder base) value' ∧
      (value' = value ∨ ∃ content : Content crypto, content.value = value' ∧
        ((base, content) ∈ m.scheduled ∨ ∃ event ∈ events, content ∈ given base event.asked)) := by
  have run : ∀ (known : FileReadDescriptor → Prop) (events : List (Event ν crypto)) {m : WriteManager ν crypto},
      Keeps base known m → EveryStep WriteManager.step (Guarded base) m events →
        (∀ event ∈ events, ∀ content ∈ given base event.asked, known content.value) →
          Keeps base known (events.foldl WriteManager.step m) := by
    intro known events
    induction events with
    | nil => exact fun h _ _ => h
    | cons event rest ih =>
        intro m h guarded new
        rw [List.forall_mem_cons] at new
        exact ih (h.step guarded.1 new.1) guarded.2 new.2
  have start : Keeps base (fun value' => value' = value ∨ ∃ content : Content crypto, content.value = value' ∧
      ((base, content) ∈ m.scheduled ∨ ∃ event ∈ events, content ∈ given base event.asked)) m :=
    ⟨⟨value, .inl rfl, shows⟩, fun content waits => .inr ⟨content, rfl, .inl waits⟩⟩
  obtain ⟨value', fine, read⟩ := (run _ events start guarded fun event member content given =>
    .inr ⟨content, rfl, .inr ⟨event, member, given⟩⟩).shows
  exact ⟨value', read, fine⟩

/-- What was read back for three bytes is written again, over a file with a final name. -/
def threeContent : Content knownCrypto := .ofArrays knownCrypto threeArrays (by decide)

def threeFolder : Folder String := fun _ => Files.set (fun _ => none) .safe (some ⟨threeContent.entry.bytes, 0⟩)

/-- The plain file was being written. -/
def threeCrashed : List (Event String knownCrypto) :=
  [.crash (.writeSync ⟨"map", threeContent, ⟨false, true, false⟩, 1⟩) 5, .call (.write "map" threeContent),
    .crash (.writeSyncAll fun _ => (⟨false, true, true⟩, 2)) 90]

theorem three_bytes_survive :
    ∃ value', Shows knownCrypto ((threeCrashed.foldl WriteManager.step ⟨threeFolder, [], 0⟩).folder "map") value' ∧
      (value' = threeContent.value ∨ ∃ content : Content knownCrypto, content.value = value' ∧
        (("map", content) ∈ [] ∨ ∃ event ∈ threeCrashed, content ∈ given "map" event.asked)) :=
  shows_run (m := ⟨threeFolder, [], 0⟩) ((shows_safe rfl).mpr threeContent.reads)
    ⟨⟨fun _ => .inr (.inr rfl), trivial⟩, trivial, ⟨fun _ => .inr (.inr rfl), trivial⟩, trivial⟩

/-! ## Runs without crashes -/

theorem mem_place_self (base : ν) (content : Content crypto) (l : List (ν × Content crypto)) :
    (base, content) ∈ place base content l := by
  induction l with
  | nil => exact List.mem_cons_self
  | cons first rest ih =>
      rw [place]
      split_ifs
      · exact List.mem_cons_self
      · exact List.mem_cons_of_mem _ ih

theorem mem_place_of_mem {base other : ν} {content new : Content crypto} {l : List (ν × Content crypto)}
    (different : other ≠ base) (member : (other, content) ∈ l) : (other, content) ∈ place base new l := by
  induction l with
  | nil => cases member
  | cons first rest ih =>
      rw [place]
      split_ifs with same
      · rcases List.mem_cons.mp member with here | there
        · exact absurd ((congrArg Prod.fst here).trans same) different
        · exact List.mem_cons_of_mem _ there
      · rcases List.mem_cons.mp member with here | there
        · exact here ▸ List.mem_cons_self
        · exact List.mem_cons_of_mem _ (ih there)

theorem mem_dropFirst_of_mem {base other : ν} {content : Content crypto} {l : List (ν × Content crypto)}
    (different : other ≠ base) (member : (other, content) ∈ l) : (other, content) ∈ dropFirst base l := by
  induction l with
  | nil => cases member
  | cons first rest ih =>
      rw [dropFirst]
      split_ifs with same
      · rcases List.mem_cons.mp member with here | there
        · exact absurd ((congrArg Prod.fst here).trans same) different
        · exact there
      · rcases List.mem_cons.mp member with here | there
        · exact here ▸ List.mem_cons_self
        · exact List.mem_cons_of_mem _ (ih there)

theorem keys_place (base : ν) (content : Content crypto) (l : List (ν × Content crypto)) :
    (place base content l).map Prod.fst =
      if base ∈ l.map Prod.fst then l.map Prod.fst else l.map Prod.fst ++ [base] := by
  induction l with
  | nil => rfl
  | cons first rest ih =>
      rw [place]
      by_cases same : first.1 = base
      · simp [same]
      · simp only [if_neg same, List.map_cons, ih, List.mem_cons, Ne.symm same, false_or]
        split_ifs
        · rfl
        · rfl

theorem keys_dropFirst (base : ν) (l : List (ν × Content crypto)) :
    (dropFirst base l).map Prod.fst = (l.map Prod.fst).erase base := by
  induction l with
  | nil => rfl
  | cons first rest ih =>
      rw [dropFirst, List.map_cons]
      by_cases same : first.1 = base
      · rw [if_pos same, same, List.erase_cons_head]
      · rw [if_neg same, List.map_cons, ih, List.erase_cons_tail (by simpa using same)]

/-- The files of a call get written. -/
def Works : Call ν crypto → Prop
  | .write _ _ => True
  | .writeSync made => made.writing.saved = true ∨ made.writing.opened = true
  | .writeScheduled writing _ => writing.saved = true ∨ writing.opened = true
  | .writeSyncAll works => ∀ n, (works n).1.saved = true ∨ (works n).1.opened = true
  | .readFile _ => True

/-- One content waits for each name, and something is scheduled then. -/
structure Scheduled (m : WriteManager ν crypto) : Prop where
  keys : (m.scheduled.map Prod.fst).Nodup
  posts : m.scheduled ≠ [] → 0 < m.posted

theorem Scheduled.call (h : m.Scheduled) (asked : Call ν crypto) : (m.call asked).Scheduled := by
  have drop : ∀ n, ((m.scheduled.drop n).map Prod.fst).Nodup := fun n => by
    rw [List.map_drop]
    exact h.keys.sublist (List.drop_sublist n _)
  cases asked with
  | write base content =>
      refine ⟨?_, fun _ => Nat.succ_pos _⟩
      change ((place base content m.scheduled).map Prod.fst).Nodup
      rw [keys_place]
      split_ifs with there
      · exact h.keys
      · rw [← List.concat_eq_append]
        exact h.keys.concat there
  | writeSync made =>
      constructor
      · change ((dropFirst made.base m.scheduled).map Prod.fst).Nodup
        rw [keys_dropFirst]
        exact h.keys.erase _
      · refine fun some => h.posts fun none => some ?_
        change dropFirst made.base m.scheduled = []
        rw [none]
        rfl
  | writeScheduled writing now =>
      rw [WriteManager.call, writeScheduled_eq]
      refine ⟨drop 1, fun some => ?_⟩
      simp only [if_pos some]
      exact Nat.succ_pos _
  | writeSyncAll works =>
      rw [WriteManager.call, writeSyncAll, writeAll_eq]
      exact ⟨drop _, fun some => absurd (List.drop_of_length_le (Nat.le_succ _)) some⟩
  | readFile other =>
      rw [WriteManager.call, readFile]
      split
      · exact h
      · exact ⟨h.keys, h.posts⟩

/-- What was given last waits, or is read. -/
def Latest (base : ν) (content : Content crypto) (scheduled : List (ν × Content crypto)) (folder : Folder ν) : Prop :=
  (base, content) ∈ scheduled ∨ base ∉ scheduled.map Prod.fst ∧ Shows crypto (folder base) content.value

section Last

variable {content : Content crypto}

theorem Latest.written {works : Nat → Writing × Nat}
    (done : ∀ n, (works n).1.saved = true ∨ (works n).1.opened = true) {l : List (ν × Content crypto)}
    (keys : (l.map Prod.fst).Nodup) {folder : Folder ν} (h : Latest base content l folder) (rounds : Nat) :
    Latest base content (l.drop rounds)
      ((madeOf works rounds l).foldl (fun folder made => made.apply folder) folder) := by
  induction l generalizing folder rounds with
  | nil => cases rounds <;> exact h
  | cons first rest ih =>
      cases rounds with
      | zero => exact h
      | succ rounds =>
          rw [List.map_cons, List.nodup_cons] at keys
          have next : Latest base content rest
              (Made.apply ⟨first.1, first.2, (works rounds).1, (works rounds).2⟩ folder) := by
            by_cases same : first.1 = base
            · have fine : first.2 = content := by
                rcases h with here | ⟨missing, -⟩
                · rcases List.mem_cons.mp here with now | later
                  · exact (congrArg Prod.snd now).symm
                  · exact absurd (List.mem_map_of_mem later) (same ▸ keys.1)
                · exact absurd (List.mem_map_of_mem List.mem_cons_self) (same ▸ missing)
              refine .inr ⟨same ▸ keys.1, ?_⟩
              rw [apply_same same, ← fine]
              exact writeNow_shows _ _ _ (done rounds)
            · rcases h with here | ⟨missing, shows⟩
              · rcases List.mem_cons.mp here with now | later
                · exact absurd (congrArg Prod.fst now).symm same
                · exact .inl later
              · refine .inr ⟨fun later => missing (List.mem_cons_of_mem _ later), ?_⟩
                rwa [apply_other same]
          exact ih keys.2 next rounds

theorem Latest.call (kept : m.Scheduled) (h : Latest base content m.scheduled m.folder) {asked : Call ν crypto}
    (works : Works asked) (nothing : given base asked = []) :
    Latest base content (m.call asked).scheduled (m.call asked).folder := by
  cases asked with
  | write other new =>
      have different : base ≠ other := fun same => by simp [given, same] at nothing
      rcases h with here | ⟨missing, shows⟩
      · exact .inl (mem_place_of_mem different here)
      · refine .inr ⟨?_, shows⟩
        change base ∉ (place other new m.scheduled).map Prod.fst
        rw [keys_place]
        split_ifs
        · exact missing
        · rw [List.mem_append, List.mem_singleton]
          exact not_or.mpr ⟨missing, different⟩
  | writeSync made =>
      have different : base ≠ made.base := fun same => by simp [given, same] at nothing
      rcases h with here | ⟨missing, shows⟩
      · exact .inl (mem_dropFirst_of_mem different here)
      · refine .inr ⟨?_, ?_⟩
        · change base ∉ (dropFirst made.base m.scheduled).map Prod.fst
          rw [keys_dropFirst]
          exact fun there => missing (List.mem_of_mem_erase there)
        · change Shows crypto (made.apply m.folder base) content.value
          rwa [apply_other (Ne.symm different)]
  | writeScheduled writing now =>
      rw [WriteManager.call, writeScheduled_eq]
      refine h.written ?_ kept.keys 1
      exact fun _ => works
  | writeSyncAll writings =>
      rw [WriteManager.call, writeSyncAll, writeAll_eq]
      exact Latest.written works kept.keys h _
  | readFile other =>
      have same : (m.readFile other).scheduled = m.scheduled := by
        unfold readFile
        split
        · rfl
        · rfl
      rw [WriteManager.call, same]
      exact h.imp_right fun found => ⟨found.1, shows_readFile found.2 other⟩

/-- What a call is given is what was given last. -/
theorem Latest.given (kept : m.Scheduled) {asked : Call ν crypto} (works : Works asked)
    (given : content ∈ given base asked) :
    Latest base content (m.call asked).scheduled (m.call asked).folder := by
  cases asked with
  | write other new =>
      simp only [WriteManager.given] at given
      split_ifs at given with same
      · cases List.mem_singleton.mp given
        exact .inl (same ▸ mem_place_self other content m.scheduled)
      · cases given
  | writeSync made =>
      simp only [WriteManager.given] at given
      split_ifs at given with same
      · cases List.mem_singleton.mp given
        refine .inr ⟨?_, ?_⟩
        · change base ∉ (dropFirst made.base m.scheduled).map Prod.fst
          rw [keys_dropFirst, same]
          exact kept.keys.not_mem_erase
        · change Shows crypto (made.apply m.folder base) made.content.value
          rw [apply_same same]
          exact writeNow_shows _ _ _ works
      · cases given
  | writeScheduled => cases given
  | writeSyncAll => cases given
  | readFile => cases given

end Last

/-- Without crashes, the content that was given last for a name is read when nothing waits, so after everything that
waits was written. Until then something is scheduled. -/
theorem last_given_shows {folder : Folder ν} {calls : List (Call ν crypto)} (works : ∀ asked ∈ calls, Works asked)
    {content : Content crypto} (last : (calls.flatMap (given base)).getLast? = some content) :
    let m := calls.foldl call ⟨folder, [], 0⟩
    (m.scheduled ≠ [] → 0 < m.posted) ∧
      (m.scheduled = [] → Shows crypto (m.folder base) content.value) ∧
      ∀ writings : Nat → Writing × Nat, (∀ n, (writings n).1.saved = true ∨ (writings n).1.opened = true) →
        (m.writeSyncAll writings).scheduled = [] ∧
          Shows crypto ((m.writeSyncAll writings).folder base) content.value := by
  have kept : ∀ calls : List (Call ν crypto), (calls.foldl call ⟨folder, [], 0⟩ : WriteManager ν crypto).Scheduled := by
    intro calls
    induction calls using List.reverseRecOn with
    | nil => exact ⟨List.nodup_nil, fun some => absurd rfl some⟩
    | append_singleton calls asked ih =>
        rw [List.foldl_concat]
        exact ih.call asked
  have latest : Latest base content (calls.foldl call ⟨folder, [], 0⟩ : WriteManager ν crypto).scheduled
      (calls.foldl call ⟨folder, [], 0⟩ : WriteManager ν crypto).folder := by
    induction calls using List.reverseRecOn with
    | nil => cases last
    | append_singleton calls asked ih =>
        rw [List.forall_mem_append, List.forall_mem_singleton] at works
        rw [List.flatMap_append, List.flatMap_singleton] at last
        rw [List.foldl_concat]
        cases none : given base asked with
        | nil =>
            rw [none, List.append_nil] at last
            exact (ih works.1 last).call (kept calls) works.2 none
        | cons first rest =>
            refine Latest.given (kept calls) works.2 ?_
            rw [List.getLast?_append, none] at last
            rw [none]
            refine List.mem_of_getLast? ?_
            simpa using last
  have shows : ∀ {m : WriteManager ν crypto}, Latest base content m.scheduled m.folder → m.scheduled = [] →
      Shows crypto (m.folder base) content.value := by
    rintro m (here | ⟨-, shows⟩) empty
    · rw [empty] at here
      cases here
    · exact shows
  refine ⟨(kept calls).posts, shows latest, fun writings done => ?_⟩
  have all : ∀ m : WriteManager ν crypto, (m.writeSyncAll writings).scheduled = [] := fun m => by
    rw [writeSyncAll, writeAll_eq]
    exact List.drop_of_length_le (Nat.le_succ _)
  refine ⟨all _, shows ?_ (all _)⟩
  rw [writeSyncAll, writeAll_eq]
  exact latest.written done (kept calls).keys _

theorem three_bytes_written_last :
    let calls := [Call.write "map" threeContent, .writeScheduled ⟨false, true, false⟩ 1, .write "map" threeContent]
    let m := calls.foldl call
      (⟨fun _ _ => none, [], 0⟩ : WriteManager String knownCrypto)
    (m.scheduled ≠ [] → 0 < m.posted) ∧
      (m.scheduled = [] → Shows knownCrypto (m.folder "map") threeContent.value) ∧
      ∀ writings : Nat → Writing × Nat, (∀ n, (writings n).1.saved = true ∨ (writings n).1.opened = true) →
        (m.writeSyncAll writings).scheduled = [] ∧
          Shows knownCrypto ((m.writeSyncAll writings).folder "map") threeContent.value := by
  refine last_given_shows ?_ ?_
  · intro asked member
    rcases List.mem_cons.mp member with rfl | member
    · trivial
    · rcases List.mem_cons.mp member with rfl | member
      · exact .inr rfl
      · cases List.mem_singleton.mp member
        trivial
  · rfl

end WriteManager

end IMeDesktop.Storage.Details
