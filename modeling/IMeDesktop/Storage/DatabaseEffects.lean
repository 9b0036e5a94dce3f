import IMeDesktop.Storage.DatabaseIndex

/-! # What operations of the database come to

An operation of the database stores records, removes entries and writes bundles, in some
order. Each of these effects is said once here: what it does to the binlog, to the index and
to the statistics. What holds of every run is derived from the effects, and not from the
operations.
-/

namespace IMeDesktop.Storage.Cache

open Lib

/-! ## Statistics -/

attribute [ext] TaggedSummary

@[ext]
structure Statistics where
  totalSize : Int
  tagged : UInt8 → TaggedSummary

/-- What a part that is stored becomes. -/
def Store.entry (useTime : UInt64) (part : Store) : Entry :=
  { place := part.place, tag := part.tag, checksum := part.checksum, size := part.size, useTime := useTime }

/-- What an entry adds to the count of a tag. -/
def Entry.countIn (tag : UInt8) (e : Entry) : Int := if e.tag = tag ∧ e.size ≠ 0 then 1 else 0

def Entry.sizeIn (tag : UInt8) (e : Entry) : Int := if e.tag = tag then e.size else 0

/-- Entries without a tag are only counted together. -/
def Statistics.change (s : Statistics) (was now : Entry) : Statistics where
  totalSize := s.totalSize + now.size - was.size
  tagged tag :=
    if tag = 0 then s.tagged 0
    else
      { count := (s.tagged tag).count + now.countIn tag - was.countIn tag
        totalSize := (s.tagged tag).totalSize + now.sizeIn tag - was.sizeIn tag }

namespace DatabaseObject

def statistics (d : DatabaseObject) : Statistics := ⟨d.totalSize, d.taggedStats⟩

variable {settings : Settings}

theorem totalSize_addSummary (d : DatabaseObject) (tag : UInt8) (count totalSize : Int) :
    (d.addSummary tag count totalSize).totalSize = d.totalSize := by
  unfold addSummary
  split_ifs
  · rfl
  · rfl

theorem taggedStats_addSummary (d : DatabaseObject) (tag t : UInt8) (count totalSize : Int) :
    (d.addSummary tag count totalSize).taggedStats t =
      if t = tag ∧ t ≠ 0 then
        { count := (d.taggedStats t).count + count, totalSize := (d.taggedStats t).totalSize + totalSize }
      else d.taggedStats t := by
  unfold addSummary
  by_cases untagged : tag = 0
  · grind
  · rw [if_neg untagged]
    by_cases same : t = tag
    · subst same
      simp [untagged]
    · simp [same]

theorem statistics_updateStats (d : DatabaseObject) (was now : Entry) :
    (d.updateStats was now).statistics = d.statistics.change was now := by
  apply Statistics.ext
  · simp only [updateStats, statistics, Statistics.change]
    split_ifs
    · rw [totalSize_addSummary]
      exact (Int.add_sub_assoc _ _ _).symm
    · rw [totalSize_addSummary, totalSize_addSummary]
      exact (Int.add_sub_assoc _ _ _).symm
  · funext t
    apply TaggedSummary.ext
    all_goals
      simp only [updateStats, statistics, Statistics.change, Entry.countIn, Entry.sizeIn, present]
      by_cases same : now.tag = was.tag
      · simp only [same, if_true, taggedStats_addSummary]
        grind
      · simp only [same, if_false, taggedStats_addSummary]
        grind

theorem statistics_updateMinimal (d : DatabaseObject) (already entry : Entry) :
    (d.updateMinimal already entry).statistics = d.statistics := by
  unfold updateMinimal
  split_ifs
  all_goals rfl

theorem statistics_applyTimePoint (d : DatabaseObject) (time : EstimatedTimePoint) :
    (d.applyTimePoint time).statistics = d.statistics := by
  unfold applyTimePoint
  split_ifs
  · rfl
  · rfl

theorem statistics_eraseMapEntry (d : DatabaseObject) (key : Key) (entry : Entry) :
    (d.eraseMapEntry key entry).statistics = d.statistics.change entry {} := by
  rw [← statistics_updateStats]
  simp only [eraseMapEntry]
  split_ifs
  · rfl
  · rfl

theorem statistics_setMapEntry (d : DatabaseObject) (key : Key) (entry : Entry) :
    (d.setMapEntry settings key entry).statistics =
      d.statistics.change ((d.map.find? key).getD {}) entry := by
  rw [← statistics_updateStats]
  simp only [setMapEntry]
  generalize d.updateStats ((d.map.find? key).getD {}) entry = counted
  refine (statistics_updateMinimal _ _ _).trans ?_
  split_ifs
  · rfl
  · rfl

/-! ## Effects -/

/-- The map with the times of some entries set. -/
def touched (relative : UInt64) (map : SortedMap Key Entry) (keys : List Key) : SortedMap Key Entry :=
  keys.foldl (fun map key =>
    match map.find? key with
    | none => map
    | some entry => (map.erase key).emplace key { entry with useTime := relative }) map

def keysOf (keys : SortedMap Key Unit) : List Key := keys.entries.map Prod.fst

/-- One change of the index or of the binlog. -/
inductive Effect (settings : Settings) (d d' : DatabaseObject) : Prop where
  | quiet (core : d'.core = d.core) (statistics : d'.statistics = d.statistics)
  | store (part : Store) (useTime : UInt64) (accepted : part.Accepted settings)
      (storable : part.Storable settings.trackEstimatedTime)
      (core : d'.core =
        { d.core with
          binlog := d.binlog.write ((Record.store part).encode settings.trackEstimatedTime)
          map := (d.map.erase part.key).emplace part.key (part.entry useTime)
          removing := d.removing.erase part.key })
      (statistics : d'.statistics = d.statistics.change ((d.map.find? part.key).getD {}) (part.entry useTime))
  | cancel (key : Key) (stored : d.map.contains key = true)
      (core : d'.core = { d.core with removing := d.removing.erase key }) (statistics : d'.statistics = d.statistics)
  | remove (key : Key) (entry : Entry) (found : d.map.find? key = some entry)
      (core : d'.core = { d.core with map := d.map.erase key, removing := d.removing.emplace key () })
      (statistics : d'.statistics = d.statistics.change entry {})
  | flush (some : keysOf d.removing ≠ []) (few : d.removing.size ≤ settings.maxBundledRecords)
      (core : d'.core =
        { d.core with
          binlog := d.binlog.write ((Record.multiRemove (keysOf d.removing)).encode settings.trackEstimatedTime)
          removing := .empty })
      (statistics : d'.statistics = d.statistics)
  | access (key : Key) (core : d'.core = { d.core with accessed := d.accessed.emplace key () })
      (statistics : d'.statistics = d.statistics)
  | times (time : EstimatedTimePoint) (tracks : settings.trackEstimatedTime = true)
      (few : d.accessed.size ≤ settings.maxBundledRecords)
      (core : d'.core =
        { d.core with
          binlog := d.binlog.write ((Record.multiAccess time (keysOf d.accessed)).encode settings.trackEstimatedTime)
          map := touched time.relative d.map (keysOf d.accessed)
          accessed := .empty })
      (statistics : d'.statistics = d.statistics)

def Effects (settings : Settings) : DatabaseObject → DatabaseObject → Prop := Relation.ReflTransGen (Effect settings)

/-- What holds between operations: bundles have room, and entries have sizes that replaying accepts. -/
structure Ready (settings : Settings) (d : DatabaseObject) : Prop where
  removing : d.removing.size < settings.maxBundledRecords
  accessed : d.accessed.size < settings.maxBundledRecords
  sized : Sized settings d.map

/-- An operation comes to some effects. -/
def Does (settings : Settings) (d d' : DatabaseObject) : Prop :=
  Ready settings d → Effects settings d d' ∧ Ready settings d'

variable {d d' d'' : DatabaseObject}

theorem Does.refl (d : DatabaseObject) : Does settings d d := fun ready => ⟨.refl, ready⟩

theorem Does.trans (first : Does settings d d') (second : Does settings d' d'') : Does settings d d'' := by
  intro ready
  obtain ⟨effects, ready⟩ := first ready
  obtain ⟨more, ready⟩ := second ready
  exact ⟨effects.trans more, ready⟩

theorem Does.foldl {α : Type} {f : DatabaseObject → α → DatabaseObject} (each : ∀ d a, Does settings d (f d a))
    (l : List α) (d : DatabaseObject) : Does settings d (l.foldl f d) := by
  induction l generalizing d with
  | nil => exact .refl d
  | cons a l ih => exact (each d a).trans (ih (f d a))

theorem Does.quiet (core : d'.core = d.core) (statistics : d'.statistics = d.statistics) : Does settings d d' := by
  intro ready
  refine ⟨.single (.quiet core statistics), ?_⟩
  have map : d'.map = d.map := congrArg Core.map core
  have removing : d'.removing = d.removing := congrArg Core.removing core
  have accessed : d'.accessed = d.accessed := congrArg Core.accessed core
  exact ⟨removing ▸ ready.removing, accessed ▸ ready.accessed, map ▸ ready.sized⟩

/-! ## Bundles -/

theorem core_foldl_setUseTime (relative : UInt64) (keys : List Key) (d : DatabaseObject) :
    (keys.foldl (setUseTime relative) d).core = { d.core with map := touched relative d.map keys } := by
  induction keys generalizing d with
  | nil => rfl
  | cons key keys ih =>
      rw [List.foldl_cons, ih]
      unfold setUseTime touched
      cases found : d.map.find? key with
      | none => simp only [List.foldl_cons, found]
      | some entry =>
          simp only [List.foldl_cons, found]
          rfl

theorem statistics_foldl_setUseTime (relative : UInt64) (keys : List Key) (d : DatabaseObject) :
    (keys.foldl (setUseTime relative) d).statistics = d.statistics := by
  induction keys generalizing d with
  | nil => rfl
  | cons key keys ih =>
      rw [List.foldl_cons, ih, setUseTime]
      split
      · rfl
      · rfl

theorem sized_touched {map : SortedMap Key Entry} (sized : Sized settings map) (relative : UInt64) (keys : List Key) :
    Sized settings (touched relative map keys) := by
  induction keys generalizing map with
  | nil => exact sized
  | cons key keys ih =>
      apply ih
      dsimp only
      split
      · exact sized
      · rename_i entry found
        have accepted := sized.find found
        exact sized.set accepted

theorem core_writeMultiRemove (some : keysOf d.removing ≠ []) :
    (d.writeMultiRemove settings).core =
      { d.core with
        binlog := d.binlog.write ((Record.multiRemove (keysOf d.removing)).encode settings.trackEstimatedTime)
        removing := .empty } := by
  have filled : ¬ d.removing.isEmpty = true := by
    rw [SortedMap.isEmpty_iff]
    intro empty
    exact some (by rw [keysOf, empty]; rfl)
  rw [writeMultiRemove, if_neg filled]
  rfl

theorem statistics_writeMultiRemove : (d.writeMultiRemove settings).statistics = d.statistics := by
  unfold writeMultiRemove
  split_ifs
  · rfl
  · rfl

/-- A bundle that may be full. -/
structure Filled (settings : Settings) (d : DatabaseObject) : Prop where
  removing : d.removing.size ≤ settings.maxBundledRecords
  accessed : d.accessed.size < settings.maxBundledRecords
  sized : Sized settings d.map

theorem Ready.filled (ready : Ready settings d) : Filled settings d :=
  ⟨ready.removing.le, ready.accessed, ready.sized⟩

theorem Filled.writeMultiRemove (filled : Filled settings d) :
    Effects settings d (d.writeMultiRemove settings) ∧ Ready settings (d.writeMultiRemove settings) := by
  by_cases some : keysOf d.removing = []
  · have empty : d.removing.entries = [] := List.map_eq_nil_iff.mp some
    have same : d.writeMultiRemove settings = d := if_pos ((SortedMap.isEmpty_iff _).mpr empty)
    rw [same]
    refine ⟨.refl, ?_, filled.accessed, filled.sized⟩
    rw [SortedMap.size, empty]
    exact settings.bundlesSome
  · have core := @core_writeMultiRemove settings d some
    refine ⟨.single (.flush some filled.removing core statistics_writeMultiRemove), ?_, ?_, ?_⟩
    · rw [show (d.writeMultiRemove settings).removing = .empty from congrArg Core.removing core]
      exact settings.bundlesSome
    · rw [show (d.writeMultiRemove settings).accessed = d.accessed from congrArg Core.accessed core]
      exact filled.accessed
    · rw [show (d.writeMultiRemove settings).map = d.map from congrArg Core.map core]
      exact filled.sized

theorem does_writeMultiRemove : Does settings d (d.writeMultiRemove settings) :=
  fun ready => ready.filled.writeMultiRemove

theorem core_writeMultiAccessBlock (now : UInt32) :
    (d.writeMultiAccessBlock settings now).core =
      { d.core with
        binlog := d.binlog.write
          ((Record.multiAccess (d.countTimePoint now) (keysOf d.accessed)).encode settings.trackEstimatedTime)
        map := touched (d.countTimePoint now).relative d.map (keysOf d.accessed)
        accessed := .empty } := by
  have core := core_foldl_setUseTime (d.countTimePoint now).relative (keysOf d.accessed)
    { d with accessed := .empty, time := d.countTimePoint now }
  exact congrArg (fun c : Core => { c with
    binlog := c.binlog.write
      ((Record.multiAccess (d.countTimePoint now) (keysOf d.accessed)).encode settings.trackEstimatedTime) }) core

theorem statistics_writeMultiAccessBlock (now : UInt32) :
    (d.writeMultiAccessBlock settings now).statistics = d.statistics :=
  statistics_foldl_setUseTime (d.countTimePoint now).relative (keysOf d.accessed)
    { d with accessed := .empty, time := d.countTimePoint now }

theorem writeMultiAccessBlock_ready (tracks : settings.trackEstimatedTime = true) (now : UInt32)
    (few : d.accessed.size ≤ settings.maxBundledRecords) (removing : d.removing.size < settings.maxBundledRecords)
    (sized : Sized settings d.map) :
    Effects settings d (d.writeMultiAccessBlock settings now) ∧
      Ready settings (d.writeMultiAccessBlock settings now) := by
  have core := @core_writeMultiAccessBlock settings d now
  have statistics := @statistics_writeMultiAccessBlock settings d now
  refine ⟨.single (.times _ tracks few core statistics), ?_, ?_, ?_⟩
  · rw [show (d.writeMultiAccessBlock settings now).removing = d.removing from congrArg Core.removing core]
    exact removing
  · rw [show (d.writeMultiAccessBlock settings now).accessed = .empty from congrArg Core.accessed core]
    exact settings.bundlesSome
  · rw [show (d.writeMultiAccessBlock settings now).map = _ from congrArg Core.map core]
    exact sized_touched sized _ _

theorem does_writeMultiAccess (tracks : settings.trackEstimatedTime = true) (now : UInt32) :
    Does settings d (d.writeMultiAccess settings now) := by
  intro ready
  unfold writeMultiAccess
  split_ifs
  · exact ⟨.refl, ready⟩
  · exact writeMultiAccessBlock_ready tracks now ready.accessed.le ready.removing ready.sized

theorem does_writeBundles (now : UInt32) : Does settings d (d.writeBundles settings now) := by
  unfold writeBundles
  refine does_writeMultiRemove.trans ?_
  split_ifs with tracks
  · exact does_writeMultiAccess tracks now
  · exact .refl _

theorem does_recordEntryAccess (now : UInt32) (key : Key) : Does settings d (d.recordEntryAccess settings now key) := by
  intro ready
  unfold recordEntryAccess
  split_ifs with tracks
  · have more := SortedMap.size_emplace_le d.accessed key ()
    have few : (d.accessed.emplace key ()).size ≤ settings.maxBundledRecords := more.trans ready.accessed
    have noted : Effect settings d { d with accessed := d.accessed.emplace key () } := .access key rfl rfl
    unfold writeMultiAccessLazy writeMultiAccess
    split_ifs with full empty
    · refine ⟨.single noted, ready.removing, ?_, ready.sized⟩
      rw [SortedMap.size, (SortedMap.isEmpty_iff _).mp empty]
      exact settings.bundlesSome
    · obtain ⟨effects, ready⟩ := @writeMultiAccessBlock_ready settings
        { d with accessed := d.accessed.emplace key () } tracks now few ready.removing ready.sized
      exact ⟨.head noted effects, ready⟩
    · exact ⟨.single noted, ready.removing, lt_of_le_of_ne few full, ready.sized⟩
  · exact ⟨.refl, ready⟩

/-! ## Storing and removing -/

theorem Ready.taken {key : Key} {entry : Entry} (ready : Ready settings d) (found : d.map.find? key = some entry) :
    Effect settings d ({ d with removing := d.removing.emplace key () }.eraseMapEntry key entry) ∧
      Filled settings ({ d with removing := d.removing.emplace key () }.eraseMapEntry key entry) := by
  have core := core_eraseMapEntry { d with removing := d.removing.emplace key () } key entry
  refine ⟨.remove key entry found core (statistics_eraseMapEntry _ key entry), ?_, ?_, ?_⟩
  · rw [show (eraseMapEntry _ key entry).removing = _ from congrArg Core.removing core]
    exact (SortedMap.size_emplace_le d.removing key ()).trans ready.removing
  · rw [show (eraseMapEntry _ key entry).accessed = _ from congrArg Core.accessed core]
    exact ready.accessed
  · rw [show (eraseMapEntry _ key entry).map = _ from congrArg Core.map core]
    exact ready.sized.erase

theorem does_remove (key : Key) : Does settings d (d.remove settings key) := by
  intro ready
  unfold remove
  cases found : d.map.find? key with
  | none => exact ⟨.refl, ready⟩
  | some entry =>
      obtain ⟨effect, filled⟩ := ready.taken found
      simp only
      generalize noted : { d with removing := d.removing.emplace key () } = x at effect filled ⊢
      unfold writeMultiRemoveLazy
      have core := core_eraseMapEntry x key entry
      have removing : (x.eraseMapEntry key entry).removing = x.removing := congrArg Core.removing core
      split_ifs with full
      · -- the bundle is written before the entry is erased, which comes to the same
        obtain ⟨effects, after⟩ := filled.writeMultiRemove
        have some : keysOf x.removing ≠ [] := by
          intro empty
          rw [SortedMap.size, List.map_eq_nil_iff.mp empty] at full
          exact absurd full (Nat.ne_of_lt settings.bundlesSome)
        have first := core_eraseMapEntry (x.writeMultiRemove settings) key entry
        have second := @core_writeMultiRemove settings (x.eraseMapEntry key entry) (removing ▸ some)
        have same : ((x.writeMultiRemove settings).eraseMapEntry key entry).core =
            ((x.eraseMapEntry key entry).writeMultiRemove settings).core := by
          rw [first, second, core_writeMultiRemove some, core, removing,
            show (x.writeMultiRemove settings).map = x.map from congrArg Core.map (core_writeMultiRemove some),
            show (x.eraseMapEntry key entry).binlog = x.binlog from congrArg Core.binlog core]
        have statistics : ((x.writeMultiRemove settings).eraseMapEntry key entry).statistics =
            ((x.eraseMapEntry key entry).writeMultiRemove settings).statistics := by
          rw [statistics_eraseMapEntry, statistics_writeMultiRemove, statistics_writeMultiRemove,
            statistics_eraseMapEntry]
        obtain ⟨last, ready⟩ := Does.quiet same statistics after
        exact ⟨(Relation.ReflTransGen.head effect effects).trans last, ready⟩
      · have few := lt_of_le_of_ne filled.removing (removing ▸ full)
        exact ⟨.single effect, few, filled.accessed, filled.sized⟩

/-- Replaying a part that is accepted. -/
theorem processRecordStore_accepted {part : Store} (accepted : part.Accepted settings) (d : DatabaseObject) :
    ∃ useTime, (d.processRecordStore settings part).1 = true ∧
      (d.processRecordStore settings part).2.core =
        { d.core with map := (d.map.erase part.key).emplace part.key (part.entry useTime) } ∧
      (d.processRecordStore settings part).2.statistics =
        d.statistics.change ((d.map.find? part.key).getD {}) (part.entry useTime) := by
  have good : ¬ (part.size = 0 ∨ part.size > settings.maxDataSize) := by
    have := accepted.1
    have := accepted.2
    omega
  let d₁ := if settings.trackEstimatedTime then d.applyTimePoint part.time else d
  have core : d₁.core = d.core := by
    by_cases tracks : settings.trackEstimatedTime = true
    · simp [d₁, tracks]
    · simp [d₁, tracks]
  have statistics : d₁.statistics = d.statistics := by
    by_cases tracks : settings.trackEstimatedTime = true
    · simp [d₁, tracks, statistics_applyTimePoint]
    · simp [d₁, tracks]
  have map : d₁.map = d.map := congrArg Core.map core
  unfold processRecordStore
  rw [if_neg good]
  refine ⟨if settings.trackEstimatedTime then part.time.relative else d.time.relative, rfl, ?_, ?_⟩
  · exact (core_setMapEntry d₁ part.key _).trans (by rw [core, map]; rfl)
  · exact (statistics_setMapEntry d₁ part.key _).trans (by rw [statistics, map]; rfl)

theorem recordTime_storable (now : UInt32) (tracks : settings.trackEstimatedTime = false) :
    d.recordTime settings now = {} := if_neg (by simp [tracks])

/-- A part is stored, and no longer to be removed. -/
theorem does_writeStore {part : Store} (accepted : part.Accepted settings)
    (timed : settings.trackEstimatedTime = false → part.time = {}) (stale : List Key) :
    Does settings d ({ d with removing := d.removing.erase part.key, stale := stale }.writeStore settings part) := by
  intro ready
  have storable : part.Storable settings.trackEstimatedTime :=
    ⟨Nat.lt_of_le_of_lt accepted.2 settings.sized, timed⟩
  obtain ⟨useTime, -, core, statistics⟩ := processRecordStore_accepted accepted
    ({ d with removing := d.removing.erase part.key, stale := stale }.writeRecord settings (.store part))
  refine ⟨.single (.store part useTime accepted storable core statistics), ?_, ?_, ?_⟩
  · rw [show (writeStore settings _ part).removing = _ from congrArg Core.removing core]
    exact Nat.lt_of_le_of_lt (SortedMap.size_erase_le d.removing part.key) ready.removing
  · rw [show (writeStore settings _ part).accessed = _ from congrArg Core.accessed core]
    exact ready.accessed
  · rw [show (writeStore settings _ part).map = _ from congrArg Core.map core]
    exact ready.sized.set accepted

theorem does_put (around : Surroundings) (key : Key) {value : TaggedValue}
    (fits : value.bytes.length ≤ settings.maxDataSize) : Does settings d (d.put settings around key value) := by
  unfold put
  split_ifs with empty
  · exact does_remove key
  · have accepted : 0 < value.bytes.length ∧ value.bytes.length ≤ settings.maxDataSize :=
      ⟨List.length_pos_iff.mpr empty, fits⟩
    simp only
    split
    · rename_i unchanged
      refine Does.trans ?_ (does_recordEntryAccess around.now key)
      intro ready
      have stored : d.map.contains key = true := by
        unfold chooseKeyPlace at unchanged
        split at unchanged
        · cases unchanged
        · rename_i found
          simp only [SortedMap.contains, found, Option.isSome_some]
      refine ⟨.single (.cancel key stored rfl rfl), ?_, ready.accessed, ready.sized⟩
      exact Nat.lt_of_le_of_lt (SortedMap.size_erase_le d.removing key) ready.removing
    · rename_i place _
      exact @does_writeStore settings d
        { tag := value.tag, size := value.bytes.length, place := place, checksum := _, key := key, time := _ } accepted
        (fun tracks => recordTime_storable around.now tracks) _

theorem does_get (around : Surroundings) (key : Key) {done : TaggedValue → DatabaseObject → DatabaseObject}
    (goesOn : ∀ value d, value.bytes.length ≤ settings.maxDataSize → Does settings d (done value d)) :
    Does settings d (d.get settings around key done) := by
  intro ready
  unfold get
  split
  · exact goesOn {} d (Nat.zero_le _) ready
  · rename_i entry found
    simp only
    split_ifs
    · exact (does_remove key).trans (goesOn {} _ (Nat.zero_le _)) ready
    · refine (goesOn _ d ?_).trans (does_recordEntryAccess around.now key) ready
      rcases around.whole entry.place entry.size with none | whole
      · rw [none]
        exact Nat.zero_le _
      · rw [whole]
        exact (ready.sized.find found).2

theorem does_moveIfEmpty (around : Surroundings) (source target : Key) :
    Does settings d (d.moveIfEmpty settings around source target) := by
  intro ready
  unfold moveIfEmpty
  split_ifs with present
  · exact ⟨.refl, ready⟩
  · split
    · exact ⟨.refl, ready⟩
    · rename_i entry found
      obtain ⟨effect, filled⟩ := ready.taken found
      have accepted := ready.sized.find found
      have core := core_eraseMapEntry { d with removing := d.removing.emplace source () } source entry
      simp only
      generalize eraseMapEntry { d with removing := d.removing.emplace source () } source entry = x at effect filled core
      obtain ⟨effects, after⟩ := filled.writeMultiRemove
      have map : (x.writeMultiRemove settings).map = d.map.erase source := by
        refine Eq.trans ?_ (congrArg Core.map core)
        unfold writeMultiRemove
        split_ifs
        · rfl
        · rfl
      have missing : (x.writeMultiRemove settings).map.find? target = none := by
        rw [map, SortedMap.find?_erase]
        split_ifs
        · rfl
        · simpa [SortedMap.contains] using present
      generalize x.writeMultiRemove settings = y at effects after missing
      have stored : ∀ stale, { y with removing := y.removing.erase target, stale := stale }.writeExistingPlace settings
          around target entry = { y with removing := y.removing.erase target, stale := stale }.writeStore settings
            { tag := entry.tag, size := entry.size, place := entry.place, checksum := entry.checksum, key := target
              time := y.recordTime settings around.now } := by
        intro stale
        unfold writeExistingPlace
        simp only [missing]
        rfl
      rw [stored]
      obtain ⟨last, ready⟩ := @does_writeStore settings y
        { tag := entry.tag, size := entry.size, place := entry.place, checksum := entry.checksum, key := target
          time := y.recordTime settings around.now } accepted (fun tracks => recordTime_storable around.now tracks)
        (y.stale.filter fun k => k ≠ target) after
      exact ⟨(Relation.ReflTransGen.head effect effects).trans last, ready⟩

/-! ## Clearing -/

theorem does_clearStaleChunk : Does settings d (d.clearStaleChunk settings) :=
  (Does.foldl (fun _ => does_remove) _ d).trans (.quiet rfl rfl)

theorem quiet_collectTimeStale (walk : Iteration) (before : UInt64) :
    (d.collectTimeStale settings walk before).2.core = d.core ∧
      (d.collectTimeStale settings walk before).2.statistics = d.statistics := by
  have each : ∀ (entries : List (Key × Entry)) (state : Stale × DatabaseObject),
      (entries.foldl (collectTime before) state).2.core = state.2.core ∧
        (entries.foldl (collectTime before) state).2.statistics = state.2.statistics := by
    intro entries
    induction entries with
    | nil => exact fun state => ⟨rfl, rfl⟩
    | cons e entries ih =>
        intro state
        rw [List.foldl_cons, (ih _).1, (ih _).2]
        unfold collectTime
        simp only
        split_ifs
        all_goals exact ⟨rfl, rfl⟩
  unfold collectTimeStale
  split_ifs
  · exact ⟨rfl, rfl⟩
  · exact each _ _

theorem does_prune (walk : Iteration) (now : UInt32) : Does settings d (d.prune settings walk now) := by
  unfold prune
  split_ifs
  · exact .refl d
  · obtain ⟨core, statistics⟩ := @quiet_collectTimeStale settings d walk (d.pruneBeforeTime settings now)
    simp only
    split_ifs
    · exact (Does.quiet core statistics).trans (.foldl (fun _ => does_remove) _ _)
    · refine (Does.quiet core statistics).trans (Does.trans ?_ does_clearStaleChunk)
      exact .quiet rfl rfl

theorem does_clearByTag (walk : Iteration) (tag : UInt8) : Does settings d (d.clearByTag settings walk tag) := by
  unfold clearByTag
  simp only
  split_ifs
  · refine Does.trans ?_ does_clearStaleChunk
    exact .quiet rfl rfl
  · exact .quiet rfl rfl

/-! ## Runs -/

theorem does_step (operation : Operation settings) : Does settings d (d.step settings operation) := by
  cases operation with
  | put around key value fits => exact does_put around key fits
  | putIfEmpty around key value fits =>
      unfold step putIfEmpty
      simp only
      split_ifs
      · exact .refl d
      · exact does_put around key fits
  | copyIfEmpty reading writing source target =>
      unfold step copyIfEmpty
      simp only
      split_ifs
      · exact .refl d
      · exact does_get reading source fun value d fits => does_put writing target fits
  | moveIfEmpty around source target => exact does_moveIfEmpty around source target
  | get around key => exact does_get around key fun _ d _ => .refl d
  | remove key => exact does_remove key
  | clearByTag walk tag => exact does_clearByTag walk tag
  | prune walk now => exact does_prune walk now
  | clearStaleChunk => exact does_clearStaleChunk
  | writeMultiRemove => exact does_writeMultiRemove
  | writeMultiAccess now =>
      unfold step
      simp only
      split_ifs with tracks
      · exact does_writeMultiAccess tracks now
      · exact .refl d
  | writeBundles now => exact does_writeBundles now

theorem does_run (operations : List (Operation settings)) : Does settings d (d.run settings operations) :=
  .foldl (fun _ => does_step) operations d

/-! ## Invariants -/

/-- What is kept when an entry is set, erased or used is kept by everything. -/
structure Invariant (settings : Settings) (P : SortedMap Key Entry → Statistics → Prop) : Prop where
  set : ∀ {map : SortedMap Key Entry} {s : Statistics} (key : Key) {entry : Entry}, 0 < entry.size →
    entry.size ≤ settings.maxDataSize → P map s →
      P ((map.erase key).emplace key entry) (s.change ((map.find? key).getD {}) entry)
  erase : ∀ {map : SortedMap Key Entry} {s : Statistics} {key : Key} {entry : Entry}, map.find? key = some entry →
    P map s → P (map.erase key) (s.change entry {})
  touch : ∀ {map : SortedMap Key Entry} {s : Statistics} {key : Key} {entry : Entry} (useTime : UInt64),
    map.find? key = some entry → P map s → P ((map.erase key).emplace key { entry with useTime := useTime }) s

namespace Invariant

variable {P : SortedMap Key Entry → Statistics → Prop}

theorem touched (invariant : Invariant settings P) {map : SortedMap Key Entry} {s : Statistics} (holds : P map s)
    (relative : UInt64) (keys : List Key) : P (touched relative map keys) s := by
  induction keys generalizing map with
  | nil => exact holds
  | cons key keys ih =>
      apply ih
      dsimp only
      split
      · exact holds
      · exact invariant.touch relative ‹_› holds

theorem effect (invariant : Invariant settings P) (effect : Effect settings d d') (holds : P d.map d.statistics) :
    P d'.map d'.statistics := by
  cases effect with
  | quiet core statistics | cancel _ _ core statistics | flush _ _ core statistics | access _ core statistics =>
      rw [statistics, show d'.map = d.map from congrArg Core.map core]
      exact holds
  | store part useTime accepted storable core statistics =>
      rw [statistics, show d'.map = _ from congrArg Core.map core]
      exact invariant.set part.key accepted.1 accepted.2 holds
  | remove key entry found core statistics =>
      rw [statistics, show d'.map = _ from congrArg Core.map core]
      exact invariant.erase found holds
  | times time _ _ core statistics =>
      rw [statistics, show d'.map = _ from congrArg Core.map core]
      exact invariant.touched holds time.relative _

theorem effects (invariant : Invariant settings P) (effects : Effects settings d d') (holds : P d.map d.statistics) :
    P d'.map d'.statistics := by
  induction effects with
  | refl => exact holds
  | tail _ effect ih => exact invariant.effect effect ih

theorem processRecordStore (invariant : Invariant settings P) (part : Store) (holds : P d.map d.statistics) :
    P (d.processRecordStore settings part).2.map (d.processRecordStore settings part).2.statistics := by
  by_cases accepted : part.Accepted settings
  · obtain ⟨useTime, -, core, statistics⟩ := processRecordStore_accepted accepted d
    rw [statistics, show (d.processRecordStore settings part).2.map = _ from congrArg Core.map core]
    exact invariant.set part.key accepted.1 accepted.2 holds
  · have bad : part.size = 0 ∨ part.size > settings.maxDataSize := by
      unfold Store.Accepted at accepted
      omega
    rw [DatabaseObject.processRecordStore, if_pos bad]
    exact holds

theorem processRecordMultiStore (invariant : Invariant settings P) (parts : List Store)
    (holds : P d.map d.statistics) :
    P (d.processRecordMultiStore settings parts).2.map (d.processRecordMultiStore settings parts).2.statistics := by
  induction parts generalizing d with
  | nil => exact holds
  | cons part parts ih =>
      have next := invariant.processRecordStore part holds
      rw [DatabaseObject.processRecordMultiStore]
      split
      · rename_i d' stored
        rw [stored] at next
        exact ih next
      · rename_i d' rejected
        rw [rejected] at next
        exact next

theorem processRecordMultiRemove (invariant : Invariant settings P) (keys : List Key) (holds : P d.map d.statistics) :
    P (d.processRecordMultiRemove keys).map (d.processRecordMultiRemove keys).statistics := by
  have each : ∀ (keys : List Key) (d : DatabaseObject), P d.map d.statistics →
      P (keys.foldl processRemoved d).map (keys.foldl processRemoved d).statistics := by
    intro keys
    induction keys with
    | nil => exact fun d holds => holds
    | cons key keys ih =>
        intro d holds
        apply ih
        unfold processRemoved
        simp only
        split
        · exact holds
        · rename_i entry found
          let x : DatabaseObject := { d with binlogExcessLength := d.binlogExcessLength + 16 }
          have core := core_eraseMapEntry x key entry
          rw [statistics_eraseMapEntry, show (x.eraseMapEntry key entry).map = _ from congrArg Core.map core]
          exact invariant.erase found holds
  exact each keys _ holds

theorem processRecordMultiAccess (invariant : Invariant settings P) (time : EstimatedTimePoint) (keys : List Key)
    (holds : P d.map d.statistics) :
    P (d.processRecordMultiAccess time keys).map (d.processRecordMultiAccess time keys).statistics := by
  unfold DatabaseObject.processRecordMultiAccess
  simp only
  have core := core_applyTimePoint d time
  have statistics := statistics_applyTimePoint d time
  generalize d.applyTimePoint time = x at core statistics
  let y : DatabaseObject := { x with binlogExcessLength := x.binlogExcessLength + 16 + 16 * keys.length }
  have after := core_foldl_setUseTime time.relative keys y
  rw [statistics_foldl_setUseTime, show (keys.foldl (setUseTime time.relative) y).map = _ from congrArg Core.map after]
  have same : P x.map x.statistics := by
    rw [statistics, show x.map = d.map from congrArg Core.map core]
    exact holds
  exact invariant.touched same time.relative keys

theorem processRecord (invariant : Invariant settings P) (record : Record) (holds : P d.map d.statistics) :
    P (d.processRecord settings record).2.map (d.processRecord settings record).2.statistics := by
  cases record with
  | store part => exact invariant.processRecordStore part holds
  | multiStore parts => exact invariant.processRecordMultiStore parts holds
  | multiRemove keys => exact invariant.processRecordMultiRemove keys holds
  | multiAccess time keys => exact invariant.processRecordMultiAccess time keys holds

end Invariant

theorem invariant_sized (settings : Settings) : Invariant settings fun map _ => Sized settings map where
  set key _ positive small sized := sized.set ⟨positive, small⟩
  erase _ sized := sized.erase
  touch useTime found sized := by
    have accepted := sized.find found
    exact sized.set accepted

/-! ## Opening -/

/-- What replaying does not change. -/
def bundles (d : DatabaseObject) : File × SortedMap Key Unit × SortedMap Key Unit := (d.binlog, d.removing, d.accessed)

theorem bundles_of_core {map : SortedMap Key Entry} (core : d'.core = { d.core with map := map }) :
    d'.bundles = d.bundles :=
  congrArg (fun c : Core => (c.binlog, c.removing, c.accessed)) core

theorem bundles_processRecordStore (part : Store) : (d.processRecordStore settings part).2.bundles = d.bundles := by
  by_cases accepted : part.Accepted settings
  · obtain ⟨useTime, -, core, -⟩ := processRecordStore_accepted accepted d
    exact bundles_of_core core
  · have bad : part.size = 0 ∨ part.size > settings.maxDataSize := by
      unfold Store.Accepted at accepted
      omega
    rw [processRecordStore, if_pos bad]

theorem bundles_processRecordMultiStore (parts : List Store) :
    (d.processRecordMultiStore settings parts).2.bundles = d.bundles := by
  induction parts generalizing d with
  | nil => rfl
  | cons part parts ih =>
      have first := @bundles_processRecordStore settings d part
      rw [processRecordMultiStore]
      split
      · rename_i stored
        rw [stored] at first
        exact ih.trans first
      · rename_i rejected
        rw [rejected] at first
        exact first

theorem bundles_processRecordMultiRemove (keys : List Key) : (d.processRecordMultiRemove keys).bundles = d.bundles := by
  have each : ∀ (keys : List Key) (d : DatabaseObject), (keys.foldl processRemoved d).bundles = d.bundles := by
    intro keys
    induction keys with
    | nil => exact fun d => rfl
    | cons key keys ih =>
        intro d
        refine (ih _).trans ?_
        unfold processRemoved
        simp only
        split
        · rfl
        · exact bundles_of_core (core_eraseMapEntry _ key _)
  exact each keys _

theorem bundles_processRecord (record : Record) : (d.processRecord settings record).2.bundles = d.bundles := by
  cases record with
  | store part => exact bundles_processRecordStore part
  | multiStore parts => exact bundles_processRecordMultiStore parts
  | multiRemove keys => exact bundles_processRecordMultiRemove keys
  | multiAccess time keys =>
      refine (bundles_of_core (core_foldl_setUseTime time.relative keys _)).trans ?_
      have core := core_applyTimePoint d time
      exact congrArg (fun c : Core => (c.binlog, c.removing, c.accessed)) core

/-- What holds of the database that replaying starts with holds behind it. -/
theorem readBinlog_keeps {P : SortedMap Key Entry → Statistics → Prop} (invariant : Invariant settings P)
    (holds : P d.map d.statistics) (removing : d.removing = .empty) (accessed : d.accessed = .empty)
    (sized : Sized settings d.map) (now : UInt32) :
    P (d.readBinlog settings now).map (d.readBinlog settings now).statistics ∧
      Ready settings (d.readBinlog settings now) := by
  let Loaded (x : DatabaseObject) : Prop := P x.map x.statistics ∧ Sized settings x.map ∧ x.bundles = d.bundles
  have each : ∀ (x : DatabaseObject) (r : Record), Loaded x → Loaded (x.processRecord settings r).2 := by
    rintro x r ⟨holds, sized, same⟩
    exact ⟨invariant.processRecord r holds, (invariant_sized settings).processRecord r sized,
      (bundles_processRecord r).trans same⟩
  unfold readBinlog
  simp only
  have loaded : Loaded (BinlogWrapper.readAll settings (processRecord settings) (d.binlog.size - d.binlog.offset + 1) d
      { binlog := d.binlog, till := d.binlog.size }).1 := BinlogWrapper.readAll_keeps each _ ⟨holds, sized, rfl⟩ _
  generalize BinlogWrapper.readAll settings (processRecord settings) (d.binlog.size - d.binlog.offset + 1) d
      { binlog := d.binlog, till := d.binlog.size } = outcome at loaded
  obtain ⟨x, w⟩ := outcome
  obtain ⟨holds, sized, same⟩ := loaded
  simp only [bundles, Prod.mk.injEq, removing, accessed] at same
  have ready : Ready settings { x with binlog := w.binlog } := by
    refine ⟨?_, ?_, sized⟩
    · rw [show ({ x with binlog := w.binlog } : DatabaseObject).removing = .empty from same.2.1]
      exact settings.bundlesSome
    · rw [show ({ x with binlog := w.binlog } : DatabaseObject).accessed = .empty from same.2.2]
      exact settings.bundlesSome
  unfold adjustRelativeTime
  split_ifs with back
  · obtain ⟨effects, ready⟩ := writeMultiAccessBlock_ready back.1 now ready.accessed.le ready.removing ready.sized
    exact ⟨invariant.effects effects holds, ready⟩
  · exact ⟨holds, ready⟩

theorem openBinlog_keeps {P : SortedMap Key Entry → Statistics → Prop} (invariant : Invariant settings P)
    (initial : P .empty ⟨0, fun _ => {}⟩) {data : Bytes} {now : UInt32} (opened : openBinlog settings data now = some d) :
    P d.map d.statistics ∧ Ready settings d := by
  have sized : Sized settings .empty := nofun
  unfold openBinlog at opened
  split at opened
  · cases opened
    exact readBinlog_keeps invariant initial rfl rfl sized now
  · split at opened
    · cases opened
    · cases opened
      exact readBinlog_keeps invariant initial rfl rfl sized now

/-- What holds of an empty map and is kept by every change holds in every run of a database that was opened, whatever
the file was. -/
theorem run_keeps {P : SortedMap Key Entry → Statistics → Prop} (invariant : Invariant settings P)
    (initial : P .empty ⟨0, fun _ => {}⟩) {data : Bytes} {now : UInt32} (opened : openBinlog settings data now = some d)
    (operations : List (Operation settings)) :
    P (d.run settings operations).map (d.run settings operations).statistics := by
  obtain ⟨holds, ready⟩ := openBinlog_keeps invariant initial opened
  exact invariant.effects (does_run operations ready).1 holds

end DatabaseObject

end IMeDesktop.Storage.Cache
