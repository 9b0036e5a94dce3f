import IMeDesktop.Storage.CompactorReading

/-! # Compacting while the database is used

However the steps of the compactor fall between the operations of the database, the new file
is as good as the binlog it replaces: what its records say and what is in memory differ on the
removals that wait, and nowhere else. Every key is written with what the index held at some time
since compaction began; a key that was not touched since held that all along, and what touched
it is copied behind.
-/

namespace IMeDesktop.Storage.Cache

open Lib Batched CompactorObject

variable {settings : Settings}

def Store.sample (part : Store) : Key × IndexEntry := (part.key, part.index)

theorem changesOf_blocks (blocks : List (List Store)) :
    changesOf (blocks.map .multiStore) = setAll (blocks.flatten.map Store.sample) := by
  induction blocks with
  | nil => rfl
  | cons block blocks ih =>
      rw [List.map_cons, show changesOf (.multiStore block :: blocks.map .multiStore) =
        block.map (fun part => .set part.key part.index) ++ changesOf (blocks.map .multiStore) from rfl, ih]
      simp [setAll, Store.sample]

theorem mem_storeKeys {records : List Record} {k : Key} {v : IndexEntry}
    (member : .set k v ∈ changesOf records) : k ∈ records.flatMap storeKeys := by
  obtain ⟨r, inside, change⟩ := List.mem_flatMap.mp member
  refine List.mem_flatMap.mpr ⟨r, inside, ?_⟩
  cases r with
  | store part =>
      cases List.mem_singleton.mp change
      exact List.mem_singleton_self _
  | multiStore parts =>
      obtain ⟨part, among, same⟩ := List.mem_map.mp change
      cases same
      exact List.mem_map_of_mem among
  | multiRemove keys =>
      obtain ⟨key, -, same⟩ := List.mem_map.mp change
      cases same
  | multiAccess time keys => cases change

/-! ## What was gathered -/

/-- What is in the new file and in the list was in the index since compaction began, each key once. The keys that were
seen are there, or were missing. -/
structure Gathered (settings : Settings) (first now : Batched Key IndexEntry) (c : CompactorObject)
    (blocks : List (List Store)) (seen : List Key) : Prop where
  file : Holds settings c.compact (blocks.map .multiStore)
  few : c.list.length ≤ settings.maxBundledRecords
  once : ((blocks.flatten ++ c.list).map Store.key).Nodup
  written : ∀ k, k ∈ c.written ↔ k ∈ (blocks.flatten ++ c.list).map Store.key
  fine : ∀ part ∈ c.list, part.Accepted settings ∧ part.Storable settings.trackEstimatedTime
  sampled : ∀ part ∈ blocks.flatten ++ c.list, ∃ w, Via first w now ∧ w.map part.key = some part.index
  complete : ∀ k ∈ seen, k ∈ c.written ∨ ∃ w, Via first w now ∧ w.map k = none

/-- A value that the index held since compaction began. -/
def Offered (settings : Settings) (first now : Batched Key IndexEntry) (raw : Key × Entry) : Prop :=
  (0 < raw.2.size ∧ raw.2.size ≤ settings.maxDataSize) ∧ ∃ w, Via first w now ∧ w.map raw.1 = some raw.2.index

theorem Offered.later {first now now' : Batched Key IndexEntry} {raw : Key × Entry}
    (h : Offered settings first now raw) (steps : Steps now now') : Offered settings first now' raw := by
  obtain ⟨sized, w, via, value⟩ := h
  exact ⟨sized, w, via_step via steps, value⟩

namespace Gathered

variable {first now now' : Batched Key IndexEntry} {c : CompactorObject} {blocks : List (List Store)}
  {seen : List Key}

theorem later (h : Gathered settings first now c blocks seen) (steps : Steps now now') :
    Gathered settings first now' c blocks seen := by
  refine ⟨h.file, h.few, h.once, h.written, h.fine, fun part member => ?_, fun k member => ?_⟩
  · obtain ⟨w, via, value⟩ := h.sampled part member
    exact ⟨w, via_step via steps, value⟩
  · rcases h.complete k member with there | ⟨w, via, missing⟩
    · exact .inl there
    · exact .inr ⟨w, via_step via steps, missing⟩

/-- Nothing but the wrapper changed. -/
theorem congr (h : Gathered settings first now c blocks seen) {c' : CompactorObject} (compact : c'.compact = c.compact)
    (list : c'.list = c.list) (written : c'.written = c.written) : Gathered settings first now c' blocks seen := by
  cases c'
  cases compact
  cases list
  cases written
  exact ⟨h.file, h.few, h.once, h.written, h.fine, h.sampled, h.complete⟩

theorem listRecord_fine (info : CompactorInfo) {raw : Key × Entry}
    (sized : 0 < raw.2.size ∧ raw.2.size ≤ settings.maxDataSize) :
    (listRecord settings info raw).Accepted settings ∧
      (listRecord settings info raw).Storable settings.trackEstimatedTime := by
  refine ⟨sized, Nat.lt_of_le_of_lt sized.2 settings.sized, fun untracked => if_neg ?_⟩
  rw [untracked]
  exact Bool.false_ne_true

theorem addListRecord {raw : Key × Entry} (h : Gathered settings first now c blocks seen)
    (room : c.list.length ≠ settings.maxBundledRecords) (offered : Offered settings first now raw) :
    Gathered settings first now (c.addListRecord settings raw) blocks (raw.1 :: seen) := by
  unfold CompactorObject.addListRecord
  split_ifs with known
  · refine ⟨h.file, h.few, h.once, h.written, h.fine, h.sampled, fun k member => ?_⟩
    rcases List.mem_cons.mp member with rfl | before
    · exact .inl known
    · exact h.complete k before
  · obtain ⟨sized, value⟩ := offered
    have key : (listRecord settings c.info raw).key = raw.1 := rfl
    have index : (listRecord settings c.info raw).index = raw.2.index := rfl
    have fine := listRecord_fine c.info sized
    generalize listRecord settings c.info raw = part at key index fine
    have keys : (blocks.flatten ++ (c.list ++ [part])).map Store.key =
        (blocks.flatten ++ c.list).map Store.key ++ [raw.1] := by simp [key]
    refine ⟨h.file, ?_, ?_, fun k => ?_, fun p member => ?_, fun p member => ?_, fun k member => ?_⟩
    · have := h.few
      simp only [List.length_append, List.length_singleton]
      omega
    · rw [keys]
      refine List.Nodup.append h.once (List.nodup_singleton _) fun k before new => ?_
      rw [List.mem_singleton.mp new] at before
      exact known ((h.written raw.1).mpr before)
    · rw [keys, List.mem_cons, List.mem_append, h.written k, List.mem_singleton, or_comm]
    · rcases List.mem_append.mp member with before | new
      · exact h.fine p before
      · rw [List.mem_singleton.mp new]
        exact fine
    · rw [← List.append_assoc] at member
      rcases List.mem_append.mp member with before | new
      · exact h.sampled p before
      · rw [List.mem_singleton.mp new, key, index]
        exact value
    · rcases List.mem_cons.mp member with rfl | before
      · exact .inl List.mem_cons_self
      · exact (h.complete k before).imp_left (List.mem_cons_of_mem raw.1)

theorem writeList (h : Gathered settings first now c blocks seen) :
    ∃ blocks', Gathered settings first now (c.writeList settings) blocks' seen ∧ (c.writeList settings).list = [] := by
  unfold CompactorObject.writeList
  split_ifs with empty
  · exact ⟨blocks, h, empty⟩
  · have all : (blocks ++ [c.list]).flatten ++ [] = blocks.flatten ++ c.list := by simp
    refine ⟨blocks ++ [c.list], ⟨?_, Nat.zero_le _, ?_, fun k => ?_, List.forall_mem_nil _, ?_, h.complete⟩, rfl⟩
    · have more := @Holds.append settings c.compact (blocks.map .multiStore) h.file [.multiStore c.list] fun r member =>
        (List.mem_singleton.mp member) ▸ ⟨empty, h.few, h.fine⟩
      simpa [encodeAll] using more
    · rw [all]
      exact h.once
    · rw [all]
      exact h.written k
    · rw [all]
      exact h.sampled

theorem fillList (h : Gathered settings first now c blocks seen) {values : List (Key × Entry)}
    (offered : ∀ raw ∈ values, Offered settings first now raw) :
    ∃ added, values = added ++ (c.fillList settings values).1 ∧
      Gathered settings first now (c.fillList settings values).2 blocks (added.map Prod.fst ++ seen) ∧
      (c.list = [] → values ≠ [] → added ≠ []) := by
  induction values generalizing c seen with
  | nil => exact ⟨[], rfl, h, fun _ some => absurd rfl some⟩
  | cons raw values ih =>
      obtain ⟨this, others⟩ := List.forall_mem_cons.mp offered
      rw [CompactorObject.fillList]
      split_ifs with full
      · refine ⟨[], rfl, h, fun empty => ?_⟩
        rw [empty] at full
        exact absurd full (Nat.ne_of_lt settings.bundlesSome)
      · obtain ⟨added, split, gathered, -⟩ := ih (h.addListRecord full this) others
        refine ⟨raw :: added, by rw [List.cons_append, ← split], ?_, fun _ _ => List.cons_ne_nil _ _⟩
        refine ⟨gathered.file, gathered.few, gathered.once, gathered.written, gathered.fine, gathered.sampled,
          fun k member => gathered.complete k ?_⟩
        simp only [List.map_cons, List.cons_append, List.mem_cons, List.mem_append] at member ⊢
        tauto

/-- All values are taken, in as many lists as it needs. -/
theorem processValues {fuel : Nat} (h : Gathered settings first now c blocks seen) {values : List (Key × Entry)}
    (offered : ∀ raw ∈ values, Offered settings first now raw)
    (enough : values.length + 1 < fuel ∨ (c.list = [] ∧ values.length < fuel)) :
    ∃ blocks', Gathered settings first now (c.processValues settings fuel values) blocks'
      (values.map Prod.fst ++ seen) := by
  induction fuel generalizing c seen blocks values with
  | zero => omega
  | succ fuel ih =>
      obtain ⟨added, split, gathered, progress⟩ := h.fillList offered
      rw [CompactorObject.processValues]
      rcases filled : c.fillList settings values with ⟨left, c'⟩
      rw [filled] at split gathered
      simp only at split gathered
      cases left with
      | nil =>
          refine ⟨blocks, ?_⟩
          rw [split]
          simpa using gathered
      | cons raw left =>
          obtain ⟨blocks', written, empty⟩ := gathered.writeList
          have length := congrArg List.length split
          rw [List.length_append] at length
          have shorter : (raw :: left).length < fuel := by
            rcases enough with more | ⟨none, more⟩
            · omega
            · have some := progress none (by rw [split]; simp)
              have := List.length_pos_iff.mpr some
              omega
          obtain ⟨blocks'', last⟩ := ih written
            (fun raw' member => offered raw' (split ▸ List.mem_append_right added member)) (.inr ⟨empty, shorter⟩)
          refine ⟨blocks'', ⟨last.file, last.few, last.once, last.written, last.fine, last.sampled,
            fun k member => last.complete k ?_⟩⟩
          rw [split] at member
          simp only [List.map_append, List.mem_append] at member ⊢
          tauto

end Gathered

/-! ## The stages of a compaction -/

namespace Compacting

/-- The records that were there when compaction began, and those that were added since. -/
structure Since (settings : Settings) (d : DatabaseObject) (c : CompactorObject) (first : Batched Key IndexEntry)
    (old added : List Record) : Prop where
  inStep : d.InStep settings (old ++ added)
  agrees : Agrees first
  journal : first.journal = changesOf old
  steps : Steps first (d.batched (old ++ added))
  till : c.info.till = 16 + (encodeAll settings old).length

/-- The wrapper of the compactor, behind some of the old records. -/
structure Standing (settings : Settings) (d : DatabaseObject) (c : CompactorObject) (read left : List Record) : Prop where
  reads : Reads settings c.wrapper left
  till : c.wrapper.till = c.info.till
  bytes : c.wrapper.binlog.data.take c.info.till = d.binlog.data.take c.info.till

/-- The new file, with a copy of what was appended to the binlog up to some place. -/
structure Copied (settings : Settings) (d : DatabaseObject) (c : CompactorObject) (first now : Batched Key IndexEntry)
    (source : Nat) : Prop where
  file : ∃ (base : Bytes) (blocks : List (List Store)), Holds settings base (blocks.map .multiStore) ∧
    Sampled first now (blocks.flatten.map Store.sample) ∧ c.compact = base ++ (d.binlog.data.take source).drop c.info.till
  behind : c.info.till ≤ source
  inside : source ≤ d.binlog.size

/-- What holds at each stage. -/
def Stage (settings : Settings) (d : DatabaseObject) (c : CompactorObject) (first : Batched Key IndexEntry)
    (old added : List Record) : CompactorPhase → Prop
  | .parsing => ∃ read left blocks, old = read ++ left ∧ Standing settings d c read left ∧
      Gathered settings first (d.batched (old ++ added)) c blocks (read.flatMap storeKeys)
  | .asked keys => ∃ read left blocks seen, old = read ++ left ∧ Standing settings d c read left ∧
      Gathered settings first (d.batched (old ++ added)) c blocks seen ∧
      ∀ k ∈ read.flatMap storeKeys, k ∈ seen ∨ k ∈ keys
  | .answered values => ∃ read left blocks seen, old = read ++ left ∧ Standing settings d c read left ∧
      Gathered settings first (d.batched (old ++ added)) c blocks seen ∧
      (∀ raw ∈ values, Offered settings first (d.batched (old ++ added)) raw) ∧
      ∀ k ∈ read.flatMap storeKeys, k ∈ seen ∨ k ∈ values.map Prod.fst ∨
        ∃ w, Via first w (d.batched (old ++ added)) ∧ w.map k = none
  | .catching source _ => Copied settings d c first (d.batched (old ++ added)) source
  | .done source => Copied settings d c first (d.batched (old ++ added)) source
  | .failed => True

/-- The database is in step with its file, and the compactor with the database. -/
structure Sound (settings : Settings) (s : Compacting) : Prop where
  ready : s.database.Ready settings
  inStep : ∃ records, s.database.InStep settings records
  stage : ∀ c phase, s.compactor.object = some (c, phase) → ∃ first old added,
    Since settings s.database c first old added ∧ Stage settings s.database c first old added phase

variable {d d' : DatabaseObject} {c : CompactorObject} {first : Batched Key IndexEntry} {old added : List Record}

theorem Since.length (h : Since settings d c first old added) :
    d.binlog.data.length = c.info.till + (encodeAll settings added).length := by
  rw [h.inStep.file.length, h.till, encodeAll_append, List.length_append, Nat.add_assoc]

/-- What was added lies behind the place where compaction began. -/
theorem Since.suffix (h : Since settings d c first old added) :
    d.binlog.data.drop c.info.till = encodeAll settings added := by
  rw [h.till, ← List.drop_drop, h.inStep.file.bytes, encodeAll_append, List.drop_left]

theorem take_grown {data more : Bytes} {n : Nat} (inside : n ≤ data.length) : (data ++ more).take n = data.take n :=
  List.take_append_of_le_length inside

/-- The database goes on while a compaction is under way. -/
theorem Stage.effects {phase : CompactorPhase} (since : Since settings d c first old added)
    (stage : Stage settings d c first old added phase) {more : List Record}
    (bytes : d'.binlog.data = d.binlog.data ++ encodeAll settings more)
    (steps : Steps (d.batched (old ++ added)) (d'.batched (old ++ (added ++ more)))) :
    Stage settings d' c first old (added ++ more) phase := by
  have inside : c.info.till ≤ d.binlog.data.length := since.length ▸ Nat.le_add_right _ _
  have standing : ∀ {read left : List Record}, Standing settings d c read left → Standing settings d' c read left :=
    fun h => ⟨h.reads, h.till, by rw [h.bytes, bytes, take_grown inside]⟩
  have copied : ∀ {source : Nat}, Copied settings d c first (d.batched (old ++ added)) source →
      Copied settings d' c first (d'.batched (old ++ (added ++ more))) source := by
    intro source h
    obtain ⟨base, blocks, holds, sampled, compact⟩ := h.file
    refine ⟨⟨base, blocks, holds, sampled.later steps, ?_⟩, h.behind, ?_⟩
    · rw [compact, bytes, take_grown h.inside]
    · rw [File.size, bytes, List.length_append]
      exact h.inside.trans (Nat.le_add_right _ _)
  cases phase with
  | parsing =>
      obtain ⟨read, left, blocks, split, stands, gathered⟩ := stage
      exact ⟨read, left, blocks, split, standing stands, gathered.later steps⟩
  | asked keys =>
      obtain ⟨read, left, blocks, seen, split, stands, gathered, asked⟩ := stage
      exact ⟨read, left, blocks, seen, split, standing stands, gathered.later steps, asked⟩
  | answered values =>
      obtain ⟨read, left, blocks, seen, split, stands, gathered, offered, asked⟩ := stage
      refine ⟨read, left, blocks, seen, split, standing stands, gathered.later steps,
        fun raw member => (offered raw member).later steps, fun k member => ?_⟩
      rcases asked k member with before | answered | ⟨w, via, missing⟩
      · exact .inl before
      · exact .inr (.inl answered)
      · exact .inr (.inr ⟨w, via_step via steps, missing⟩)
  | catching source lastCatchUp => exact copied stage
  | done source => exact copied stage
  | failed => exact stage

theorem Sound.operate {s : Compacting} (h : Sound settings s) (operation : DatabaseObject.Operation settings) :
    Sound settings (s.step settings (.operate operation)) := by
  obtain ⟨effects, ready⟩ := DatabaseObject.does_step operation h.ready
  obtain ⟨records, inStep⟩ := h.inStep
  obtain ⟨written, between, -⟩ := inStep.effects effects
  refine ⟨ready, ⟨_, between.inStep⟩, fun c phase object => ?_⟩
  obtain ⟨first, old, added, since, stage⟩ := h.stage c phase object
  obtain ⟨more, between, -⟩ := since.inStep.effects effects
  have inStep := between.inStep
  have steps := between.steps
  rw [List.append_assoc] at inStep steps
  exact ⟨first, old, added ++ more, ⟨inStep, since.agrees, since.journal, since.steps.trans steps, since.till⟩,
    stage.effects since between.bytes steps⟩

/-! ## The steps of the compactor -/

/-- A step of the compactor leaves the database alone. -/
theorem Sound.withObject {s : Compacting} (h : Sound settings s) {object : CompactorObject × CompactorPhase}
    (stage : ∃ first old added, Since settings s.database object.1 first old added ∧
      Stage settings s.database object.1 first old added object.2) : Sound settings (s.withObject object) := by
  refine ⟨h.ready, h.inStep, fun c phase same => ?_⟩
  cases same
  exact stage

theorem Since.congr (h : Since settings d c first old added) {c' : CompactorObject} (info : c'.info = c.info) :
    Since settings d c' first old added := ⟨h.inStep, h.agrees, h.journal, h.steps, info ▸ h.till⟩

theorem info_writeList (c : CompactorObject) : (c.writeList settings).info = c.info := by
  unfold CompactorObject.writeList
  split_ifs
  · rfl
  · rfl

theorem wrapper_writeList (c : CompactorObject) : (c.writeList settings).wrapper = c.wrapper := by
  unfold CompactorObject.writeList
  split_ifs
  · rfl
  · rfl

/-- Filling and writing the list does not read. -/
theorem reading_processValues (fuel : Nat) (c : CompactorObject) (values : List (Key × Entry)) :
    (c.processValues settings fuel values).info = c.info ∧ (c.processValues settings fuel values).wrapper = c.wrapper := by
  have filled : ∀ (values : List (Key × Entry)) (c : CompactorObject),
      (c.fillList settings values).2.info = c.info ∧ (c.fillList settings values).2.wrapper = c.wrapper := by
    intro values
    induction values with
    | nil => exact fun c => ⟨rfl, rfl⟩
    | cons raw values ih =>
        intro c
        rw [CompactorObject.fillList]
        split_ifs
        · exact ⟨rfl, rfl⟩
        · rw [(ih _).1, (ih _).2]
          unfold CompactorObject.addListRecord
          split_ifs
          · exact ⟨rfl, rfl⟩
          · exact ⟨rfl, rfl⟩
  induction fuel generalizing c values with
  | zero => exact ⟨rfl, rfl⟩
  | succ fuel ih =>
      obtain ⟨info, wrapper⟩ := filled values c
      rw [CompactorObject.processValues]
      rcases outcome : c.fillList settings values with ⟨left, c'⟩
      rw [outcome] at info wrapper
      cases left with
      | nil => exact ⟨info, wrapper⟩
      | cons raw left =>
          simp only [(ih _ _).1, (ih _ _).2, info_writeList, wrapper_writeList]
          exact ⟨info, wrapper⟩

/-- When everything was read, the new file has what it should. -/
theorem copied_of_gathered {blocks : List (List Store)} (since : Since settings d c first old added)
    (gathered : Gathered settings first (d.batched (old ++ added)) c blocks (old.flatMap storeKeys))
    (empty : c.list = []) : Copied settings d c first (d.batched (old ++ added)) c.info.till := by
  have all : blocks.flatten ++ c.list = blocks.flatten := by rw [empty, List.append_nil]
  have once := gathered.once
  have written := gathered.written
  have sampled := gathered.sampled
  rw [all] at once sampled
  simp only [all] at written
  have keys : (blocks.flatten.map Store.sample).map Prod.fst = blocks.flatten.map Store.key := by
    rw [List.map_map]
    rfl
  have nothing : (d.binlog.data.take c.info.till).drop c.info.till = [] :=
    List.drop_eq_nil_of_le (by rw [List.length_take]; omega)
  refine ⟨⟨c.compact, blocks, gathered.file, ⟨?_, fun e member => ?_, fun k v member => ?_⟩, ?_⟩, Nat.le_refl _, ?_⟩
  · rw [keys]
    exact once
  · obtain ⟨part, inside, rfl⟩ := List.mem_map.mp member
    exact sampled part inside
  · rw [since.journal] at member
    rw [keys, ← written k]
    exact gathered.complete k (mem_storeKeys member)
  · rw [nothing, List.append_nil]
  · rw [File.size, since.length]
    exact Nat.le_add_right _ _

theorem Sound.parseChunk {s : Compacting} (h : Sound settings s) {c : CompactorObject}
    (object : s.compactor.object = some (c, .parsing)) : Sound settings (s.withObject (s.parseChunk settings c)) := by
  obtain ⟨first, old, added, since, read, left, blocks, split, stands, gathered⟩ := h.stage c .parsing object
  have inside : c.wrapper.till ≤ s.database.binlog.data.length := by
    rw [stands.till, since.length]
    exact Nat.le_add_right _ _
  have valid : ∀ r ∈ left, r.Valid settings := fun r member =>
    since.inStep.file.valid r (List.mem_append_left added (split ▸ List.mem_append_right read member))
  have reads := stands.reads.grown (by rw [stands.till, stands.bytes]) inside
  obtain ⟨more, left', w', split', reads', till, data, result, last⟩ :=
    reads.readBlocks valid (Nat.lt_succ_self _) []
  have chunk : c.readChunk settings s.database.binlog.data = (more.flatMap storeKeys, { c with wrapper := w' }) := by
    unfold CompactorObject.readChunk
    simp only [result, List.nil_append]
  apply h.withObject
  unfold Compacting.parseChunk
  simp only [chunk]
  rw [List.nil_append] at last
  have whole : old = (read ++ more) ++ left' := by rw [split, split', List.append_assoc]
  have standing : Standing settings s.database { c with wrapper := w' } (read ++ more) left' := by
    refine ⟨reads', till.trans stands.till, ?_⟩
    simp only [data]
  have same : Gathered settings first (s.database.batched (old ++ added)) { c with wrapper := w' } blocks
      (read.flatMap storeKeys) := gathered.congr rfl rfl rfl
  have now : Since settings s.database { c with wrapper := w' } first old added := since.congr rfl
  split_ifs with failed none
  · exact ⟨first, old, added, now, trivial⟩
  · -- there are no more keys, and nothing is left to read
    have done := last none
    subst done
    rw [List.append_nil] at whole
    obtain ⟨blocks', wrote, empty⟩ := same.writeList
    have kept : ({ c with wrapper := w' }.writeList settings).info = c.info := info_writeList { c with wrapper := w' }
    have since' := now.congr kept
    refine ⟨first, old, added, since', ?_⟩
    have complete : old.flatMap storeKeys = read.flatMap storeKeys := by
      rw [whole, List.flatMap_append, none, List.append_nil]
    have copied := copied_of_gathered since' (complete ▸ wrote) empty
    rwa [info_writeList] at copied
  · refine ⟨first, old, added, now, read ++ more, left', blocks, read.flatMap storeKeys, whole, standing, same,
      fun k member => ?_⟩
    rw [List.flatMap_append] at member
    exact List.mem_append.mp member

theorem Sound.getManyRaw {s : Compacting} (h : Sound settings s) {c : CompactorObject} {keys : List Key}
    (object : s.compactor.object = some (c, .asked keys)) :
    Sound settings (s.withObject (c, .answered (s.database.getManyRaw keys))) := by
  obtain ⟨first, old, added, since, read, left, blocks, seen, split, stands, gathered, asked⟩ :=
    h.stage c (.asked keys) object
  apply h.withObject
  refine ⟨first, old, added, since, read, left, blocks, seen, split, stands, gathered, fun raw member => ?_,
    fun k member => ?_⟩
  · obtain ⟨key, -, answer⟩ := List.mem_filterMap.mp member
    obtain ⟨entry, found, rfl⟩ := Option.map_eq_some_iff.mp answer
    refine ⟨h.ready.sized.find found, _, ⟨since.steps, .refl⟩, ?_⟩
    exact Option.map_eq_some_iff.mpr ⟨entry, found, rfl⟩
  · rcases asked k member with before | wanted
    · exact .inl before
    · cases found : s.database.map.find? k with
      | none =>
          refine .inr (.inr ⟨_, ⟨since.steps, .refl⟩, ?_⟩)
          exact Option.map_eq_none_iff.mpr found
      | some entry =>
          refine .inr (.inl (List.mem_map.mpr ⟨(k, entry), ?_, rfl⟩))
          exact List.mem_filterMap.mpr ⟨k, wanted, by rw [found]; rfl⟩

theorem Sound.processValues {s : Compacting} (h : Sound settings s) {c : CompactorObject}
    {values : List (Key × Entry)} (object : s.compactor.object = some (c, .answered values)) :
    Sound settings (s.withObject (c.processValues settings (values.length + 2) values, .parsing)) := by
  obtain ⟨first, old, added, since, read, left, blocks, seen, split, stands, gathered, offered, asked⟩ :=
    h.stage c (.answered values) object
  obtain ⟨blocks', after⟩ := gathered.processValues offered (.inl (Nat.lt_succ_self _))
  obtain ⟨info, wrapper⟩ := @reading_processValues settings (values.length + 2) c values
  apply h.withObject
  refine ⟨first, old, added, since.congr info, read, left, blocks', split, ?_, ?_⟩
  · refine ⟨?_, ?_, ?_⟩
    · rw [wrapper]
      exact stands.reads
    · rw [wrapper, info]
      exact stands.till
    · rw [wrapper, info]
      exact stands.bytes
  · refine ⟨after.file, after.few, after.once, after.written, after.fine, after.sampled, fun k member => ?_⟩
    rcases asked k member with before | answered | missing
    · exact after.complete k (List.mem_append_right _ before)
    · exact after.complete k (List.mem_append_left _ answered)
    · exact .inr missing

/-- What comes behind the copy is copied. -/
theorem Copied.more {now : Batched Key IndexEntry} {source till : Nat} (h : Copied settings d c first now source)
    (further : source ≤ till) (inside : till ≤ d.binlog.size) :
    Copied settings d { c with compact := c.compact ++ (d.binlog.data.take till).drop source } first now till := by
  obtain ⟨base, blocks, holds, sampled, compact⟩ := h.file
  have behind := h.behind
  refine ⟨⟨base, blocks, holds, sampled, ?_⟩, h.behind.trans further, inside⟩
  have split : (d.binlog.data.take till).drop c.info.till =
      (d.binlog.data.take source).drop c.info.till ++ (d.binlog.data.take till).drop source := by
    have prefix_ : d.binlog.data.take source = (d.binlog.data.take till).take source := by
      rw [List.take_take, Nat.min_eq_left further]
    have length : ((d.binlog.data.take till).take source).length = source := by
      rw [← prefix_, List.length_take]
      exact Nat.min_eq_left (further.trans inside)
    conv_lhs => rw [← List.take_append_drop source (d.binlog.data.take till)]
    rw [prefix_, List.drop_append_of_le_length (by omega)]
  simp only [compact, split, List.append_assoc]

theorem readBlockSize_pos (settings : Settings) : 0 < settings.readBlockSize := by
  have := settings.fits
  simp only [kBlockSize] at this
  omega

theorem Sound.finalize {s : Compacting} (h : Sound settings s) {c : CompactorObject} {source lastCatchUp : Nat}
    (object : s.compactor.object = some (c, .catching source lastCatchUp)) (seen : Nat) :
    Sound settings (s.withObject (s.finalize settings c source lastCatchUp seen)) := by
  obtain ⟨first, old, added, since, copied⟩ := h.stage c _ object
  apply h.withObject
  unfold Compacting.finalize
  rw [catchUp_eq (readBlockSize_pos settings)]
  split_ifs with less
  · exact ⟨first, old, added, since, trivial⟩
  · have length : (s.database.binlog.data.take seen).length = min seen s.database.binlog.data.length :=
      List.length_take
    have view : s.database.binlog.data.take seen =
        s.database.binlog.data.take (s.database.binlog.data.take seen).length := by
      rw [length]
      cases Nat.le_total seen s.database.binlog.data.length with
      | inl short => rw [Nat.min_eq_left short]
      | inr long => rw [Nat.min_eq_right long, List.take_length, List.take_of_length_le long]
    have inside : (s.database.binlog.data.take seen).length ≤ s.database.binlog.size := by
      rw [length]
      exact Nat.min_le_right _ _
    generalize (s.database.binlog.data.take seen).length = till at less view inside
    have more := copied.more (Nat.le_of_not_lt less) inside
    rw [← view] at more
    simp only
    split_ifs
    · exact ⟨first, old, added, since.congr rfl, more⟩
    · exact ⟨first, old, added, since.congr rfl, more⟩

/-! ## Taking the new file -/

theorem Sound.drop {s : Compacting} (h : Sound settings s) (compactor : CompactorWrap) (none : compactor.object = none) :
    Sound settings { s with compactor := compactor } := by
  refine ⟨h.ready, h.inStep, fun c phase object => ?_⟩
  simp only [none] at object
  cases object

theorem Sound.install {s : Compacting} (h : Sound settings s) {c : CompactorObject} {first : Batched Key IndexEntry}
    {old added : List Record} (since : Since settings s.database c first old added)
    (copied : Copied settings s.database c first (s.database.batched (old ++ added)) s.database.binlog.size) :
    Sound settings (s.install c.compact) := by
  obtain ⟨base, blocks, holds, sampled, compact⟩ := copied.file
  have suffix : (s.database.binlog.data.take s.database.binlog.size).drop c.info.till = encodeAll settings added := by
    rw [File.size, List.take_length]
    exact since.suffix
  rw [suffix] at compact
  have whole : Holds settings c.compact (blocks.map .multiStore ++ added) := by
    rw [compact]
    exact holds.append fun r member => since.inStep.file.valid r (List.mem_append_right old member)
  have journal : (s.database.batched (old ++ added)).journal = first.journal ++ changesOf added := by
    rw [since.journal]
    exact changesOf_append old added
  have agrees := sampled.agrees since.agrees since.steps journal
  refine ⟨⟨h.ready.removing, h.ready.accessed, h.ready.sized⟩, ⟨_, whole, rfl, ?_⟩, fun c phase object => ?_⟩
  · rw [DatabaseObject.batched, changesOf_append, changesOf_blocks]
    exact agrees
  · cases object

theorem Sound.compactorDone {s : Compacting} (h : Sound settings s) {c : CompactorObject} {source : Nat}
    (object : s.compactor.object = some (c, .done source)) (now : Nat) :
    Sound settings (s.compactorDone settings c source now) := by
  obtain ⟨first, old, added, since, copied⟩ := h.stage c _ object
  unfold Compacting.compactorDone
  simp only
  split_ifs with all
  · exact h.install since (all ▸ copied)
  · have shorter : ¬ s.database.binlog.data.length < source := Nat.not_lt.mpr copied.inside
    rw [catchUp_eq (readBlockSize_pos settings), if_neg shorter]
    have more := copied.more copied.inside (Nat.le_refl _)
    rw [File.size, List.take_length] at more
    simp only
    split_ifs
    · have since' : Since settings s.database { c with compact := c.compact ++ s.database.binlog.data.drop source }
          first old added := since.congr rfl
      exact h.install since' more
    · exact h.drop _ rfl

theorem Sound.checkCompactor {s : Compacting} (h : Sound settings s) (now : Nat) :
    Sound settings (s.checkCompactor settings now) := by
  unfold Compacting.checkCompactor
  split_ifs
  · obtain ⟨records, inStep⟩ := h.inStep
    refine ⟨h.ready, ⟨records, inStep⟩, fun c phase object => ?_⟩
    have steps : Steps (s.database.batched records) (s.database.batched (records ++ [])) := by
      rw [List.append_nil]
      exact .refl
    have since : ∀ c : CompactorObject, c.info.till = s.database.binlog.size →
        Since settings s.database c (s.database.batched records) records [] := by
      refine fun c till => ⟨?_, inStep.agrees, rfl, steps, till.trans inStep.file.length⟩
      rwa [List.append_nil]
    cases started : CompactorObject.start settings s.database.binlog.data
        { till := s.database.binlog.size, systemTime := s.database.time.system } with
    | none =>
        simp only [started, Option.some.injEq, Prod.mk.injEq] at object
        obtain ⟨rfl, rfl⟩ := object
        exact ⟨_, records, [], since _ rfl, trivial⟩
    | some c' =>
        simp only [started, Option.some.injEq, Prod.mk.injEq] at object
        obtain ⟨rfl, rfl⟩ := object
        have long : 16 ≤ (s.database.binlog.data.take 16).length := by
          rw [List.length_take, Nat.min_eq_left inStep.file.long]
        have header : DatabaseObject.readHeader settings
            (s.database.binlog.data.take 16 ++ s.database.binlog.data.drop 16) =
              DatabaseObject.readHeader settings (s.database.binlog.data.take 16) := readHeader_append long _
        rw [List.take_append_drop] at header
        have front : Holds settings (s.database.binlog.data.take 16) [] := by
          refine ⟨header ▸ inStep.file.header, ?_, List.forall_mem_nil _⟩
          exact List.drop_eq_nil_of_le (by rw [List.length_take]; omega)
        unfold CompactorObject.start at started
        split_ifs at started
        cases started
        refine ⟨_, records, [], since _ rfl, [], records, [], rfl, ⟨⟨?_, .inl rfl⟩, rfl, rfl⟩, ?_⟩
        · have stands := @DatabaseObject.at_start { data := s.database.binlog.data, offset := 16 } inStep.file.long
            (Nat.dvd_sub inStep.file.aligned (Nat.dvd_refl 16))
          simp only [inStep.file.bytes] at stands
          exact stands
        · exact ⟨front, Nat.zero_le _, List.nodup_nil, fun k => Iff.rfl, List.forall_mem_nil _, List.forall_mem_nil _,
            List.forall_mem_nil _⟩
  · exact h

theorem Sound.step {s : Compacting} (h : Sound settings s) (event : Event settings) :
    Sound settings (s.step settings event) := by
  cases event with
  | operate operation => exact h.operate operation
  | checkCompactor now => exact h.checkCompactor now
  | parseChunk =>
      simp only [Compacting.step]
      split
      · exact h.parseChunk ‹_›
      · exact h
  | getManyRaw =>
      simp only [Compacting.step]
      split
      · exact h.getManyRaw ‹_›
      · exact h
  | processValues =>
      simp only [Compacting.step]
      split
      · exact h.processValues ‹_›
      · exact h
  | catchUp seen =>
      simp only [Compacting.step]
      split
      · exact h.finalize ‹_› seen
      · exact h
  | take now =>
      simp only [Compacting.step]
      split
      · exact h.compactorDone ‹_› now
      · exact h.drop _ rfl
      · exact h

theorem Sound.run {s : Compacting} (h : Sound settings s) (events : List (Event settings)) :
    Sound settings (s.run settings events) := by
  unfold Compacting.run
  induction events generalizing s with
  | nil => exact h
  | cons event events ih => exact ih (h.step event)

end Compacting

/-! ## Sessions -/

/-- A database is opened, used and compacted, and closed. -/
structure Session (settings : Settings) where
  opens : UInt32
  events : List (Compacting.Event settings)
  closes : UInt32

namespace Session

open DatabaseObject

/-- The database of a session before it is closed, with its compactor. -/
def used (s : Session settings) (data : Bytes) : Option Compacting :=
  (openBinlog settings data s.opens).map fun d => ({ database := d } : Compacting).run settings s.events

def leaves (s : Session settings) (data : Bytes) : Option Bytes :=
  (s.used data).map fun used => used.database.close settings s.closes

/-- What sessions leave, one after another, from no file on. -/
def file (sessions : List (Session settings)) : Option Bytes :=
  sessions.foldlM (fun data s => s.leaves data) []

theorem sound_used {data : Bytes} (startable : Startable settings data) (s : Session settings) :
    ∃ used, s.used data = some used ∧ used.Sound settings := by
  obtain ⟨d, records, opens, inStep, ready⟩ := inStep_opens startable s.opens
  have sound : Compacting.Sound settings { database := d } :=
    ⟨ready, ⟨records, inStep⟩, fun c phase object => by cases object⟩
  refine ⟨({ database := d } : Compacting).run settings s.events, ?_, sound.run s.events⟩
  rw [used, opens]
  rfl

theorem startable_leaves {data : Bytes} (startable : Startable settings data) (s : Session settings) :
    ∃ left, s.leaves data = some left ∧ Startable settings left := by
  obtain ⟨used, uses, sound⟩ := sound_used startable s
  obtain ⟨records, inStep⟩ := sound.inStep
  obtain ⟨added, holds, -⟩ := holds_close inStep sound.ready s.closes
  refine ⟨used.database.close settings s.closes, ?_, .inr ⟨_, holds⟩⟩
  rw [leaves, uses]
  rfl

theorem startable_file (sessions : List (Session settings)) :
    ∃ data, file sessions = some data ∧ Startable settings data := by
  have each : ∀ (sessions : List (Session settings)) (data : Bytes), Startable settings data →
      ∃ left, sessions.foldlM (fun data s => s.leaves data) data = some left ∧ Startable settings left := by
    intro sessions
    induction sessions with
    | nil => exact fun data startable => ⟨data, rfl, startable⟩
    | cons s sessions ih =>
        intro data startable
        obtain ⟨left, leaves, startable⟩ := startable_leaves startable s
        rw [List.foldlM_cons, leaves]
        exact ih left startable
  exact each sessions [] (.inl rfl)

/-- After any number of sessions, a database opens with the index that it was closed with, and without having been closed
it opens with the index that it had, but for the removals that were waiting. -/
theorem reopened_index (sessions : List (Session settings)) (last : Session settings) (later : UInt32) :
    ∃ data s d d', file sessions = some data ∧ last.used data = some s ∧
      openBinlog settings (s.database.close settings last.closes) later = some d ∧ index d.map = index s.database.map ∧
      openBinlog settings s.database.binlog.data later = some d' ∧
      ∀ k, s.database.removing.contains k = false → index d'.map k = index s.database.map k := by
  obtain ⟨data, left, startable⟩ := startable_file sessions
  obtain ⟨s, used, sound⟩ := sound_used startable last
  obtain ⟨records, inStep⟩ := sound.inStep
  obtain ⟨added, holds, replayed⟩ := holds_close inStep sound.ready last.closes
  obtain ⟨d, -, opens, -, -, -, map⟩ := inStep_opened holds later
  obtain ⟨d', -, opens', -, -, -, map'⟩ := inStep_opened inStep.file later
  refine ⟨data, s, d, d', left, used, opens, map.trans replayed, opens', fun k settled => ?_⟩
  rw [map']
  exact inStep.agrees.replayed k (Bool.eq_false_iff.mp settled)

end Session

end IMeDesktop.Storage.Cache
