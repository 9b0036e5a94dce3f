import IMeDesktop.Lib.Journal
import IMeDesktop.Storage.DatabaseObject

/-! # What the binlog keeps of the index

Of an entry, the binlog gives back everything but the time of its use. This module has
the index without these times, what a record changes in it, and what every operation
does to the index and to what is not written yet. Statistics and times are kept beside
it and change nothing here.
-/

namespace IMeDesktop.Storage.Cache

open Lib

structure IndexEntry where
  place : PlaceId
  tag : UInt8
  size : Nat
  checksum : UInt32
  deriving DecidableEq, Repr

def Entry.index (e : Entry) : IndexEntry := ⟨e.place, e.tag, e.size, e.checksum⟩

def Store.index (s : Store) : IndexEntry := ⟨s.place, s.tag, s.size, s.checksum⟩

def index (map : SortedMap Key Entry) (k : Key) : Option IndexEntry := (map.find? k).map Entry.index

@[simp]
theorem index_empty : index .empty = fun _ => none := rfl

theorem index_erase (map : SortedMap Key Entry) (k : Key) :
    index (map.erase k) = Function.update (index map) k none := by
  funext j
  simp only [index, SortedMap.find?_erase, Function.update_apply]
  split_ifs
  · rfl
  · rfl

theorem index_set (map : SortedMap Key Entry) (k : Key) (e : Entry) :
    index ((map.erase k).emplace k e) = Function.update (index map) k (some e.index) := by
  funext j
  simp only [index, SortedMap.find?_emplace, SortedMap.find?_erase, Function.update_apply, if_true]
  split_ifs
  · rfl
  · rfl

def Record.changes : Record → List (Change Key IndexEntry)
  | .store part => [.set part.key part.index]
  | .multiStore parts => parts.map fun part => .set part.key part.index
  | .multiRemove keys => keys.map .erase
  | .multiAccess _ _ => []

/-- The entries whose sizes replaying accepts. -/
def Sized (settings : Settings) (map : SortedMap Key Entry) : Prop :=
  ∀ e ∈ map.entries, 0 < e.2.size ∧ e.2.size ≤ settings.maxDataSize

namespace Sized

variable {settings : Settings} {map : SortedMap Key Entry} {k : Key} {e : Entry}

theorem erase (h : Sized settings map) : Sized settings (map.erase k) :=
  fun e member => h e (SortedMap.mem_erase.mp member).1

theorem set (h : Sized settings map) (accepted : 0 < e.size ∧ e.size ≤ settings.maxDataSize) :
    Sized settings ((map.erase k).emplace k e) := by
  intro a member
  cases SortedMap.mem_emplace.mp member with
  | inl before => exact h.erase a before
  | inr new =>
      rw [new.1]
      exact accepted

theorem find (h : Sized settings map) (found : map.find? k = some e) :
    0 < e.size ∧ e.size ≤ settings.maxDataSize :=
  h (k, e) (SortedMap.find?_eq_some.mp found)

end Sized

/-- The part of a database that decides what is in the binlog. -/
structure Core where
  binlog : File
  map : SortedMap Key Entry
  removing : SortedMap Key Unit
  accessed : SortedMap Key Unit

namespace DatabaseObject

def core (d : DatabaseObject) : Core := ⟨d.binlog, d.map, d.removing, d.accessed⟩

section Core

variable {settings : Settings}

@[simp]
theorem core_addSummary (d : DatabaseObject) (tag : UInt8) (count totalSize : Int) :
    (d.addSummary tag count totalSize).core = d.core := by
  unfold addSummary
  split_ifs
  · rfl
  · rfl

@[simp]
theorem core_updateStats (d : DatabaseObject) (was now : Entry) : (d.updateStats was now).core = d.core := by
  unfold updateStats
  simp only
  split_ifs
  · exact core_addSummary _ _ _ _
  · rw [core_addSummary, core_addSummary]
    rfl

@[simp]
theorem core_updateMinimal (d : DatabaseObject) (already entry : Entry) :
    (d.updateMinimal already entry).core = d.core := by
  unfold updateMinimal
  split_ifs
  · rfl
  · rfl
  · rfl
  · rfl
  · rfl

@[simp]
theorem core_applyTimePoint (d : DatabaseObject) (time : EstimatedTimePoint) :
    (d.applyTimePoint time).core = d.core := by
  unfold applyTimePoint
  split_ifs
  · rfl
  · rfl

theorem core_eraseMapEntry (d : DatabaseObject) (key : Key) (entry : Entry) :
    (d.eraseMapEntry key entry).core = { d.core with map := d.map.erase key } := by
  have same := core_updateStats d entry {}
  unfold eraseMapEntry
  generalize d.updateStats entry {} = d' at same ⊢
  simp only
  split_ifs
  · exact congrArg (fun c : Core => { c with map := c.map.erase key }) same
  · exact congrArg (fun c : Core => { c with map := c.map.erase key }) same

theorem core_setMapEntry (d : DatabaseObject) (key : Key) (entry : Entry) :
    (d.setMapEntry settings key entry).core =
      { d.core with map := (d.map.erase key).emplace key entry } := by
  have same := core_updateStats d ((d.map.find? key).getD {}) entry
  unfold setMapEntry
  simp only
  generalize d.updateStats ((d.map.find? key).getD {}) entry = d₁ at same ⊢
  generalize already : (d.map.find? key).getD {} = before
  have counted : (if before.size ≠ 0 then
      { d₁ with binlogExcessLength := d₁.binlogExcessLength + partSize settings.trackEstimatedTime }
      else d₁).core = d.core := by
    split_ifs
    · exact same
    · exact same
  generalize (if before.size ≠ 0 then _ else d₁) = d₂ at counted ⊢
  have minimal := (core_updateMinimal d₂ before entry).trans counted
  exact congrArg (fun c : Core => { c with map := (c.map.erase key).emplace key entry }) minimal

end Core

end DatabaseObject

end IMeDesktop.Storage.Cache
