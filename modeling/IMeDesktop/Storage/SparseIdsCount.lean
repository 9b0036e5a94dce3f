import IMeDesktop.Storage.SparseIdsSlices
import Mathlib.Data.List.Perm.Subperm
import Mathlib.Data.Finset.Card

/-! # The count of a new id

What `addNew` adds to the count is the size of the united slice without that of its first part. So
the ids of the other slices that it unites are counted as if they were new.
-/

namespace IMeDesktop.Storage

open Lib

namespace SparseIdsList

variable {slices middle : List Slice} {messageId : Int} {u : Slice}

/-- The slices that are united by a new id. -/
def reached (slices : List Slice) (messageId : Int) : List Slice :=
  slices.filter fun s => decide (messageId ≤ s.range.till) && decide (s.range.start ≤ ServerMaxMsgId)

/-- How many ids the first of the slices has. -/
def firstSize (slices : List Slice) : Nat := (slices.head?.map fun s => s.messages.size).getD 0

/-- One, if the id is in no slice. -/
def newIds (slices : List Slice) (messageId : Int) : Nat := if ∃ s ∈ slices, messageId ∈ s.messages then 0 else 1

def totalSize (slices : List Slice) : Nat := (slices.map fun s => s.messages.size).sum

theorem totalSize_eq (slices : List Slice) : totalSize slices = firstSize slices + totalSize slices.tail := by
  cases slices with
  | nil => rfl
  | cons s rest => rfl

/-- No id is in two slices. -/
theorem nodup_messages (separated : Separated slices) : (slices.flatMap fun s => s.messages.items).Nodup := by
  rw [List.nodup_flatMap]
  refine ⟨fun s _ => s.messages.nodup, ?_⟩
  refine separated.apart.imp_of_mem fun {a b} first second apart => ?_
  intro id held other
  have low := (separated.wellFormed a first).inside id held
  have high := (separated.wellFormed b second).inside id other
  exact absurd (Int.lt_of_le_of_lt low.2 apart) (Int.not_lt.mpr high.1)

/-- The united slice has the ids of its parts and the new one. -/
theorem size_united {range : MsgRange} (separated : Separated middle) (united : United middle [messageId] range u) :
    u.messages.size = totalSize middle + newIds middle messageId := by
  have length : (middle.flatMap fun s => s.messages.items).length = totalSize middle := List.length_flatMap
  have nodup := nodup_messages separated
  have mem {id} : id ∈ (middle.flatMap fun s => s.messages.items) ↔ ∃ s ∈ middle, id ∈ s.messages := List.mem_flatMap
  rw [← length, newIds]
  split
  · rename_i held
    have same : u.messages.items.Perm (middle.flatMap fun s => s.messages.items) := by
      rw [List.perm_ext_iff_of_nodup u.messages.nodup nodup]
      intro id
      rw [FlatSet.mem_items, united.mem, mem, List.mem_singleton, or_iff_right_of_imp]
      rintro rfl
      exact held
    exact same.length_eq
  · rename_i missing
    have same : u.messages.items.Perm (messageId :: middle.flatMap fun s => s.messages.items) := by
      rw [List.perm_ext_iff_of_nodup u.messages.nodup (List.nodup_cons.mpr ⟨fun held => missing (mem.mp held), nodup⟩)]
      intro id
      rw [FlatSet.mem_items, united.mem, List.mem_singleton, List.mem_cons, mem]
    exact same.length_eq

/-- The new id reaches the middle of the slices. -/
theorem reached_split {before after : List Slice} (split : slices = before ++ (middle ++ after))
    (low : ∀ b ∈ before, b.range.till < messageId) (touches : ∀ b ∈ middle, Touches ⟨messageId, ServerMaxMsgId⟩ b)
    (high : ∀ b ∈ after, ServerMaxMsgId < b.range.start) : reached slices messageId = middle := by
  have none (b) (member : b ∈ before) :
      ¬(decide (messageId ≤ b.range.till) && decide (b.range.start ≤ ServerMaxMsgId)) = true := by
    have := low b member
    simp only [Bool.and_eq_true, decide_eq_true_eq]
    omega
  have all (b) (member : b ∈ middle) :
      (decide (messageId ≤ b.range.till) && decide (b.range.start ≤ ServerMaxMsgId)) = true := by
    have := touches b member
    simp only [Bool.and_eq_true, decide_eq_true_eq]
    exact this
  have none' (b) (member : b ∈ after) :
      ¬(decide (messageId ≤ b.range.till) && decide (b.range.start ≤ ServerMaxMsgId)) = true := by
    have := high b member
    simp only [Bool.and_eq_true, decide_eq_true_eq]
    omega
  rw [reached, split, List.filter_append, List.filter_append, List.filter_eq_nil_iff.mpr none,
    List.filter_eq_self.mpr all, List.filter_eq_nil_iff.mpr none', List.nil_append, List.append_nil]

/-- An id that is in a slice is in one that it reaches. -/
theorem newIds_reached (separated : Separated slices) (server : IsServerMsgId messageId) :
    newIds (reached slices messageId) messageId = newIds slices messageId := by
  have held : (∃ s ∈ reached slices messageId, messageId ∈ s.messages) ↔ ∃ s ∈ slices, messageId ∈ s.messages := by
    constructor
    · rintro ⟨s, member, held⟩
      exact ⟨s, (List.mem_filter.mp member).1, held⟩
    · rintro ⟨s, member, held⟩
      have inside := (separated.wellFormed s member).inside messageId held
      refine ⟨s, List.mem_filter.mpr ⟨member, ?_⟩, held⟩
      simp only [Bool.and_eq_true, decide_eq_true_eq]
      exact ⟨inside.2, inside.1.trans server.2.le⟩
  exact if_congr held rfl rfl

/-- No slice goes over all ids. -/
def Partial (slices : List Slice) : Prop :=
  ∀ s ∈ slices, ¬(s.range.start ≤ MsgRange.full.start ∧ MsgRange.full.till ≤ s.range.till)

theorem fillSlice_partial {l : SparseIdsList} (part : Partial l.fillSlice.slices) : l.fillSlice = l := by
  have full {s : Slice} (here : s ∈ l.fillSlice.slices) : s.range ≠ .full := by
    intro whole
    apply part s here
    rw [whole]
    exact ⟨le_rfl, le_rfl⟩
  obtain ⟨count, slices⟩ := l
  cases slices with
  | nil => rfl
  | cons slice rest =>
      cases rest with
      | cons other rest => rfl
      | nil =>
          unfold fillSlice at full ⊢
          dsimp only at full ⊢
          have other := full (List.mem_singleton.mpr rfl)
          split at other
          · exact absurd rfl other
          · rename_i few
            rw [if_neg few, if_neg other]

variable {l l' : SparseIdsList} {update : SparseIdsSliceUpdate} {count : Int}

/-- What is counted: the new id, and the ids of all united slices but the first. -/
theorem addNew_count (separated : Separated l.slices) (server : IsServerMsgId messageId) (known : l.count = some count)
    (done : l.addNew messageId = some (l', update)) (part : Partial l'.slices) :
    let added := totalSize (reached l.slices messageId).tail + newIds l.slices messageId
    l'.count = some (max (count + added) (firstSize (reached l.slices messageId) + added)) := by
  obtain ⟨result, adding, adds⟩ :=
    @addRangeItemsAndCountNew_adds l.slices ⟨messageId, ServerMaxMsgId⟩ separated server.2.le [messageId]
  unfold addNew addRange at done
  rw [if_neg (by simp), adding] at done
  simp only [Option.bind_eq_bind, Option.bind_some, Option.some.injEq, Prod.mk.injEq] at done
  obtain ⟨rfl, -⟩ := done
  have same := fillSlice_partial part
  intro added
  cases adds with
  | nothing empty => cases empty
  | @unites before middle after u split low touches high united =>
      have parts : Separated middle := by
        rw [split] at separated
        refine ⟨fun s member => separated.wellFormed s (by simp [member]), ?_⟩
        exact (List.pairwise_append.mp (List.pairwise_append.mp separated.apart).2.1).1
      have here := reached_split split low touches high
      have size : u.messages.size = firstSize middle + added := by
        rw [size_united parts united, totalSize_eq, Nat.add_assoc]
        dsimp only [added]
        rw [← newIds_reached separated server, here]
      have sum : (u.messages.size : Int) - ((middle.head?.map fun s => s.messages.size).getD 0 : Nat) = added := by
        have cast := congrArg (Nat.cast (R := Int)) size
        rw [Int.natCast_add, firstSize] at cast
        omega
      rw [same, here]
      dsimp only [updatedCount]
      rw [known, sum, Option.map_some]
      have grown : (if (true : Bool) = true ∧ (added : Int) > 0 then some (count + added) else some count) =
          some (count + added) := by
        split
        · rfl
        · rename_i nothing
          have zero : (added : Int) = 0 := by
            simp only [true_and] at nothing
            omega
          rw [zero, Int.add_zero]
      rw [grown, Option.map_some, size, Int.natCast_add (firstSize middle) added]

/-- A new id is counted once if and only if no other slice with ids is united with the first one, and the
    count was not less than its ids. -/
theorem addNew_counts_iff {operations : List Operation} (valid : ∀ operation ∈ operations, operation.Valid)
    (reaches : run {} operations = some l) (server : IsServerMsgId messageId) (known : l.count = some count)
    (done : l.addNew messageId = some (l', update)) (part : Partial l'.slices) :
    l'.count = some (count + if ∃ s ∈ l.slices, messageId ∈ s.messages then 0 else 1) ↔
      (∀ s ∈ (reached l.slices messageId).tail, s.messages.items = []) ∧
        (firstSize (reached l.slices messageId) : Int) ≤ count := by
  obtain ⟨l₀, reaches', separated⟩ := @run_separated {} operations valid ⟨nofun, .nil⟩
  obtain rfl := Option.some.inj (reaches.symm.trans reaches')
  have after := addNew_count separated server known done part
  have empty : (∀ s ∈ (reached l.slices messageId).tail, s.messages.items = []) ↔
      totalSize (reached l.slices messageId).tail = 0 := by
    rw [totalSize, List.sum_eq_zero_iff_forall_eq_nat, List.forall_mem_map]
    refine forall₂_congr fun s _ => ?_
    exact List.length_eq_zero_iff.symm
  have new : ((if ∃ s ∈ l.slices, messageId ∈ s.messages then 0 else 1 : Int)) = (newIds l.slices messageId : Nat) := by
    rw [newIds]
    split
    · rfl
    · rfl
  rw [after, empty, new, Option.some.injEq, Int.natCast_add]
  omega

theorem addNew_counts_last : ∃ l l' update,
    run {} [.addSlice [10, 20] ⟨5, 25⟩ (some 9), .addNew 40] = some l ∧ l.addNew 60 = some (l', update) ∧
      l'.count = some 11 := by
  obtain ⟨l, reaches⟩ : ∃ l, run {} [.addSlice [10, 20] ⟨5, 25⟩ (some 9), .addNew 40] = some l := ⟨_, rfl⟩
  have known : l = ⟨some 10, [⟨.ofList [10, 20], ⟨5, 25⟩⟩, ⟨.ofList [40], ⟨40, ServerMaxMsgId⟩⟩]⟩ := by
    have same : run {} [.addSlice [10, 20] ⟨5, 25⟩ (some 9), .addNew 40] =
        some ⟨some 10, [⟨.ofList [10, 20], ⟨5, 25⟩⟩, ⟨.ofList [40], ⟨40, ServerMaxMsgId⟩⟩]⟩ := by decide
    exact Option.some.inj (reaches.symm.trans same)
  subst known
  refine ⟨_, _, _, reaches, rfl, ?_⟩
  have server : IsServerMsgId 60 := by decide
  exact (addNew_counts_iff (by decide) reaches server rfl rfl (by unfold Partial; decide)).mpr (by decide)

/-- A new id between others takes the ids behind it for new ones. -/
theorem addNew_counts_united : ∃ l l' update,
    run {} [.addSlice [10, 20] ⟨5, 25⟩ (some 9), .addNew 40] = some l ∧ l.addNew 15 = some (l', update) ∧
      Partial l'.slices ∧ l.count = some 10 ∧ (∀ s ∈ l.slices, 15 ∉ s.messages) ∧ l'.count ≠ some (10 + 1) := by
  refine ⟨_, _, _, rfl, rfl, ?_⟩
  unfold Partial
  decide

end SparseIdsList

end IMeDesktop.Storage
