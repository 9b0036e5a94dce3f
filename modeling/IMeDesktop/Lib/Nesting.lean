import Mathlib

/-! # Ranges that are begun and finished through a stack

Marks are put on positions by ranges. A range that is begun runs until it is finished;
finishing it also finishes every range begun since. So the ranges nest, whatever is
begun and finished in which order, and what was painted behind the current position
stays as it is.
-/

namespace IMeDesktop.Lib

/-- A finished range. -/
structure Piece (α : Type u) (ι : Type v) where
  mark : α
  start : ι
  stop : ι

/-- The finished ranges, and the running ones with where they began, the latest first. -/
structure Nesting (α : Type u) (ι : Type v) where
  done : List (Piece α ι) := []
  running : List (α × ι) := []

variable {α : Type u} {ι : Type v} {β : Type w} {κ : Type w'}

namespace Piece

variable [LinearOrder ι]

def Covers (piece : Piece α ι) (position : ι) : Prop := piece.start ≤ position ∧ position < piece.stop

def Disjoint (first second : Piece α ι) : Prop := first.stop ≤ second.start ∨ second.stop ≤ first.start

def Inside (inner outer : Piece α ι) : Prop := outer.start ≤ inner.start ∧ inner.stop ≤ outer.stop

def Nested (first second : Piece α ι) : Prop :=
  Disjoint first second ∨ Inside first second ∨ Inside second first

theorem Nested.symm {first second : Piece α ι} (h : Nested first second) : Nested second first := by
  obtain (apart | apart) | inside | inside := h
  · exact .inl (.inr apart)
  · exact .inl (.inl apart)
  · exact .inr (.inr inside)
  · exact .inr (.inl inside)

end Piece

/-! ## The oldest entries of a list -/

theorem rtakeWhile_rtakeWhile (p q : β → Bool) (l : List β) :
    (l.rtakeWhile q).rtakeWhile p = l.rtakeWhile fun a => p a && q a := by
  simp only [List.rtakeWhile, List.reverse_reverse, List.takeWhile_takeWhile, Bool.decide_and, Bool.decide_eq_true]

theorem rtakeWhile_congr {p q : β → Bool} {l : List β} (same : ∀ a ∈ l, p a = q a) :
    l.rtakeWhile p = l.rtakeWhile q := by
  induction l using List.reverseRecOn with
  | nil => rfl
  | append_singleton l a ih =>
      have rest := ih fun b member => same b (List.mem_append_left _ member)
      rw [List.rtakeWhile_concat, List.rtakeWhile_concat, rest, same a (List.mem_append_right _ List.mem_cons_self)]

/-- What is left behind the one entry that is thrown out. -/
theorem rtakeWhile_cut {p : β → Bool} {a : β} (before : List β) {after : List β} (out : p a = false)
    (kept : ∀ b ∈ after, p b = true) :
    (before ++ a :: after).rtakeWhile p = after ∧ (before ++ a :: after).rdropWhile p = before ++ [a] := by
  have left : (before ++ a :: after).rtakeWhile p = after := by
    rw [List.rtakeWhile, List.reverse_append, List.reverse_cons, List.append_assoc,
      List.takeWhile_append_of_pos fun b member => kept b (List.mem_reverse.mp member),
      List.singleton_append, List.takeWhile_cons_of_neg (by simp [out]), List.append_nil, List.reverse_reverse]
  refine ⟨left, ?_⟩
  have whole := @List.rdropWhile_append_rtakeWhile _ p (before ++ a :: after)
  rw [left] at whole
  exact List.append_cancel_right (whole.trans (List.append_cons before a after))

/-- Where the keys grow towards the front, an entry is left when no entry up to it is thrown out. -/
theorem mem_rtakeWhile [LinearOrder κ] {key : β → κ} {p : β → Bool} {l : List β}
    (sorted : l.Pairwise fun later earlier => key earlier < key later) {a : β} :
    a ∈ l.rtakeWhile p ↔ a ∈ l ∧ ∀ b ∈ l, key b ≤ key a → p b = true := by
  induction l using List.reverseRecOn with
  | nil => simp
  | append_singleton l first ih =>
      obtain ⟨rest, -, after⟩ := List.pairwise_append.mp sorted
      have later : ∀ b ∈ l, key first < key b := fun b member => after b member first List.mem_cons_self
      rw [List.rtakeWhile_concat]
      split_ifs with kept
      · rw [List.mem_append, List.mem_append, ih rest, List.mem_singleton]
        constructor
        · rintro (⟨member, older⟩ | rfl)
          · refine ⟨.inl member, fun b inside below => ?_⟩
            cases List.mem_append.mp inside with
            | inl inside => exact older b inside below
            | inr inside =>
                obtain rfl := List.mem_singleton.mp inside
                exact kept
          · refine ⟨.inr rfl, fun b inside below => ?_⟩
            cases List.mem_append.mp inside with
            | inl inside => exact absurd below (not_le_of_gt (later b inside))
            | inr inside =>
                obtain rfl := List.mem_singleton.mp inside
                exact kept
        · rintro ⟨member | rfl, older⟩
          · exact .inl ⟨member, fun b inside below => older b (List.mem_append_left _ inside) below⟩
          · exact .inr rfl
      · refine iff_of_false List.not_mem_nil ?_
        rintro ⟨member, older⟩
        refine kept (older first (List.mem_append_right _ List.mem_cons_self) ?_)
        cases List.mem_append.mp member with
        | inl member => exact le_of_lt (later a member)
        | inr member =>
            obtain rfl := List.mem_singleton.mp member
            exact le_refl _

namespace Nesting

variable {n : Nesting α ι} {stop position : ι} {mark : α}

def begin (n : Nesting α ι) (mark : α) (start : ι) : Nesting α ι := { n with running := (mark, start) :: n.running }

/-- Finish what is not kept, with everything begun since. -/
def finish (n : Nesting α ι) (keep : α → Bool) (stop : ι) : Nesting α ι where
  done := (n.running.rdropWhile fun r => keep r.1).map (fun r => ⟨r.1, r.2, stop⟩) ++ n.done
  running := n.running.rtakeWhile fun r => keep r.1

theorem running_eq (n : Nesting α ι) (keep : α → Bool) :
    n.running = (n.running.rdropWhile fun r => keep r.1) ++ n.running.rtakeWhile fun r => keep r.1 :=
  List.rdropWhile_append_rtakeWhile.symm

theorem mem_done_finish {keep : α → Bool} {piece : Piece α ι} :
    piece ∈ (n.finish keep stop).done ↔
      (∃ r ∈ n.running.rdropWhile fun r => keep r.1, piece = ⟨r.1, r.2, stop⟩) ∨ piece ∈ n.done := by
  rw [finish, List.mem_append, List.mem_map]
  exact or_congr_left (exists_congr fun r => and_congr_right fun _ => eq_comm)

/-! ## Ranges nest -/

variable [LinearOrder ι]

/-- What holds of the ranges at a position. -/
structure WellNested (n : Nesting α ι) (position : ι) : Prop where
  ended : ∀ piece ∈ n.done, piece.stop ≤ position
  begun : ∀ r ∈ n.running, r.2 ≤ position
  order : n.running.Pairwise fun later earlier => earlier.2 ≤ later.2
  apart : ∀ piece ∈ n.done, ∀ r ∈ n.running, piece.stop ≤ r.2 ∨ r.2 ≤ piece.start
  nested : ∀ first ∈ n.done, ∀ second ∈ n.done, first.Nested second

theorem wellNested_empty (position : ι) : WellNested ({} : Nesting α ι) position :=
  ⟨nofun, nofun, .nil, nofun, nofun⟩

theorem WellNested.later {position' : ι} (h : WellNested n position) (after : position ≤ position') :
    WellNested n position' :=
  { h with
    ended := fun piece member => (h.ended piece member).trans after
    begun := fun r member => (h.begun r member).trans after }

theorem wellNested_begin (h : WellNested n position) (mark : α) : WellNested (n.begin mark position) position := by
  refine { h with begun := ?_, order := List.pairwise_cons.mpr ⟨h.begun, h.order⟩, apart := ?_ }
  · intro r member
    cases List.mem_cons.mp member with
    | inl new => exact new ▸ le_refl _
    | inr member => exact h.begun r member
  · intro piece finished r member
    cases List.mem_cons.mp member with
    | inl new => exact .inl (new ▸ h.ended piece finished)
    | inr member => exact h.apart piece finished r member

theorem wellNested_finish (h : WellNested n stop) (keep : α → Bool) :
    WellNested (n.finish keep stop) stop := by
  have split := running_eq n keep
  have dropped : ∀ r ∈ n.running.rdropWhile fun r => keep r.1, r ∈ n.running := fun r member => by
    rw [split]
    exact List.mem_append_left _ member
  have kept : ∀ r ∈ n.running.rtakeWhile fun r => keep r.1, r ∈ n.running := fun r member => by
    rw [split]
    exact List.mem_append_right _ member
  have order := h.order
  rw [split] at order
  obtain ⟨droppedOrder, keptOrder, across⟩ := List.pairwise_append.mp order
  -- a range that is finished now holds every earlier piece that began after it
  have around : ∀ r ∈ n.running, ∀ piece ∈ n.done, Piece.Nested ⟨r.1, r.2, stop⟩ piece := by
    intro r running piece finished
    cases h.apart piece finished r running with
    | inl before => exact .inl (.inr before)
    | inr after => exact .inr (.inr ⟨after, h.ended piece finished⟩)
  refine ⟨?_, fun r member => h.begun r (kept r member), keptOrder, ?_, ?_⟩
  · intro piece member
    obtain ⟨r, -, rfl⟩ | member := mem_done_finish.mp member
    · exact le_refl _
    · exact h.ended piece member
  · intro piece member r running
    obtain ⟨r', finished, rfl⟩ | member := mem_done_finish.mp member
    · exact .inr (across r' finished r running)
    · exact h.apart piece member r (kept r running)
  · intro first member second member'
    obtain ⟨r, finished, rfl⟩ | member := mem_done_finish.mp member
    · obtain ⟨r', finished', rfl⟩ | member' := mem_done_finish.mp member'
      · cases le_total r.2 r'.2 with
        | inl before => exact .inr (.inr ⟨before, le_refl _⟩)
        | inr after => exact .inr (.inl ⟨after, le_refl _⟩)
      · exact around r (dropped r finished) second member'
    · obtain ⟨r', finished', rfl⟩ | member' := mem_done_finish.mp member'
      · exact (around r' (dropped r' finished') first member).symm
      · exact h.nested first member second member'

/-! ## What is painted stays -/

/-- Positions that a running range has passed count as painted by it. -/
def Paints (n : Nesting α ι) (position : ι) (mark : α) : Prop :=
  (∃ piece ∈ n.done, piece.mark = mark ∧ piece.Covers position) ∨ ∃ r ∈ n.running, r.1 = mark ∧ r.2 ≤ position

theorem paints_begin (before : position < stop) (new : α) :
    (n.begin new stop).Paints position mark ↔ n.Paints position mark := by
  refine or_congr_right ⟨?_, fun ⟨r, member, rest⟩ => ⟨r, List.mem_cons_of_mem _ member, rest⟩⟩
  rintro ⟨r, member, same, reached⟩
  cases List.mem_cons.mp member with
  | inl first =>
      subst first
      exact absurd reached (not_le_of_gt before)
  | inr member => exact ⟨r, member, same, reached⟩

theorem paints_finish (before : position < stop) (keep : α → Bool) :
    (n.finish keep stop).Paints position mark ↔ n.Paints position mark := by
  have split := running_eq n keep
  constructor
  · rintro (⟨piece, member, same, covers⟩ | ⟨r, member, rest⟩)
    · obtain ⟨r, finished, rfl⟩ | member := mem_done_finish.mp member
      · refine .inr ⟨r, ?_, same, covers.1⟩
        rw [split]
        exact List.mem_append_left _ finished
      · exact .inl ⟨piece, member, same, covers⟩
    · refine .inr ⟨r, ?_, rest⟩
      rw [split]
      exact List.mem_append_right _ member
  · rintro (⟨piece, member, rest⟩ | ⟨r, member, same, reached⟩)
    · exact .inl ⟨piece, mem_done_finish.mpr (.inr member), rest⟩
    · rw [split] at member
      cases List.mem_append.mp member with
      | inl finished =>
          exact .inl ⟨⟨r.1, r.2, stop⟩, mem_done_finish.mpr (.inl ⟨r, finished, rfl⟩), same, reached, before⟩
      | inr kept => exact .inr ⟨r, kept, same, reached⟩

/-- From the current position on, the running ranges paint. -/
theorem WellNested.paints (h : WellNested n stop) (reached : stop ≤ position) :
    n.Paints position mark ↔ mark ∈ n.running.map Prod.fst := by
  rw [List.mem_map]
  constructor
  · rintro (⟨piece, member, -, covers⟩ | ⟨r, member, same, -⟩)
    · exact absurd covers.2 (not_lt_of_ge ((h.ended piece member).trans reached))
    · exact ⟨r, member, same⟩
  · rintro ⟨r, member, same⟩
    exact .inr ⟨r, member, same, (h.begun r member).trans reached⟩

/-- What may be done at one position: it nests, and leaves what is painted before. -/
structure Turned (n n' : Nesting α ι) (stop : ι) : Prop where
  well : WellNested n stop → WellNested n' stop
  paints : ∀ position < stop, ∀ mark, n'.Paints position mark ↔ n.Paints position mark

namespace Turned

variable {n' n'' : Nesting α ι}

theorem refl (n : Nesting α ι) (stop : ι) : Turned n n stop := ⟨id, fun _ _ _ => Iff.rfl⟩

theorem trans (first : Turned n n' stop) (second : Turned n' n'' stop) : Turned n n'' stop :=
  ⟨fun h => second.well (first.well h), fun position before mark =>
    (second.paints position before mark).trans (first.paints position before mark)⟩

theorem of_finish (n : Nesting α ι) (keep : α → Bool) (stop : ι) : Turned n (n.finish keep stop) stop :=
  ⟨fun h => wellNested_finish h keep, fun _ before _ => paints_finish before keep⟩

theorem of_begin (n : Nesting α ι) (mark : α) (stop : ι) : Turned n (n.begin mark stop) stop :=
  ⟨fun h => wellNested_begin h mark, fun _ before _ => paints_begin before mark⟩

end Turned

end Nesting

end IMeDesktop.Lib
