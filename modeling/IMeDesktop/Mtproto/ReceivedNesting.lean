import IMeDesktop.Mtproto.ReceivedInts

/-! # How deep messages are nested

A message of a container is shorter than the container, so containers alone are handled in
finitely many calls. What a packed message unpacks to may have any length, and there is no
limit on how often it may be packed: handling ends as long as unpacking does.
-/

namespace IMeDesktop.Mtproto.Requests

open Lib

/-- The bodies that a container is cut into, up to where it breaks off. -/
def bodies : Nat → List Nat → List (List Nat)
  | 0, _ => []
  | count + 1, ints =>
      if ints.length ≤ 4 then []
      else
        match readHeader (ints.take 4) with
        | .done (inMsgId, _, bytes) _ =>
            if badMsgId inMsgId || badLength bytes then []
            else if bytes / 4 > (ints.drop 4).length then []
            else (ints.drop 4).take (bytes / 4) :: bodies count ((ints.drop 4).drop (bytes / 4))
        | _ => []

/-- A message inside of another one, with nothing unpacked in between. -/
inductive Within : List Nat → List Nat → Prop where
  | self (ints : List Nat) : Within ints ints
  | body {inner body rest : List Nat} {msgsCount : Nat} (member : body ∈ bodies msgsCount rest)
      (within : Within inner body) : Within inner (mtpcMsgContainer :: msgsCount :: rest)

/-- What a packed message inside of another one unpacks to. -/
def Unpacks (inflate : List Nat → List Nat) (inner outer : List Nat) : Prop :=
  ∃ rest packed more, Within (mtpcGzipPacked :: rest) outer ∧ readString rest = .done packed more ∧
    inflate packed = inner ∧ inner ≠ []

theorem Within.trans {inner middle outer : List Nat} (first : Within inner middle) (second : Within middle outer) :
    Within inner outer := by
  induction second with
  | self => exact first
  | body member _ ih => exact .body member ih

theorem length_of_mem_bodies {count : Nat} {ints body : List Nat} (member : body ∈ bodies count ints) :
    body.length < ints.length := by
  induction count generalizing ints with
  | zero => cases member
  | succ count ih =>
      rw [bodies] at member
      split at member
      · cases member
      · rename_i long
        split at member
        · split at member
          · cases member
          · split at member
            · cases member
            · rcases List.mem_cons.mp member with rfl | later
              · simp only [List.length_take, List.length_drop]
                omega
              · have shorter := ih later
                simp only [List.length_drop] at shorter
                omega
        · cases member

section Handle

variable {inflate : List Nat → List Nat} {around : Surroundings}

/-- The loop over a container ends when its messages do. -/
theorem handleMessages_ends {handle : SessionPrivate → OuterInfo → List Nat → Handling} (count : Nat)
    (s : SessionPrivate) (info : OuterInfo) (ints : List Nat)
    (inner : ∀ body ∈ bodies count ints, ∀ s info, (handle s info body).outcome ≠ .unfinished) :
    (handleMessages handle count s info ints).outcome ≠ .unfinished := by
  induction count generalizing s info ints with
  | zero => exact fun same => by cases same
  | succ count ih =>
      rw [handleMessages]
      rw [bodies] at inner
      split
      · exact fun same => by cases same
      · rename_i long
        rw [if_neg long] at inner
        split
        · exact fun same => by cases same
        · exact fun same => by cases same
        · rename_i inMsgId inSeqNo bytes _ header
          rw [header] at inner
          dsimp only at inner
          split
          · exact fun same => by cases same
          · rename_i good
            rw [if_neg good] at inner
            dsimp only
            split
            · exact fun same => by cases same
            · rename_i fits
              rw [if_neg fits] at inner
              obtain ⟨first, others⟩ := List.forall_mem_cons.mp inner
              split
              · rw [Handling.andThen]
                split
                · split
                  · exact ih _ _ _ others
                  · exact fun same => by cases same
                · exact first _ _
              · exact ih _ _ _ others
              · exact fun same => by cases same

/-- Handling ends with enough fuel, in whatever state it begins. -/
def Ends (inflate : List Nat → List Nat) (around : Surroundings) (ints : List Nat) : Prop :=
  ∃ enough, ∀ fuel, enough ≤ fuel → ∀ s info,
    (handleOneReceived inflate around fuel s info ints).outcome ≠ .unfinished

theorem exists_forall_of_forall_exists {α : Type} {l : List α} {p : α → Nat → Prop}
    (each : ∀ a ∈ l, ∃ enough, ∀ n, enough ≤ n → p a n) : ∃ enough, ∀ n, enough ≤ n → ∀ a ∈ l, p a n := by
  induction l with
  | nil => exact ⟨0, fun _ _ => List.forall_mem_nil _⟩
  | cons a l ih =>
      obtain ⟨⟨enough, first⟩, rest⟩ := List.forall_mem_cons.mp each
      obtain ⟨enough', others⟩ := ih rest
      refine ⟨max enough enough', fun n large => List.forall_mem_cons.mpr ⟨?_, ?_⟩⟩
      · exact first n ((Nat.le_max_left _ _).trans large)
      · exact others n ((Nat.le_max_right _ _).trans large)

theorem handleLeaf_ends (s : SessionPrivate) (info : OuterInfo) (cons : Nat) (ints : List Nat) :
    handleLeaf inflate around s info cons ints ≠ .unfinished := by
  rw [handleLeaf]
  split <;> exact fun same => by cases same

/-- A call ends when its inner calls end with one fuel less. -/
theorem ends_of_succ {ints : List Nat} (enough : Nat)
    (inner : ∀ fuel, enough ≤ fuel → ∀ s info,
      (handleOneReceived inflate around (fuel + 1) s info ints).outcome ≠ .unfinished) : Ends inflate around ints := by
  refine ⟨enough + 1, ?_⟩
  intro fuel large
  obtain ⟨fuel, rfl⟩ := Nat.exists_eq_add_of_le' (Nat.le_of_add_left_le large)
  exact inner fuel (Nat.le_of_succ_le_succ large)

theorem ends_unpacked {rest : List Nat}
    (unpacked : ∀ packed more, readString rest = .done packed more → inflate packed ≠ [] →
      Ends inflate around (inflate packed)) : Ends inflate around (mtpcGzipPacked :: rest) := by
  cases read : readString rest with
  | fault =>
      refine ends_of_succ 0 fun fuel _ s info => ?_
      simp only [handleOneReceived, if_true, read]
      exact fun same => by cases same
  | failed =>
      refine ends_of_succ 0 fun fuel _ s info => ?_
      simp only [handleOneReceived, if_true, read]
      exact fun same => by cases same
  | done packed more =>
      by_cases empty : inflate packed = []
      · refine ends_of_succ 0 fun fuel _ s info => ?_
        simp only [handleOneReceived, if_true, read, if_pos empty]
        exact fun same => by cases same
      · obtain ⟨enough, ends⟩ := unpacked packed more read empty
        refine ends_of_succ enough fun fuel large s info => ?_
        simp only [handleOneReceived, if_true, read, if_neg empty]
        exact ends fuel large s info

theorem ends_contained {msgsCount : Nat} {rest : List Nat}
    (contained : ∀ body ∈ bodies msgsCount rest, Ends inflate around body) :
    Ends inflate around (mtpcMsgContainer :: msgsCount :: rest) := by
  have packed : ¬ mtpcMsgContainer = mtpcGzipPacked := by decide
  obtain ⟨enough, ends⟩ := exists_forall_of_forall_exists contained
  refine ends_of_succ enough fun fuel large s info => ?_
  simp only [handleOneReceived, if_neg packed, if_true]
  exact handleMessages_ends _ _ _ _ (ends fuel large)

theorem ends_other {ints : List Nat} (packed : ∀ rest, ints ≠ mtpcGzipPacked :: rest)
    (container : ∀ msgsCount rest, ints ≠ mtpcMsgContainer :: msgsCount :: rest) : Ends inflate around ints := by
  refine ends_of_succ 0 fun fuel _ s info => ?_
  cases ints with
  | nil => exact fun same => by cases same
  | cons cons rest =>
      have notPacked : ¬ cons = mtpcGzipPacked := fun same => packed rest (same ▸ rfl)
      simp only [handleOneReceived, if_neg notPacked]
      split
      · rename_i same
        cases rest with
        | nil => exact fun same => by cases same
        | cons msgsCount rest => exact absurd (same ▸ rfl) (container msgsCount rest)
      · exact handleLeaf_ends s info cons _

/-- Every message inside of one that is unpacked only finitely often is handled. -/
theorem ends_within {outer : List Nat} (unpacked : ∀ inner, Unpacks inflate inner outer → Ends inflate around inner)
    (length : Nat) {ints : List Nat} (short : ints.length ≤ length) (within : Within ints outer) :
    Ends inflate around ints := by
  induction length generalizing ints with
  | zero =>
      rw [List.length_eq_zero_iff.mp (Nat.le_zero.mp short)]
      exact ends_other nofun nofun
  | succ length ih =>
      by_cases packed : ∃ rest, ints = mtpcGzipPacked :: rest
      · obtain ⟨rest, rfl⟩ := packed
        exact ends_unpacked fun packed more read some => unpacked _ ⟨rest, packed, more, within, read, rfl, some⟩
      · by_cases container : ∃ msgsCount rest, ints = mtpcMsgContainer :: msgsCount :: rest
        · obtain ⟨msgsCount, rest, rfl⟩ := container
          refine ends_contained fun body member => ih ?_ ((Within.body member (.self body)).trans within)
          have shorter := length_of_mem_bodies member
          simp only [List.length_cons] at short
          omega
        · exact ends_other (fun rest same => packed ⟨rest, same⟩)
            (fun msgsCount rest same => container ⟨msgsCount, rest, same⟩)

/-- Handling a message ends for every decompressor with which unpacking ends: there is no infinite chain of messages
of which each is unpacked from inside of the one before. -/
theorem handleOneReceived_ends (inflate : List Nat → List Nat) (around : Surroundings) (ints : List Nat)
    (finite : Acc (Unpacks inflate) ints) : Ends inflate around ints := by
  induction finite with
  | intro ints _ ih => exact ends_within ih ints.length (Nat.le_refl _) (.self ints)

/-- A message of which unpacking leads to another one, and no further. -/
theorem unpacked_once_ends :
    Acc (Unpacks fun _ => [7]) [mtpcGzipPacked, 0] ∧ Ends (fun _ => [7]) {} [mtpcGzipPacked, 0] := by
  have plain : ∀ inner, ¬ Unpacks (fun _ => [7]) inner [7] := by
    rintro inner ⟨rest, packed, more, within, -⟩
    cases within
  have finite : Acc (Unpacks fun _ => [7]) [mtpcGzipPacked, 0] := by
    refine Acc.intro _ fun inner unpacks => ?_
    obtain ⟨-, -, -, -, -, rfl, -⟩ := unpacks
    exact Acc.intro _ fun deeper unpacks => absurd unpacks (plain deeper)
  exact ⟨finite, handleOneReceived_ends _ {} _ finite⟩

theorem unfinished_of_packed_in_itself (fuel : Nat) (s : SessionPrivate) (info : OuterInfo) :
    (handleOneReceived (fun _ => [mtpcGzipPacked, 0]) {} fuel s info [mtpcGzipPacked, 0]).outcome = .unfinished := by
  induction fuel with
  | zero => rfl
  | succ fuel ih => exact ih

/-- A packed message that unpacks to itself is never handled, whatever the fuel. -/
theorem packed_in_itself :
    ¬ ∃ fuel, (handleOneReceived (fun _ => [mtpcGzipPacked, 0]) {} fuel {} { outerMsgId := 1 }
      [mtpcGzipPacked, 0]).outcome ≠ .unfinished := by
  rintro ⟨fuel, ended⟩
  exact ended (unfinished_of_packed_in_itself fuel _ _)

end Handle

end IMeDesktop.Mtproto.Requests
