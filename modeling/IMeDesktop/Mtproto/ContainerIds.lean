import IMeDesktop.Mtproto.ContainerFormat
import IMeDesktop.Mtproto.SessionBindings

/-! # Message ids in a container

A container needs an id above the ids of its messages, so the id that is kept for it is
given away to a message that needs a new one and another one is generated. A request that
is sent again may keep the id it had, as long as it is below the container's.

Generated ids grow from `start` on, which is where the `tryToSend` began. That the ids of
requests that were sent before stand for one request each is a property of reachable
sessions.
-/

namespace IMeDesktop.Mtproto.Requests

open Lib

/-- Ids generated from a point on are growing. -/
def Growing (mtprotoMsgId : Nat → Nat) (start : Nat) : Prop :=
  ∀ n, start ≤ n → mtprotoMsgId n < mtprotoMsgId (n + 1)

variable {mtprotoMsgId : Nat → Nat} {start : Nat}

theorem Growing.lt (growing : Growing mtprotoMsgId start) {i j : Nat} (from_ : start ≤ i) (below : i < j) :
    mtprotoMsgId i < mtprotoMsgId j := by
  induction below with
  | refl => exact growing i from_
  | @step j later ih => exact ih.trans (growing j (from_.trans (Nat.le_of_lt later)))

theorem Growing.le (growing : Growing mtprotoMsgId start) {i j : Nat} (from_ : start ≤ i) (below : i ≤ j) :
    mtprotoMsgId i ≤ mtprotoMsgId j := by
  rcases Nat.lt_or_eq_of_le below with later | rfl
  · exact Nat.le_of_lt (growing.lt from_ later)
  · exact Nat.le_refl _

/-! ## Ids that are not in use -/

namespace SessionPrivate

/-- The ids `replaceMsgId` looks for. -/
def usedIds (s : SessionPrivate) : List Nat :=
  (s.resendingIds.entries ++ (s.ackedIds.entries ++ s.haveSent.entries)).map Prod.fst

theorem contains_iff_mem {map : SortedMap Nat Nat} {id : Nat} :
    map.contains id = true ↔ id ∈ map.entries.map Prod.fst := by
  rw [SortedMap.contains_iff, List.mem_map]
  constructor
  · rintro ⟨requestId, member⟩
    exact ⟨(id, requestId), member, rfl⟩
  · rintro ⟨⟨_, requestId⟩, member, rfl⟩
    exact ⟨requestId, member⟩

theorem isUsed_iff (s : SessionPrivate) (id : Nat) : s.isUsed id = true ↔ id ∈ s.usedIds := by
  simp only [isUsed, usedIds, Bool.or_eq_true, contains_iff_mem, List.map_append, List.mem_append, or_assoc]

theorem countP_above_lt {ids : List Nat} {a b : Nat} (member : a ∈ ids) (below : a < b) :
    ids.countP (b ≤ ·) < ids.countP (a ≤ ·) := by
  induction ids with
  | nil => cases member
  | cons id ids ih =>
      have rest : ids.countP (b ≤ ·) ≤ ids.countP (a ≤ ·) := by
        apply List.countP_mono_left
        intro other _ above
        simp only [decide_eq_true_eq] at above ⊢
        omega
      simp only [List.countP_cons, decide_eq_true_eq]
      rcases List.mem_cons.mp member with rfl | member
      · split_ifs <;> omega
      · have smaller := ih member
        split_ifs <;> omega

/-- The loop finds an id that is not in use: the ids it tries are growing, so there are no more of them than ids
in use. -/
theorem skipUsed_free (growing : Growing mtprotoMsgId start) (fuel : Nat) (s : SessionPrivate) {k : Nat}
    (from_ : start ≤ k) (issued : k < s.generated)
    (enough : s.usedIds.countP (mtprotoMsgId k ≤ ·) ≤ fuel) :
    ∃ j g, k ≤ j ∧ j < g ∧ s.generated ≤ g ∧ s.isUsed (mtprotoMsgId j) = false ∧
      skipUsed mtprotoMsgId fuel s (mtprotoMsgId k) = (mtprotoMsgId j, { s with generated := g }) := by
  induction fuel generalizing s k with
  | zero =>
      refine ⟨k, s.generated, Nat.le_refl k, issued, Nat.le_refl _, ?_, rfl⟩
      rw [← Bool.not_eq_true, isUsed_iff]
      intro member
      have positive : 0 < s.usedIds.countP (mtprotoMsgId k ≤ ·) :=
        List.countP_pos_iff.mpr ⟨_, member, decide_eq_true (Nat.le_refl _)⟩
      omega
  | succ fuel ih =>
      rw [skipUsed]
      split
      · rename_i used
        have later := growing.lt from_ issued
        have fewer := countP_above_lt ((isUsed_iff s _).mp used) later
        obtain ⟨j, g, above, inside, more, free, found⟩ := @ih { s with generated := s.generated + 1 } s.generated
          (from_.trans (Nat.le_of_lt issued)) (Nat.lt_succ_self _) (by
            have same : { s with generated := s.generated + 1 }.usedIds = s.usedIds := rfl
            rw [same]
            omega)
        exact ⟨j, g, (Nat.le_of_lt issued).trans above, inside, (Nat.le_succ _).trans more, free, found⟩
      · rename_i unused
        exact ⟨k, s.generated, Nat.le_refl k, issued, Nat.le_refl _, by simpa using unused, rfl⟩

/-! ## A message gets its id -/

/-- What the maps say about other ids does not change when a message gets an id, and its old id is forgotten when
this is another one. -/
structure Renumbers (s s' : SessionPrivate) (oldId id : Nat) : Prop where
  sent : ∀ other, (oldId ≠ 0 → other ≠ oldId) → other ≠ id → s'.haveSent.find? other = s.haveSent.find? other
  used : ∀ other, (oldId ≠ 0 → other ≠ oldId) → other ≠ id → s'.isUsed other = s.isUsed other
  moved : oldId ≠ 0 → s'.haveSent.find? id = s.haveSent.find? oldId
  forgotten : oldId ≠ 0 → id ≠ oldId → s'.isUsed oldId = false

theorem find?_moveKey {map : SortedMap Nat Nat} {oldId newId : Nat} (different : oldId ≠ newId)
    (free : map.find? newId = none) (other : Nat) :
    (moveKey map oldId newId).find? other =
      if other = newId then map.find? oldId else if other = oldId then none else map.find? other := by
  rw [moveKey]
  split
  · rename_i missing
    split_ifs with new old
    · rw [new, free, missing]
    · rw [old, missing]
    · rfl
  · rename_i requestId found
    rw [SortedMap.find?_emplace, SortedMap.find?_erase, SortedMap.find?_erase, if_neg different.symm, free]
    split_ifs with new old <;> simp_all

theorem isUsed_eq_false (s : SessionPrivate) (id : Nat) :
    s.isUsed id = false ↔ s.resendingIds.find? id = none ∧ s.ackedIds.find? id = none ∧
      s.haveSent.find? id = none := by
  simp [isUsed, SortedMap.contains, and_assoc]

theorem renumbers_replaceMsgId (growing : Growing mtprotoMsgId start) (s : SessionPrivate) {k oldId : Nat}
    (from_ : start ≤ k) (issued : k < s.generated) (numbered : oldId ≠ 0)
    (unknown : ∀ n, k ≤ n → oldId ≠ mtprotoMsgId n) :
    ∃ j s', k ≤ j ∧ j < s'.generated ∧ s.generated ≤ s'.generated ∧ Renumbers s s' oldId (mtprotoMsgId j) ∧
      s.replaceMsgId mtprotoMsgId oldId (mtprotoMsgId k) = (mtprotoMsgId j, s') := by
  have enough : s.usedIds.countP (mtprotoMsgId k ≤ ·) ≤ s.resendingIds.size + s.ackedIds.size + s.haveSent.size := by
    refine List.countP_le_length.trans ?_
    simp only [usedIds, List.length_map, List.length_append, SortedMap.size]
    omega
  obtain ⟨j, g, above, inside, more, free, found⟩ := skipUsed_free growing _ s from_ issued enough
  have different := unknown j above
  obtain ⟨freeResending, freeAcked, freeSent⟩ := (isUsed_eq_false s _).mp free
  rw [replaceMsgId, if_neg (unknown k (Nat.le_refl k))]
  simp only [found]
  refine ⟨j, _, above, inside, more, ⟨?_, ?_, ?_, ?_⟩, rfl⟩
  · intro other old new
    rw [find?_moveKey different freeSent, if_neg new, if_neg (old numbered)]
  · intro other old new
    simp only [isUsed, SortedMap.contains, find?_moveKey different freeSent, find?_moveKey different freeAcked,
      find?_moveKey different freeResending, if_neg new, if_neg (old numbered)]
  · intro _
    rw [find?_moveKey different freeSent, if_pos rfl]
  · intro _ _
    simp only [isUsed_eq_false, find?_moveKey different freeSent, find?_moveKey different freeAcked,
      find?_moveKey different freeResending, if_neg different, if_true, and_self]

/-- The id that is taken from those that are being sent again is the message's own. -/
theorem Renumbers.of_erased {s s' : SessionPrivate} {oldId id : Nat} (numbered : oldId ≠ 0)
    (step : Renumbers { s with resendingIds := s.resendingIds.erase oldId } s' oldId id) :
    Renumbers s s' oldId id := by
  refine ⟨step.sent, ?_, step.moved, step.forgotten⟩
  intro other old new
  rw [step.used other old new]
  simp only [isUsed, SortedMap.contains, SortedMap.find?_erase, if_neg (old numbered)]

theorem Renumbers.of_generated {s s' : SessionPrivate} {oldId id g : Nat} (step : Renumbers s s' oldId id) :
    Renumbers s { s' with generated := g } oldId id :=
  ⟨step.sent, step.used, step.moved, step.forgotten⟩

end SessionPrivate

/-- How a message gets its id in a container, whose id was the `k`-th that was generated. -/
structure Numbers (mtprotoMsgId : Nat → Nat) (k : Nat) (forceNewMsgId : Bool) (s s' : SessionPrivate)
    (request sent : RequestData) : Prop where
  generated : s.generated ≤ s'.generated
  same : ∃ msgId seqNo, sent = { request with msgId := msgId, seqNo := seqNo }
  origin : (request.msgId ≠ 0 ∧ sent.msgId = request.msgId ∧ forceNewMsgId = false ∧
      sent.msgId < mtprotoMsgId k) ∨
    ∃ j, k ≤ j ∧ j < s'.generated ∧ sent.msgId = mtprotoMsgId j
  renumbers : s.Renumbers s' request.msgId sent.msgId

theorem Outbox.numbers_prepareToSend (growing : Growing mtprotoMsgId start) (o : Outbox) (request : RequestData)
    (forceNewMsgId : Bool) {k : Nat} (from_ : start ≤ k) (issued : k < o.session.generated)
    (unknown : request.msgId ≠ 0 → ∀ n, k ≤ n → request.msgId ≠ mtprotoMsgId n) :
    Numbers mtprotoMsgId k forceNewMsgId o.session
      (o.prepareToSend mtprotoMsgId request (mtprotoMsgId k) forceNewMsgId).2.session request
      (o.prepareToSend mtprotoMsgId request (mtprotoMsgId k) forceNewMsgId).1 := by
  have same := (o.prepareToSend_request mtprotoMsgId request (mtprotoMsgId k) forceNewMsgId).1
  rw [prepareToSend] at same ⊢
  by_cases numbered : request.msgId ≠ 0
  · simp only [if_pos numbered] at same ⊢
    have different := unknown numbered k (Nat.le_refl k)
    split_ifs at same ⊢ with change
    · obtain ⟨j, s', above, inside, more, renumbers, replaced⟩ := SessionPrivate.renumbers_replaceMsgId growing
        { o.session with resendingIds := o.session.resendingIds.erase request.msgId } from_ issued numbered
        (unknown numbered)
      rw [replaceMsgId, if_neg different] at same ⊢
      simp only [replaced] at same ⊢
      exact ⟨more, same, Or.inr ⟨j, above, inside, rfl⟩, renumbers.of_erased numbered⟩
    · obtain ⟨unforced, below⟩ := not_or.mp change
      refine ⟨Nat.le_refl _, same, Or.inl ⟨numbered, rfl, by simpa using unforced,
          Nat.lt_of_le_of_ne (Nat.le_of_not_lt below) different⟩,
        SessionPrivate.Renumbers.of_erased numbered ⟨fun _ _ _ => rfl, fun _ _ _ => rfl, fun _ => rfl, ?_⟩⟩
      exact fun _ other => absurd rfl other
  · simp only [if_neg numbered] at same ⊢
    refine ⟨Nat.le_refl _, same, Or.inr ⟨k, Nat.le_refl k, issued, rfl⟩,
      ⟨fun _ _ _ => rfl, fun _ _ _ => rfl, ?_, ?_⟩⟩
    · exact fun present => absurd present numbered
    · exact fun present => absurd present numbered

namespace Building

theorem prepare_numbers (growing : Growing mtprotoMsgId start) (b : Building) (request : RequestData)
    (forceNewMsgId : Bool) {k : Nat} (from_ : start ≤ k) (issued : k < b.outbox.session.generated)
    (last : b.bigMsgId = mtprotoMsgId k)
    (unknown : request.msgId ≠ 0 → ∀ n, k ≤ n → request.msgId ≠ mtprotoMsgId n) :
    ∃ sent b' k', b.prepare mtprotoMsgId forceNewMsgId request = (sent, b') ∧
      Numbers mtprotoMsgId k forceNewMsgId b.outbox.session b'.outbox.session request sent ∧
      k ≤ k' ∧ k' < b'.outbox.session.generated ∧ b'.bigMsgId = mtprotoMsgId k' ∧ sent.msgId < mtprotoMsgId k' ∧
      b'.ints = b.ints ∧ b'.outbox.data = b.outbox.data ∧ b'.messages = b.messages := by
  have numbers := b.outbox.numbers_prepareToSend growing request forceNewMsgId from_ issued unknown
  have data := (b.outbox.prepareToSend_request mtprotoMsgId request (mtprotoMsgId k) forceNewMsgId).2
  rw [prepare, last]
  generalize b.outbox.prepareToSend mtprotoMsgId request (mtprotoMsgId k) forceNewMsgId = prepared at numbers data
  obtain ⟨sent, outbox⟩ := prepared
  by_cases reached : sent.msgId ≥ mtprotoMsgId k
  · obtain ⟨j, above, inside, new⟩ := numbers.origin.resolve_left fun kept => absurd kept.2.2.2 (Nat.not_lt.mpr reached)
    simp only [SessionPrivate.raiseBigMsgId, if_pos reached, SessionPrivate.nextMsgId]
    refine ⟨sent, _, outbox.session.generated, rfl, ?_, ?_, Nat.lt_succ_self _, rfl, ?_, rfl, data, rfl⟩
    · refine ⟨numbers.generated.trans (Nat.le_succ _), numbers.same, ?_, numbers.renumbers.of_generated⟩
      exact Or.inr ⟨j, above, Nat.lt_succ_of_lt inside, new⟩
    · exact (Nat.le_of_lt issued).trans numbers.generated
    · rw [new]
      exact growing.lt (from_.trans above) inside
  · simp only [SessionPrivate.raiseBigMsgId, if_neg reached]
    exact ⟨sent, _, k, rfl, numbers, Nat.le_refl k, Nat.lt_of_lt_of_le issued numbers.generated, rfl,
      Nat.lt_of_not_ge reached, rfl, data, rfl⟩

end Building

/-! ## Filling the container -/

/-- What is known about the ids of the queued requests: they are none of those that are generated now, and each
stands for its request. -/
structure OldIds (mtprotoMsgId : Nat → Nat) (start : Nat) (o : Outbox) (queued : List Nat) : Prop where
  unknown : ∀ r ∈ queued, (o.data r).msgId ≠ 0 → ∀ n, start ≤ n → (o.data r).msgId ≠ mtprotoMsgId n
  unique : ∀ r ∈ queued, ∀ r' ∈ queued, (o.data r).msgId ≠ 0 → (o.data r).msgId = (o.data r').msgId → r = r'
  own : ∀ r ∈ queued, (o.data r).msgId ≠ 0 → ∀ r', o.session.haveSent.find? (o.data r).msgId = some r' → r' = r

/-- Where a request that was sent before is registered. -/
structure Registered (forceNewMsgId : Bool) (s : SessionPrivate) (r : Nat) (old sent : RequestData) : Prop where
  known : r ≠ 0 → old.needAck = true → s.haveSent.find? sent.msgId = some r
  forgotten : sent.msgId ≠ old.msgId → s.isUsed old.msgId = false
  forced : forceNewMsgId = true → sent.msgId ≠ old.msgId

theorem Registered.frame {forceNewMsgId : Bool} {s s' : SessionPrivate} {r : Nat} {old sent : RequestData}
    (registered : Registered forceNewMsgId s r old sent)
    (sameSent : s'.haveSent.find? sent.msgId = s.haveSent.find? sent.msgId)
    (sameUsed : s'.isUsed old.msgId = s.isUsed old.msgId) : Registered forceNewMsgId s' r old sent := by
  refine ⟨?_, ?_, registered.forced⟩
  · intro tracked needAck
    rw [sameSent]
    exact registered.known tracked needAck
  · intro different
    rw [sameUsed]
    exact registered.forgotten different

/-- The container after the requests `done` and before the requests `rest`. -/
structure Filling (mtprotoMsgId : Nat → Nat) (start : Nat) (forceNewMsgId : Bool) (o : Outbox) (b : Building)
    (done rest : List Nat) (placed : List InnerMessage) : Prop where
  ints : ∃ length count, b.ints = List.replicate 7 0 ++ length :: (mtpcMsgContainer :: count ::
    placed.flatMap InnerMessage.ints)
  bodies : ∀ message ∈ placed, message.body ≠ []
  last : ∃ k, start ≤ k ∧ k < b.outbox.session.generated ∧ b.bigMsgId = mtprotoMsgId k
  nodup : (placed.map InnerMessage.msgId).Nodup
  below : ∀ message ∈ placed, message.msgId < b.bigMsgId
  origin : ∀ message ∈ placed, (∃ r ∈ done, (o.data r).msgId ≠ 0 ∧ message.msgId = (o.data r).msgId) ∨
    ∃ j, start ≤ j ∧ message.msgId = mtprotoMsgId j
  waiting : ∀ r ∈ rest, b.outbox.data r = o.data r ∧ ((o.data r).msgId ≠ 0 →
    ∀ r', b.outbox.session.haveSent.find? (o.data r).msgId = some r' → r' = r)
  placed : ∀ r ∈ done, ∃ message ∈ placed, message.msgId = (b.outbox.data r).msgId
  registered : ∀ r ∈ done, (o.data r).msgId ≠ 0 →
    Registered forceNewMsgId b.outbox.session r (o.data r) (b.outbox.data r)

namespace Filling

variable {forceNewMsgId : Bool} {o : Outbox} {b : Building} {done rest : List Nat} {placed : List InnerMessage}

/-- The next message gets an id that no message before it has. -/
theorem prepare (filling : Filling mtprotoMsgId start forceNewMsgId o b done rest placed)
    (growing : Growing mtprotoMsgId start) {request : RequestData} (force : Bool)
    (unknown : request.msgId ≠ 0 → ∀ n, start ≤ n → b.bigMsgId ≤ mtprotoMsgId n → request.msgId ≠ mtprotoMsgId n)
    (apart : request.msgId ≠ 0 → ∀ message ∈ placed, message.msgId ≠ request.msgId) :
    ∃ sent b' k, b.prepare mtprotoMsgId force request = (sent, b') ∧
      Numbers mtprotoMsgId k force b.outbox.session b'.outbox.session request sent ∧ start ≤ k ∧
      (∃ k', start ≤ k' ∧ k' < b'.outbox.session.generated ∧ b'.bigMsgId = mtprotoMsgId k') ∧
      (∀ message ∈ placed, message.msgId ≠ sent.msgId) ∧
      (∀ message ∈ placed, message.msgId < b'.bigMsgId) ∧ sent.msgId < b'.bigMsgId ∧
      b'.ints = b.ints ∧ b'.outbox.data = b.outbox.data := by
  obtain ⟨k, from_, issued, last⟩ := filling.last
  have unknown' : request.msgId ≠ 0 → ∀ n, k ≤ n → request.msgId ≠ mtprotoMsgId n := by
    intro numbered n above
    exact unknown numbered n (from_.trans above) (last ▸ growing.le from_ above)
  obtain ⟨sent, b', k', prepared, numbers, later, issued', last', above, ints, data, -⟩ :=
    b.prepare_numbers growing request force from_ issued last unknown'
  refine ⟨sent, b', k, prepared, numbers, from_, ⟨k', from_.trans later, issued', last'⟩, ?_, ?_, ?_, ints, data⟩
  · intro message member same
    have small := filling.below message member
    rcases numbers.origin with ⟨numbered, kept, -, -⟩ | ⟨j, new, -, generated⟩
    · exact apart numbered message member (same.trans kept)
    · have big := growing.le from_ new
      omega
  · intro message member
    have small := filling.below message member
    have big := growing.le from_ later
    omega
  · rw [last']
    exact above

theorem append_nodup {placed : List InnerMessage} {message : InnerMessage}
    (nodup : (placed.map InnerMessage.msgId).Nodup) (fresh : ∀ other ∈ placed, other.msgId ≠ message.msgId) :
    ((placed ++ [message]).map InnerMessage.msgId).Nodup := by
  rw [List.map_append, List.nodup_append]
  refine ⟨nodup, List.nodup_singleton _, ?_⟩
  intro id member id' member'
  obtain ⟨other, inside, rfl⟩ := List.mem_map.mp member
  rw [List.map_singleton, List.mem_singleton] at member'
  rw [member']
  exact fresh other inside

theorem forall_mem_append_singleton {α : Type} {p : α → Prop} {l : List α} {a : α} (before : ∀ x ∈ l, p x) (new : p a) :
    ∀ x ∈ l ++ [a], p x := by
  intro x member
  rcases List.mem_append.mp member with member | member
  · exact before x member
  · rw [List.mem_singleton.mp member]
    exact new

/-- A service message takes nothing from the queued requests: it is new, or its id was generated just before. -/
theorem placeToContainer (filling : Filling mtprotoMsgId start forceNewMsgId o b done rest placed)
    (growing : Growing mtprotoMsgId start) (ids : OldIds mtprotoMsgId start o (done ++ rest)) {request : RequestData}
    (force : Bool) (service : request.msgId = 0 ∨ (placed = [] ∧ request.msgId < b.bigMsgId ∧
      ∃ j, start ≤ j ∧ request.msgId = mtprotoMsgId j)) :
    ∃ msgId b' message, b.placeToContainer mtprotoMsgId force request = some (msgId, b') ∧
      Filling mtprotoMsgId start forceNewMsgId o b' done rest (placed ++ [message]) := by
  have unknown : request.msgId ≠ 0 → ∀ n, start ≤ n → b.bigMsgId ≤ mtprotoMsgId n →
      request.msgId ≠ mtprotoMsgId n := by
    intro numbered n _ above same
    obtain ⟨-, below, -⟩ := service.resolve_left numbered
    omega
  have apart : request.msgId ≠ 0 → ∀ message ∈ placed, message.msgId ≠ request.msgId := by
    intro numbered message member
    obtain ⟨nothing, -, -⟩ := service.resolve_left numbered
    rw [nothing] at member
    cases member
  obtain ⟨sent, b', k, prepared, numbers, from_, last, fresh, below, small, ints, data⟩ :=
    filling.prepare growing force unknown apart
  have generated : ∃ j, start ≤ j ∧ sent.msgId = mtprotoMsgId j := by
    rcases numbers.origin with ⟨numbered, kept, -, -⟩ | ⟨j, new, -, same⟩
    · rw [kept]
      exact (service.resolve_left numbered).2.2
    · exact ⟨j, from_.trans new, same⟩
  -- no id of a queued request is touched
  have other : ∀ r ∈ done ++ rest, (o.data r).msgId ≠ 0 →
      (request.msgId ≠ 0 → (o.data r).msgId ≠ request.msgId) ∧ (o.data r).msgId ≠ sent.msgId := by
    intro r member numbered
    obtain ⟨j, later, same⟩ := generated
    refine ⟨?_, same ▸ ids.unknown r member numbered j later⟩
    intro present
    obtain ⟨-, -, j, later, same⟩ := service.resolve_left present
    exact same ▸ ids.unknown r member numbered j later
  obtain ⟨length, count, shape⟩ := filling.ints
  let message : InnerMessage := ⟨sent.msgId, sent.seqNo, sent.body⟩
  refine ⟨sent.msgId, { b' with ints := b'.ints ++ message.ints }, message,
    Building.placeToContainer_prepared prepared, ?_, ?_, last, append_nodup filling.nodup fresh, ?_, ?_, ?_, ?_, ?_⟩
  · refine ⟨length, count, ?_⟩
    simp only [ints, shape, List.flatMap_append, List.flatMap_singleton, List.append_assoc, List.cons_append]
  · exact forall_mem_append_singleton filling.bodies sent.nonempty
  · exact forall_mem_append_singleton below small
  · exact forall_mem_append_singleton filling.origin (Or.inr generated)
  · intro r member
    obtain ⟨same, own⟩ := filling.waiting r member
    refine ⟨(congrFun data r).trans same, ?_⟩
    intro numbered
    obtain ⟨notOld, notNew⟩ := other r (List.mem_append_right done member) numbered
    rw [numbers.renumbers.sent _ notOld notNew]
    exact own numbered
  · intro r member
    obtain ⟨message, inside, same⟩ := filling.placed r member
    exact ⟨message, List.mem_append_left _ inside, same.trans (congrArg RequestData.msgId (congrFun data r).symm)⟩
  · intro r member numbered
    obtain ⟨message, inside, same⟩ := filling.placed r member
    obtain ⟨notOld, notNew⟩ := other r (List.mem_append_left rest member) numbered
    have notOld' : request.msgId ≠ 0 → (b.outbox.data r).msgId ≠ request.msgId := fun present =>
      same ▸ apart present message inside
    have registered := (filling.registered r member numbered).frame
      (numbers.renumbers.sent _ notOld' (same ▸ fresh message inside)) (numbers.renumbers.used _ notOld notNew)
    rw [← data] at registered
    exact registered

/-- What else is remembered about a message does not matter for the ids. -/
theorem setSession (filling : Filling mtprotoMsgId start forceNewMsgId o b done rest placed) {s : SessionPrivate}
    (generated : s.generated = b.outbox.session.generated) (sent : s.haveSent = b.outbox.session.haveSent)
    (used : ∀ id, s.isUsed id = b.outbox.session.isUsed id) :
    Filling mtprotoMsgId start forceNewMsgId o (b.setSession s) done rest placed := by
  refine ⟨filling.ints, filling.bodies, ?_, filling.nodup, filling.below, filling.origin, ?_, filling.placed, ?_⟩
  · obtain ⟨k, from_, issued, last⟩ := filling.last
    exact ⟨k, from_, generated ▸ issued, last⟩
  · intro r member
    obtain ⟨same, own⟩ := filling.waiting r member
    refine ⟨same, ?_⟩
    intro numbered r' found
    exact own numbered r' (sent ▸ found)
  · intro r member numbered
    exact (filling.registered r member numbered).frame (congrArg (SortedMap.find? · _) sent) (used _)

end Filling

/-- What `rememberSent` leaves as it is. -/
theorem Building.rememberSent_frame (b : Building) (requestId : Nat) (request : RequestData) :
    (b.rememberSent requestId request).ints = b.ints ∧
    (b.rememberSent requestId request).bigMsgId = b.bigMsgId ∧
    (b.rememberSent requestId request).outbox.data = b.outbox.data ∧
    (b.rememberSent requestId request).outbox.session.generated = b.outbox.session.generated ∧
    ∀ other, other ≠ request.msgId →
      (b.rememberSent requestId request).outbox.session.haveSent.find? other =
        b.outbox.session.haveSent.find? other ∧
      (b.rememberSent requestId request).outbox.session.isUsed other = b.outbox.session.isUsed other := by
  rw [rememberSent]
  split_ifs
  · exact ⟨rfl, rfl, rfl, rfl, fun _ _ => ⟨rfl, rfl⟩⟩
  · refine ⟨rfl, rfl, rfl, rfl, fun other different => ?_⟩
    simp only [setSession, SessionPrivate.isUsed, SortedMap.contains, SortedMap.find?_emplace, if_neg different,
      and_self]
  · refine ⟨rfl, rfl, rfl, rfl, fun other different => ?_⟩
    simp only [setSession, SessionPrivate.isUsed, SortedMap.contains, SortedMap.find?_emplace, if_neg different,
      and_self]

theorem Building.rememberSent_sent (b : Building) {requestId : Nat} {request : RequestData} (tracked : requestId ≠ 0)
    (needAck : request.needAck = true)
    (own : ∀ r', b.outbox.session.haveSent.find? request.msgId = some r' → r' = requestId) :
    (b.rememberSent requestId request).outbox.session.haveSent.find? request.msgId = some requestId := by
  rw [rememberSent, if_neg tracked, if_pos needAck]
  simp only [setSession, SortedMap.find?_emplace, if_true]
  cases found : b.outbox.session.haveSent.find? request.msgId with
  | none => rfl
  | some r' => rw [own r' found, Option.getD_some]

namespace Filling

variable {forceNewMsgId : Bool} {o : Outbox} {b : Building} {done rest : List Nat} {placed : List InnerMessage}
  {layer : Layer} {initSerialized : List Nat}

/-- The next queued request. -/
theorem placeRequest {requestId : Nat}
    (filling : Filling mtprotoMsgId start forceNewMsgId o b done (requestId :: rest) placed)
    (growing : Growing mtprotoMsgId start) (nodup : (done ++ requestId :: rest).Nodup)
    (ids : OldIds mtprotoMsgId start o (done ++ requestId :: rest))
    (init : (layer.needsLayer && (o.data requestId).needsLayer) = true → initSerialized = layer.initSerialized) :
    ∃ b' message, b.placeRequest mtprotoMsgId forceNewMsgId layer initSerialized requestId = some b' ∧
      Filling mtprotoMsgId start forceNewMsgId o b' (done ++ [requestId]) rest (placed ++ [message]) := by
  obtain ⟨request, own⟩ := filling.waiting requestId (List.mem_cons_self)
  have member : requestId ∈ done ++ requestId :: rest := List.mem_append_right done List.mem_cons_self
  have others : ∀ r, r ∈ done ∨ r ∈ rest → r ≠ requestId ∧ r ∈ done ++ requestId :: rest := by
    intro r elsewhere
    have apart := (List.nodup_append.mp nodup).2.2
    have behind := (List.nodup_cons.mp (List.nodup_append.mp nodup).2.1).1
    rcases elsewhere with earlier | later
    · exact ⟨apart r earlier requestId List.mem_cons_self, List.mem_append_left _ earlier⟩
    · exact ⟨fun same => behind (same ▸ later), List.mem_append_right _ (List.mem_cons_of_mem _ later)⟩
  have unknown : (o.data requestId).msgId ≠ 0 → ∀ n, start ≤ n → b.bigMsgId ≤ mtprotoMsgId n →
      (o.data requestId).msgId ≠ mtprotoMsgId n := fun numbered n from_ _ => ids.unknown requestId member numbered n from_
  have apart : (o.data requestId).msgId ≠ 0 → ∀ message ∈ placed, message.msgId ≠ (o.data requestId).msgId := by
    intro numbered message inside same
    rcases filling.origin message inside with ⟨r, earlier, present, kept⟩ | ⟨j, from_, generated⟩
    · obtain ⟨different, known⟩ := others r (Or.inl earlier)
      exact different (ids.unique r known requestId member present (kept.symm.trans same))
    · exact ids.unknown requestId member numbered j from_ (same.symm.trans generated)
  obtain ⟨sent, b', k, prepared, numbers, from_, last, fresh, below, small, ints, data⟩ :=
    filling.prepare growing forceNewMsgId unknown apart
  obtain ⟨msgId, seqNo, sameRequest⟩ := numbers.same
  obtain ⟨length, count, shape⟩ := filling.ints
  obtain ⟨more, body, nonempty, placing⟩ := Building.placeRequest_prepared (request.symm ▸ prepared)
    (ints.trans shape) List.length_replicate (by rw [sameRequest]; exact init)
  let message : InnerMessage := ⟨sent.msgId, sent.seqNo, body⟩
  let later : Building :=
    { b' with
      outbox := b'.outbox.setData requestId sent
      ints := (List.replicate 7 0 ++ (length + more) :: (mtpcMsgContainer :: count ::
        placed.flatMap InnerMessage.ints)) ++ message.ints }
  obtain ⟨sameInts, sameBig, sameData, sameGenerated, frame⟩ := later.rememberSent_frame requestId sent
  have data' : ∀ r, r ≠ requestId → (later.rememberSent requestId sent).outbox.data r = b.outbox.data r := by
    intro r different
    rw [sameData, ← data]
    exact Function.update_of_ne different _ _
  have data'' : (later.rememberSent requestId sent).outbox.data requestId = sent := by
    rw [sameData]
    exact Function.update_self _ _ _
  -- the ids of the other requests are not touched
  have other : ∀ r, r ∈ done ∨ r ∈ rest → (o.data r).msgId ≠ 0 →
      ((o.data requestId).msgId ≠ 0 → (o.data r).msgId ≠ (o.data requestId).msgId) ∧
      (o.data r).msgId ≠ sent.msgId := by
    intro r elsewhere numbered
    obtain ⟨different, known⟩ := others r elsewhere
    have apart : (o.data r).msgId ≠ (o.data requestId).msgId := fun same =>
      different (ids.unique r known requestId member numbered same)
    refine ⟨fun _ => apart, ?_⟩
    rcases numbers.origin with ⟨-, kept, -, -⟩ | ⟨j, new, -, generated⟩
    · exact kept ▸ apart
    · exact generated ▸ ids.unknown r known numbered j (from_.trans new)
  refine ⟨later.rememberSent requestId sent, message, placing, ?_, ?_, ?_, append_nodup filling.nodup fresh, ?_, ?_, ?_,
    ?_, ?_⟩
  · refine ⟨length + more, count, ?_⟩
    rw [sameInts]
    simp only [later, List.flatMap_append, List.flatMap_singleton, List.append_assoc, List.cons_append]
  · exact forall_mem_append_singleton filling.bodies nonempty
  · obtain ⟨k', from', issued, big⟩ := last
    exact ⟨k', from', sameGenerated ▸ issued, sameBig.trans big⟩
  · rw [sameBig]
    exact forall_mem_append_singleton below small
  · refine forall_mem_append_singleton ?_ ?_
    · intro message inside
      rcases filling.origin message inside with ⟨r, earlier, kept⟩ | generated
      · exact Or.inl ⟨r, List.mem_append_left _ earlier, kept⟩
      · exact Or.inr generated
    · rcases numbers.origin with ⟨numbered, kept, -, -⟩ | ⟨j, new, -, generated⟩
      · exact Or.inl ⟨requestId, List.mem_append_right _ (List.mem_singleton_self _), numbered, kept⟩
      · exact Or.inr ⟨j, from_.trans new, generated⟩
  · intro r inside
    obtain ⟨same, own⟩ := filling.waiting r (List.mem_cons_of_mem _ inside)
    refine ⟨(data' r (others r (Or.inr inside)).1).trans same, ?_⟩
    intro numbered
    obtain ⟨notOld, notNew⟩ := other r (Or.inr inside) numbered
    have kept : later.outbox.session.haveSent.find? _ = _ := numbers.renumbers.sent _ notOld notNew
    rw [(frame _ notNew).1, kept]
    exact own numbered
  · refine forall_mem_append_singleton ?_ ?_
    · intro r earlier
      obtain ⟨message, inside, same⟩ := filling.placed r earlier
      rw [data' r (others r (Or.inl earlier)).1]
      exact ⟨message, List.mem_append_left _ inside, same⟩
    · rw [data'']
      exact ⟨message, List.mem_append_right _ (List.mem_singleton_self _), rfl⟩
  · refine forall_mem_append_singleton ?_ ?_
    · intro r earlier numbered
      obtain ⟨message, inside, same⟩ := filling.placed r earlier
      obtain ⟨notOld, notNew⟩ := other r (Or.inl earlier) numbered
      have notOld' : (o.data requestId).msgId ≠ 0 → (b.outbox.data r).msgId ≠ (o.data requestId).msgId := fun present =>
        same ▸ apart present message inside
      have notNew' : (b.outbox.data r).msgId ≠ sent.msgId := same ▸ fresh message inside
      have sameSent : later.outbox.session.haveSent.find? _ = _ := numbers.renumbers.sent _ notOld' notNew'
      have sameUsed : later.outbox.session.isUsed _ = _ := numbers.renumbers.used _ notOld notNew
      rw [data' r (others r (Or.inl earlier)).1]
      exact (filling.registered r earlier numbered).frame ((frame _ notNew').1.trans sameSent)
        ((frame _ notNew).2.trans sameUsed)
    · intro numbered
      rw [data'']
      have moved : later.outbox.session.haveSent.find? _ = _ := numbers.renumbers.moved numbered
      refine ⟨?_, ?_, ?_⟩
      · intro tracked needAck
        refine later.rememberSent_sent tracked (by rw [sameRequest]; exact needAck) ?_
        rw [moved]
        exact own numbered
      · intro different
        rw [(frame _ different.symm).2]
        exact numbers.renumbers.forgotten numbered different
      · intro forced
        rcases numbers.origin with ⟨-, -, unforced, -⟩ | ⟨j, new, -, generated⟩
        · rw [unforced] at forced
          cases forced
        · rw [generated]
          exact (ids.unknown requestId member numbered j (from_.trans new)).symm

theorem placeRequests (filling : Filling mtprotoMsgId start forceNewMsgId o b done rest placed)
    (growing : Growing mtprotoMsgId start) (nodup : (done ++ rest).Nodup)
    (ids : OldIds mtprotoMsgId start o (done ++ rest))
    (init : ∀ r ∈ rest, (layer.needsLayer && (o.data r).needsLayer) = true → initSerialized = layer.initSerialized) :
    ∃ b' messages, Building.placeRequests mtprotoMsgId forceNewMsgId layer initSerialized b rest = some b' ∧
      messages.length = rest.length ∧
      Filling mtprotoMsgId start forceNewMsgId o b' (done ++ rest) [] (placed ++ messages) := by
  induction rest generalizing b done placed with
  | nil =>
      refine ⟨b, [], rfl, rfl, ?_⟩
      rw [List.append_nil, List.append_nil]
      exact filling
  | cons requestId rest ih =>
      obtain ⟨first, init⟩ := List.forall_mem_cons.mp init
      obtain ⟨b', message, placing, filling⟩ := filling.placeRequest growing nodup ids first
      rw [List.append_cons] at nodup ids ⊢
      obtain ⟨b'', messages, placing', length, filling⟩ := ih filling nodup ids init
      refine ⟨b'', message :: messages, ?_, ?_, ?_⟩
      · rw [Building.placeRequests, placing]
        exact placing'
      · rw [List.length_cons, List.length_cons, length]
      · rw [List.append_cons placed]
        exact filling

/-- A service request is placed if there is one. -/
theorem placeService (filling : Filling mtprotoMsgId start forceNewMsgId o b done rest placed)
    (growing : Growing mtprotoMsgId start) (ids : OldIds mtprotoMsgId start o (done ++ rest))
    (force : Bool) (remember : Nat → SessionPrivate → SessionPrivate) (request : Option RequestData)
    (service : ∀ r ∈ request, r.msgId = 0 ∨ (placed = [] ∧ r.msgId < b.bigMsgId ∧
      ∃ j, start ≤ j ∧ r.msgId = mtprotoMsgId j))
    (keeps : ∀ msgId s, (remember msgId s).generated = s.generated ∧ (remember msgId s).haveSent = s.haveSent ∧
      ∀ id, (remember msgId s).isUsed id = s.isUsed id) :
    ∃ b' messages, Building.placeService mtprotoMsgId force remember request b = some b' ∧
      messages.length = request.toList.length ∧
      Filling mtprotoMsgId start forceNewMsgId o b' done rest (placed ++ messages) := by
  cases request with
  | none =>
      refine ⟨b, [], rfl, rfl, ?_⟩
      rw [List.append_nil]
      exact filling
  | some r =>
      obtain ⟨msgId, b', message, placing, filling'⟩ := filling.placeToContainer growing ids force (service r rfl)
      obtain ⟨generated, sent, used⟩ := keeps msgId b'.outbox.session
      refine ⟨b'.setSession (remember msgId b'.outbox.session), [message], ?_, rfl,
        filling'.setSession generated sent used⟩
      rw [Building.placeService, placing, Option.bind_some]

theorem placeBefore {service : ServiceData}
    (filling : Filling mtprotoMsgId start forceNewMsgId o b done rest []) (growing : Growing mtprotoMsgId start)
    (ids : OldIds mtprotoMsgId start o (done ++ rest))
    (bind : ∀ request ∈ service.bind, request.msgId < b.bigMsgId ∧
      ∃ j, start ≤ j ∧ request.msgId = mtprotoMsgId j)
    (ping : ∀ request ∈ service.ping, request.msgId = 0) :
    ∃ b' messages, b.placeBefore mtprotoMsgId forceNewMsgId service = some b' ∧
      messages.length = service.before.length ∧
      Filling mtprotoMsgId start forceNewMsgId o b' done rest messages := by
  obtain ⟨b₁, first, placing, length, filling⟩ := filling.placeService growing ids false Building.rememberBind
    service.bind (fun r member => Or.inr ⟨rfl, bind r member⟩) (fun _ _ => ⟨rfl, rfl, fun _ => rfl⟩)
  obtain ⟨b₂, second, placing', length', filling⟩ := filling.placeService growing ids forceNewMsgId
    Building.rememberPing service.ping (fun r member => Or.inl (ping r member)) (fun _ _ => ⟨rfl, rfl, fun _ => rfl⟩)
  refine ⟨b₂, first ++ second, ?_, ?_, filling⟩
  · rw [Building.placeBefore, Building.placeBind_eq, placing, Option.bind_some, Building.placePing_eq, placing']
  · simp only [ServiceData.before, List.length_append, length, length']

theorem placeBehind (service : ServiceData)
    (filling : Filling mtprotoMsgId start forceNewMsgId o b done rest placed) (growing : Growing mtprotoMsgId start)
    (ids : OldIds mtprotoMsgId start o (done ++ rest)) :
    ∃ b' messages, b.placeBehind mtprotoMsgId forceNewMsgId service = some b' ∧
      messages.length = service.behind.length ∧
      Filling mtprotoMsgId start forceNewMsgId o b' done rest (placed ++ messages) := by
  have fresh : ∀ {placed : List InnerMessage} {b : Building} {α : Type} (serialized : α → RequestData) (ids : Option α),
      (∀ a, (serialized a).msgId = 0) → ∀ r ∈ ids.map serialized, r.msgId = 0 ∨ (placed = [] ∧ r.msgId < b.bigMsgId ∧
        ∃ j, start ≤ j ∧ r.msgId = mtprotoMsgId j) := by
    intro placed b α serialized ids zero r member
    obtain ⟨a, -, rfl⟩ := Option.map_eq_some_iff.mp member
    exact Or.inl (zero a)
  obtain ⟨b₁, first, placing₁, length₁, filling⟩ := filling.placeService growing ids forceNewMsgId
    (Building.rememberState service.state) (service.state.map stateRequest) (fresh _ _ fun _ => rfl)
    (fun _ _ => ⟨rfl, rfl, fun _ => rfl⟩)
  obtain ⟨b₂, second, placing₂, length₂, filling⟩ := filling.placeService growing ids forceNewMsgId
    (Building.rememberState service.resend) (service.resend.map resendRequestOf) (fresh _ _ fun _ => rfl)
    (fun _ _ => ⟨rfl, rfl, fun _ => rfl⟩)
  obtain ⟨b₃, third, placing₃, length₃, filling⟩ := filling.placeService growing ids forceNewMsgId
    Building.rememberNothing (service.ack.map ackRequest) (fresh _ _ fun _ => rfl) (fun _ _ => ⟨rfl, rfl, fun _ => rfl⟩)
  have wait : ∀ r ∈ service.httpWaitData, r.msgId = 0 := by
    intro r member
    rw [ServiceData.httpWaitData] at member
    split at member
    · cases member
      rfl
    · cases member
  obtain ⟨b₄, fourth, placing₄, length₄, filling⟩ := filling.placeService growing ids forceNewMsgId
    Building.rememberNothing service.httpWaitData (fun r member => Or.inl (wait r member))
    (fun _ _ => ⟨rfl, rfl, fun _ => rfl⟩)
  refine ⟨b₄, first ++ (second ++ (third ++ fourth)), ?_, ?_, ?_⟩
  · simp only [Building.placeBehind, Building.placeStateRequest_eq, Building.placeUntracked_eq, placing₁, placing₂,
      placing₃, placing₄, Option.bind_some]
  · simp only [ServiceData.behind, List.length_append, length₁, length₂, length₃, length₄]
  · simp only [List.append_assoc] at filling
    exact filling

end Filling

/-! ## The container -/

/-- The service requests of a `tryToSend` that began with the id `start`: the one that binds a key has an id that
was generated for it, the others have none. -/
structure Collected (mtprotoMsgId : Nat → Nat) (start : Nat) (o : Outbox) (service : ServiceData) : Prop where
  started : start ≤ o.session.generated
  bind : ∀ request ∈ service.bind, ∃ n, start ≤ n ∧ n < o.session.generated ∧ request.msgId = mtprotoMsgId n
  ping : ∀ request ∈ service.ping, request.msgId = 0

namespace Outbox

variable {o : Outbox} {service : ServiceData} {layer : Layer} {sendAll forceNewMsgId : Bool}

/-- The messages of a container have ids of their own, below the id of the container, and every request that was
sent before is known under the id it has there, and under no other one. -/
theorem sendContainer_numbers_messages (growing : Growing mtprotoMsgId start)
    (collected : Collected mtprotoMsgId start o service)
    (ids : OldIds mtprotoMsgId start o (o.queued sendAll)) :
    ∃ ints o' messages, o.sendContainer mtprotoMsgId service layer sendAll forceNewMsgId = some (ints, o') ∧
      messages.length = o.toSendCount service sendAll ∧
      readMessages messages.length (ints.drop (kMessageBodyPosition + 2)) = some (messages, []) ∧
      (messages.map InnerMessage.msgId).Nodup ∧ (∀ message ∈ messages, message.msgId < getMsgId ints) ∧
      (∀ r ∈ o.queued sendAll, ∃ message ∈ messages, message.msgId = (o'.data r).msgId) ∧
      ∀ r ∈ o.queued sendAll, (o.data r).msgId ≠ 0 →
        Registered forceNewMsgId o'.session r (o.data r) (o'.data r) := by
  have filling : Filling mtprotoMsgId start forceNewMsgId o (o.startContainer mtprotoMsgId service layer sendAll) []
      (o.queued sendAll) [] := by
    refine ⟨⟨_, _, rfl⟩, List.forall_mem_nil _, ⟨_, collected.started, Nat.lt_succ_self _, rfl⟩, List.nodup_nil,
      List.forall_mem_nil _, List.forall_mem_nil _, ?_, List.forall_mem_nil _, List.forall_mem_nil _⟩
    exact fun r member => ⟨rfl, ids.own r member⟩
  have bind : ∀ request ∈ service.bind,
      request.msgId < (o.startContainer mtprotoMsgId service layer sendAll).bigMsgId ∧
      ∃ j, start ≤ j ∧ request.msgId = mtprotoMsgId j := by
    intro request member
    obtain ⟨n, from_, issued, same⟩ := collected.bind request member
    exact ⟨same ▸ growing.lt from_ issued, n, from_, same⟩
  obtain ⟨b₁, before, placing₁, length₁, filling⟩ := filling.placeBefore growing ids bind collected.ping
  obtain ⟨b₂, queued, placing₂, length₂, filling⟩ := filling.placeRequests growing (o.queued_nodup sendAll) ids
    (o.initInts_eq layer sendAll)
  have filling : Filling mtprotoMsgId start forceNewMsgId o (clearQueue sendAll b₂) ([] ++ o.queued sendAll) []
      (before ++ queued) := by
    rw [clearQueue]
    split
    · exact filling.setSession rfl rfl (fun _ => rfl)
    · exact filling
  obtain ⟨b₃, behind, placing₃, length₃, filling⟩ := filling.placeBehind service growing
    ((List.append_nil (o.queued sendAll)).symm ▸ ids)
  obtain ⟨length, count, shape⟩ := filling.ints
  obtain ⟨o', seqNo, finished, data, session⟩ := finishContainer_ints mtprotoMsgId forceNewMsgId shape
  let ints := [0, 0, 0, 0] ++ (longInts b₃.bigMsgId ++ seqNo :: length :: mtpcMsgContainer :: count ::
    (before ++ queued ++ behind).flatMap InnerMessage.ints)
  have id : getMsgId ints = b₃.bigMsgId := longOf_longInts _
  refine ⟨ints, o', before ++ queued ++ behind, ?_, ?_, ?_, filling.nodup, ?_, ?_, ?_⟩
  · rw [sendContainer_eq, placing₁, Option.bind_some, placing₂, Option.bind_some, placing₃, Option.bind_some, finished]
  · simp only [List.length_append, length₁, length₂, length₃, toSendCount]
    omega
  · exact readMessages_ints _ filling.bodies
  · intro message member
    rw [id]
    exact filling.below message member
  · intro r member
    rw [data]
    exact filling.placed r member
  · intro r member numbered
    rw [data, session]
    exact (filling.registered r member numbered).frame rfl rfl

/-- A request sent again that keeps its id, and one that gets another one as its id is above the container's. -/
theorem sendContainer_numbers_resent :
    let data := fun r => if r = 1 then { body := [7], msgId := 5, nonempty := nofun }
      else ({ body := [8], msgId := 1001, nonempty := nofun } : RequestData)
    let o : Outbox :=
      { session :=
          { toSend := (SortedMap.empty.emplace 1 ()).emplace 2 ()
            haveSent := SortedMap.empty.emplace 1001 2 }
        data := data }
    Growing (fun n => 4 * n + 8) 0 ∧ Collected (fun n => 4 * n + 8) 0 o {} ∧
    OldIds (fun n => 4 * n + 8) 0 o (o.queued true) ∧
    ∃ ints o' messages, o.sendContainer (fun n => 4 * n + 8) {} {} true false = some (ints, o') ∧
      messages.length = o.toSendCount {} true ∧
      readMessages messages.length (ints.drop (kMessageBodyPosition + 2)) = some (messages, []) ∧
      (messages.map InnerMessage.msgId).Nodup ∧ (∀ message ∈ messages, message.msgId < getMsgId ints) ∧
      (∀ r ∈ o.queued true, ∃ message ∈ messages, message.msgId = (o'.data r).msgId) ∧
      ∀ r ∈ o.queued true, (o.data r).msgId ≠ 0 → Registered false o'.session r (o.data r) (o'.data r) := by
  intro data o
  have growing : Growing (fun n => 4 * n + 8) 0 := by
    intro n _
    show 4 * n + 8 < 4 * (n + 1) + 8
    omega
  have collected : Collected (fun n => 4 * n + 8) 0 o {} := ⟨Nat.zero_le _, nofun, nofun⟩
  have ids : OldIds (fun n => 4 * n + 8) 0 o (o.queued true) := by
    have queued : o.queued true = [1, 2] := rfl
    rw [queued]
    refine ⟨?_, by decide, ?_⟩
    · intro r member _ n _
      have odd : (o.data r).msgId % 4 = 1 := by
        revert r
        decide
      show (o.data r).msgId ≠ 4 * n + 8
      omega
    · intro r member _ r' found
      simp only [List.mem_cons, List.not_mem_nil, or_false] at member
      rcases member with rfl | rfl
      · have missing : o.session.haveSent.find? (o.data 1).msgId = none := by decide
        rw [missing] at found
        cases found
      · have known : o.session.haveSent.find? (o.data 2).msgId = some 2 := by decide
        rw [known] at found
        exact (Option.some.inj found).symm
  exact ⟨growing, collected, ids, sendContainer_numbers_messages growing collected ids⟩

/-- Two requests with one id, neither of which is above the container's, both keep it. -/
theorem kept_ids_repeat :
    let request : RequestData := { body := [7], msgId := 5, nonempty := nofun }
    let o : Outbox := { session := { toSend := (SortedMap.empty.emplace 1 ()).emplace 2 () }, data := fun _ => request }
    Growing (fun n => 4 * n + 8) 0 ∧ (∀ r ∈ o.queued true, ∀ n, (o.data r).msgId ≠ 4 * n + 8) ∧
    ∃ ints o' messages, o.sendContainer (fun n => 4 * n + 8) {} {} true false = some (ints, o') ∧
      readMessages 2 (ints.drop (kMessageBodyPosition + 2)) = some (messages, []) ∧
      ¬ (messages.map InnerMessage.msgId).Nodup ∧ o'.session.haveSent.contains (o.data 1).msgId = true := by
  intro request o
  have run : (o.sendContainer (fun n => 4 * n + 8) {} {} true false).map (fun (ints, o') =>
      (readMessages 2 (ints.drop (kMessageBodyPosition + 2)), o'.session.haveSent.contains (o.data 1).msgId)) =
      some (some ([⟨5, 0, [7]⟩, ⟨5, 0, [7]⟩], []), true) := by decide
  obtain ⟨⟨ints, o'⟩, sent, both⟩ := Option.map_eq_some_iff.mp run
  obtain ⟨read, used⟩ := Prod.mk.inj both
  refine ⟨?_, ?_, ints, o', _, sent, read, by decide, used⟩
  · intro n _
    show 4 * n + 8 < 4 * (n + 1) + 8
    omega
  · intro r _ n
    show 5 ≠ 4 * n + 8
    omega

/-- In a session that was reached by any events the ids of the requests are as needed. -/
theorem oldIds_of_sound {s : SessionPrivate} (distinct : Function.Injective mtprotoMsgId)
    (sound : s.Sound mtprotoMsgId) (sent : o.session.haveSent = s.haveSent)
    (same : ∀ r, (o.data r).msgId = (s.requests r).msgId) (queued : List Nat) :
    OldIds mtprotoMsgId s.generated o queued := by
  have bound : ∀ r, (o.data r).msgId ≠ 0 → s.Bound (o.data r).msgId r := by
    intro r numbered
    rw [same] at numbered ⊢
    exact .request numbered
  refine ⟨?_, ?_, ?_⟩
  · intro r _ numbered n later known
    obtain ⟨i, earlier, issued⟩ := sound.issued _ _ (bound r numbered)
    have := distinct (issued.trans known)
    omega
  · intro r _ r' _ numbered equal
    exact sound.unique _ _ _ (bound r numbered) (equal ▸ bound r' (equal ▸ numbered))
  · intro r _ numbered r' found
    rw [sent] at found
    exact sound.unique _ _ _ (.sent (SortedMap.find?_eq_some.mp found)) (bound r numbered)

end Outbox

end IMeDesktop.Mtproto.Requests
