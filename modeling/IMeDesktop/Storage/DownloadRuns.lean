import IMeDesktop.Storage.DownloadTaskAccounts

/-! # The accounts in every run

The requests that all tasks of a data centre have in a session are what the manager says is
requested there, from the start on and after every step. When a session is removed there has to
be room for its requests in the others: they are not counted against the limits of a session,
and what is added to the session that is removed keeps them away from it only up to that
amount.
-/

namespace IMeDesktop.Storage.Download

open Lib

def sentAt (tasks : List DownloadMtprotoTask) (i : Nat) : Nat := (tasks.map (·.sentAt i)).sum

def uncheckedAt (tasks : List DownloadMtprotoTask) (i : Nat) : Nat := (tasks.map (·.uncheckedAt i)).sum

def movesAt (tasks : List DownloadMtprotoTask) (i : Nat) : Nat := (tasks.map (·.moves i)).sum

namespace Dc

/-- What every state keeps; `extra` is as for the accounts. -/
structure Kept (extra : Int) (dc : Dc) : Prop where
  accounted : Accounted extra dc.owner (sentAt dc.tasks) (uncheckedAt dc.tasks)
  distinct : ∀ t ∈ dc.tasks, (t.sentRequests.map SentRequest.id).Nodup
  earlier : ∀ t ∈ dc.tasks, ∀ request ∈ t.sentRequests, request.id < dc.owner.nextRequestId
  queued : ∀ t ∈ dc.tasks, t.haveSentRequests = true → dc.queue.any (·.task = t.id) = true
  apart : (dc.tasks.map DownloadMtprotoTask.id).Nodup

variable {extra now : Int} {dc : Dc} {front back : List DownloadMtprotoTask} {t : DownloadMtprotoTask}

theorem sentAt_split (front back : List DownloadMtprotoTask) (t : DownloadMtprotoTask) :
    sentAt (front ++ t :: back) = fun i => sentAt (front ++ back) i + t.sentAt i := by
  funext i
  simp only [sentAt, List.map_append, List.map_cons, List.sum_append, List.sum_cons]
  omega

theorem uncheckedAt_split (front back : List DownloadMtprotoTask) (t : DownloadMtprotoTask) :
    uncheckedAt (front ++ t :: back) = fun i => uncheckedAt (front ++ back) i + t.uncheckedAt i := by
  funext i
  simp only [uncheckedAt, List.map_append, List.map_cons, List.sum_append, List.sum_cons]
  omega

theorem movesAt_split (front back : List DownloadMtprotoTask) (t : DownloadMtprotoTask) (i : Nat) :
    movesAt (front ++ t :: back) i = movesAt (front ++ back) i + t.moves i := by
  simp only [movesAt, List.map_append, List.map_cons, List.sum_append, List.sum_cons]
  omega

theorem Kept.held (kept : Kept extra dc) (split : dc.tasks = front ++ t :: back) :
    Held extra (sentAt (front ++ back)) (uncheckedAt (front ++ back)) dc.owner t := by
  have member : t ∈ dc.tasks := by simp [split]
  refine ⟨?_, kept.distinct t member, kept.earlier t member⟩
  have accounted := kept.accounted
  rw [split, sentAt_split, uncheckedAt_split] at accounted
  exact accounted

/-- A task is put back where it was. -/
theorem Kept.put (kept : Kept extra dc) (split : dc.tasks = front ++ t :: back)
    {result : Owner × DownloadMtprotoTask} {extra' : Int}
    (held : Held extra' (sentAt (front ++ back)) (uncheckedAt (front ++ back)) result.1 result.2)
    (same : result.2.id = t.id) (later : dc.owner.nextRequestId ≤ result.1.nextRequestId)
    (queued : result.2.haveSentRequests = true → dc.queue.any (·.task = t.id) = true) :
    Kept extra' { dc with owner := result.1, tasks := front ++ result.2 :: back } := by
  have others : ∀ other ∈ front ++ back, other ∈ dc.tasks := by
    intro other member
    rw [split]
    simp only [List.mem_append, List.mem_cons] at member ⊢
    tauto
  have each : ∀ other ∈ front ++ result.2 :: back, other ∈ front ++ back ∨ other = result.2 := by
    intro other member
    simp only [List.mem_append, List.mem_cons] at member ⊢
    tauto
  refine ⟨?_, ?_, ?_, ?_, ?_⟩
  · rw [sentAt_split, uncheckedAt_split]
    exact held.accounted
  · intro other member
    obtain inside | rfl := each other member
    · exact kept.distinct other (others other inside)
    · exact held.distinct
  · intro other member request sent
    obtain inside | rfl := each other member
    · exact (kept.earlier other (others other inside) request sent).trans_le later
    · exact held.earlier request sent
  · intro other member busy
    obtain inside | rfl := each other member
    · exact kept.queued other (others other inside) busy
    · rw [same]
      exact queued busy
  · have apart := kept.apart
    simpa [split, same] using apart

theorem Kept.others_apart (kept : Kept extra dc) (split : dc.tasks = front ++ t :: back) {other : DownloadMtprotoTask}
    (inside : other ∈ front ++ back) : other.id ≠ t.id := by
  have apart := kept.apart
  rw [split] at apart
  intro equal
  have around : ((front ++ t :: back).map DownloadMtprotoTask.id).Perm
      (t.id :: (front ++ back).map DownloadMtprotoTask.id) := List.perm_middle.map _
  exact (List.nodup_cons.mp (around.nodup_iff.mp apart)).1 (equal ▸ List.mem_map_of_mem inside)

theorem modifyTask_cases (f : Owner → DownloadMtprotoTask → Attempt (Owner × DownloadMtprotoTask)) (id : Nat) (o : Owner)
    (tasks : List DownloadMtprotoTask) :
    (∀ t ∈ tasks, t.id ≠ id) ∧ modifyTask f id o tasks = .ok (o, tasks) ∨
      ∃ front t back, tasks = front ++ t :: back ∧ t.id = id ∧
        modifyTask f id o tasks = (f o t).map fun result => (result.1, front ++ result.2 :: back) := by
  induction tasks with
  | nil => exact .inl ⟨nofun, rfl⟩
  | cons first rest ih =>
      by_cases here : first.id = id
      · refine .inr ⟨[], first, rest, rfl, here, ?_⟩
        rw [modifyTask, if_pos here]
        cases f o first <;> rfl
      · obtain ⟨none, same⟩ | ⟨front, t, back, split, found, modified⟩ := ih
        · refine .inl ⟨List.forall_mem_cons.mpr ⟨here, none⟩, ?_⟩
          rw [modifyTask, if_neg here, same]
          rfl
        · refine .inr ⟨first :: front, t, back, by rw [split, List.cons_append], found, ?_⟩
          rw [modifyTask, if_neg here, modified]
          cases f o t <;> rfl

/-- Either there is no such task, or it is taken out, worked on and put back. -/
theorem withTask_cases (dc : Dc) (id : Nat) (f : Owner → DownloadMtprotoTask → Attempt (Owner × DownloadMtprotoTask)) :
    (∀ t ∈ dc.tasks, t.id ≠ id) ∧ dc.withTask id f = .ok dc ∨
      ∃ front t back, dc.tasks = front ++ t :: back ∧ t.id = id ∧
        dc.withTask id f = (f dc.owner t).map fun result =>
          { dc with owner := result.1, tasks := front ++ result.2 :: back } := by
  obtain ⟨none, same⟩ | ⟨front, t, back, split, found, modified⟩ := modifyTask_cases f id dc.owner dc.tasks
  · refine .inl ⟨none, ?_⟩
    rw [withTask, same]
    rfl
  · refine .inr ⟨front, t, back, split, found, ?_⟩
    rw [withTask, modified]
    cases f dc.owner t <;> rfl

/-- A task without anything under way stays so, unless it is in the queue. -/
theorem withTask_kept (kept : Kept 0 dc) (id : Nat)
    {f : Owner → DownloadMtprotoTask → Attempt (Owner × DownloadMtprotoTask)}
    (goes : ∀ sent unchecked t, Held 0 sent unchecked dc.owner t →
      Yields Allowed (Goes 0 sent unchecked dc.owner t) (f dc.owner t))
    (quiet : dc.queue.any (·.task = id) = true ∨ ∀ t, t.haveSentRequests = false →
      Yields Allowed (fun result => result.2.haveSentRequests = false) (f dc.owner t)) :
    Yields Allowed (Kept 0) (dc.withTask id f) := by
  obtain ⟨-, same⟩ | ⟨front, t, back, split, rfl, modified⟩ := withTask_cases dc id f
  · rw [same]
    exact kept
  · rw [modified]
    apply Yields.map
    have held := kept.held split
    have member : t ∈ dc.tasks := by simp [split]
    have after : Yields Allowed (fun result => Goes 0 (sentAt (front ++ back)) (uncheckedAt (front ++ back)) dc.owner t
        result ∧ (result.2.haveSentRequests = true → dc.queue.any (·.task = t.id) = true)) (f dc.owner t) := by
      by_cases queued : dc.queue.any (·.task = t.id) = true
      · exact (goes _ _ _ held).imp fun result done => ⟨done, fun _ => queued⟩
      · have idle : t.haveSentRequests = false := by
          by_contra busy
          exact queued (kept.queued t member (by simpa using busy))
        have still := quiet.resolve_left queued t idle
        exact ((goes _ _ _ held).and still).imp fun result done =>
          ⟨done.1, fun busy => absurd busy (by simp [done.2])⟩
    exact after.imp fun result done => kept.put split done.1.held done.1.id done.1.later done.2

theorem idle_iff : t.haveSentRequests = false ↔ t.sentRequests = [] ∧ t.cdnUncheckedParts = [] := by
  simp [DownloadMtprotoTask.haveSentRequests]

/-- Who has no request has nothing to be answered. -/
theorem answered_goes {requestId : Nat} {callback : Callback → Bool}
    {f : Owner → DownloadMtprotoTask → Attempt (Owner × DownloadMtprotoTask)} {sent unchecked : Nat → Nat} {o : Owner}
    (held : Held 0 sent unchecked o t)
    (goes : t.sentRequests.any (·.id = requestId) = true → Yields Allowed (Goes 0 sent unchecked o t) (f o t)) :
    Yields Allowed (Goes 0 sent unchecked o t) (answered requestId callback f o t) := by
  rw [answered]
  split
  · rename_i found
    obtain ⟨request, member, same⟩ := List.any_eq_true.mp found
    exact goes (List.any_eq_true.mpr ⟨request, member, by simp_all⟩)
  · exact Goes.refl held

theorem answered_idle {requestId : Nat} {callback : Callback → Bool}
    {f : Owner → DownloadMtprotoTask → Attempt (Owner × DownloadMtprotoTask)} {o : Owner}
    (idle : t.haveSentRequests = false) :
    Yields Allowed (fun result => result.2.haveSentRequests = false) (answered requestId callback f o t) := by
  rw [answered, if_neg (by simp [(idle_iff.mp idle).1])]
  exact idle

/-! ## Removing a session -/

/-- The last session can be removed: each of its requests finds a place in one of the others where not more is
requested than what is added to the last one; and there is such a place for a part that waits for its hash. -/
def HasRoom (dc : Dc) : Prop :=
  movesAt dc.tasks (dc.owner.sessions.length - 1) +
      (if uncheckedAt dc.tasks (dc.owner.sessions.length - 1) = 0 then 0 else 1) ≤
    room (sentAt dc.tasks) (dc.owner.sessions.length - 1)

instance (dc : Dc) : Decidable dc.HasRoom := inferInstanceAs (Decidable (_ ≤ _))

/-- The loop over the queue; `left` are the tasks that still have to move what they have. -/
structure Moving (k spare : Nat) (queue left : List Enqueued) (dc : Dc) : Prop where
  kept : Kept redirecting dc
  last : k + 1 = dc.owner.sessions.length
  sameQueue : dc.queue = queue
  inQueue : ∀ enqueued ∈ left, enqueued ∈ queue
  moved : ∀ t ∈ dc.tasks, left.any (·.task = t.id) = true ∨ t.sentAt k = 0 ∧ t.uncheckedAt k = 0
  enough : spare + movesAt dc.tasks k ≤ room (sentAt dc.tasks) k
  positive : uncheckedAt dc.tasks k ≠ 0 → 0 < spare

theorem moves_le_sentAt (t : DownloadMtprotoTask) (k : Nat) : t.moves k ≤ t.sentAt k := by
  apply List.countP_mono_left
  intro request member moved
  simp_all

theorem moving_step {k spare : Nat} {queue left : List Enqueued} {enqueued : Enqueued}
    (moving : Moving k spare queue (enqueued :: left) dc) :
    Yields Allowed (Moving k spare queue left) (dc.withTask enqueued.task fun o t => t.removeSession now k o) := by
  obtain ⟨none, same⟩ | ⟨front, t, back, split, found, modified⟩ := withTask_cases dc enqueued.task fun o t =>
    t.removeSession now k o
  · rw [same]
    refine { moving with
      inQueue := fun other member => moving.inQueue other (List.mem_cons_of_mem _ member)
      moved := fun t member => ?_ }
    have := moving.moved t member
    simpa [Ne.symm (none t member)] using this
  · rw [modified]
    apply Yields.map
    have held := moving.kept.held split
    have member : t ∈ dc.tasks := by simp [split]
    have enough := moving.enough
    rw [split, movesAt_split, sentAt_split] at enough
    have positive : t.uncheckedAt k ≠ 0 → 0 < spare + movesAt (front ++ back) k := by
      intro there
      have := moving.positive (by rw [split, uncheckedAt_split]; dsimp only; omega)
      omega
    have done := @removeSession_moves now _ _ _ _ k held moving.last (spare + movesAt (front ++ back) k) (by omega)
      positive
    apply done.imp
    rintro ⟨o', t'⟩ ⟨after, same, last, later, left', noSent, noUnchecked⟩
    replace noSent : t'.sentAt k = 0 := noSent
    replace noUnchecked : t'.uncheckedAt k = 0 := noUnchecked
    replace left' : spare + movesAt (front ++ back) k ≤ room (fun i => sentAt (front ++ back) i + t'.sentAt i) k := left'
    have queued : dc.queue.any (·.task = t.id) = true := by
      rw [moving.sameQueue]
      exact List.any_eq_true.mpr ⟨enqueued, moving.inQueue enqueued List.mem_cons_self, by simp [found]⟩
    refine ⟨moving.kept.put split after same later fun _ => queued, last, moving.sameQueue,
      fun other member => moving.inQueue other (List.mem_cons_of_mem _ member), ?_, ?_, ?_⟩
    · intro other inside
      have which : other ∈ front ++ back ∨ other = t' := by
        simp only [List.mem_append, List.mem_cons] at inside ⊢
        tauto
      obtain inside | rfl := which
      · have apart := moving.kept.others_apart split inside
        have before := moving.moved other (by
          rw [split]
          simp only [List.mem_append, List.mem_cons] at inside ⊢
          tauto)
        rw [List.any_cons, found.symm] at before
        simpa [Ne.symm apart] using before
      · exact .inr ⟨noSent, noUnchecked⟩
    · dsimp only
      rw [movesAt_split, sentAt_split]
      have none := moves_le_sentAt t' k
      omega
    · intro there
      dsimp only at there
      rw [uncheckedAt_split] at there
      apply moving.positive
      rw [split, uncheckedAt_split]
      dsimp only at there ⊢
      omega

theorem biased_accounted {o : Owner} {sent unchecked : Nat → Nat} (accounted : Accounted 0 o sent unchecked)
    {balance : DcBalanceData} (same : balance.sessions = o.sessions)
    (total : balance.totalRequested = o.totalRequested) (known : o.balance ≠ none) {k : Nat}
    (last : k + 1 = o.sessions.length) :
    Accounted redirecting { o with balance := some (biased balance) } sent unchecked ∧
      (biased balance).sessions.length = o.sessions.length := by
  have index : o.sessions.length - 1 = k := by omega
  have inside : k < o.sessions.length := by omega
  obtain ⟨session, here⟩ : ∃ session, o.sessions[k]? = some session := ⟨_, List.getElem?_eq_getElem inside⟩
  have biasedEq : biased balance = { balance with sessions := o.sessions.set k (session.plus redirecting) } := by
    simp only [biased, same, index, here]
  rw [biasedEq]
  refine ⟨⟨?_, ?_, ?_, ?_, accounted.idle⟩, List.length_set⟩
  · intro i other found
    change (o.sessions.set k _)[i]? = some other at found
    change other.requested = _ + if i + 1 = (o.sessions.set k _).length then redirecting else 0
    rw [List.length_set]
    by_cases at' : i = k
    · subst at'
      rw [List.getElem?_set_self inside] at found
      have before := accounted.requested i session here
      obtain rfl : session.plus redirecting = other := by simpa using found
      simp only [ite_self, add_zero] at before
      rw [if_pos last, ← before]
      rfl
    · rw [List.getElem?_set_ne (Ne.symm at')] at found
      have before := accounted.requested i other found
      simp only [ite_self, add_zero] at before
      rw [if_neg (by omega), add_zero, before]
  · have before := accounted.total
    change balance.totalRequested + redirecting = ((o.sessions.set k _).map DcSessionBalanceData.requested).sum
    rw [Owner.sum_set here, total]
    simp only [DcSessionBalanceData.plus]
    omega
  · intro i beyond
    change (o.sessions.set k _).length ≤ i at beyond
    rw [List.length_set] at beyond
    exact accounted.inside i beyond
  · intro _
    change 1 ≤ (o.sessions.set k _).length ∧ (o.sessions.set k _).length ≤ kMaxSessionsCount
    rw [List.length_set]
    exact accounted.counted known

/-- The last session is dropped when nothing is left in it. -/
theorem dropped_accounted {o : Owner} {sent unchecked : Nat → Nat} (accounted : Accounted redirecting o sent unchecked)
    {balance : DcBalanceData} (known : o.balance = some balance) {k : Nat} (last : k + 1 = o.sessions.length)
    (positive : 0 < k) (noSent : sent k = 0) (noUnchecked : unchecked k = 0) (now : Int) :
    balance.sessions[k]?.map DcSessionBalanceData.requested = some redirecting ∧
      Accounted 0 { o with balance := some { balance with sessions := balance.sessions.take k, lastSessionRemove := now } }
        sent unchecked := by
  have same := Owner.sessions_some known
  have inside : k < o.sessions.length := by omega
  obtain ⟨session, here⟩ : ∃ session, o.sessions[k]? = some session := ⟨_, List.getElem?_eq_getElem inside⟩
  have amount := accounted.requested k session here
  rw [if_pos last, noSent, Nat.cast_zero, mul_zero, zero_add] at amount
  have counted := accounted.counted (by simp [known])
  have length : (balance.sessions.take k).length = k := by
    rw [List.length_take, ← same]
    omega
  refine ⟨?_, ?_, ?_, ?_, ?_, accounted.idle⟩
  · rw [← same, here, Option.map_some, amount]
  · intro i session found
    change (balance.sessions.take k)[i]? = some session at found
    have below : i < k := by
      have := (List.getElem?_eq_some_iff.mp found).1
      omega
    rw [List.getElem?_take_of_lt below, ← same] at found
    have before := accounted.requested i session found
    rw [if_neg (by omega)] at before
    simp only [ite_self]
    exact before
  · have total := accounted.total
    have before : o.totalRequested = balance.totalRequested := by simp [Owner.totalRequested, known]
    have split : o.sessions = balance.sessions.take k ++ [session] := by
      obtain ⟨front, back, whole, size⟩ := split_at here
      rw [whole, List.length_append, List.length_cons] at last
      obtain rfl : back = [] := List.eq_nil_of_length_eq_zero (by omega)
      rw [← same, whole, ← size, List.take_left]
    rw [split, List.map_append, List.sum_append, List.map_singleton, List.sum_singleton, amount] at total
    change balance.totalRequested + 0 = ((balance.sessions.take k).map DcSessionBalanceData.requested).sum
    omega
  · intro i beyond
    change (balance.sessions.take k).length ≤ i at beyond
    rw [length] at beyond
    by_cases here : i = k
    · rw [here]
      exact ⟨noSent, noUnchecked⟩
    · exact accounted.inside i (by omega)
  · intro _
    change 1 ≤ (balance.sessions.take k).length ∧ (balance.sessions.take k).length ≤ kMaxSessionsCount
    omega

theorem removeSession_kept (kept : Kept 0 dc) (removable : kStartSessionsCount < dc.owner.sessions.length)
    (hasRoom : dc.HasRoom) : Yields Allowed (Kept 0) (dc.removeSession now) := by
  have removable : 1 < dc.owner.sessions.length := removable
  obtain ⟨balance, known⟩ := @Owner.exists_balance dc.owner 0 (by omega)
  have same := Owner.sessions_some known
  obtain ⟨k, last⟩ : ∃ k, k + 1 = dc.owner.sessions.length := ⟨dc.owner.sessions.length - 1, by omega⟩
  have index : balance.sessions.length - 1 = k := by rw [← same]; omega
  rw [HasRoom, show dc.owner.sessions.length - 1 = k by omega] at hasRoom
  simp only [removeSession, known, index]
  rw [if_neg (by rw [← same]; exact not_le.mpr removable)]
  generalize changed : (if balance.sessionRemoveIndex = k then
      { balance with sessionRemoveTimes := min (balance.sessionRemoveTimes + 1) kMaxTrackedSessionRemoves }
    else { balance with sessionRemoveIndex := k, sessionRemoveTimes := 1 }) = noted
  have sessions : noted.sessions = dc.owner.sessions := by
    rw [← changed, same]
    split <;> rfl
  have total : noted.totalRequested = dc.owner.totalRequested := by
    rw [← changed, Owner.totalRequested, known]
    split <;> rfl
  obtain ⟨accounted, length⟩ := biased_accounted kept.accounted sessions total (by simp [known]) last
  have start : Moving k (if uncheckedAt dc.tasks k = 0 then 0 else 1) dc.queue dc.queue
      { dc with owner := { dc.owner with balance := some (biased noted) } } := by
    refine ⟨⟨accounted, kept.distinct, kept.earlier, kept.queued, kept.apart⟩, last.trans length.symm, rfl,
      fun _ member => member, ?_, by rw [Nat.add_comm]; exact hasRoom, ?_⟩
    · intro t member
      by_cases busy : t.haveSentRequests = true
      · exact .inl (kept.queued t member busy)
      · have nothing := idle_iff.mp (by simpa using busy)
        exact .inr ⟨by simp [DownloadMtprotoTask.sentAt, nothing.1], by simp [DownloadMtprotoTask.uncheckedAt, nothing.2]⟩
    · intro there
      rw [if_neg there]
      exact Nat.one_pos
  have loop := @Yields.foldlM Assertion Enqueued Dc Allowed
    (Moving k (if uncheckedAt dc.tasks k = 0 then 0 else 1) dc.queue)
    (fun dc enqueued => dc.withTask enqueued.task fun o t => t.removeSession now k o)
    (fun enqueued left dc moving => moving_step moving) _ _ start
  apply loop.bind
  intro after moving
  have each : ∀ t ∈ after.tasks, t.sentAt k = 0 ∧ t.uncheckedAt k = 0 :=
    fun t member => (moving.moved t member).resolve_left (by simp)
  have noSent : sentAt after.tasks k = 0 := List.sum_eq_zero (by simpa using fun t member => (each t member).1)
  have noUnchecked : uncheckedAt after.tasks k = 0 := List.sum_eq_zero (by simpa using fun t member => (each t member).2)
  obtain ⟨left, found⟩ := @Owner.exists_balance after.owner k (by have := moving.last; omega)
  obtain ⟨amount, dropped⟩ := dropped_accounted moving.kept.accounted found moving.last (by omega) noSent noUnchecked now
  rw [found]
  dsimp only
  rw [if_neg (by rw [amount]; simp)]
  exact ⟨dropped, moving.kept.distinct, moving.kept.earlier, moving.kept.queued, moving.kept.apart⟩

/-! ## Every step -/

/-- The condition on a step: room where a session is removed. -/
def RoomFor (dc : Dc) : Event → Prop
  | .sessionTimedOut index => ∀ balance ∈ dc.owner.balance, removes balance index = true → dc.HasRoom
  | _ => True

/-- What is noted of the sessions besides the amounts may change. -/
theorem Kept.withBalance (kept : Kept 0 dc) {before after : DcBalanceData} (known : dc.owner.balance = some before)
    (same : after.sessions.map DcSessionBalanceData.requested = before.sessions.map DcSessionBalanceData.requested)
    (total : after.totalRequested = before.totalRequested) :
    Kept 0 { dc with owner := { dc.owner with balance := some after } } := by
  refine ⟨kept.accounted.congr ?_ ?_ (by simp [known]) rfl, kept.distinct, kept.earlier, kept.queued, kept.apart⟩
  · rw [Owner.sessions_some known]
    exact same
  · simpa [Owner.totalRequested, known] using total

theorem sessionTimedOut_kept (kept : Kept 0 dc) {index : Nat} (roomy : dc.RoomFor (.sessionTimedOut index)) :
    Yields Allowed (Kept 0) (dc.sessionTimedOut now index) := by
  rw [sessionTimedOut]
  cases known : dc.owner.balance with
  | none => exact kept
  | some balance =>
      have same := Owner.sessions_some known
      dsimp only
      split
      · exact kept
      · rename_i inside
        have forgotten : (balance.sessions.map fun session => { session with successes := 0 }).map
            DcSessionBalanceData.requested = balance.sessions.map DcSessionBalanceData.requested := by
          rw [List.map_map]
          rfl
        split
        · exact kept.withBalance known forgotten rfl
        · rename_i several
          split
          · exact kept.withBalance known forgotten rfl
          · rename_i enough
            have hasRoom : dc.HasRoom := roomy balance known (by
              simp only [removes, Bool.and_eq_true, decide_eq_true_eq]
              exact ⟨⟨by omega, several⟩, by omega⟩)
            have counted := kept.accounted.counted (by simp [known])
            have many : kStartSessionsCount < balance.sessions.length := by
              rw [same] at counted
              exact lt_of_le_of_ne counted.1 (Ne.symm several)
            have reset := @Kept.withBalance dc kept balance
              { balance with
                sessions := balance.sessions.map fun session => { session with successes := 0 }
                timeouts := 0 } known forgotten rfl
            apply removeSession_kept reset
            · simpa [Owner.sessions] using many
            · simpa [HasRoom, Owner.sessions, known] using hasRoom

theorem withTask_answered (kept : Kept 0 dc) (id : Nat) {requestId : Nat} {callback : Callback → Bool}
    {f : Owner → DownloadMtprotoTask → Attempt (Owner × DownloadMtprotoTask)}
    (goes : ∀ sent unchecked o t, Held 0 sent unchecked o t → t.sentRequests.any (·.id = requestId) = true →
      Yields Allowed (Goes 0 sent unchecked o t) (f o t)) :
    Yields Allowed (Kept 0) (dc.withTask id (answered requestId callback f)) :=
  withTask_kept kept id (fun sent unchecked t held => answered_goes held (goes sent unchecked dc.owner t held))
    (.inr fun _ idle => answered_idle idle)

/-! ### The queue and the tasks -/

theorem Kept.withQueue (kept : Kept 0 dc) {queue : List Enqueued}
    (still : ∀ t ∈ dc.tasks, t.haveSentRequests = true → dc.queue.any (·.task = t.id) = true →
      queue.any (·.task = t.id) = true) : Kept 0 { dc with queue } :=
  ⟨kept.accounted, kept.distinct, kept.earlier, fun t member busy => still t member busy (kept.queued t member busy),
    kept.apart⟩

theorem any_enqueue {task other : Nat} {priority : Int} {queue : List Enqueued}
    (queued : queue.any (·.task = other) = true) : (Queue.enqueue task priority queue).any (·.task = other) = true := by
  obtain ⟨enqueued, member, found⟩ := List.any_eq_true.mp queued
  have found : enqueued.task = other := by simpa using found
  set now := queue.findIdx (·.task = task) with nowDef
  set position := queue.findIdx (·.priority ≤ priority) with positionDef
  have nowLe : now ≤ queue.length := List.findIdx_le_length
  have positionLe : position ≤ queue.length := List.findIdx_le_length
  have fits : (if now < position then position - 1 else position) ≤ (queue.eraseIdx now).length := by
    rw [List.length_eraseIdx]
    split <;> split <;> omega
  have members : ∀ e, e ∈ Queue.enqueue task priority queue ↔ e = ⟨task, priority⟩ ∨ e ∈ queue.eraseIdx now :=
    fun e => List.mem_insertIdx fits
  by_cases same : other = task
  · exact List.any_eq_true.mpr ⟨⟨task, priority⟩, (members _).mpr (.inl rfl), by simp [same]⟩
  · refine List.any_eq_true.mpr ⟨enqueued, (members _).mpr (.inr ?_), by simpa using found⟩
    obtain ⟨i, here⟩ := List.getElem?_of_mem member
    refine List.mem_eraseIdx_iff_getElem?.mpr ⟨i, ?_, here⟩
    rintro rfl
    obtain ⟨inside, this⟩ := List.getElem?_eq_some_iff.mp here
    have isTask : queue[now].task = task := by simpa using List.findIdx_getElem (w := inside)
    exact same (by rw [← found, ← this, isTask])

theorem resetFrom_tasks {queue : List Enqueued} :
    Yields Allowed (fun queue' => queue'.map Enqueued.task = queue.map Enqueued.task) (Queue.resetFrom queue) := by
  induction queue with
  | nil => exact rfl
  | cons first rest ih =>
      rw [Queue.resetFrom]
      split_ifs
      · exact rfl
      · exact .inr (.inr rfl)
      · exact Yields.map (ih.imp fun queue' same => by rw [List.map_cons, List.map_cons, same])

theorem resetGeneration_tasks {queue : List Enqueued} :
    Yields Allowed (fun queue' => queue'.map Enqueued.task = queue.map Enqueued.task)
      (Queue.resetGeneration queue) := by
  rw [Queue.resetGeneration]
  apply Yields.map
  apply resetFrom_tasks.imp
  intro queue' same
  rw [List.map_append, same, ← List.map_append, List.takeWhile_append_dropWhile]

theorem any_of_tasks {queue queue' : List Enqueued} {id : Nat}
    (same : queue'.map Enqueued.task = queue.map Enqueued.task) (queued : queue.any (·.task = id) = true) :
    queue'.any (·.task = id) = true := by
  have mapped : ∀ l : List Enqueued, l.any (·.task = id) = (l.map Enqueued.task).any (· = id) := by
    intro l
    rw [List.any_map]
    rfl
  rw [mapped, same, ← mapped]
  exact queued

theorem any_remove {queue : List Enqueued} {id other : Nat} (apart : other ≠ id)
    (queued : queue.any (·.task = other) = true) : (Queue.remove id queue).any (·.task = other) = true := by
  obtain ⟨enqueued, member, found⟩ := List.any_eq_true.mp queued
  have found : enqueued.task = other := by simpa using found
  exact List.any_eq_true.mpr ⟨enqueued, List.mem_filter.mpr ⟨member, by simpa [found] using apart⟩, by simpa using found⟩

theorem newTask_kept (kept : Kept 0 dc) {id : Nat} (new : dc.tasks.any (·.id = id) = false) :
    Kept 0 { dc with tasks := { id } :: dc.tasks } := by
  have sent : sentAt ({ id } :: dc.tasks) = sentAt dc.tasks := by
    funext i
    simp [sentAt, DownloadMtprotoTask.sentAt]
  have unchecked : uncheckedAt ({ id } :: dc.tasks) = uncheckedAt dc.tasks := by
    funext i
    simp [uncheckedAt, DownloadMtprotoTask.uncheckedAt]
  refine ⟨?_, List.forall_mem_cons.mpr ⟨List.nodup_nil, kept.distinct⟩,
    List.forall_mem_cons.mpr ⟨List.forall_mem_nil _, kept.earlier⟩,
    List.forall_mem_cons.mpr ⟨fun busy => by simp [DownloadMtprotoTask.haveSentRequests] at busy, kept.queued⟩, ?_⟩
  · dsimp only
    rw [sent, unchecked]
    exact kept.accounted
  · refine List.nodup_cons.mpr ⟨?_, kept.apart⟩
    intro member
    obtain ⟨t, inside, same⟩ := List.mem_map.mp member
    have : dc.tasks.any (·.id = id) = true := List.any_eq_true.mpr ⟨t, inside, by simpa using same⟩
    simp [this] at new

/-- After all requests of a task are cancelled nothing of it is under way. -/
theorem cancelAll_kept (kept : Kept 0 dc) (id : Nat) :
    Yields Allowed (fun dc' => Kept 0 dc' ∧ ∀ t ∈ dc'.tasks, t.id = id → t.haveSentRequests = false)
      (dc.withTask id fun o t => t.cancelAllRequests now o) := by
  obtain ⟨none, same⟩ | ⟨front, t, back, split, rfl, modified⟩ := withTask_cases dc id fun o t =>
    t.cancelAllRequests now o
  · rw [same]
    exact ⟨kept, fun t member here => absurd here (none t member)⟩
  · rw [modified]
    apply Yields.map
    apply (cancelAllRequests_goes (kept.held split)).imp
    rintro ⟨o', t'⟩ ⟨goes, idle⟩
    refine ⟨kept.put split goes.held goes.id goes.later fun busy => absurd busy (by simp [idle]), ?_⟩
    intro other member here
    have which : other ∈ front ++ back ∨ other = t' := by
      simp only [List.mem_append, List.mem_cons] at member ⊢
      tauto
    obtain inside | rfl := which
    · exact absurd here (kept.others_apart split inside)
    · exact idle

theorem sum_filter {p : DownloadMtprotoTask → Bool} {amount : DownloadMtprotoTask → Nat} {tasks : List DownloadMtprotoTask}
    (nothing : ∀ t ∈ tasks, p t = false → amount t = 0) :
    ((tasks.filter p).map amount).sum = (tasks.map amount).sum := by
  induction tasks with
  | nil => rfl
  | cons first rest ih =>
      have rest := ih fun t member => nothing t (List.mem_cons_of_mem _ member)
      cases stays : p first with
      | true => simp [stays, rest]
      | false => simp [stays, rest, nothing first List.mem_cons_self stays]

theorem dropTask_kept (kept : Kept 0 dc) {id : Nat} (idle : ∀ t ∈ dc.tasks, t.id = id → t.haveSentRequests = false) :
    Kept 0 { dc with tasks := dc.tasks.filter (·.id ≠ id) } := by
  have dropped : ∀ t ∈ dc.tasks, decide (t.id ≠ id) = false → t.sentRequests = [] ∧ t.cdnUncheckedParts = [] :=
    fun t member here => idle_iff.mp (idle t member (by simpa using here))
  have sent : sentAt (dc.tasks.filter (·.id ≠ id)) = sentAt dc.tasks := by
    funext i
    exact sum_filter fun t member here => by simp [DownloadMtprotoTask.sentAt, (dropped t member here).1]
  have unchecked : uncheckedAt (dc.tasks.filter (·.id ≠ id)) = uncheckedAt dc.tasks := by
    funext i
    exact sum_filter fun t member here => by simp [DownloadMtprotoTask.uncheckedAt, (dropped t member here).2]
  refine ⟨?_, fun t member => kept.distinct t (List.mem_of_mem_filter member),
    fun t member => kept.earlier t (List.mem_of_mem_filter member),
    fun t member => kept.queued t (List.mem_of_mem_filter member), ?_⟩
  · dsimp only
    rw [sent, unchecked]
    exact kept.accounted
  · exact kept.apart.sublist (List.filter_sublist.map _)

theorem send_kept (kept : Kept 0 dc) (id : Nat) (offset : Int) :
    Yields Allowed (Kept 0) (dc.trySendNextPart now id offset) := by
  obtain ⟨accounted, inside, -, next⟩ := kept.accounted.bestIndex
  have ready : Kept 0 { dc with owner := dc.owner.bestIndex.2 } :=
    ⟨accounted, kept.distinct, fun t member request sent => next.symm ▸ kept.earlier t member request sent, kept.queued,
      kept.apart⟩
  rw [trySendNextPart]
  dsimp only
  split
  · exact ready
  · rename_i best chosen
    split
    · rename_i queued
      exact withTask_kept ready id (fun sent unchecked t held => makeRequest_goes held (inside best chosen)) (.inl queued)
    · exact ready

theorem step_kept (kept : Kept 0 dc) {event : Event} (roomy : dc.RoomFor event) :
    Yields Allowed (Kept 0) (dc.step now event) := by
  cases event with
  | newTask id =>
      rw [step]
      split
      · exact kept
      · rename_i new
        exact newTask_kept kept (Bool.eq_false_iff.mpr new)
  | enqueue id priority => exact kept.withQueue fun t member busy queued => any_enqueue queued
  | resetGeneration =>
      apply Yields.map
      exact resetGeneration_tasks.imp fun queue same => kept.withQueue fun t member busy queued => any_of_tasks same queued
  | tryRemoveFromQueue id =>
      rw [step]
      split
      · exact kept
      · rename_i idle
        refine kept.withQueue fun t member busy queued => any_remove ?_ queued
        rintro rfl
        exact idle (List.any_eq_true.mpr ⟨t, member, by simp [busy]⟩)
  | stop id =>
      apply (cancelAll_kept kept id).bind
      rintro after ⟨afterKept, idle⟩
      refine afterKept.withQueue fun t member busy queued => any_remove ?_ queued
      intro here
      exact absurd busy (by simp [idle t member here])
  | destroy id =>
      apply (cancelAll_kept kept id).bind
      rintro after ⟨afterKept, idle⟩
      refine (dropTask_kept afterKept idle).withQueue fun t member busy queued => any_remove ?_ queued
      simpa using (List.mem_filter.mp member).2
  | send id offset => exact send_kept kept id offset
  | partLoaded id requestId fileCdnRedirect =>
      exact withTask_answered kept id fun sent unchecked o t held waiting =>
        normalPartLoaded_goes held waiting fileCdnRedirect
  | cdnPartLoaded id requestId hash =>
      exact withTask_answered kept id fun sent unchecked o t held waiting => cdnPartLoaded_goes held waiting hash
  | reuploadDone id requestId =>
      exact withTask_answered kept id fun sent unchecked o t held waiting => reuploadDone_goes held waiting
  | getCdnFileHashesDone id requestId hash fed =>
      exact withTask_answered kept id fun sent unchecked o t held waiting =>
        getCdnFileHashesDone_goes held waiting hash fed
  | cdnTokenInvalid id requestId =>
      exact withTask_answered kept id fun sent unchecked o t held waiting => cdnPartFailed_goes held waiting
  | refreshFileReferenceFrom id requestId =>
      refine withTask_kept kept id (fun sent unchecked t held => refreshFileReferenceFrom_goes held requestId)
        (.inr fun t idle => ?_)
      rw [DownloadMtprotoTask.refreshFileReferenceFrom, if_neg (by simp [(idle_iff.mp idle).1])]
      exact idle
  | cancelAllRequests id => exact (cancelAll_kept kept id).imp fun after done => done.1
  | cancelRequestForOffset id offset =>
      refine withTask_kept kept id (fun sent unchecked t held => cancelRequestForOffset_goes held offset)
        (.inr fun t idle => ?_)
      obtain ⟨noSent, noUnchecked⟩ := idle_iff.mp idle
      rw [DownloadMtprotoTask.cancelRequestForOffset, DownloadMtprotoTask.cancelSentForOffset, noSent]
      exact idle_iff.mpr ⟨noSent, by simp [noUnchecked]⟩
  | requestMoreCdnFileHashes id =>
      refine withTask_kept kept id (fun sent unchecked t held => requestMoreCdnFileHashes_goes held)
        (.inr fun t idle => ?_)
      rw [DownloadMtprotoTask.requestMoreCdnFileHashes.eq_def, (idle_iff.mp idle).2]
      cases t.cdnHashesRequestId <;> exact idle
  | sessionTimedOut index => exact sessionTimedOut_kept kept roomy
  | killSessions =>
      rw [step]
      split
      · rename_i due
        obtain ⟨owner, killed, accounted, next⟩ := kept.accounted.killSessions (by
          rintro none
          simp [none] at due)
        rw [killed]
        exact ⟨accounted, kept.distinct, fun t member request sent => next.symm ▸ kept.earlier t member request sent,
          kept.queued, kept.apart⟩
      · exact kept

theorem start_kept : Kept 0 ({} : Dc) :=
  ⟨⟨nofun, rfl, fun _ _ => ⟨rfl, rfl⟩, fun known => absurd rfl known, fun _ _ => rfl⟩, nofun, nofun, nofun,
    List.nodup_nil⟩

/-! ## Runs -/

/-- What the manager keeps of its sessions is what the tasks have in them. -/
structure Balanced (dc : Dc) : Prop where
  requested : ∀ i session, dc.owner.sessions[i]? = some session →
    session.requested = kDownloadPartSize * sentAt dc.tasks i
  total : dc.owner.totalRequested = (dc.owner.sessions.map DcSessionBalanceData.requested).sum
  sent : ∀ t ∈ dc.tasks, ∀ request ∈ t.sentRequests, request.data.sessionIndex < dc.owner.sessions.length
  unchecked : ∀ t ∈ dc.tasks, ∀ part ∈ t.cdnUncheckedParts, part.sessionIndex < dc.owner.sessions.length
  counted : dc.owner.balance ≠ none →
    1 ≤ dc.owner.sessions.length ∧ dc.owner.sessions.length ≤ kMaxSessionsCount

theorem Kept.balanced (kept : Kept 0 dc) : dc.Balanced where
  requested i session here := by
    have := kept.accounted.requested i session here
    rwa [ite_self, add_zero] at this
  total := by
    have := kept.accounted.total
    rwa [add_zero] at this
  sent t member request sent := by
    obtain ⟨front, back, split⟩ := List.append_of_mem member
    exact (kept.held split).inside_sent sent
  unchecked t member part there := by
    obtain ⟨front, back, split⟩ := List.append_of_mem member
    exact (kept.held split).inside_unchecked there
  counted := kept.accounted.counted

end Dc

/-- On the way there is room wherever a session is removed. -/
def RoomAlong (manager : DownloadManagerMtproto) : List (DcId × Int × Dc.Event) → Prop
  | [] => True
  | (dcId, now, event) :: rest =>
      (manager dcId).RoomFor event ∧
        match (manager dcId).step now event with
        | .ok dc => RoomAlong (Function.update manager dcId dc) rest
        | .error _ => True

instance (dc : Dc) : (event : Dc.Event) → Decidable (dc.RoomFor event)
  | .sessionTimedOut index =>
      inferInstanceAs (Decidable (∀ balance ∈ dc.owner.balance, Dc.removes balance index = true → dc.HasRoom))
  | .newTask _ | .enqueue _ _ | .resetGeneration | .tryRemoveFromQueue _ | .stop _ | .destroy _ | .send _ _
  | .partLoaded _ _ _ | .cdnPartLoaded _ _ _ | .reuploadDone _ _ | .getCdnFileHashesDone _ _ _ _
  | .cdnTokenInvalid _ _ | .refreshFileReferenceFrom _ _ | .cancelAllRequests _ | .cancelRequestForOffset _ _
  | .requestMoreCdnFileHashes _ | .killSessions => isTrue trivial

instance RoomAlong.decidable (manager : DownloadManagerMtproto) :
    (events : List (DcId × Int × Dc.Event)) → Decidable (RoomAlong manager events)
  | [] => isTrue trivial
  | (dcId, now, event) :: rest =>
      have : Decidable (match (manager dcId).step now event with
          | .ok dc => RoomAlong (Function.update manager dcId dc) rest
          | .error _ => True) :=
        match (manager dcId).step now event with
        | .ok dc => RoomAlong.decidable (Function.update manager dcId dc) rest
        | .error _ => isTrue trivial
      inferInstanceAs (Decidable (_ ∧ _))

theorem run_kept {manager : DownloadManagerMtproto} {events : List (DcId × Int × Dc.Event)}
    (kept : ∀ dcId, (manager dcId).Kept 0) (roomy : RoomAlong manager events) :
    Yields Allowed (fun manager => ∀ dcId, (manager dcId).Kept 0) (run manager events) := by
  induction events generalizing manager with
  | nil => exact kept
  | cons first rest ih =>
      obtain ⟨dcId, now, event⟩ := first
      obtain ⟨here, later⟩ := roomy
      have step := @Dc.step_kept now _ (kept dcId) event here
      rw [run]
      cases stepped : (manager dcId).step now event with
      | error failure =>
          rw [stepped] at step
          exact step
      | ok dc =>
          rw [stepped] at step later
          apply ih _ later
          intro other
          by_cases same : other = dcId
          · rw [same, Function.update_self]
            exact step
          · rw [Function.update_of_ne same]
            exact kept other

/-- The accounts are right after every run in which there is room for what is moved, and no expectation about
them fails. -/
theorem run_balanced (events : List (DcId × Int × Dc.Event)) (roomy : RoomAlong (fun _ => {}) events) :
    Yields Allowed (fun manager => ∀ dcId, (manager dcId).Balanced) (run (fun _ => {}) events) :=
  (run_kept (fun _ => Dc.start_kept) roomy).imp fun _ kept dcId => (kept dcId).balanced

/-! ## A removal without room -/

/-- Each answer comes so much later than the request. -/
def spaced (start delay : Int) (events : List Dc.Event) : List (DcId × Int × Dc.Event) :=
  events.zipIdx.map fun event => (2, start + delay * event.2, event.1)

def toCdn : CdnParams := ⟨203, [1], List.replicate ctrKeySize 0, List.replicate ctrIvecSize 0⟩

/-- A part waits for its hash in the first session while nothing is requested there: the request for the hashes
became one for the part. All answers are slow, but the only session is kept. -/
def leaveUnchecked (id : Nat) : List Dc.Event :=
  let request := 4 * id + 1
  [.newTask id, .enqueue id 0, .send id 0, .partLoaded id request (some toCdn), .sessionTimedOut 0,
    .cdnPartLoaded id (request + 1) (some .noHash), .sessionTimedOut 0, .cdnTokenInvalid id (request + 2),
    .partLoaded id (request + 3) none, .sessionTimedOut 0]

/-- With the next part the hashes are asked for again, in the session of the first. -/
def askAgain (tasks id : Nat) : List Dc.Event :=
  let request := 4 * tasks + 3 * id + 1
  [.send id kDownloadPartSize, .partLoaded id request (some toCdn), .cdnPartLoaded id (request + 1) (some .noHash)]

/-- The last two tasks get their answers slowly again. -/
def manyTasks (tasks : Nat) : List (DcId × Int × Dc.Event) :=
  spaced 1 9000 ((List.range tasks).flatMap leaveUnchecked) ++
    spaced 20000000 1 ((List.range (tasks - 2)).flatMap (askAgain tasks)) ++
    spaced 30000000 9000 (askAgain tasks (tasks - 2) ++ askAgain tasks (tasks - 1) ++
      List.replicate 4 (.sessionTimedOut 1))

theorem manyTasks_balanced :
    RoomAlong (fun _ => {}) (manyTasks 4) ∧
      Yields Allowed (fun manager => ∀ dcId, (manager dcId).Balanced) (run (fun _ => {}) (manyTasks 4)) :=
  ⟨by decide +kernel, run_balanced (manyTasks 4) (by decide +kernel)⟩

/-- A request for hashes is not counted against the limit of a session. With one more of them in the first session
than what is added to the second, the second is the best place for what is moved off it. -/
theorem manyTasks_noRoom : run (fun _ => {}) (manyTasks 129) = .error .removeSession :=
  eq_error (by decide +kernel)

end IMeDesktop.Storage.Download
