import IMeDesktop.Storage.DownloadManager

/-! # The accounts of a data centre

What is requested in a session is what the requests of the tasks amount to, every session
that is written down somewhere exists, and the sessions are only stopped when nothing is
requested. Here is what the operations on the balance do to these accounts.
-/

namespace IMeDesktop.Storage.Download

open Lib

/-- The expectations that the accounts do not speak of. -/
def Allowed (failure : Assertion) : Prop :=
  failure = .placeSentRequest ∨ failure = .getCdnFileHashesDone ∨ failure = .resetGeneration

/-- `sent` and `unchecked` are the numbers of requests and of unchecked parts in each session;
`extra` is what is added to the last session while it is removed. -/
structure Accounted (extra : Int) (o : Owner) (sent unchecked : Nat → Nat) : Prop where
  requested : ∀ i session, o.sessions[i]? = some session →
    session.requested = kDownloadPartSize * sent i + if i + 1 = o.sessions.length then extra else 0
  total : o.totalRequested + extra = (o.sessions.map DcSessionBalanceData.requested).sum
  inside : ∀ i, o.sessions.length ≤ i → sent i = 0 ∧ unchecked i = 0
  counted : o.balance ≠ none → 1 ≤ o.sessions.length ∧ o.sessions.length ≤ kMaxSessionsCount
  idle : o.killSessionsWhen ≠ none → ∀ i, sent i = 0

def more (count : Nat → Nat) (index : Nat) : Nat → Nat := fun i => count i + if i = index then 1 else 0

def less (count : Nat → Nat) (index : Nat) : Nat → Nat := fun i => count i - if i = index then 1 else 0

namespace Owner

theorem sessions_some {o : Owner} {dc : DcBalanceData} (known : o.balance = some dc) : o.sessions = dc.sessions := by
  rw [sessions, known]
  rfl

theorem exists_balance {o : Owner} {index : Nat} (inside : index < o.sessions.length) : ∃ dc, o.balance = some dc := by
  cases known : o.balance with
  | none => simp [sessions, known] at inside
  | some dc => exact ⟨dc, rfl⟩

theorem sum_set {sessions : List DcSessionBalanceData} {index : Nat} {session : DcSessionBalanceData}
    (here : sessions[index]? = some session) (changed : DcSessionBalanceData) :
    ((sessions.set index changed).map DcSessionBalanceData.requested).sum =
      (sessions.map DcSessionBalanceData.requested).sum + (changed.requested - session.requested) := by
  obtain ⟨front, back, rfl, rfl⟩ := Lib.split_at here
  simp only [List.set_append_right _ _ (le_refl _), Nat.sub_self, List.set_cons_zero, List.map_append, List.map_cons,
    List.sum_append, List.sum_cons]
  ring

/-- The kinds of change to an amount, with the session that it belongs to. -/
theorem changeRequestedAmount_eq {now : Int} {o : Owner} {index : Nat} {delta : Int}
    (inside : index < o.sessions.length) :
    ∃ dc session, o.balance = some dc ∧ dc.sessions[index]? = some session ∧
      o.changeRequestedAmount now index delta = .ok (session.requested + delta,
        let changed := dc.sessions.set index { session with requested := session.requested + delta }
        let o' : Owner :=
          { o with balance := some { dc with sessions := changed, totalRequested := dc.totalRequested + delta } }
        if delta > 0 then o'.killSessionsCancel
        else if changed.any (·.requested > 0) then o'
        else o'.killSessionsSchedule now) := by
  obtain ⟨dc, known⟩ := exists_balance inside
  rw [sessions_some known] at inside
  refine ⟨dc, dc.sessions[index], known, List.getElem?_eq_getElem inside, ?_⟩
  simp only [changeRequestedAmount, known, List.getElem?_eq_getElem inside]

/-- A change of an amount goes with the change of the number of requests. -/
theorem changeRequestedAmount_accounted {now extra delta : Int} {o : Owner} {index : Nat}
    {sent sent' unchecked : Nat → Nat} (accounted : Accounted extra o sent unchecked) (nonneg : 0 ≤ extra)
    (inside : index < o.sessions.length)
    (moved : ∀ i, kDownloadPartSize * sent' i = kDownloadPartSize * sent i + if i = index then delta else 0)
    (direction : delta > 0 ∨ ∀ i, sent' i ≤ sent i) :
    ∃ amount o', o.changeRequestedAmount now index delta = .ok (amount, o') ∧ Accounted extra o' sent' unchecked ∧
      o'.sessions.length = o.sessions.length ∧ o'.nextRequestId = o.nextRequestId := by
  obtain ⟨dc, session, known, here, result⟩ := @changeRequestedAmount_eq now o index delta inside
  rw [result]
  refine ⟨_, _, rfl, ?_⟩
  have same := sessions_some known
  set changed := dc.sessions.set index { session with requested := session.requested + delta } with changedDef
  set o' : Owner :=
    { o with balance := some { dc with sessions := changed, totalRequested := dc.totalRequested + delta } } with oDef
  have sessions' : o'.sessions = changed := rfl
  have length' : changed.length = o.sessions.length := by rw [changedDef, List.length_set, same]
  have requested' : ∀ i other, changed[i]? = some other →
      other.requested = kDownloadPartSize * sent' i + if i + 1 = changed.length then extra else 0 := by
    intro i other found
    rw [length', moved i]
    by_cases at' : i = index
    · subst at'
      rw [changedDef, List.getElem?_set_self (same ▸ inside)] at found
      have before := accounted.requested i session (same ▸ here)
      simp only [Option.some.injEq] at found
      subst found
      simp only [before, if_pos]
      ring
    · rw [changedDef, List.getElem?_set_ne (Ne.symm at')] at found
      rw [accounted.requested i other (same ▸ found), if_neg at', add_zero]
  have outside : ∀ i, o.sessions.length ≤ i → sent' i = 0 := by
    intro i beyond
    have := moved i
    rw [if_neg (by omega), (accounted.inside i beyond).1, show kDownloadPartSize = 131072 from rfl] at this
    omega
  have counted := accounted.counted (by simp [known])
  have accounted' : ∀ timer : Option Int, (timer ≠ none → ∀ i, sent' i = 0) →
      Accounted extra { o' with killSessionsWhen := timer } sent' unchecked := by
    intro timer idle
    refine ⟨requested', ?_, ?_, ?_, idle⟩
    · have total := accounted.total
      rw [same] at total
      have before : o.totalRequested = dc.totalRequested := by simp [totalRequested, known]
      change dc.totalRequested + delta + extra = (changed.map DcSessionBalanceData.requested).sum
      rw [changedDef, sum_set here]
      simp only
      omega
    · intro i beyond
      change changed.length ≤ i at beyond
      rw [length'] at beyond
      exact ⟨outside i beyond, (accounted.inside i beyond).2⟩
    · intro _
      change 1 ≤ changed.length ∧ changed.length ≤ kMaxSessionsCount
      rw [length']
      exact counted
  by_cases positive : delta > 0
  · rw [if_pos positive]
    exact ⟨accounted' none (by simp), length', rfl⟩
  · have fewer : ∀ i, sent' i ≤ sent i := direction.resolve_left positive
    rw [if_neg positive]
    by_cases busy : changed.any (·.requested > 0) = true
    · rw [if_pos busy]
      refine ⟨accounted' o.killSessionsWhen fun timer i => ?_, length', rfl⟩
      have := accounted.idle timer i
      have := fewer i
      omega
    · rw [if_neg busy]
      refine ⟨accounted' (o.killSessionsWhen.or (some (now + kKillSessionTimeout))) fun _ i => ?_, length', rfl⟩
      by_cases within : i < changed.length
      · have nothing : changed[i].requested ≤ 0 := by
          simp only [List.any_eq_true, decide_eq_true_eq, not_exists, not_and, not_lt] at busy
          exact busy _ (List.getElem_mem within)
        have amount := requested' i changed[i] (List.getElem?_eq_getElem within)
        rw [show kDownloadPartSize = 131072 from rfl] at amount
        split at amount <;> omega
      · exact outside i (by omega)

theorem changeRequestedAmount_more (now : Int) {extra : Int} {o : Owner} {index : Nat} {sent unchecked : Nat → Nat}
    (accounted : Accounted extra o sent unchecked) (nonneg : 0 ≤ extra) (inside : index < o.sessions.length) :
    ∃ amount o', o.changeRequestedAmount now index kDownloadPartSize = .ok (amount, o') ∧
      Accounted extra o' (more sent index) unchecked ∧ o'.sessions.length = o.sessions.length ∧
      o'.nextRequestId = o.nextRequestId := by
  apply changeRequestedAmount_accounted accounted nonneg inside
  · intro i
    rw [more]
    split <;> push_cast <;> ring
  · exact .inl (by decide)

theorem changeRequestedAmount_less (now : Int) {extra : Int} {o : Owner} {index : Nat} {sent unchecked : Nat → Nat}
    (accounted : Accounted extra o sent unchecked) (nonneg : 0 ≤ extra) (some : 0 < sent index) :
    ∃ amount o', o.changeRequestedAmount now index (-kDownloadPartSize) = .ok (amount, o') ∧
      Accounted extra o' (less sent index) unchecked ∧ o'.sessions.length = o.sessions.length ∧
      o'.nextRequestId = o.nextRequestId := by
  have inside : index < o.sessions.length := by
    by_contra beyond
    have := (accounted.inside index (by omega)).1
    omega
  apply changeRequestedAmount_accounted accounted nonneg inside
  · intro i
    rw [less, show kDownloadPartSize = 131072 from rfl]
    split
    · rename_i here
      subst here
      omega
    · omega
  · exact .inr fun i => Nat.sub_le _ _

end Owner

namespace Accounted

variable {extra : Int} {o o' : Owner} {sent unchecked : Nat → Nat}

/-- What else is noted of the sessions is not accounted for. -/
theorem congr (accounted : Accounted extra o sent unchecked)
    (same : o'.sessions.map DcSessionBalanceData.requested = o.sessions.map DcSessionBalanceData.requested)
    (total : o'.totalRequested = o.totalRequested) (known : o'.balance ≠ none → o.balance ≠ none)
    (timer : o'.killSessionsWhen = o.killSessionsWhen) : Accounted extra o' sent unchecked := by
  have length : o'.sessions.length = o.sessions.length := by simpa using congrArg List.length same
  refine ⟨?_, ?_, ?_, ?_, ?_⟩
  · intro i session found
    have each := congrArg (·[i]?) same
    simp only [List.getElem?_map, found, Option.map_some] at each
    obtain ⟨before, here, amount⟩ := Option.map_eq_some_iff.mp each.symm
    rw [← amount, accounted.requested i before here, length]
  · rw [total, same]
    exact accounted.total
  · rw [length]
    exact accounted.inside
  · rw [length]
    exact fun some => accounted.counted (known some)
  · rw [timer]
    exact accounted.idle

/-- A session is added; nothing is requested in it. -/
theorem addSession (accounted : Accounted 0 o sent unchecked) {added : DcSessionBalanceData}
    (sessions : o'.sessions = o.sessions ++ [added]) (nothing : added.requested = 0)
    (total : o'.totalRequested = o.totalRequested) (timer : o'.killSessionsWhen = o.killSessionsWhen)
    (room : o.sessions.length < kMaxSessionsCount) : Accounted 0 o' sent unchecked := by
  have length : o'.sessions.length = o.sessions.length + 1 := by simp [sessions]
  refine ⟨?_, ?_, ?_, ?_, ?_⟩
  · intro i session found
    have requested : session.requested = kDownloadPartSize * sent i := by
      rw [sessions, List.getElem?_append] at found
      split at found
      · simpa using accounted.requested i session found
      · rename_i beyond
        have : session = added := by
          have := List.mem_of_getElem? found
          simpa using this
        rw [this, nothing, (accounted.inside i (by omega)).1]
        rfl
    simp [requested]
  · rw [total, sessions, List.map_append, List.sum_append]
    simpa [nothing] using accounted.total
  · intro i beyond
    exact accounted.inside i (by omega)
  · intro _
    omega
  · rw [timer]
    exact accounted.idle

@[simp]
theorem succeeded_requested (data : DcSessionBalanceData) (amount : Int) :
    (data.succeeded amount).requested = data.requested := rfl

theorem requestSucceeded (accounted : Accounted 0 o sent unchecked) {now : Int} {index : Nat}
    (inside : index < o.sessions.length) (amountAtRequestStart timeAtRequestStart : Int) :
    ∃ o', o.requestSucceeded now index amountAtRequestStart timeAtRequestStart = .ok o' ∧
      Accounted 0 o' sent unchecked ∧ o.sessions.length ≤ o'.sessions.length ∧ o'.nextRequestId = o.nextRequestId := by
  obtain ⟨dc, known⟩ := Owner.exists_balance inside
  have same := Owner.sessions_some known
  have total : o.totalRequested = dc.totalRequested := by simp [Owner.totalRequested, known]
  rw [same] at inside
  -- Only the successes and the limits of the sessions change.
  have kept : ∀ dc' : DcBalanceData, dc'.sessions.map DcSessionBalanceData.requested =
      dc.sessions.map DcSessionBalanceData.requested → dc'.totalRequested = dc.totalRequested →
      Accounted 0 { o with balance := some dc' } sent unchecked ∧ dc'.sessions.length = o.sessions.length := by
    intro dc' each all
    refine ⟨accounted.congr ?_ ?_ (by simp [known]) rfl, ?_⟩
    · rw [same]
      exact each
    · rw [total]
      exact all
    · rw [same]
      simpa using congrArg List.length each
  have result : ∀ dc' : DcBalanceData, dc'.sessions.map DcSessionBalanceData.requested =
      dc.sessions.map DcSessionBalanceData.requested → dc'.totalRequested = dc.totalRequested →
      ∃ o', (Except.ok { o with balance := some dc' } : Attempt Owner) = .ok o' ∧ Accounted 0 o' sent unchecked ∧
        o.sessions.length ≤ o'.sessions.length ∧ o'.nextRequestId = o.nextRequestId := by
    intro dc' each all
    obtain ⟨accounted', length⟩ := kept dc' each all
    exact ⟨_, rfl, accounted', length.ge, rfl⟩
  simp only [Owner.requestSucceeded, known, List.getElem?_eq_getElem inside]
  split
  · exact ⟨o, rfl, accounted, le_rfl, rfl⟩
  split
  · exact ⟨o, rfl, accounted, le_rfl, rfl⟩
  have each : (dc.sessions.set index (dc.sessions[index].succeeded amountAtRequestStart)).map
      DcSessionBalanceData.requested = dc.sessions.map DcSessionBalanceData.requested := by
    rw [List.map_set]
    have bound : index < (dc.sessions.map DcSessionBalanceData.requested).length := by simpa using inside
    have same : (dc.sessions[index].succeeded amountAtRequestStart).requested =
        (dc.sessions.map DcSessionBalanceData.requested)[index] := by simp [succeeded_requested]
    rw [same]
    exact List.set_getElem_self _
  generalize dc.sessions.set index (dc.sessions[index].succeeded amountAtRequestStart) = changed at each
  have forgotten : (changed.map fun session => { session with successes := 0 }).map DcSessionBalanceData.requested =
      dc.sessions.map DcSessionBalanceData.requested := by
    rw [List.map_map, ← each]
    rfl
  split
  · exact result _ each rfl
  split
  · exact result _ forgotten rfl
  split
  · exact result _ forgotten rfl
  rename_i notFull
  split
  · exact result _ forgotten rfl
  · obtain ⟨before, length⟩ := kept { dc with sessions := changed.map fun session => { session with successes := 0 } }
      forgotten rfl
    refine ⟨_, rfl, before.addSession rfl rfl rfl rfl ?_, ?_, rfl⟩
    · have most := (accounted.counted (by simp [known])).2
      have : (changed.map fun session => { session with successes := 0 }).length = o.sessions.length := length
      exact lt_of_le_of_ne (this ▸ most) notFull
    · exact (length.ge).trans (by simp [Owner.sessions])

theorem sum_eq_zero {l : List DcSessionBalanceData} (nothing : ∀ session ∈ l, session.requested = 0) :
    (l.map DcSessionBalanceData.requested).sum = 0 := by
  induction l with
  | nil => rfl
  | cons session rest ih =>
      rw [List.map_cons, List.sum_cons, nothing session List.mem_cons_self,
        ih fun other member => nothing other (List.mem_cons_of_mem _ member), add_zero]

/-- Nothing is requested in a data centre whose sessions are to be stopped. -/
theorem nothingRequested (accounted : Accounted 0 o sent unchecked) (none : ∀ i, sent i = 0) :
    (∀ session ∈ o.sessions, session.requested = 0) ∧ o.totalRequested = 0 := by
  have each : ∀ session ∈ o.sessions, session.requested = 0 := by
    intro session member
    obtain ⟨i, here⟩ := List.getElem?_of_mem member
    simpa [none i] using accounted.requested i session here
  have total := accounted.total
  rw [sum_eq_zero each, add_zero] at total
  exact ⟨each, total⟩

theorem killSessions (accounted : Accounted 0 o sent unchecked) (timer : o.killSessionsWhen ≠ none) :
    ∃ o', o.killSessions = .ok o' ∧ Accounted 0 o' sent unchecked ∧ o'.nextRequestId = o.nextRequestId := by
  have none := accounted.idle timer
  obtain ⟨each, total⟩ := accounted.nothingRequested none
  rw [Owner.killSessions]
  cases known : o.balance with
  | none =>
      have inside : ∀ i, sent i = 0 ∧ unchecked i = 0 := fun i => accounted.inside i (by simp [Owner.sessions, known])
      exact ⟨_, rfl, ⟨by simp [Owner.sessions], by simp [Owner.sessions, Owner.totalRequested], fun i _ => inside i,
        by simp, by simp⟩, rfl⟩
  | some dc =>
      have same := Owner.sessions_some known
      rw [same] at each
      have zero : dc.totalRequested = 0 := by simpa [Owner.totalRequested, known] using total
      dsimp only
      rw [if_neg (by simpa using zero), if_neg (by simpa using each)]
      refine ⟨_, rfl, ?_, rfl⟩
      have length : (dc.sessions.map fun _ => ({} : DcSessionBalanceData)).length = o.sessions.length := by
        rw [same, List.length_map]
      refine ⟨?_, ?_, ?_, ?_, by simp⟩
      · intro i session found
        obtain ⟨-, -, rfl⟩ := List.getElem?_map .. ▸ found |> Option.map_eq_some_iff.mp
        simp [none i]
      · rw [add_zero]
        exact (sum_eq_zero (by simp [Owner.sessions])).symm
      · intro i beyond
        exact accounted.inside i (length ▸ beyond)
      · intro _
        have := accounted.counted (by simp [known])
        exact length.symm ▸ this

theorem bestIndex (accounted : Accounted 0 o sent unchecked) :
    Accounted 0 o.bestIndex.2 sent unchecked ∧ (∀ i ∈ o.bestIndex.1, i < o.bestIndex.2.sessions.length) ∧
      o.sessions.length ≤ o.bestIndex.2.sessions.length ∧ o.bestIndex.2.nextRequestId = o.nextRequestId := by
  have found : ∀ i ∈ o.bestIndex.1, i < o.bestIndex.2.sessions.length := by
    intro i chosen
    simp only [Owner.bestIndex, Option.mem_def] at chosen
    split at chosen
    · rename_i session here
      split at chosen
      · cases chosen
        exact (List.getElem?_eq_some_iff.mp here).1
      · cases chosen
    · cases chosen
  have kept : Accounted 0 o.bestIndex.2 sent unchecked ∧ o.sessions.length ≤ o.bestIndex.2.sessions.length := by
    cases known : o.balance with
    | some dc =>
        have same : o.bestIndex.2 = o := by
          simp only [Owner.bestIndex, known, Option.getD_some]
          rw [← known]
        rw [same]
        exact ⟨accounted, le_rfl⟩
    | none =>
        have inside : ∀ i, sent i = 0 ∧ unchecked i = 0 :=
          fun i => accounted.inside i (by simp [Owner.sessions, known])
        have sessions : o.bestIndex.2.sessions = [{}] := by simp [Owner.bestIndex, Owner.sessions, known]; rfl
        refine ⟨⟨?_, ?_, fun i _ => inside i, ?_, accounted.idle⟩, by simp [Owner.sessions, known]⟩
        · intro i session here
          rw [sessions] at here
          have only : session = {} := by simpa using List.mem_of_getElem? here
          simp [only, (inside i).1]
        · rw [sessions]
          simp [Owner.bestIndex, Owner.totalRequested, known]
        · intro _
          rw [sessions]
          decide
  exact ⟨kept.1, found, kept.2, rfl⟩

end Accounted

theorem exists_least {α : Type} (proj : α → Int) {l : List α} (some : l ≠ []) : ∃ a ∈ l, ∀ b ∈ l, proj a ≤ proj b := by
  induction l with
  | nil => exact absurd rfl some
  | cons first rest ih =>
      by_cases alone : rest = []
      · exact ⟨first, List.mem_cons_self, by simp [alone]⟩
      · obtain ⟨least, member, less⟩ := ih alone
        by_cases smaller : proj first ≤ proj least
        · refine ⟨first, List.mem_cons_self, List.forall_mem_cons.mpr ⟨le_rfl, fun b inside => ?_⟩⟩
          exact smaller.trans (less b inside)
        · exact ⟨least, List.mem_cons_of_mem _ member, List.forall_mem_cons.mpr ⟨by omega, less⟩⟩

/-- The first of the smallest: what stands before it is larger than something. -/
theorem minElement_spec {α : Type} {proj : α → Int} {l : List α} (some : l ≠ []) :
    ∃ inside : minElement proj l < l.length, (∀ b ∈ l, proj l[minElement proj l] ≤ proj b) ∧
      ∀ i, ∀ before : i < minElement proj l, ∃ b ∈ l, proj b < proj l[i] := by
  have found : ∃ a ∈ l, (l.all fun b => proj a ≤ proj b) = true := by
    obtain ⟨a, member, least⟩ := exists_least proj some
    exact ⟨a, member, by simpa using least⟩
  have inside : minElement proj l < l.length := List.findIdx_lt_length_of_exists found
  refine ⟨inside, ?_, ?_⟩
  · have least : (l.all fun b => proj l[minElement proj l] ≤ proj b) = true := List.findIdx_getElem (w := inside)
    simpa using least
  · intro i before
    have notLeast := List.not_of_lt_findIdx before
    simpa using notLeast

/-- As many parts as `redirecting` stands for. -/
def redirectingParts : Nat := 128

/-- How many parts the sessions before one can take, none of them going above `redirecting`
by more than a part. -/
def room (sent : Nat → Nat) : Nat → Nat
  | 0 => 0
  | k + 1 => room sent k + (redirectingParts + 1 - sent k)

theorem room_congr {sent other : Nat → Nat} {k : Nat} (same : ∀ i < k, sent i = other i) : room sent k = room other k := by
  induction k with
  | zero => rfl
  | succ k ih => rw [room, room, ih fun i below => same i (by omega), same k (by omega)]

theorem room_more {sent : Nat → Nat} {j k : Nat} (inside : j < k) (low : sent j ≤ redirectingParts) :
    room (more sent j) k + 1 = room sent k := by
  induction k with
  | zero => omega
  | succ k ih =>
      rw [room, room]
      by_cases last : j = k
      · subst last
        have before : room (more sent j) j = room sent j := room_congr fun i below => by simp [more, Nat.ne_of_lt below]
        simp only [more, if_pos]
        omega
      · have before := ih (by omega)
        simp only [more, if_neg (Ne.symm last)]
        omega

theorem exists_low {sent : Nat → Nat} {k : Nat} (some : 0 < room sent k) : ∃ j < k, sent j ≤ redirectingParts := by
  induction k with
  | zero => simp [room] at some
  | succ k ih =>
      by_cases low : sent k ≤ redirectingParts
      · exact ⟨k, by omega, low⟩
      · obtain ⟨j, below, lower⟩ := ih (by rw [room] at some; omega)
        exact ⟨j, by omega, lower⟩

/-- As long as there is room, another session is found for what is in the last one. -/
theorem Accounted.otherSession {o : Owner} {sent unchecked : Nat → Nat} {k : Nat}
    (accounted : Accounted redirecting o sent unchecked) (last : k + 1 = o.sessions.length) (some : 0 < room sent k) :
    ∃ j, DownloadMtprotoTask.otherSession o k = .ok j ∧ j < k ∧ sent j ≤ redirectingParts := by
  obtain ⟨low, below, few⟩ := exists_low some
  obtain ⟨dc, known⟩ := @Owner.exists_balance o k (by omega)
  have same := Owner.sessions_some known
  have amount : ∀ i (inside : i < dc.sessions.length), dc.sessions[i].requested =
      131072 * sent i + if i = k then 16777216 else 0 := by
    intro i inside
    have requested := accounted.requested i dc.sessions[i] (by rw [same]; exact List.getElem?_eq_getElem inside)
    rw [requested, show kDownloadPartSize = 131072 from rfl, show redirecting = 16777216 from rfl]
    by_cases here : i = k
    · rw [if_pos here, if_pos (by omega)]
    · rw [if_neg here, if_neg (by omega)]
  rw [same] at last
  have lowInside : low < dc.sessions.length := by omega
  have lowAmount := amount low lowInside
  rw [if_neg (by omega)] at lowAmount
  have few : sent low ≤ 128 := few
  obtain ⟨inside, least, first⟩ := @minElement_spec _ DcSessionBalanceData.requested dc.sessions
    (List.ne_nil_of_length_pos (by omega))
  have atMost := least _ (List.getElem_mem lowInside)
  have leastAmount := amount _ inside
  have before : minElement DcSessionBalanceData.requested dc.sessions < k := by
    by_contra notBefore
    have here : minElement DcSessionBalanceData.requested dc.sessions = k := by omega
    rw [if_pos here] at leastAmount
    obtain ⟨b, member, smaller⟩ := first low (by omega)
    have := least b member
    omega
  rw [if_neg (by omega)] at leastAmount
  refine ⟨_, ?_, before, ?_⟩
  · simp only [DownloadMtprotoTask.otherSession, Owner.chooseSessionIndex, known]
    exact if_pos before
  · change _ ≤ 128
    omega

end IMeDesktop.Storage.Download
