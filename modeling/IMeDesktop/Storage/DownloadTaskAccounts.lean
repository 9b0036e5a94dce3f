import IMeDesktop.Storage.DownloadAccounts

/-! # What a task does to the accounts

A task is looked at beside all others of its data centre, of which only the numbers of their
requests and unchecked parts in each session matter. A request that is sent or finished
changes the accounts together with the task; what else a task does is put together from
these two.
-/

namespace IMeDesktop.Storage.Download

open Lib

namespace DownloadMtprotoTask

def sentAt (t : DownloadMtprotoTask) (i : Nat) : Nat := t.sentRequests.countP (·.data.sessionIndex = i)

def uncheckedAt (t : DownloadMtprotoTask) (i : Nat) : Nat := t.cdnUncheckedParts.countP (·.sessionIndex = i)

end DownloadMtprotoTask

/-- A task with its share of the accounts; `sent` and `unchecked` are what the others have. -/
structure Held (extra : Int) (sent unchecked : Nat → Nat) (o : Owner) (t : DownloadMtprotoTask) : Prop where
  accounted : Accounted extra o (fun i => sent i + t.sentAt i) (fun i => unchecked i + t.uncheckedAt i)
  distinct : (t.sentRequests.map SentRequest.id).Nodup
  earlier : ∀ request ∈ t.sentRequests, request.id < o.nextRequestId

namespace Held

variable {extra now : Int} {sent unchecked : Nat → Nat} {o : Owner} {t : DownloadMtprotoTask}

theorem inside_sent (held : Held extra sent unchecked o t) {request : SentRequest} (member : request ∈ t.sentRequests) :
    request.data.sessionIndex < o.sessions.length := by
  by_contra beyond
  have none := (held.accounted.inside request.data.sessionIndex (by omega)).1
  have some : 0 < t.sentAt request.data.sessionIndex := List.countP_pos_iff.mpr ⟨request, member, by simp⟩
  omega

theorem inside_unchecked (held : Held extra sent unchecked o t) {part : RequestData}
    (member : part ∈ t.cdnUncheckedParts) : part.sessionIndex < o.sessions.length := by
  by_contra beyond
  have none := (held.accounted.inside part.sessionIndex (by omega)).2
  have some : 0 < t.uncheckedAt part.sessionIndex := List.countP_pos_iff.mpr ⟨part, member, by simp⟩
  omega

/-- The unchecked parts may be others, as long as their sessions exist. -/
theorem withUnchecked (held : Held extra sent unchecked o t) {parts : List RequestData}
    (inside : ∀ part ∈ parts, part.sessionIndex < o.sessions.length) :
    Held extra sent unchecked o { t with cdnUncheckedParts := parts } := by
  refine ⟨⟨held.accounted.requested, held.accounted.total, ?_, held.accounted.counted, held.accounted.idle⟩,
    held.distinct, held.earlier⟩
  intro i beyond
  have before := held.accounted.inside i beyond
  have none : parts.countP (·.sessionIndex = i) = 0 := by
    rw [List.countP_eq_zero]
    intro part member
    have := inside part member
    simp only [decide_eq_true_eq]
    omega
  have other : unchecked i = 0 := by omega
  exact ⟨before.1, by simp [DownloadMtprotoTask.uncheckedAt, none, other]⟩

theorem nextRequest (held : Held extra sent unchecked o t) :
    Held extra sent unchecked { o with nextRequestId := o.nextRequestId + 1 } t :=
  ⟨held.accounted.congr rfl rfl id rfl, held.distinct, fun request member => Nat.lt_succ_of_lt (held.earlier request member)⟩

end Held

/-- The share of a task after a request was sent; the session has one more. -/
structure Placed (o : Owner) (t : DownloadMtprotoTask) (sessionIndex : Nat) (o' : Owner) (t' : DownloadMtprotoTask) :
    Prop where
  sessions : o'.sessions.length = o.sessions.length
  request : ∃ request, request.data.sessionIndex = sessionIndex ∧ t'.sentRequests = t.sentRequests ++ [request] ∧
    request.id < o'.nextRequestId ∧ ∀ other ∈ t.sentRequests, other.id ≠ request.id
  later : o.nextRequestId ≤ o'.nextRequestId
  id : t'.id = t.id
  cdn : t'.cdn = t.cdn
  unchecked : t'.cdnUncheckedParts = t.cdnUncheckedParts
  hashes : t'.cdnHashesRequestId = t.cdnHashesRequestId

theorem Placed.sentAt {o o' : Owner} {t t' : DownloadMtprotoTask} {index : Nat} (placed : Placed o t index o' t') :
    t'.sentAt = more t.sentAt index := by
  obtain ⟨request, rfl, sent, -⟩ := placed.request
  funext i
  simp [DownloadMtprotoTask.sentAt, sent, List.countP_append, more, List.countP_singleton, eq_comm]

/-- The share of a task after a request was finished; its session has one less. -/
structure Finished (o : Owner) (t : DownloadMtprotoTask) (request : SentRequest) (o' : Owner)
    (t' : DownloadMtprotoTask) : Prop where
  sessions : o.sessions.length ≤ o'.sessions.length
  sentRequests : t'.sentRequests = t.sentRequests.eraseP (·.id = request.id)
  sentAt : t'.sentAt = less t.sentAt request.data.sessionIndex
  next : o'.nextRequestId = o.nextRequestId
  id : t'.id = t.id
  cdn : t'.cdn = t.cdn
  unchecked : t'.cdnUncheckedParts = t.cdnUncheckedParts
  hashes : t'.cdnHashesRequestId = if t.cdnHashesRequestId = some request.id then none else t.cdnHashesRequestId

section Sending

variable {extra now : Int} {sent unchecked : Nat → Nat} {o : Owner} {t : DownloadMtprotoTask}

theorem placeSentRequest_held (held : Held extra sent unchecked o t) (nonneg : 0 ≤ extra) {requestId : Nat}
    {callback : Callback} {requestData : RequestData} (inside : requestData.sessionIndex < o.sessions.length)
    (fresh : ∀ other ∈ t.sentRequests, other.id ≠ requestId) (low : requestId < o.nextRequestId) :
    Yields Allowed (fun result => Held extra sent unchecked result.1 result.2 ∧
      Placed o t requestData.sessionIndex result.1 result.2)
      (t.placeSentRequest now o requestId callback requestData) := by
  obtain ⟨amount, o', changed, accounted, length, next⟩ :=
    Owner.changeRequestedAmount_more now held.accounted nonneg inside
  rw [DownloadMtprotoTask.placeSentRequest, changed]
  dsimp only [bind, Except.bind]
  split
  · exact .inl rfl
  · set request : SentRequest := ⟨requestId, callback, { requestData with requestedInSession := amount, sent := now }⟩
    have placed : Placed o t requestData.sessionIndex o' { t with sentRequests := t.sentRequests ++ [request] } :=
      ⟨length, ⟨request, rfl, rfl, next ▸ low, fresh⟩, next.ge, rfl, rfl, rfl, rfl⟩
    refine ⟨⟨?_, ?_, ?_⟩, placed⟩
    · have same : (fun i => sent i + more t.sentAt requestData.sessionIndex i) =
          more (fun i => sent i + t.sentAt i) requestData.sessionIndex := by
        funext i
        simp [more, Nat.add_assoc]
      rw [placed.sentAt, same]
      exact accounted
    · rw [List.map_append, List.map_singleton]
      refine List.nodup_append.mpr ⟨held.distinct, List.nodup_singleton _, ?_⟩
      intro a inside b here
      obtain ⟨other, member, rfl⟩ := List.mem_map.mp inside
      rw [List.mem_singleton.mp here]
      exact fresh other member
    · intro other member
      obtain member | member := List.mem_append.mp member
      · exact next ▸ held.earlier other member
      · rw [List.mem_singleton.mp member]
        exact next ▸ low

theorem makeRequest_held (held : Held extra sent unchecked o t) (nonneg : 0 ≤ extra) {requestData : RequestData}
    (inside : requestData.sessionIndex < o.sessions.length) :
    Yields Allowed (fun result => Held extra sent unchecked result.1 result.2 ∧
      Placed o t requestData.sessionIndex result.1 result.2) (t.makeRequest now o requestData) := by
  apply (placeSentRequest_held held.nextRequest nonneg inside
    (fun other member => Nat.ne_of_lt (held.earlier other member)) (Nat.lt_succ_self _)).imp
  rintro ⟨o', t'⟩ ⟨after, placed⟩
  exact ⟨after, placed.sessions, placed.request, (Nat.le_succ _).trans placed.later, placed.id, placed.cdn,
    placed.unchecked, placed.hashes⟩

/-- The requests around one of them do not have its id. -/
theorem split_request {l : List SentRequest} (distinct : (l.map SentRequest.id).Nodup) {request : SentRequest}
    (member : request ∈ l) : ∃ front back, l = front ++ request :: back ∧ ∀ other ∈ front, other.id ≠ request.id := by
  obtain ⟨front, back, rfl⟩ := List.append_of_mem member
  refine ⟨front, back, rfl, fun other inside same => ?_⟩
  rw [List.map_append, List.map_cons] at distinct
  exact (List.nodup_append.mp distinct).2.2 other.id (List.mem_map_of_mem inside) request.id List.mem_cons_self same

theorem find_request {l : List SentRequest} (distinct : (l.map SentRequest.id).Nodup) {request : SentRequest}
    (member : request ∈ l) : l.find? (·.id = request.id) = some request := by
  obtain ⟨front, back, rfl, others⟩ := split_request distinct member
  have none : front.find? (·.id = request.id) = none := List.find?_eq_none.mpr (by simpa using others)
  rw [List.find?_append, none, List.find?_cons_of_pos (by simp), Option.none_or]

theorem eraseP_request {front back : List SentRequest} {request : SentRequest}
    (others : ∀ other ∈ front, other.id ≠ request.id) :
    (front ++ request :: back).eraseP (·.id = request.id) = front ++ back := by
  rw [List.eraseP_append_right _ (by simpa using others), List.eraseP_cons_of_pos (by simp)]

theorem finishSentRequest_held (held : Held extra sent unchecked o t) (nonneg : 0 ≤ extra) {request : SentRequest}
    (member : request ∈ t.sentRequests) {reason : FinishRequestReason} (quiet : reason = .success → extra = 0) :
    ∃ o' t', t.finishSentRequest now o request.id reason = .ok (request.data, o', t') ∧
      Held extra sent unchecked o' t' ∧ Finished o t request o' t' ∧
      (reason ≠ .success → o'.sessions.length = o.sessions.length) := by
  have here : 0 < sent request.data.sessionIndex + t.sentAt request.data.sessionIndex :=
    Nat.add_pos_right _ (List.countP_pos_iff.mpr ⟨request, member, by simp⟩)
  obtain ⟨amount, o', changed, accounted, length, next⟩ :=
    Owner.changeRequestedAmount_less now held.accounted nonneg here
  obtain ⟨front, back, split, others⟩ := split_request held.distinct member
  set t' : DownloadMtprotoTask := { t with
    cdnHashesRequestId := if t.cdnHashesRequestId = some request.id then none else t.cdnHashesRequestId
    sentRequests := t.sentRequests.eraseP (·.id = request.id) } with taskDef
  have left : t'.sentRequests = front ++ back := by rw [taskDef, split, eraseP_request others]
  have sentAt : t'.sentAt = less t.sentAt request.data.sessionIndex := by
    funext i
    simp only [DownloadMtprotoTask.sentAt, left, split, less, List.countP_append, List.countP_cons, decide_eq_true_eq]
    by_cases at' : i = request.data.sessionIndex
    · simp only [if_pos at', if_pos at'.symm]
      omega
    · simp only [if_neg at', if_neg (Ne.symm at')]
      omega
  have finished : ∀ after : Owner, o'.sessions.length ≤ after.sessions.length → after.nextRequestId = o'.nextRequestId →
      Finished o t request after t' :=
    fun after grown same => ⟨length ▸ grown, rfl, sentAt, same.trans next, rfl, rfl, rfl, rfl⟩
  have less' : (fun i => sent i + t'.sentAt i) = less (fun i => sent i + t.sentAt i) request.data.sessionIndex := by
    funext i
    have some : 0 < t.sentAt request.data.sessionIndex := List.countP_pos_iff.mpr ⟨request, member, by simp⟩
    rw [sentAt]
    simp only [less]
    split
    · rename_i at'
      subst at'
      omega
    · omega
  have kept : ∀ after : Owner, Accounted extra after (fun i => sent i + t'.sentAt i)
      (fun i => unchecked i + t.uncheckedAt i) → after.nextRequestId = o'.nextRequestId →
      Held extra sent unchecked after t' := by
    intro after account same
    have sub : t'.sentRequests.Sublist t.sentRequests := List.eraseP_sublist
    refine ⟨account, held.distinct.sublist (sub.map _), fun other inside => ?_⟩
    rw [same, next]
    exact held.earlier other (sub.subset inside)
  rw [← less'] at accounted
  rw [DownloadMtprotoTask.finishSentRequest, find_request held.distinct member]
  dsimp only [bind, Except.bind]
  rw [changed]
  dsimp only
  split
  · rename_i success
    obtain rfl := quiet success
    have inside : request.data.sessionIndex < o'.sessions.length := length ▸ held.inside_sent member
    obtain ⟨after, succeeded, account, grown, same⟩ :=
      accounted.requestSucceeded inside request.data.requestedInSession request.data.sent
    rw [succeeded]
    exact ⟨after, t', rfl, kept after account same, finished after grown same, fun other => absurd success other⟩
  · exact ⟨o', t', rfl, kept o' accounted rfl, finished o' le_rfl rfl, fun _ => length⟩

end Sending

/-! ## What a task does with an answer -/

/-- A task after it did something, with what its data centre has got by it. -/
structure Goes (extra : Int) (sent unchecked : Nat → Nat) (o : Owner) (t : DownloadMtprotoTask)
    (result : Owner × DownloadMtprotoTask) : Prop where
  held : Held extra sent unchecked result.1 result.2
  id : result.2.id = t.id
  sessions : o.sessions.length ≤ result.1.sessions.length
  later : o.nextRequestId ≤ result.1.nextRequestId

section Answers

variable {now : Int} {sent unchecked : Nat → Nat} {o : Owner} {t : DownloadMtprotoTask}

theorem Goes.refl {extra : Int} (held : Held extra sent unchecked o t) : Goes extra sent unchecked o t (o, t) :=
  ⟨held, rfl, le_rfl, le_rfl⟩

theorem Goes.trans {extra : Int} {o' : Owner} {t' : DownloadMtprotoTask} {result : Owner × DownloadMtprotoTask}
    (first : Goes extra sent unchecked o t (o', t')) (second : Goes extra sent unchecked o' t' result) :
    Goes extra sent unchecked o t result :=
  ⟨second.held, second.id.trans first.id, first.sessions.trans second.sessions, first.later.trans second.later⟩

theorem makeRequest_goes (held : Held 0 sent unchecked o t) {requestData : RequestData}
    (inside : requestData.sessionIndex < o.sessions.length) :
    Yields Allowed (Goes 0 sent unchecked o t) (t.makeRequest now o requestData) :=
  (makeRequest_held held le_rfl inside).imp fun _ made =>
    ⟨made.1, made.2.id, made.2.sessions.ge, made.2.later⟩

/-- An answer to a request of the task is there; the request is finished with its session still there. -/
theorem finishSentRequest_goes (held : Held 0 sent unchecked o t) {requestId : Nat}
    (waiting : t.sentRequests.any (·.id = requestId) = true) (reason : FinishRequestReason) :
    ∃ data o' t', t.finishSentRequest now o requestId reason = .ok (data, o', t') ∧
      Goes 0 sent unchecked o t (o', t') ∧ data.sessionIndex < o'.sessions.length ∧
      t'.cdnUncheckedParts = t.cdnUncheckedParts := by
  obtain ⟨request, member, found⟩ := List.any_eq_true.mp waiting
  obtain rfl : request.id = requestId := by simpa using found
  obtain ⟨o', t', finished, after, what, -⟩ :=
    @finishSentRequest_held 0 now sent unchecked o t held le_rfl request member reason fun _ => rfl
  exact ⟨request.data, o', t', finished, ⟨after, what.id, what.sessions, what.next.ge⟩,
    (held.inside_sent member).trans_le what.sessions, what.unchecked⟩

theorem requestMoreCdnFileHashes_goes (held : Held 0 sent unchecked o t) :
    Yields Allowed (Goes 0 sent unchecked o t) (t.requestMoreCdnFileHashes now o) := by
  rw [DownloadMtprotoTask.requestMoreCdnFileHashes.eq_def]
  split
  · rename_i data rest none parts
    have inside : data.sessionIndex < o.sessions.length := held.inside_unchecked (by rw [parts]; exact List.mem_cons_self)
    have asked : Held 0 sent unchecked { o with nextRequestId := o.nextRequestId + 1 }
        { t with cdnHashesRequestId := some o.nextRequestId } :=
      ⟨held.nextRequest.accounted, held.distinct, held.nextRequest.earlier⟩
    apply (placeSentRequest_held asked le_rfl inside (fun other member => Nat.ne_of_lt (held.earlier other member))
      (Nat.lt_succ_self _)).imp
    rintro result ⟨after, placed⟩
    exact ⟨after, placed.id, placed.sessions.ge, (Nat.le_succ _).trans placed.later⟩
  · exact Goes.refl held

theorem finishToResend_goes {extra : Int} {request : SentRequest} {left : List SentRequest}
    {state : List RequestData × Owner × DownloadMtprotoTask} (goes : Goes extra sent unchecked o t state.2)
    (nonneg : 0 ≤ extra) (todo : state.2.2.sentRequests = request :: left) :
    ∃ state', DownloadMtprotoTask.finishToResend now state request = .ok state' ∧ Goes extra sent unchecked o t state'.2 ∧
      state'.2.2.sentRequests = left ∧ state'.1 = state.1 ++ [request.data] ∧
      state.2.1.sessions.length = state'.2.1.sessions.length ∧ request.data.sessionIndex < state.2.1.sessions.length := by
  have member : request ∈ state.2.2.sentRequests := by
    rw [todo]
    exact List.mem_cons_self
  obtain ⟨o', t', finished, after, what, same⟩ :=
    @finishSentRequest_held extra now sent unchecked _ _ goes.held nonneg request member .redirect nofun
  rw [DownloadMtprotoTask.finishToResend, finished]
  refine ⟨_, rfl, goes.trans ⟨after, what.id, what.sessions, what.next.ge⟩, ?_, rfl, (same nofun).symm,
    goes.held.inside_sent member⟩
  rw [what.sentRequests, todo, List.eraseP_cons_of_pos (by simp)]

theorem toResend_goes (held : Held 0 sent unchecked o t) (cdn : CdnParams) :
    Yields Allowed (fun result => Goes 0 sent unchecked o t result.2 ∧
      ∀ data ∈ result.1, data.sessionIndex < result.2.1.sessions.length) (t.toResend now o cdn) := by
  rw [DownloadMtprotoTask.toResend]
  split
  · have other : Goes 0 sent unchecked o t (o, { t with cdn }) :=
      ⟨⟨held.accounted, held.distinct, held.earlier⟩, rfl, le_rfl, le_rfl⟩
    have loop := @Yields.foldlM Assertion SentRequest _ Allowed
      (fun left state => Goes 0 sent unchecked o t state.2 ∧ state.2.2.sentRequests = left ∧
        ∀ data ∈ state.1, data.sessionIndex < state.2.1.sessions.length)
      (DownloadMtprotoTask.finishToResend now) ?_ t.sentRequests ([], o, { t with cdn }) ⟨other, rfl, nofun⟩
    · exact loop.imp fun result kept => ⟨kept.1, kept.2.2⟩
    · rintro request left state ⟨goes, todo, inside⟩
      obtain ⟨state', finished, goes', rest, datas, length, known⟩ := finishToResend_goes goes le_rfl todo
      rw [finished]
      refine ⟨goes', rest, ?_⟩
      rw [datas, ← length]
      exact List.forall_mem_append.mpr ⟨inside, by simpa using known⟩
  · exact ⟨.refl held, nofun⟩

theorem changeCDNParams_goes (held : Held 0 sent unchecked o t) {requestData : RequestData}
    (inside : requestData.sessionIndex < o.sessions.length) (cdn : CdnParams) :
    Yields Allowed (Goes 0 sent unchecked o t) (t.changeCDNParams now o requestData cdn) := by
  rw [DownloadMtprotoTask.changeCDNParams]
  split
  · exact Goes.refl held
  · apply (toResend_goes held cdn).bind
    rintro ⟨datas, before, task⟩ ⟨goes, left⟩
    have loop := @Yields.foldlM Assertion RequestData _ Allowed
      (fun left state => Goes 0 sent unchecked o t state ∧ ∀ data ∈ left, data.sessionIndex < state.1.sessions.length)
      (DownloadMtprotoTask.resend now) ?_ datas (before, task) ⟨goes, left⟩
    · apply loop.bind
      rintro ⟨o', t'⟩ ⟨goes', -⟩
      exact (makeRequest_goes goes'.held (inside.trans_le goes'.sessions)).imp fun result last => goes'.trans last
    · rintro data rest ⟨o', t'⟩ ⟨goes', left⟩
      apply (makeRequest_goes goes'.held (left data List.mem_cons_self)).imp
      intro result made
      exact ⟨goes'.trans made, fun other member =>
        (left other (List.mem_cons_of_mem _ member)).trans_le made.sessions⟩

theorem normalPartLoaded_goes (held : Held 0 sent unchecked o t) {requestId : Nat}
    (waiting : t.sentRequests.any (·.id = requestId) = true) (fileCdnRedirect : Option CdnParams) :
    Yields Allowed (Goes 0 sent unchecked o t) (t.normalPartLoaded now o requestId fileCdnRedirect) := by
  obtain ⟨data, o', t', finished, goes, inside, -⟩ := @finishSentRequest_goes now sent unchecked o t held _ waiting .success
  rw [DownloadMtprotoTask.normalPartLoaded, finished]
  cases fileCdnRedirect with
  | some cdn => exact (changeCDNParams_goes goes.held inside cdn).imp fun result after => goes.trans after
  | none => exact goes

theorem mem_insertUnchecked {data part : RequestData} {parts : List RequestData}
    (member : part ∈ DownloadMtprotoTask.insertUnchecked data parts) : part = data ∨ part ∈ parts := by
  induction parts with
  | nil => exact .inl (List.mem_singleton.mp member)
  | cons first rest ih =>
      rw [DownloadMtprotoTask.insertUnchecked] at member
      split_ifs at member
      · exact List.mem_cons.mp member
      · exact .inr member
      · cases member with
        | head => exact .inr List.mem_cons_self
        | tail _ inside => exact (ih inside).imp_right (List.mem_cons_of_mem _)

theorem cdnPartLoaded_goes (held : Held 0 sent unchecked o t) {requestId : Nat}
    (waiting : t.sentRequests.any (·.id = requestId) = true) (hash : Option CheckCdnHashResult) :
    Yields Allowed (Goes 0 sent unchecked o t) (t.cdnPartLoaded now o requestId hash) := by
  cases hash with
  | none =>
      obtain ⟨data, o', t', finished, goes, inside, -⟩ := @finishSentRequest_goes now sent unchecked o t held _ waiting .redirect
      rw [DownloadMtprotoTask.cdnPartLoaded]
      dsimp only [bind, Except.bind]
      rw [finished]
      apply (placeSentRequest_held goes.held.nextRequest le_rfl inside
        (fun other member => Nat.ne_of_lt (goes.held.earlier other member)) (Nat.lt_succ_self _)).imp
      rintro result ⟨after, placed⟩
      exact goes.trans ⟨after, placed.id, placed.sessions.ge, (Nat.le_succ _).trans placed.later⟩
  | some hash =>
      obtain ⟨data, o', t', finished, goes, inside, -⟩ := @finishSentRequest_goes now sent unchecked o t held _ waiting .success
      rw [DownloadMtprotoTask.cdnPartLoaded]
      dsimp only [bind, Except.bind]
      rw [finished]
      dsimp only
      split
      · have more : Held 0 sent unchecked o'
            { t' with cdnUncheckedParts := DownloadMtprotoTask.insertUnchecked data t'.cdnUncheckedParts } := by
          apply goes.held.withUnchecked
          intro part member
          obtain rfl | before := mem_insertUnchecked member
          · exact inside
          · exact goes.held.inside_unchecked before
        exact (requestMoreCdnFileHashes_goes more).imp fun result after =>
          goes.trans ⟨after.held, after.id, after.sessions, after.later⟩
      · exact goes

theorem reuploadDone_goes (held : Held 0 sent unchecked o t) {requestId : Nat}
    (waiting : t.sentRequests.any (·.id = requestId) = true) :
    Yields Allowed (Goes 0 sent unchecked o t) (t.reuploadDone now o requestId) := by
  obtain ⟨data, o', t', finished, goes, inside, -⟩ := @finishSentRequest_goes now sent unchecked o t held _ waiting .redirect
  rw [DownloadMtprotoTask.reuploadDone, finished]
  exact (makeRequest_goes goes.held inside).imp fun result after => goes.trans after

theorem mem_checkParts {hash : Int → CheckCdnHashResult} {fed : Int → Bool} {parts : List RequestData} {more : Bool}
    {part : RequestData} (member : part ∈ (DownloadMtprotoTask.checkParts hash fed parts more).1) : part ∈ parts := by
  induction parts generalizing more with
  | nil => exact member
  | cons first rest ih =>
      rw [DownloadMtprotoTask.checkParts] at member
      split at member
      · cases member with
        | head => exact List.mem_cons_self
        | tail _ inside => exact List.mem_cons_of_mem _ (ih inside)
      · exact member
      · split at member
        · exact List.mem_cons_of_mem _ (ih member)
        · exact List.mem_cons_of_mem _ member

theorem getCdnFileHashesDone_goes (held : Held 0 sent unchecked o t) {requestId : Nat}
    (waiting : t.sentRequests.any (·.id = requestId) = true) (hash : Int → CheckCdnHashResult) (fed : Int → Bool) :
    Yields Allowed (Goes 0 sent unchecked o t) (t.getCdnFileHashesDone now o requestId hash fed) := by
  rw [DownloadMtprotoTask.getCdnFileHashesDone]
  split
  · exact .inr (.inl rfl)
  obtain ⟨data, o', t', finished, goes, inside, -⟩ :=
    @finishSentRequest_goes now sent unchecked o t held _ waiting .redirect
  dsimp only [bind, Except.bind]
  rw [finished]
  dsimp only
  have left : Goes 0 sent unchecked o t (o', { t' with
      cdnUncheckedParts := (DownloadMtprotoTask.checkParts hash fed t'.cdnUncheckedParts false).1 }) :=
    ⟨goes.held.withUnchecked fun part member => goes.held.inside_unchecked (mem_checkParts member), goes.id,
      goes.sessions, goes.later⟩
  split
  · exact (requestMoreCdnFileHashes_goes left.held).imp fun result after => left.trans after
  · exact left

theorem cdnPartFailed_goes (held : Held 0 sent unchecked o t) {requestId : Nat}
    (waiting : t.sentRequests.any (·.id = requestId) = true) :
    Yields Allowed (Goes 0 sent unchecked o t) (t.cdnPartFailed now o requestId) := by
  obtain ⟨data, o', t', finished, goes, inside, -⟩ := @finishSentRequest_goes now sent unchecked o t held _ waiting .redirect
  rw [DownloadMtprotoTask.cdnPartFailed, finished]
  exact (changeCDNParams_goes goes.held inside {}).imp fun result after => goes.trans after

theorem refreshFileReferenceFrom_goes (held : Held 0 sent unchecked o t) (requestId : Nat) :
    Yields Allowed (Goes 0 sent unchecked o t) (t.refreshFileReferenceFrom now o requestId) := by
  rw [DownloadMtprotoTask.refreshFileReferenceFrom]
  split
  · rename_i waiting
    obtain ⟨data, o', t', finished, goes, inside, -⟩ := @finishSentRequest_goes now sent unchecked o t held _ waiting .redirect
    rw [finished]
    exact (makeRequest_goes goes.held inside).imp fun result after => goes.trans after
  · exact Goes.refl held

theorem cancelRequest_goes (held : Held 0 sent unchecked o t) {request : SentRequest}
    (member : request ∈ t.sentRequests) :
    ∃ result, t.cancelRequest now o request.id = .ok result ∧ Goes 0 sent unchecked o t result ∧
      Finished o t request result.1 result.2 := by
  obtain ⟨o', t', finished, after, what, -⟩ :=
    @finishSentRequest_held 0 now sent unchecked o t held le_rfl request member .cancel nofun
  rw [DownloadMtprotoTask.cancelRequest, finished]
  exact ⟨_, rfl, ⟨after, what.id, what.sessions, what.next.ge⟩, what⟩

theorem cancelAllRequests_goes (held : Held 0 sent unchecked o t) :
    Yields Allowed (fun result => Goes 0 sent unchecked o t result ∧ result.2.haveSentRequests = false)
      (t.cancelAllRequests now o) := by
  rw [DownloadMtprotoTask.cancelAllRequests]
  have loop := @Yields.foldlM Assertion SentRequest _ Allowed
    (fun left state => Goes 0 sent unchecked o t state ∧ state.2.sentRequests = left)
    (DownloadMtprotoTask.cancelSent now) ?_ t.sentRequests (o, t) ⟨.refl held, rfl⟩
  · apply loop.bind
    rintro ⟨o', t'⟩ ⟨goes, none⟩
    have none : t'.sentRequests = [] := none
    exact ⟨⟨goes.held.withUnchecked nofun, goes.id, goes.sessions, goes.later⟩,
      by simp [DownloadMtprotoTask.haveSentRequests, none]⟩
  · rintro request left ⟨o', t'⟩ ⟨goes, todo⟩
    have member : request ∈ t'.sentRequests := by
      rw [todo]
      exact List.mem_cons_self
    obtain ⟨result, cancelled, after, what⟩ := @cancelRequest_goes now sent unchecked o' t' goes.held request member
    rw [DownloadMtprotoTask.cancelSent, cancelled]
    refine ⟨goes.trans after, ?_⟩
    rw [what.sentRequests, todo, List.eraseP_cons_of_pos (by simp)]

theorem cancelRequestForOffset_goes (held : Held 0 sent unchecked o t) (offset : Int) :
    Yields Allowed (Goes 0 sent unchecked o t) (t.cancelRequestForOffset now o offset) := by
  have cancelled : Yields Allowed (Goes 0 sent unchecked o t) (t.cancelSentForOffset now o offset) := by
    rw [DownloadMtprotoTask.cancelSentForOffset]
    split
    · rename_i request found
      obtain ⟨result, cancelled, after, -⟩ :=
        @cancelRequest_goes now sent unchecked o t held request (List.mem_of_find?_eq_some found)
      rw [cancelled]
      exact after
    · exact Goes.refl held
  rw [DownloadMtprotoTask.cancelRequestForOffset]
  apply cancelled.bind
  rintro ⟨o', t'⟩ goes
  exact ⟨goes.held.withUnchecked fun part member => goes.held.inside_unchecked (List.mem_of_mem_filter member), goes.id,
    goes.sessions, goes.later⟩

end Answers

/-! ## Moving what is in the last session -/

namespace DownloadMtprotoTask

/-- The requests that are sent anew when a session is removed. -/
def moves (t : DownloadMtprotoTask) (i : Nat) : Nat :=
  t.sentRequests.countP fun request => request.data.sessionIndex = i && some request.id ≠ t.cdnHashesRequestId

end DownloadMtprotoTask

section Removing

variable {now : Int} {sent unchecked : Nat → Nat} {o : Owner} {t : DownloadMtprotoTask} {k : Nat}

theorem moveUnchecked_ok (held : Held redirecting sent unchecked o t) (last : k + 1 = o.sessions.length)
    (some : t.uncheckedAt k ≠ 0 → 0 < room (fun i => sent i + t.sentAt i) k) :
    ∃ parts, t.cdnUncheckedParts.mapM (DownloadMtprotoTask.moveUnchecked o k) = .ok parts ∧
      ∀ part ∈ parts, part.sessionIndex < k := by
  have each : ∀ part ∈ t.cdnUncheckedParts, ∃ part', DownloadMtprotoTask.moveUnchecked o k part = .ok part' ∧
      part'.sessionIndex < k := by
    intro part member
    rw [DownloadMtprotoTask.moveUnchecked]
    split
    · rename_i here
      have positive : t.uncheckedAt k ≠ 0 :=
        (List.countP_pos_iff.mpr ⟨part, member, by simpa using here⟩ : 0 < t.uncheckedAt k).ne'
      obtain ⟨j, chosen, below, -⟩ := held.accounted.otherSession last (some positive)
      rw [chosen]
      exact ⟨_, rfl, below⟩
    · rename_i other
      have inside := held.inside_unchecked member
      exact ⟨part, rfl, by omega⟩
  generalize t.cdnUncheckedParts = l at each
  induction l with
  | nil => exact ⟨[], rfl, nofun⟩
  | cons part rest ih =>
      obtain ⟨part', moved, below⟩ := each part List.mem_cons_self
      obtain ⟨parts, mapped, all⟩ := ih fun other member => each other (List.mem_cons_of_mem _ member)
      rw [List.mapM_cons, moved]
      refine ⟨part' :: parts, ?_, List.forall_mem_cons.mpr ⟨below, all⟩⟩
      simp only [bind, Except.bind, mapped]
      rfl

/-- The loop that sends the requests of the last session anew. -/
structure Redirecting (sent unchecked : Nat → Nat) (k rest : Nat) (hashes : Option Nat) (o : Owner)
    (t : DownloadMtprotoTask) (left : List SentRequest) (state : Owner × DownloadMtprotoTask) : Prop where
  held : Held redirecting sent unchecked state.1 state.2
  last : k + 1 = state.1.sessions.length
  id : state.2.id = t.id
  later : o.nextRequestId ≤ state.1.nextRequestId
  unchecked : state.2.cdnUncheckedParts = t.cdnUncheckedParts
  there : ∀ request ∈ left, request ∈ state.2.sentRequests ∧ request.data.sessionIndex = k
  distinct : (left.map SentRequest.id).Nodup
  sentAt : state.2.sentAt k = left.length
  asked : state.2.cdnHashesRequestId = hashes ∨
    state.2.cdnHashesRequestId = none ∧ ∀ request ∈ left, some request.id ≠ hashes
  enough : rest + left.countP (fun request => decide (some request.id ≠ hashes)) ≤ room (fun i => sent i + state.2.sentAt i) k

theorem redirect_kept {rest : Nat} {hashes : Option Nat} {request : SentRequest} {left : List SentRequest}
    {state : Owner × DownloadMtprotoTask} {o₀ : Owner} {t₀ : DownloadMtprotoTask}
    (kept : Redirecting sent unchecked k rest hashes o₀ t₀ (request :: left) state) :
    Yields Allowed (Redirecting sent unchecked k rest hashes o₀ t₀ left)
      (DownloadMtprotoTask.redirect now k state request) := by
  obtain ⟨member, here⟩ := kept.there request List.mem_cons_self
  obtain ⟨others, distinct⟩ := List.nodup_cons.mp kept.distinct
  have apart : ∀ other ∈ left, other.id ≠ request.id :=
    fun other inside same => others (same ▸ List.mem_map_of_mem inside)
  obtain ⟨o', t', finished, held, what, same⟩ :=
    @finishSentRequest_held redirecting now sent unchecked _ _ kept.held (by decide) request member .cancel nofun
  have length := same nofun
  have there : ∀ other ∈ left, other ∈ t'.sentRequests ∧ other.data.sessionIndex = k := by
    intro other inside
    obtain ⟨before, at'⟩ := kept.there other (List.mem_cons_of_mem _ inside)
    refine ⟨?_, at'⟩
    rw [what.sentRequests, List.mem_eraseP_of_neg (by simpa using apart other inside)]
    exact before
  have sentAt : t'.sentAt k = left.length := by
    have := kept.sentAt
    rw [List.length_cons] at this
    rw [what.sentAt, less, here, if_pos rfl, this, Nat.add_sub_cancel]
  have sameRoom : room (fun i => sent i + t'.sentAt i) k = room (fun i => sent i + state.2.sentAt i) k := by
    apply room_congr
    intro i below
    rw [what.sentAt, less, here, if_neg (by omega), Nat.sub_zero]
  have last : k + 1 = o'.sessions.length := length ▸ kept.last
  -- Only the request for the hashes is not made anew.
  have need : some request.id ≠ state.2.cdnHashesRequestId ↔ some request.id ≠ hashes := by
    obtain same | ⟨none, all⟩ := kept.asked
    · rw [same]
    · simp [none, all request List.mem_cons_self]
  have hashes' : t'.cdnHashesRequestId = hashes ∨
      t'.cdnHashesRequestId = none ∧ ∀ other ∈ left, some other.id ≠ hashes := by
    rw [what.hashes]
    obtain same | ⟨none, all⟩ := kept.asked
    · split
      · rename_i this
        refine .inr ⟨rfl, fun other inside equal => ?_⟩
        rw [← same, this] at equal
        exact apart other inside (Option.some.inj equal)
      · exact .inl same
    · exact .inr ⟨by simp [none], fun other inside => all other (List.mem_cons_of_mem _ inside)⟩
  have counted := kept.enough
  rw [List.countP_cons] at counted
  rw [DownloadMtprotoTask.redirect, DownloadMtprotoTask.cancelRequest]
  dsimp only [bind, Except.bind]
  rw [finished]
  dsimp only [pure, Except.pure]
  by_cases make : some request.id ≠ hashes
  · rw [if_pos (need.mpr make)]
    rw [if_pos (by simpa using make)] at counted
    obtain ⟨j, chosen, below, low⟩ := held.accounted.otherSession last (by rw [sameRoom]; omega)
    rw [chosen]
    dsimp only
    apply (makeRequest_held held (by decide) (show j < o'.sessions.length by omega)).imp
    rintro ⟨o'', t''⟩ ⟨after, placed⟩
    replace placed : Placed o' t' j o'' t'' := placed
    obtain ⟨added, at', sentRequests, -⟩ := placed.request
    have taken := @room_more (fun i => sent i + t'.sentAt i) j k below low
    have more' : (fun i => sent i + t''.sentAt i) = more (fun i => sent i + t'.sentAt i) j := by
      funext i
      rw [placed.sentAt]
      simp [more, Nat.add_assoc]
    refine ⟨after, last.trans placed.sessions.symm, placed.id.trans (what.id.trans kept.id),
      kept.later.trans (what.next.ge.trans placed.later), placed.unchecked.trans (what.unchecked.trans kept.unchecked),
      fun other inside => ⟨?_, (there other inside).2⟩, distinct, ?_, placed.hashes ▸ hashes', ?_⟩
    · rw [sentRequests]
      exact List.mem_append_left _ (there other inside).1
    · rw [placed.sentAt, more, if_neg (by omega), sentAt, Nat.add_zero]
    · change _ ≤ room (fun i => sent i + t''.sentAt i) k
      rw [more']
      omega
  · rw [if_neg (need.not.mpr make)]
    rw [if_neg (by simpa using make)] at counted
    exact ⟨held, last, what.id.trans kept.id, kept.later.trans what.next.ge, what.unchecked.trans kept.unchecked, there,
      distinct, sentAt, hashes', by rw [sameRoom]; omega⟩

theorem removeSession_moves (held : Held redirecting sent unchecked o t) (last : k + 1 = o.sessions.length) {rest : Nat}
    (enough : rest + t.moves k ≤ room (fun i => sent i + t.sentAt i) k)
    (spare : t.uncheckedAt k ≠ 0 → 0 < rest) :
    Yields Allowed (fun result => Held redirecting sent unchecked result.1 result.2 ∧ result.2.id = t.id ∧
        k + 1 = result.1.sessions.length ∧ o.nextRequestId ≤ result.1.nextRequestId ∧
        rest ≤ room (fun i => sent i + result.2.sentAt i) k ∧ result.2.sentAt k = 0 ∧ result.2.uncheckedAt k = 0)
      (t.removeSession now k o) := by
  obtain ⟨parts, mapped, below⟩ := moveUnchecked_ok held last fun there => by
    have := spare there
    omega
  have start : Held redirecting sent unchecked o { t with cdnUncheckedParts := parts } :=
    held.withUnchecked fun part member => by
      have := below part member
      omega
  have moves : (t.sentRequests.filter (·.data.sessionIndex = k)).countP
      (fun request => decide (some request.id ≠ t.cdnHashesRequestId)) = t.moves k := by
    rw [DownloadMtprotoTask.moves, List.countP_filter]
    congr 1
    funext request
    rw [Bool.and_comm]
  have start' : Redirecting sent unchecked k rest t.cdnHashesRequestId o { t with cdnUncheckedParts := parts }
      (t.sentRequests.filter (·.data.sessionIndex = k)) (o, { t with cdnUncheckedParts := parts }) := by
    refine ⟨start, last, rfl, le_rfl, rfl, ?_, held.distinct.sublist (List.filter_sublist.map _), ?_, .inl rfl, ?_⟩
    · intro request member
      simpa using List.mem_filter.mp member
    · rw [← List.countP_eq_length_filter]
      rfl
    · rw [moves]
      exact enough
  have loop := @Yields.foldlM Assertion SentRequest _ Allowed
    (Redirecting sent unchecked k rest t.cdnHashesRequestId o { t with cdnUncheckedParts := parts })
    (DownloadMtprotoTask.redirect now k) (fun request left state kept => redirect_kept kept) _ _ start'
  rw [DownloadMtprotoTask.removeSession]
  dsimp only [bind, Except.bind]
  rw [mapped]
  apply loop.imp
  intro result kept
  refine ⟨kept.held, kept.id, kept.last, kept.later, ?_, kept.sentAt, ?_⟩
  · simpa using kept.enough
  · rw [DownloadMtprotoTask.uncheckedAt, kept.unchecked, List.countP_eq_zero]
    intro part member
    have := below part member
    simp only [decide_eq_true_eq]
    omega

end Removing

end IMeDesktop.Storage.Download
