import IMeDesktop.Storage.DownloadTask

/-! # The queues of download tasks

The tasks of a data centre are served in the order of a queue by priority. When a session is
removed the tasks in the queue move what they have in it. Data centres do not share anything.
-/

namespace IMeDesktop.Storage.Download

structure Enqueued where
  task : Nat
  priority : Int
  deriving DecidableEq, Repr

namespace Queue

/-- An entry is put before the first that has no higher priority; the rotation of the source. -/
def enqueue (task : Nat) (priority : Int) (queue : List Enqueued) : List Enqueued :=
  let position := queue.findIdx (·.priority ≤ priority)
  let now := queue.findIdx (·.task = task)
  let position := if now < position then position - 1 else position
  (queue.eraseIdx now).insertIdx position ⟨task, priority⟩

def remove (task : Nat) (queue : List Enqueued) : List Enqueued := queue.filter (·.task ≠ task)

def resetFrom : List Enqueued → Except Assertion (List Enqueued)
  | [] => .ok []
  | first :: rest =>
      if first.priority ≠ 0 then if first.priority = -1 then .ok (first :: rest) else .error .resetGeneration
      else (resetFrom rest).map ({ first with priority := -1 } :: ·)

def resetGeneration (queue : List Enqueued) : Except Assertion (List Enqueued) :=
  (resetFrom (queue.dropWhile (·.priority ≠ 0))).map (queue.takeWhile (·.priority ≠ 0) ++ ·)

end Queue

/-- A data centre with the tasks that there are for it. -/
structure Dc where
  owner : Owner := {}
  tasks : List DownloadMtprotoTask := []
  queue : List Enqueued := []
  deriving DecidableEq, Repr

namespace Dc

def modifyTask (f : Owner → DownloadMtprotoTask → Attempt (Owner × DownloadMtprotoTask)) (id : Nat) (o : Owner) :
    List DownloadMtprotoTask → Attempt (Owner × List DownloadMtprotoTask)
  | [] => .ok (o, [])
  | t :: rest =>
      if t.id = id then do
        let (o, t) ← f o t
        return (o, t :: rest)
      else do
        let (o, rest) ← modifyTask f id o rest
        return (o, t :: rest)

def withTask (dc : Dc) (id : Nat) (f : Owner → DownloadMtprotoTask → Attempt (Owner × DownloadMtprotoTask)) :
    Attempt Dc := do
  let (owner, tasks) ← modifyTask f id dc.owner dc.tasks
  return { dc with owner, tasks }

/-- One round of `checkSendNext`, with the task that is next and the offset it takes. -/
def trySendNextPart (now : Int) (dc : Dc) (id : Nat) (offset : Int) : Attempt Dc :=
  let (best, owner) := dc.owner.bestIndex
  let dc := { dc with owner }
  match best with
  | none => .ok dc
  | some best =>
      if dc.queue.any (·.task = id) then dc.withTask id fun o t => t.loadPart now o best offset else .ok dc

/-- So that nothing is sent to the last session while what is in it is moved. -/
def biased (dc : DcBalanceData) : DcBalanceData :=
  let index := dc.sessions.length - 1
  match dc.sessions[index]? with
  | none => dc
  | some session => { dc with sessions := dc.sessions.set index (session.plus redirecting) }

/-- What is in the last session is moved, then the session is dropped. -/
def removeSession (now : Int) (dc : Dc) : Attempt Dc :=
  match dc.owner.balance with
  | none => .error .removeSession
  | some balance =>
      if balance.sessions.length ≤ kStartSessionsCount then .error .removeSession
      else do
        let index := balance.sessions.length - 1
        let balance :=
          if balance.sessionRemoveIndex = index then
            { balance with sessionRemoveTimes := min (balance.sessionRemoveTimes + 1) kMaxTrackedSessionRemoves }
          else { balance with sessionRemoveIndex := index, sessionRemoveTimes := 1 }
        let dc := { dc with owner := { dc.owner with balance := some (biased balance) } }
        let dc ← dc.queue.foldlM (fun dc enqueued => dc.withTask enqueued.task fun o t =>
          t.removeSession now index o) dc
        match dc.owner.balance with
        | none => .error .removeSession
        | some balance =>
            if balance.sessions[index]?.map DcSessionBalanceData.requested ≠ some redirecting then
              .error .removeSession
            else return { dc with owner := { dc.owner with
              balance := some { balance with sessions := balance.sessions.take index, lastSessionRemove := now } } }

/-- Whether a time-out of a session leads to the removal of one. -/
def removes (dc : DcBalanceData) (index : Nat) : Bool :=
  index < dc.sessions.length && dc.sessions.length ≠ kStartSessionsCount &&
    dc.timeouts + 1 ≥ kRemoveSessionAfterTimeouts

def sessionTimedOut (now : Int) (dc : Dc) (index : Nat) : Attempt Dc :=
  match dc.owner.balance with
  | none => .ok dc
  | some balance =>
      if index ≥ balance.sessions.length then .ok dc
      else
        let reset := { balance with sessions := balance.sessions.map ({ · with successes := 0 }) }
        let withBalance (balance : DcBalanceData) : Dc := { dc with owner := { dc.owner with balance := some balance } }
        if balance.sessions.length = kStartSessionsCount then .ok (withBalance reset)
        else if balance.timeouts + 1 < kRemoveSessionAfterTimeouts then
          .ok (withBalance { reset with timeouts := balance.timeouts + 1 })
        else (withBalance { reset with timeouts := 0 }).removeSession now

/-- What happens in a data centre. A task is taken from the queue by its own code only when nothing of it is
under way. The tasks make use of what the answers bring on their own. -/
inductive Event where
  | newTask (id : Nat)
  | enqueue (id : Nat) (priority : Int)
  | resetGeneration
  | tryRemoveFromQueue (id : Nat)
  | stop (id : Nat)
  | destroy (id : Nat)
  | send (id : Nat) (offset : Int)
  | partLoaded (id requestId : Nat) (fileCdnRedirect : Option CdnParams)
  | cdnPartLoaded (id requestId : Nat) (hash : Option CheckCdnHashResult)
  | reuploadDone (id requestId : Nat)
  | getCdnFileHashesDone (id requestId : Nat) (hash : Int → CheckCdnHashResult) (fed : Int → Bool)
  | cdnTokenInvalid (id requestId : Nat)
  | refreshFileReferenceFrom (id requestId : Nat)
  | cancelAllRequests (id : Nat)
  | cancelRequestForOffset (id : Nat) (offset : Int)
  | requestMoreCdnFileHashes (id : Nat)
  | sessionTimedOut (index : Nat)
  | killSessions

/-- The answer to a request is given to its own callback. -/
def answered (requestId : Nat) (callback : Callback → Bool)
    (f : Owner → DownloadMtprotoTask → Attempt (Owner × DownloadMtprotoTask)) (o : Owner) (t : DownloadMtprotoTask) :
    Attempt (Owner × DownloadMtprotoTask) :=
  if t.sentRequests.any fun request => request.id = requestId && callback request.callback then f o t else .ok (o, t)

def step (now : Int) (dc : Dc) : Event → Attempt Dc
  | .newTask id => .ok (if dc.tasks.any (·.id = id) then dc else { dc with tasks := { id } :: dc.tasks })
  | .enqueue id priority => .ok { dc with queue := Queue.enqueue id priority dc.queue }
  | .resetGeneration => (Queue.resetGeneration dc.queue).map fun queue => { dc with queue }
  | .tryRemoveFromQueue id =>
      .ok (if dc.tasks.any fun t => t.id = id && t.haveSentRequests then dc
        else { dc with queue := Queue.remove id dc.queue })
  | .stop id => do
      let dc ← dc.withTask id fun o t => t.cancelAllRequests now o
      return { dc with queue := Queue.remove id dc.queue }
  | .destroy id => do
      let dc ← dc.withTask id fun o t => t.cancelAllRequests now o
      return { dc with queue := Queue.remove id dc.queue, tasks := dc.tasks.filter (·.id ≠ id) }
  | .send id offset => dc.trySendNextPart now id offset
  | .partLoaded id requestId fileCdnRedirect =>
      dc.withTask id <| answered requestId (· = .partLoaded) fun o t =>
        t.normalPartLoaded now o requestId fileCdnRedirect
  | .cdnPartLoaded id requestId hash =>
      dc.withTask id <| answered requestId (· = .cdnPartLoaded) fun o t => t.cdnPartLoaded now o requestId hash
  | .reuploadDone id requestId =>
      dc.withTask id <| answered requestId (· = .reuploadDone) fun o t => t.reuploadDone now o requestId
  | .getCdnFileHashesDone id requestId hash fed =>
      dc.withTask id <| answered requestId (· = .getCdnFileHashesDone) fun o t =>
        t.getCdnFileHashesDone now o requestId hash fed
  | .cdnTokenInvalid id requestId =>
      dc.withTask id <| answered requestId (· ≠ .partLoaded) fun o t => t.cdnPartFailed now o requestId
  | .refreshFileReferenceFrom id requestId => dc.withTask id fun o t => t.refreshFileReferenceFrom now o requestId
  | .cancelAllRequests id => dc.withTask id fun o t => t.cancelAllRequests now o
  | .cancelRequestForOffset id offset => dc.withTask id fun o t => t.cancelRequestForOffset now o offset
  | .requestMoreCdnFileHashes id => dc.withTask id fun o t => t.requestMoreCdnFileHashes now o
  | .sessionTimedOut index => dc.sessionTimedOut now index
  | .killSessions =>
      if dc.owner.killSessionsWhen.any (· ≤ now) then dc.owner.killSessions.map fun owner => { dc with owner }
      else .ok dc

end Dc

abbrev DcId := Int

/-- The manager; a data centre that was not used yet has nothing. -/
abbrev DownloadManagerMtproto := DcId → Dc

def run (manager : DownloadManagerMtproto) : List (DcId × Int × Dc.Event) → Attempt DownloadManagerMtproto
  | [] => .ok manager
  | (dcId, now, event) :: rest => do
      let dc ← (manager dcId).step now event
      run (Function.update manager dcId dc) rest

end IMeDesktop.Storage.Download
