import IMeDesktop.Lib.Attempt
import IMeDesktop.Lib.FlatSet
import Mathlib.Algebra.BigOperators.Group.List.Basic
import Mathlib.Tactic.Ring

/-! # The balance of downloads between sessions

For each data centre `DownloadManagerMtproto` keeps how much is requested in each of its
sessions. The tasks tell it when they send a request and when one is done; what is requested
in a session decides whether the next part goes there. Here is the part of the manager that
belongs to one data centre. Amounts and times are plain integers.
-/

namespace IMeDesktop.Storage.Download

def kDownloadPartSize : Int := 128 * 1024
def kKillSessionTimeout : Int := 15 * 1000
def kStartWaitedInSession : Int := 4 * kDownloadPartSize
def kMaxWaitedInSession : Int := 16 * kDownloadPartSize
def kStartSessionsCount : Nat := 1
def kMaxSessionsCount : Nat := 8
def kMaxTrackedSessionRemoves : Nat := 64
def kRetryAddSessionTimeout : Int := 8 * 1000
def kRetryAddSessionSuccesses : Nat := 3
def kMaxTrackedSuccesses : Nat := kRetryAddSessionSuccesses * kMaxTrackedSessionRemoves
def kRemoveSessionAfterTimeouts : Nat := 4
def kBadRequestDurationThreshold : Int := 8 * 1000

/-- What is added to a session while its requests are sent anew, so that none goes to it. -/
def redirecting : Int := kMaxWaitedInSession * kMaxSessionsCount

/-- Where an expectation of the source may fail. -/
inductive Assertion where
  | changeRequestedAmount
  | requestSucceeded
  | chooseSessionIndex
  | removeSession
  | killSessions
  | placeSentRequest
  | finishSentRequest
  | getCdnFileHashesDone
  | resetGeneration
  deriving DecidableEq, Repr

structure DcSessionBalanceData where
  requested : Int := 0
  successes : Nat := 0
  maxWaitedAmount : Int := kStartWaitedInSession
  deriving DecidableEq, Repr

def DcSessionBalanceData.succeeded (data : DcSessionBalanceData) (amountAtRequestStart : Int) :
    DcSessionBalanceData :=
  { data with
    maxWaitedAmount :=
      if amountAtRequestStart = data.maxWaitedAmount ∧ data.maxWaitedAmount < kMaxWaitedInSession then
        min (data.maxWaitedAmount + kDownloadPartSize) kMaxWaitedInSession
      else data.maxWaitedAmount
    successes := min (data.successes + 1) kMaxTrackedSuccesses }

def DcSessionBalanceData.plus (data : DcSessionBalanceData) (amount : Int) : DcSessionBalanceData :=
  { data with requested := data.requested + amount }

structure DcBalanceData where
  sessions : List DcSessionBalanceData := List.replicate kStartSessionsCount {}
  lastSessionRemove : Int := 0
  sessionRemoveIndex : Nat := 0
  sessionRemoveTimes : Nat := 0
  timeouts : Nat := 0
  totalRequested : Int := 0
  deriving DecidableEq, Repr

/-- What the manager holds for one data centre: the entries of `_balanceData` and of
`_killSessionsWhen`, if there are any, and the id of the next request. -/
structure Owner where
  balance : Option DcBalanceData := none
  killSessionsWhen : Option Int := none
  nextRequestId : Nat := 1
  deriving DecidableEq, Repr

/-- `ranges::min_element`: the first of the smallest. -/
def minElement {α : Type} (proj : α → Int) (l : List α) : Nat := l.findIdx fun a => l.all fun b => proj a ≤ proj b

namespace Owner

def sessions (o : Owner) : List DcSessionBalanceData := (o.balance.map DcBalanceData.sessions).getD []

def totalRequested (o : Owner) : Int := (o.balance.map DcBalanceData.totalRequested).getD 0

def killSessionsSchedule (now : Int) (o : Owner) : Owner :=
  { o with killSessionsWhen := o.killSessionsWhen.or (some (now + kKillSessionTimeout)) }

def killSessionsCancel (o : Owner) : Owner := { o with killSessionsWhen := none }

def changeRequestedAmount (now : Int) (o : Owner) (index : Nat) (delta : Int) : Except Assertion (Int × Owner) :=
  match o.balance with
  | none => .error .changeRequestedAmount
  | some dc =>
      match dc.sessions[index]? with
      | none => .error .changeRequestedAmount
      | some session =>
          let result := session.requested + delta
          let sessions := dc.sessions.set index { session with requested := result }
          let o := { o with balance := some { dc with sessions, totalRequested := dc.totalRequested + delta } }
          .ok (result,
            if delta > 0 then o.killSessionsCancel
            else if sessions.any (·.requested > 0) then o
            else o.killSessionsSchedule now)

/-- A session that took too long is reported later by `sessionTimedOut`. -/
def requestSucceeded (now : Int) (o : Owner) (index : Nat) (amountAtRequestStart timeAtRequestStart : Int) :
    Except Assertion Owner :=
  match o.balance with
  | none => .error .requestSucceeded
  | some dc =>
      match dc.sessions[index]? with
      | none => .error .requestSucceeded
      | some data =>
          if timeAtRequestStart ≤ dc.lastSessionRemove ∨ amountAtRequestStart > data.maxWaitedAmount then .ok o
          else if now - timeAtRequestStart ≥ kBadRequestDurationThreshold then .ok o
          else
            let dc := { dc with sessions := dc.sessions.set index (data.succeeded amountAtRequestStart) }
            if dc.sessions.any (·.successes < (dc.sessionRemoveTimes + 1) * kRetryAddSessionSuccesses) then
              .ok { o with balance := some dc }
            else
              let dc := { dc with sessions := dc.sessions.map ({ · with successes := 0 }) }
              if dc.timeouts > 0 then .ok { o with balance := some { dc with timeouts := dc.timeouts - 1 } }
              else if dc.sessions.length = kMaxSessionsCount then .ok { o with balance := some dc }
              else
                let delay := (dc.sessionRemoveTimes + 1) * kRetryAddSessionTimeout
                if dc.lastSessionRemove ≠ 0 ∧ now < dc.lastSessionRemove + delay then
                  .ok { o with balance := some dc }
                else .ok { o with balance := some { dc with sessions := dc.sessions ++ [{}] } }

def chooseSessionIndex (o : Owner) : Except Assertion Nat :=
  match o.balance with
  | none => .error .chooseSessionIndex
  | some dc => .ok (minElement DcSessionBalanceData.requested dc.sessions)

/-- The index that `trySendNextPart` sends to; the entry of the data centre is made if there is none. -/
def bestIndex (o : Owner) : Option Nat × Owner :=
  let dc := o.balance.getD {}
  let proj (data : DcSessionBalanceData) : Int :=
    if data.requested < data.maxWaitedAmount then data.requested else kMaxWaitedInSession
  let best := minElement proj dc.sessions
  (match dc.sessions[best]? with
    | some j => if j.requested + kDownloadPartSize ≤ j.maxWaitedAmount then some best else none
    | none => none,
    { o with balance := some dc })

/-- `killSessions` for a data centre; the timer only calls it when the time has come. -/
def killSessions (o : Owner) : Except Assertion Owner :=
  match o.balance with
  | none => .ok { o with killSessionsWhen := none }
  | some dc =>
      if dc.totalRequested ≠ 0 then .error .killSessions
      else if dc.sessions.any (·.requested ≠ 0) then .error .killSessions
      else .ok { o with
        balance := some { sessions := dc.sessions.map fun _ => {} }
        killSessionsWhen := none }

end Owner

end IMeDesktop.Storage.Download
