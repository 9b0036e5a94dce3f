import IMeDesktop.Storage.DownloadBalance

/-! # A download task

A `DownloadMtprotoTask` sends the requests for the parts of one file. Each request belongs
to a session, and so does a part from a CDN whose hash is not known yet. What the hashes say
and what becomes of a part is given with an answer.
-/

namespace IMeDesktop.Storage.Download

/-- `MTP::CTRState::KeySize` and `MTP::CTRState::IvecSize`. -/
def ctrKeySize : Nat := 32
def ctrIvecSize : Nat := 16

structure RequestData where
  offset : Int
  sessionIndex : Nat
  requestedInSession : Int := 0
  sent : Int := 0
  deriving DecidableEq, Repr

/-- What an answer to a request is given to. -/
inductive Callback where
  | partLoaded
  | cdnPartLoaded
  | reuploadDone
  | getCdnFileHashesDone
  deriving DecidableEq, Repr

structure SentRequest where
  id : Nat
  callback : Callback
  data : RequestData
  deriving DecidableEq, Repr

structure CdnParams where
  dcId : Int := 0
  token : List UInt8 := []
  encryptionKey : List UInt8 := []
  encryptionIV : List UInt8 := []
  deriving DecidableEq, Repr

/-- `sentRequests` is in the order of the ids; `_requestByOffset` is the same by offsets. -/
structure DownloadMtprotoTask where
  id : Nat
  sentRequests : List SentRequest := []
  cdn : CdnParams := {}
  cdnUncheckedParts : List RequestData := []
  cdnHashesRequestId : Option Nat := none
  deriving DecidableEq, Repr

inductive FinishRequestReason where
  | success
  | redirect
  | cancel
  deriving DecidableEq, Repr

inductive CheckCdnHashResult where
  | noHash
  | invalid
  | good
  deriving DecidableEq, Repr

abbrev Attempt (α : Type) := Except Assertion α

namespace DownloadMtprotoTask

def haveSentRequests (t : DownloadMtprotoTask) : Bool := t.sentRequests ≠ [] || t.cdnUncheckedParts ≠ []

def placeSentRequest (now : Int) (o : Owner) (t : DownloadMtprotoTask) (requestId : Nat) (callback : Callback)
    (requestData : RequestData) : Attempt (Owner × DownloadMtprotoTask) := do
  let (amount, o) ← o.changeRequestedAmount now requestData.sessionIndex kDownloadPartSize
  if t.sentRequests.any fun request => request.id = requestId || request.data.offset = requestData.offset then
    .error .placeSentRequest
  else
    let request := ⟨requestId, callback, { requestData with requestedInSession := amount, sent := now }⟩
    return (o, { t with sentRequests := t.sentRequests ++ [request] })

def finishSentRequest (now : Int) (o : Owner) (t : DownloadMtprotoTask) (requestId : Nat)
    (reason : FinishRequestReason) : Attempt (RequestData × Owner × DownloadMtprotoTask) :=
  match t.sentRequests.find? (·.id = requestId) with
  | none => .error .finishSentRequest
  | some request => do
      let result := request.data
      let (_, o) ← o.changeRequestedAmount now result.sessionIndex (-kDownloadPartSize)
      let o ←
        if reason = .success then
          o.requestSucceeded now result.sessionIndex result.requestedInSession result.sent
        else pure o
      return (result, o, { t with
        cdnHashesRequestId := if t.cdnHashesRequestId = some requestId then none else t.cdnHashesRequestId
        sentRequests := t.sentRequests.eraseP (·.id = requestId) })

/-- `sendRequest` and `placeSentRequest`. -/
def makeRequest (now : Int) (o : Owner) (t : DownloadMtprotoTask) (requestData : RequestData) :
    Attempt (Owner × DownloadMtprotoTask) :=
  let callback := if t.cdn.dcId ≠ 0 then .cdnPartLoaded else .partLoaded
  t.placeSentRequest now { o with nextRequestId := o.nextRequestId + 1 } o.nextRequestId callback requestData

/-- The hashes are asked for later if they were asked for with this request. -/
def cancelRequest (now : Int) (o : Owner) (t : DownloadMtprotoTask) (requestId : Nat) :
    Attempt (Owner × DownloadMtprotoTask) := do
  let (_, o, t) ← t.finishSentRequest now o requestId .cancel
  return (o, t)

def loadPart (now : Int) (o : Owner) (t : DownloadMtprotoTask) (sessionIndex : Nat) (offset : Int) :
    Attempt (Owner × DownloadMtprotoTask) :=
  t.makeRequest now o { offset, sessionIndex }

/-- A new session for what was in the one that is removed. -/
def otherSession (o : Owner) (sessionIndex : Nat) : Attempt Nat := do
  let newIndex ← o.chooseSessionIndex
  if newIndex < sessionIndex then return newIndex else .error .removeSession

def moveUnchecked (o : Owner) (sessionIndex : Nat) (requestData : RequestData) : Attempt RequestData :=
  if requestData.sessionIndex = sessionIndex then do
    let newIndex ← otherSession o sessionIndex
    return { requestData with sessionIndex := newIndex }
  else pure requestData

/-- A request for hashes is only cancelled. -/
def redirect (now : Int) (sessionIndex : Nat) (state : Owner × DownloadMtprotoTask) (request : SentRequest) :
    Attempt (Owner × DownloadMtprotoTask) := do
  let needMakeRequest := some request.id ≠ state.2.cdnHashesRequestId
  let (o, t) ← state.2.cancelRequest now state.1 request.id
  if needMakeRequest then
    let newIndex ← otherSession o sessionIndex
    t.makeRequest now o { offset := request.data.offset, sessionIndex := newIndex }
  else return (o, t)

def removeSession (now : Int) (sessionIndex : Nat) (o : Owner) (t : DownloadMtprotoTask) :
    Attempt (Owner × DownloadMtprotoTask) := do
  let toRedirect := t.sentRequests.filter (·.data.sessionIndex = sessionIndex)
  let cdnUncheckedParts ← t.cdnUncheckedParts.mapM (moveUnchecked o sessionIndex)
  toRedirect.foldlM (redirect now sessionIndex) (o, { t with cdnUncheckedParts })

def requestMoreCdnFileHashes (now : Int) (o : Owner) (t : DownloadMtprotoTask) :
    Attempt (Owner × DownloadMtprotoTask) :=
  match t.cdnHashesRequestId, t.cdnUncheckedParts with
  | none, requestData :: _ =>
      let requestId := o.nextRequestId
      placeSentRequest now { o with nextRequestId := requestId + 1 } { t with cdnHashesRequestId := some requestId }
        requestId .getCdnFileHashesDone requestData
  | _, _ => .ok (o, t)

def finishToResend (now : Int) (state : List RequestData × Owner × DownloadMtprotoTask) (request : SentRequest) :
    Attempt (List RequestData × Owner × DownloadMtprotoTask) := do
  let (data, o, t) ← state.2.2.finishSentRequest now state.2.1 request.id .redirect
  return (state.1 ++ [data], o, t)

/-- The requests that are finished because the parameters change. -/
def toResend (now : Int) (o : Owner) (t : DownloadMtprotoTask) (cdn : CdnParams) :
    Attempt (List RequestData × Owner × DownloadMtprotoTask) :=
  if t.cdn ≠ cdn then t.sentRequests.foldlM (finishToResend now) ([], o, { t with cdn }) else .ok ([], o, t)

def resend (now : Int) (state : Owner × DownloadMtprotoTask) (requestData : RequestData) :
    Attempt (Owner × DownloadMtprotoTask) :=
  state.2.makeRequest now state.1 requestData

def changeCDNParams (now : Int) (o : Owner) (t : DownloadMtprotoTask) (requestData : RequestData) (cdn : CdnParams) :
    Attempt (Owner × DownloadMtprotoTask) :=
  if cdn.dcId ≠ 0 ∧ (cdn.encryptionKey.length ≠ ctrKeySize ∨ cdn.encryptionIV.length ≠ ctrIvecSize) then
    .ok (o, t)
  else do
    let (resendRequests, o, t) ← t.toResend now o cdn
    let (o, t) ← resendRequests.foldlM (resend now) (o, t)
    t.makeRequest now o requestData

/-- A part came, or the address of a CDN to get it from. -/
def normalPartLoaded (now : Int) (o : Owner) (t : DownloadMtprotoTask) (requestId : Nat)
    (fileCdnRedirect : Option CdnParams) : Attempt (Owner × DownloadMtprotoTask) := do
  let (requestData, o, t) ← t.finishSentRequest now o requestId .success
  match fileCdnRedirect with
  | some cdn => t.changeCDNParams now o requestData cdn
  | none => return (o, t)

def insertUnchecked (requestData : RequestData) : List RequestData → List RequestData
  | [] => [requestData]
  | first :: rest =>
      if requestData.offset < first.offset then requestData :: first :: rest
      else if requestData.offset = first.offset then first :: rest
      else first :: insertUnchecked requestData rest

/-- `hash` is what `checkCdnFileHash` says, if it is not that the part has to be loaded up anew. -/
def cdnPartLoaded (now : Int) (o : Owner) (t : DownloadMtprotoTask) (requestId : Nat)
    (hash : Option CheckCdnHashResult) : Attempt (Owner × DownloadMtprotoTask) := do
  match hash with
  | none =>
      let (requestData, o, t) ← t.finishSentRequest now o requestId .redirect
      t.placeSentRequest now { o with nextRequestId := o.nextRequestId + 1 } o.nextRequestId .reuploadDone requestData
  | some hash =>
      let (requestData, o, t) ← t.finishSentRequest now o requestId .success
      if hash = .noHash then
        requestMoreCdnFileHashes now o { t with cdnUncheckedParts := insertUnchecked requestData t.cdnUncheckedParts }
      else return (o, t)

def reuploadDone (now : Int) (o : Owner) (t : DownloadMtprotoTask) (requestId : Nat) :
    Attempt (Owner × DownloadMtprotoTask) := do
  let (requestData, o, t) ← t.finishSentRequest now o requestId .redirect
  t.makeRequest now o requestData

/-- How the loop over the unchecked parts ends. -/
inductive Checked where
  | stopped
  | done (someMoreChecked : Bool)
  deriving DecidableEq, Repr

/-- `hash` is what `checkCdnFileHash` says of a part and `fed` whether `feedPart` lets the loop go on. -/
def checkParts (hash : Int → CheckCdnHashResult) (fed : Int → Bool) :
    List RequestData → Bool → List RequestData × Checked
  | [], someMoreChecked => ([], .done someMoreChecked)
  | part :: rest, someMoreChecked =>
      match hash part.offset with
      | .noHash =>
          let (left, checked) := checkParts hash fed rest someMoreChecked
          (part :: left, checked)
      | .invalid => (part :: rest, .stopped)
      | .good => if fed part.offset then checkParts hash fed rest true else (rest, .stopped)

def getCdnFileHashesDone (now : Int) (o : Owner) (t : DownloadMtprotoTask) (requestId : Nat)
    (hash : Int → CheckCdnHashResult) (fed : Int → Bool) : Attempt (Owner × DownloadMtprotoTask) :=
  if t.cdnHashesRequestId ≠ some requestId then .error .getCdnFileHashesDone
  else do
    let (_, o, t) ← t.finishSentRequest now o requestId .redirect
    let (cdnUncheckedParts, checked) := checkParts hash fed t.cdnUncheckedParts false
    let t := { t with cdnUncheckedParts }
    if checked = .done true then t.requestMoreCdnFileHashes now o else return (o, t)

/-- The token for the CDN is not taken. -/
def cdnPartFailed (now : Int) (o : Owner) (t : DownloadMtprotoTask) (requestId : Nat) :
    Attempt (Owner × DownloadMtprotoTask) := do
  let (requestData, o, t) ← t.finishSentRequest now o requestId .redirect
  t.changeCDNParams now o requestData {}

/-- The file reference is a new one. -/
def refreshFileReferenceFrom (now : Int) (o : Owner) (t : DownloadMtprotoTask) (requestId : Nat) :
    Attempt (Owner × DownloadMtprotoTask) :=
  if t.sentRequests.any (·.id = requestId) then do
    let (requestData, o, t) ← t.finishSentRequest now o requestId .redirect
    t.makeRequest now o requestData
  else .ok (o, t)

def cancelSent (now : Int) (state : Owner × DownloadMtprotoTask) (request : SentRequest) :
    Attempt (Owner × DownloadMtprotoTask) :=
  state.2.cancelRequest now state.1 request.id

def cancelAllRequests (now : Int) (o : Owner) (t : DownloadMtprotoTask) : Attempt (Owner × DownloadMtprotoTask) := do
  let (o, t) ← t.sentRequests.foldlM (cancelSent now) (o, t)
  return (o, { t with cdnUncheckedParts := [] })

def cancelSentForOffset (now : Int) (o : Owner) (t : DownloadMtprotoTask) (offset : Int) :
    Attempt (Owner × DownloadMtprotoTask) :=
  match t.sentRequests.find? (·.data.offset = offset) with
  | some request => t.cancelRequest now o request.id
  | none => .ok (o, t)

def cancelRequestForOffset (now : Int) (o : Owner) (t : DownloadMtprotoTask) (offset : Int) :
    Attempt (Owner × DownloadMtprotoTask) := do
  let (o, t) ← t.cancelSentForOffset now o offset
  return (o, { t with cdnUncheckedParts := t.cdnUncheckedParts.filter (·.offset ≠ offset) })

end DownloadMtprotoTask

end IMeDesktop.Storage.Download
