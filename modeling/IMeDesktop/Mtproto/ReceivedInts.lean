import IMeDesktop.Mtproto.SessionReceive
import IMeDesktop.Mtproto.TlReader

/-! # Received messages as ints

`SessionReceive` takes messages as they are parsed. Here they are the ints between
`from` and `end`, as they come out of a packet, a container or the decompressor, and
`handleOneReceived` reads them: a read behind the end is a fault. The effects of a message
that was read are those of `SessionReceive`.

A packed message is replaced by what it unpacks to, which may be packed again, so the
depth of calls is bounded by fuel. Every call is recorded with the state it finds.
-/

namespace IMeDesktop.Mtproto.Requests

open Lib

/-! ## Service messages -/

def readMsgsAck : Reader Nat Message :=
  readOnly mtpcMsgsAck do
    let msgIds ← readVector readLong
    pure (.msgsAck msgIds)

/-- `bad_msg_notification` and `bad_server_salt` are constructors of one type. -/
def readBadMsgNotification : Reader Nat Message :=
  readBoxed fun cons =>
    if cons = mtpcBadMsgNotification then do
      let badMsgId ← readLong
      let _badMsgSeqno ← readInt
      let errorCode ← readInt
      pure (.badMsgNotification badMsgId errorCode)
    else if cons = mtpcBadServerSalt then do
      let badMsgId ← readLong
      let _badMsgSeqno ← readInt
      let _errorCode ← readInt
      let _newServerSalt ← readLong
      pure (.badServerSalt badMsgId)
    else Reader.fail

def readMsgsStateInfo : Reader Nat Message :=
  readOnly mtpcMsgsStateInfo do
    let reqMsgId ← readLong
    let states ← readString
    pure (.msgsStateInfo reqMsgId states)

def readMsgsAllInfo : Reader Nat Message :=
  readOnly mtpcMsgsAllInfo do
    let msgIds ← readVector readLong
    let states ← readString
    pure (.msgsAllInfo msgIds states)

def readMsgDetailedInfo : Reader Nat Message :=
  readBoxed fun cons =>
    if cons = mtpcMsgDetailedInfo then do
      let msgId ← readLong
      let answerMsgId ← readLong
      let _bytes ← readInt
      let _status ← readInt
      pure (.msgDetailedInfo msgId answerMsgId)
    else if cons = mtpcMsgNewDetailedInfo then do
      let answerMsgId ← readLong
      let _bytes ← readInt
      let _status ← readInt
      pure (.msgNewDetailedInfo answerMsgId)
    else Reader.fail

def readNewSessionCreated : Reader Nat Nat :=
  readOnly mtpcNewSessionCreated do
    let firstMsgId ← readLong
    let _uniqueId ← readLong
    let _serverSalt ← readLong
    pure firstMsgId

/-- The update that is passed on are the ints that were read. -/
def readNewSession : Reader Nat Message := do
  let (firstMsgId, update) ← readNewSessionCreated.consumed
  pure (.newSessionCreated firstMsgId update)

def readPong : Reader Nat Message :=
  readOnly mtpcPong do
    let msgId ← readLong
    let pingId ← readLong
    pure (.pong msgId pingId)

/-- The answer in an `rpc_result`; a packed one is a string, read up to the same end. -/
def readAnswer (reqMsgId : Nat) : Reader Nat Message := do
  let typeId ← Reader.get
  if typeId = mtpcGzipPacked then readString.ahead else pure ()
  let rest ← Reader.all
  pure (.rpcResult reqMsgId typeId rest)

/-- `rpc_result`: the answer is looked at once the time of the message is known to be good. -/
def readRpcResult (s : SessionPrivate) (info : OuterInfo) : Reader Nat Message := do
  Reader.require 3
  let _cons ← Reader.get
  let reqMsgId ← readLong
  if info.badTime && !s.requestsFixTimeSalt [reqMsgId] then pure (.rpcResult reqMsgId 0 [])
  else readAnswer reqMsgId

/-- A message that holds no other ones. What is not read when its time is bad is ignored. -/
def readLeaf (s : SessionPrivate) (info : OuterInfo) (cons : Nat) : Reader Nat Message :=
  if cons = mtpcMsgsAck then readMsgsAck
  else if cons = mtpcBadMsgNotification then readBadMsgNotification
  else if cons = mtpcBadServerSalt then readBadMsgNotification
  else if cons = mtpcMsgsStateInfo then readMsgsStateInfo
  else if cons = mtpcMsgsAllInfo then if info.badTime then pure (.msgsAllInfo [] []) else readMsgsAllInfo
  else if cons = mtpcMsgDetailedInfo then readMsgDetailedInfo
  else if cons = mtpcMsgNewDetailedInfo then
    if info.badTime then pure (.msgNewDetailedInfo 0) else readMsgDetailedInfo
  else if cons = mtpcRpcResult then readRpcResult s info
  else if cons = mtpcNewSessionCreated then readNewSession
  else if cons = mtpcPong then readPong
  else do
    let update ← Reader.all
    pure (.updates update)

/-! ## Calls -/

/-- A call of `handleOneReceived`: the session it finds, and the ints it is given. -/
structure Call where
  session : SessionPrivate
  info : OuterInfo
  ints : List Nat

inductive Outcome where
  | fault
  | unfinished
  | done (result : HandleResult) (session : SessionPrivate)

def Outcome.isFault : Outcome → Bool
  | .fault => true
  | _ => false

def Outcome.isUnfinished : Outcome → Bool
  | .unfinished => true
  | _ => false

/-- What came of a call, with all calls that were made. -/
structure Handling where
  calls : List Call := []
  outcome : Outcome

/-- Continue when a part of the message was handled. -/
def Handling.andThen (handling : Handling) (next : HandleResult → SessionPrivate → Handling) : Handling :=
  match handling.outcome with
  | .done result session =>
      let rest := next result session
      { calls := handling.calls ++ rest.calls, outcome := rest.outcome }
  | _ => handling

def finished (result : HandleResult) (session : SessionPrivate) : Handling := { outcome := .done result session }

/-- The header of a message in a container, of which there are four ints. -/
def readHeader : Reader Nat (Nat × Nat × Nat) := do
  let inMsgId ← readLong
  let inSeqNo ← readInt
  let bytes ← readInt
  pure (inMsgId, inSeqNo, bytes)

def badMsgId (msgId : Nat) : Bool := msgId % 4 ≠ 1 && msgId % 4 ≠ 3

/-- `bytes` is an `int32`. -/
def badLength (bytes : Nat) : Bool := bytes % 4 ≠ 0 || bytes < 4 || 2 ^ 31 ≤ bytes

section Handle

variable (inflate : List Nat → List Nat) (around : Surroundings)

/-- The loop over a container. -/
def handleMessages (handle : SessionPrivate → OuterInfo → List Nat → Handling) :
    Nat → SessionPrivate → OuterInfo → List Nat → Handling
  | 0, s, _, _ => finished .success s
  | count + 1, s, info, ints =>
      if ints.length ≤ 4 then finished .parseError s
      else
        match readHeader (ints.take 4) with
        | .fault => { outcome := .fault }
        | .failed => finished .parseError s
        | .done (inMsgId, inSeqNo, bytes) _ =>
            -- a bad id is found before the rest of the header is read, which changes nothing
            if badMsgId inMsgId || badLength bytes then finished .restartConnection s
            else
              let from_ := ints.drop 4
              let needAck : Bool := inSeqNo % 2 = 1
              let s := s.ackReceived inMsgId needAck
              if bytes / 4 > from_.length then finished .parseError s
              else
                match s.registerMsgId inMsgId needAck with
                | (.success, s) =>
                    (handle s info (from_.take (bytes / 4))).andThen fun result s =>
                      if result = .success then
                        handleMessages handle count s { info with badTime := false } (from_.drop (bytes / 4))
                      else finished result s
                | (.duplicate, s) => handleMessages handle count s info (from_.drop (bytes / 4))
                | (.tooOld, s) => finished .resetSession s

/-- Without the packed string, or when it cannot be unpacked, nothing. -/
def ungzip (ints : List Nat) : List Nat :=
  match readString ints with
  | .done packed _ => inflate packed
  | _ => []

def handleLeaf (s : SessionPrivate) (info : OuterInfo) (cons : Nat) (ints : List Nat) : Outcome :=
  match readLeaf s info cons ints with
  | .fault => .fault
  | .failed => .done .parseError s
  | .done message _ =>
      let (result, s) := s.handleOneReceived { around with ungzip := ungzip inflate } info message
      .done result s

def handleOneReceived : Nat → SessionPrivate → OuterInfo → List Nat → Handling
  | 0, _, _, _ => { outcome := .unfinished }
  | fuel + 1, s, info, ints =>
      let call : Call := { session := s, info := info, ints := ints }
      match ints with
      | [] => { calls := [call], outcome := .fault }
      | cons :: rest =>
          if cons = mtpcGzipPacked then
            match readString rest with
            | .fault => { calls := [call], outcome := .fault }
            | .failed => { calls := [call], outcome := .done .restartConnection s }
            | .done packed _ =>
                if inflate packed = [] then { calls := [call], outcome := .done .restartConnection s }
                else
                  let inner := handleOneReceived fuel s info (inflate packed)
                  { inner with calls := call :: inner.calls }
          else if cons = mtpcMsgContainer then
            match rest with
            | [] => { calls := [call], outcome := .done .parseError s }
            | msgsCount :: rest =>
                let inner := handleMessages (handleOneReceived fuel) msgsCount s info rest
                { inner with calls := call :: inner.calls }
          else { calls := [call], outcome := handleLeaf inflate around s info cons ints }

/-! ## Packets -/

def kMaxMessageLength : Nat := 16 * 1024 * 1024
def kExternalHeaderIntsCount : Nat := 6
def kEncryptedHeaderIntsCount : Nat := 8
def kMinimalIntsCount : Nat := kExternalHeaderIntsCount + (kEncryptedHeaderIntsCount + 4)
def kMinPaddingSize : Nat := 12
def kMaxPaddingSize : Nat := 1024

/-- The key of a connection: `aesIgeDecrypt` fills a buffer of the same size, and `msgKeyOf` is the part of the hash
of what was decrypted that has to be the message's key. -/
structure EncryptionKey where
  keyId : Nat
  decrypt : List Nat → List Nat → List Nat
  length_decrypt : ∀ msgKey ints, (decrypt msgKey ints).length = ints.length
  msgKeyOf : List Nat → List Nat

/-- What a session checks packets against. -/
structure Link where
  key : EncryptionKey
  sessionId : Nat
  sessionSalt : Nat
  clientTime : Int

def int32Of (int : Nat) : Int := if int < 2 ^ 31 then int else int - 2 ^ 32

/-- The server's time is the high int of a message id. -/
def Link.badTime (link : Link) (msgIdHigh : Nat) : Bool :=
  int32Of msgIdHigh > link.clientTime + 60 || int32Of msgIdHigh + 300 < link.clientTime

/-- The padding of so many encrypted bytes. It can underflow, and its range is checked. -/
def paddingSize (encryptedBytesCount messageLength : Nat) : Nat :=
  (encryptedBytesCount + 2 ^ 32 - (kEncryptedHeaderIntsCount * 4 + messageLength) % 2 ^ 32) % 2 ^ 32

def badMessageLength (encryptedBytesCount messageLength : Nat) : Bool :=
  messageLength > kMaxMessageLength || messageLength % 4 ≠ 0 ||
    paddingSize encryptedBytesCount messageLength < kMinPaddingSize ||
    paddingSize encryptedBytesCount messageLength > kMaxPaddingSize

/-- What is handled of a packet that passed all checks. -/
def handleDecrypted (fuel : Nat) (link : Link) (s : SessionPrivate) (salt msgId : Nat) (msgIdHigh seqNo : Nat)
    (message : List Nat) : Handling :=
  let needAck : Bool := seqNo % 2 = 1
  let badTime := link.badTime msgIdHigh
  let s := if salt ≠ link.sessionSalt ∧ !badTime then s.becomeConnected else s
  match (s.ackReceived msgId needAck).registerMsgId msgId needAck with
  | (.success, s) =>
      (handleOneReceived inflate around fuel s { outerMsgId := msgId, badTime := badTime } message).andThen
        fun result s => finished result s.shrinkReceived
  | (.duplicate, s) => finished .success s.shrinkReceived
  | (.tooOld, s) => finished .resetSession s.shrinkReceived

/-- One packet of `handleReceived`; what cannot be used restarts the connection. -/
def handlePacket (fuel : Nat) (link : Link) (s : SessionPrivate) (ints : List Nat) : Handling :=
  if ints.length < kMinimalIntsCount ∨ ints.length > kMaxMessageLength / 4 then finished .restartConnection s
  else
    match ints with
    | keyLow :: keyHigh :: k₀ :: k₁ :: k₂ :: k₃ :: encrypted =>
        if longOf keyLow keyHigh ≠ link.key.keyId then finished .restartConnection s
        else
          let msgKey := [k₀, k₁, k₂, k₃]
          let encryptedIntsCount := encrypted.length / 4 * 4
          let decrypted := link.key.decrypt msgKey (encrypted.take encryptedIntsCount)
          match decrypted with
          | saltLow :: saltHigh :: sessionLow :: sessionHigh :: idLow :: idHigh :: seqNo :: messageLength :: data =>
              if msgKey ≠ link.key.msgKeyOf decrypted ∨ badMessageLength (encryptedIntsCount * 4) messageLength ∨
                  longOf sessionLow sessionHigh ≠ link.sessionId ∨ badMsgId (longOf idLow idHigh) then
                finished .restartConnection s
              else if messageLength / 4 > data.length then { outcome := .fault }
              else
                handleDecrypted inflate around fuel link s (longOf saltLow saltHigh) (longOf idLow idHigh) idHigh seqNo
                  (data.take (messageLength / 4))
          | _ => { outcome := .fault }
    | _ => { outcome := .fault }

end Handle

/-! ## The messages that were read -/

section Simulation

variable {inflate : List Nat → List Nat} {around : Surroundings}

theorem handleMessages_simulated {handle : SessionPrivate → OuterInfo → List Nat → Handling}
    (inner : ∀ s info ints result s', (handle s info ints).outcome = .done result s' →
      ∃ message, s.handleOneReceived around info message = (result, s'))
    {count : Nat} {s s' : SessionPrivate} {info : OuterInfo} {ints : List Nat} {result : HandleResult}
    (done : (handleMessages handle count s info ints).outcome = .done result s') :
    ∃ messages, s.handleContainer around info messages = (result, s') := by
  induction count generalizing s info ints with
  | zero =>
      cases done
      exact ⟨.done, rfl⟩
  | succ count ih =>
      rw [handleMessages] at done
      split at done
      · cases done
        exact ⟨.broken .parseError (.inl rfl), rfl⟩
      · split at done
        · cases done
        · cases done
          exact ⟨.broken .parseError (.inl rfl), rfl⟩
        · rename_i inMsgId inSeqNo bytes _ _
          split at done
          · cases done
            exact ⟨.broken .restartConnection (.inr rfl), rfl⟩
          · dsimp only at done
            split at done
            · cases done
              exact ⟨.tooLong inMsgId (inSeqNo % 2 = 1), rfl⟩
            · split at done
              · rename_i later registered
                rw [Handling.andThen] at done
                split at done
                · rename_i first after handled
                  obtain ⟨message, told⟩ := inner _ _ _ _ _ handled
                  dsimp only at done
                  split at done
                  · rename_i succeeded
                    subst succeeded
                    obtain ⟨rest, later⟩ := ih done
                    refine ⟨.next inMsgId (inSeqNo % 2 = 1) message rest, ?_⟩
                    rw [SessionPrivate.handleContainer, registered]
                    simp only [told]
                    exact later
                  · rename_i stopped
                    cases done
                    refine ⟨.next inMsgId (inSeqNo % 2 = 1) message .done, ?_⟩
                    rw [SessionPrivate.handleContainer, registered]
                    simp only [told]
                · rename_i unhandled
                  exact absurd done (unhandled _ _)
              · rename_i later registered
                obtain ⟨rest, handled⟩ := ih done
                refine ⟨.next inMsgId (inSeqNo % 2 = 1) .unreadable rest, ?_⟩
                rw [SessionPrivate.handleContainer, registered]
                exact handled
              · rename_i later registered
                cases done
                refine ⟨.next inMsgId (inSeqNo % 2 = 1) .unreadable .done, ?_⟩
                rw [SessionPrivate.handleContainer, registered]

/-- Whatever the ints are, when they are handled then some message is, as `SessionReceive` handles it. -/
theorem handleOneReceived_simulated {fuel : Nat} {s s' : SessionPrivate} {info : OuterInfo} {ints : List Nat}
    {result : HandleResult} (done : (handleOneReceived inflate around fuel s info ints).outcome = .done result s') :
    ∃ message, s.handleOneReceived { around with ungzip := ungzip inflate } info message = (result, s') := by
  induction fuel generalizing s info ints result s' with
  | zero => cases done
  | succ fuel ih =>
      unfold handleOneReceived at done
      split at done
      · cases done
      · rename_i cons rest
        split at done
        · split at done
          · cases done
          · cases done
            exact ⟨.gzipBroken, rfl⟩
          · split at done
            · cases done
              exact ⟨.gzipBroken, rfl⟩
            · obtain ⟨message, handled⟩ := ih done
              refine ⟨.gzipPacked message, ?_⟩
              rw [SessionPrivate.handleOneReceived]
              exact handled
        · split at done
          · split at done
            · cases done
              exact ⟨.unreadable, rfl⟩
            · obtain ⟨messages, handled⟩ := handleMessages_simulated
                (fun s info ints result s' => ih) done
              refine ⟨.msgContainer messages, ?_⟩
              rw [SessionPrivate.handleOneReceived]
              exact handled
          · dsimp only at done
            rw [handleLeaf] at done
            split at done
            · cases done
            · cases done
              exact ⟨.unreadable, rfl⟩
            · rename_i message _ _
              injection done with sameResult sameSession
              exact ⟨message, Prod.ext sameResult sameSession⟩

end Simulation

end IMeDesktop.Mtproto.Requests
