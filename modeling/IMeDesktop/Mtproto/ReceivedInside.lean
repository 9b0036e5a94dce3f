import IMeDesktop.Mtproto.ReceivedInts

/-! # Where messages are read

Every reader stays inside of the end it is given, the header of a container's message and
its length are checked before they are used, and what is unpacked is not empty. What
remains are the two calls that are not checked: one for a packet without a message, and one
for an `rpc_result` that ends where the type of its answer should be.
-/

namespace IMeDesktop.Mtproto.Requests

open Lib

/-! ## Readers -/

theorem safe_readMsgsAck : readMsgsAck.Safe 0 :=
  safe_readOnly ((safe_readVector safe_readLong).bind fun _ => Reader.safe_pure _)

theorem safe_readBadMsgNotification : readBadMsgNotification.Safe 0 := by
  refine safe_readBoxed fun cons => ?_
  split_ifs
  · exact safe_readLong.bind fun _ => safe_readInt.bind fun _ => safe_readInt.bind fun _ => Reader.safe_pure _
  · exact safe_readLong.bind fun _ => safe_readInt.bind fun _ => safe_readInt.bind fun _ =>
      safe_readLong.bind fun _ => Reader.safe_pure _
  · exact Reader.safe_fail

theorem safe_readMsgsStateInfo : readMsgsStateInfo.Safe 0 :=
  safe_readOnly (safe_readLong.bind fun _ => safe_readString.bind fun _ => Reader.safe_pure _)

theorem safe_readMsgsAllInfo : readMsgsAllInfo.Safe 0 :=
  safe_readOnly ((safe_readVector safe_readLong).bind fun _ => safe_readString.bind fun _ => Reader.safe_pure _)

theorem safe_readMsgDetailedInfo : readMsgDetailedInfo.Safe 0 := by
  refine safe_readBoxed fun cons => ?_
  split_ifs
  · exact safe_readLong.bind fun _ => safe_readLong.bind fun _ => safe_readInt.bind fun _ =>
      safe_readInt.bind fun _ => Reader.safe_pure _
  · exact safe_readLong.bind fun _ => safe_readInt.bind fun _ => safe_readInt.bind fun _ => Reader.safe_pure _
  · exact Reader.safe_fail

theorem safe_readNewSession : readNewSession.Safe 0 := by
  have fields : readNewSessionCreated.Safe 0 :=
    safe_readOnly (safe_readLong.bind fun _ => safe_readLong.bind fun _ => safe_readLong.bind fun _ => Reader.safe_pure _)
  exact fields.consumed.bind fun _ => Reader.safe_pure _

theorem safe_readPong : readPong.Safe 0 :=
  safe_readOnly (safe_readLong.bind fun _ => safe_readLong.bind fun _ => Reader.safe_pure _)

theorem safe_readHeader : readHeader.Safe 0 :=
  safe_readLong.bind fun _ => safe_readInt.bind fun _ => safe_readInt.bind fun _ => Reader.safe_pure _

/-! ## Calls that do not fit -/

/-- An `rpc_result` without an answer, which is looked at: its time is good, or what it answers was sent. -/
def Call.ShortResult (call : Call) : Prop :=
  ∃ low high, call.ints = [mtpcRpcResult, low, high] ∧
    (call.info.badTime = true → call.session.wasSent (longOf low high) ≠ 0)

def Call.Fits (call : Call) : Prop := call.ints ≠ [] ∧ ¬ call.ShortResult

theorem readRpcResult_eq (s : SessionPrivate) (info : OuterInfo) (cons low high : Nat) (rest : List Nat) :
    readRpcResult s info (cons :: low :: high :: rest) =
      if info.badTime && !s.requestsFixTimeSalt [longOf low high] then .done (.rpcResult (longOf low high) 0 []) rest
      else readAnswer (longOf low high) rest := by
  have long : 3 ≤ (cons :: low :: high :: rest).length := by simp
  have two : 2 ≤ (low :: high :: rest).length := by simp
  simp only [readRpcResult, Bind.bind, Reader.require, if_pos long, Reader.get, readLong, if_pos two]
  show (if _ then _ else _ : Reader Nat Message) rest = _
  split <;> rfl

theorem safe_readAnswer (reqMsgId : Nat) : (readAnswer reqMsgId).Safe 1 := by
  refine Reader.Safe.get_bind fun typeId => ?_
  dsimp only
  split
  · exact safe_readString.ahead.bind fun _ => Reader.safe_all.bind fun _ => Reader.safe_pure _
  · exact Reader.safe_all.bind fun _ => Reader.safe_pure _

theorem readAnswer_fault (reqMsgId : Nat) (rest : List Nat) : readAnswer reqMsgId rest = .fault ↔ rest = [] := by
  cases rest with
  | nil => exact iff_of_true rfl rfl
  | cons typeId rest => exact iff_of_false (safe_readAnswer reqMsgId _ (Nat.le_add_left 1 _)).1 nofun

theorem readRpcResult_fault (s : SessionPrivate) (info : OuterInfo) (rest : List Nat) :
    readRpcResult s info (mtpcRpcResult :: rest) = .fault ↔
      Call.ShortResult ⟨s, info, mtpcRpcResult :: rest⟩ := by
  rcases rest with _ | ⟨low, _ | ⟨high, rest⟩⟩
  · exact iff_of_false nofun (by rintro ⟨_, _, ⟨⟩, _⟩)
  · exact iff_of_false nofun (by rintro ⟨_, _, ⟨⟩, _⟩)
  · have looked : (info.badTime && !s.requestsFixTimeSalt [longOf low high]) = true ↔
        ¬ (info.badTime = true → s.wasSent (longOf low high) ≠ 0) := by
      simp [SessionPrivate.requestsFixTimeSalt]
    have short : Call.ShortResult ⟨s, info, mtpcRpcResult :: low :: high :: rest⟩ ↔
        rest = [] ∧ (info.badTime = true → s.wasSent (longOf low high) ≠ 0) := by
      constructor
      · rintro ⟨_, _, ⟨⟩, good⟩
        exact ⟨rfl, good⟩
      · rintro ⟨rfl, good⟩
        exact ⟨low, high, rfl, good⟩
    rw [readRpcResult_eq, short]
    split_ifs with skipped
    · exact iff_of_false nofun fun both => looked.mp skipped both.2
    · rw [readAnswer_fault]
      exact ⟨fun empty => ⟨empty, not_not.mp (mt looked.mpr skipped)⟩, fun both => both.1⟩

theorem safe_readLeaf (s : SessionPrivate) (info : OuterInfo) {cons : Nat} (other : cons ≠ mtpcRpcResult) :
    (readLeaf s info cons).Safe 0 := by
  rw [readLeaf, if_neg other]
  split_ifs
  · exact safe_readMsgsAck
  · exact safe_readBadMsgNotification
  · exact safe_readBadMsgNotification
  · exact safe_readMsgsStateInfo
  · exact Reader.safe_pure _
  · exact safe_readMsgsAllInfo
  · exact safe_readMsgDetailedInfo
  · exact Reader.safe_pure _
  · exact safe_readMsgDetailedInfo
  · exact safe_readNewSession
  · exact safe_readPong
  · exact Reader.safe_all.bind fun _ => Reader.safe_pure _

theorem readLeaf_fault (s : SessionPrivate) (info : OuterInfo) (cons : Nat) (rest : List Nat) :
    readLeaf s info cons (cons :: rest) = .fault ↔ Call.ShortResult ⟨s, info, cons :: rest⟩ := by
  by_cases result : cons = mtpcRpcResult
  · subst result
    rw [← readRpcResult_fault]
    rfl
  · refine iff_of_false ((safe_readLeaf s info result).ne_fault _) ?_
    rintro ⟨low, high, same, -⟩
    exact result (List.cons.inj same).1

/-! ## Every call -/

/-- There is a fault exactly when a call was made that does not fit. -/
def Handling.Exact (handling : Handling) : Prop :=
  handling.outcome = .fault ↔ ∃ call ∈ handling.calls, ¬ call.Fits

theorem exact_finished (result : HandleResult) (s : SessionPrivate) : (finished result s).Exact :=
  iff_of_false nofun nofun

theorem Handling.Exact.andThen {handling : Handling} {next : HandleResult → SessionPrivate → Handling}
    (first : handling.Exact) (second : ∀ result s, (next result s).Exact) : (handling.andThen next).Exact := by
  rw [Handling.andThen]
  split
  · rename_i result s done
    have fit : ∀ call ∈ handling.calls, call.Fits := by
      intro call member
      by_contra bad
      have fault := first.mpr ⟨call, member, bad⟩
      rw [done] at fault
      cases fault
    refine (second result s).trans ?_
    constructor
    · rintro ⟨call, member, bad⟩
      exact ⟨call, List.mem_append_right _ member, bad⟩
    · rintro ⟨call, member, bad⟩
      rcases List.mem_append.mp member with earlier | later
      · exact absurd (fit call earlier) bad
      · exact ⟨call, later, bad⟩
  · exact first

theorem Handling.Exact.after {handling : Handling} {call : Call} (inner : handling.Exact) (fits : call.Fits) :
    Handling.Exact { handling with calls := call :: handling.calls } := by
  refine inner.trans ?_
  constructor
  · rintro ⟨other, member, bad⟩
    exact ⟨other, List.mem_cons_of_mem _ member, bad⟩
  · rintro ⟨other, member, bad⟩
    rcases List.mem_cons.mp member with rfl | later
    · exact absurd fits bad
    · exact ⟨other, later, bad⟩

theorem exact_call {call : Call} {outcome : Outcome} (only : outcome = .fault ↔ ¬ call.Fits) :
    Handling.Exact { calls := [call], outcome := outcome } := by
  refine only.trans ?_
  simp only [List.mem_singleton, exists_eq_left]

section Handle

variable {inflate : List Nat → List Nat} {around : Surroundings}

/-- A round of the loop over a container, as long as its messages are handled exactly. -/
theorem exact_handleMessages {handle : SessionPrivate → OuterInfo → List Nat → Handling}
    (inner : ∀ s info ints, (handle s info ints).Exact) (count : Nat) (s : SessionPrivate) (info : OuterInfo)
    (ints : List Nat) : (handleMessages handle count s info ints).Exact := by
  induction count generalizing s info ints with
  | zero => exact exact_finished _ _
  | succ count ih =>
      rw [handleMessages]
      split
      · exact exact_finished _ _
      · split
        · rename_i fault
          exact absurd fault (safe_readHeader.ne_fault _)
        · exact exact_finished _ _
        · split
          · exact exact_finished _ _
          · dsimp only
            split
            · exact exact_finished _ _
            · split
              · refine (inner _ _ _).andThen fun result s => ?_
                split
                · exact ih _ _ _
                · exact exact_finished _ _
              · exact ih _ _ _
              · exact exact_finished _ _

theorem handleLeaf_fault (s : SessionPrivate) (info : OuterInfo) (cons : Nat) (rest : List Nat) :
    handleLeaf inflate around s info cons (cons :: rest) = .fault ↔ ¬ Call.Fits ⟨s, info, cons :: rest⟩ := by
  have fits : ¬ Call.Fits ⟨s, info, cons :: rest⟩ ↔ Call.ShortResult ⟨s, info, cons :: rest⟩ := by
    simp [Call.Fits]
  rw [fits, ← readLeaf_fault, handleLeaf]
  cases readLeaf s info cons (cons :: rest) with
  | fault => exact iff_of_true rfl rfl
  | failed => exact iff_of_false (fun same => by cases same) fun same => by cases same
  | done message rest => exact iff_of_false (fun same => by cases same) fun same => by cases same

theorem fits_of_head {s : SessionPrivate} {info : OuterInfo} {cons : Nat} (rest : List Nat)
    (other : cons ≠ mtpcRpcResult) : Call.Fits ⟨s, info, cons :: rest⟩ := by
  refine ⟨nofun, ?_⟩
  rintro ⟨low, high, same, -⟩
  exact other (List.cons.inj same).1

theorem exact_handleOneReceived (fuel : Nat) (s : SessionPrivate) (info : OuterInfo) (ints : List Nat) :
    (handleOneReceived inflate around fuel s info ints).Exact := by
  induction fuel generalizing s info ints with
  | zero =>
      refine iff_of_false (fun same => by cases same) ?_
      rintro ⟨_, member, _⟩
      cases member
  | succ fuel ih =>
      cases ints with
      | nil => exact exact_call (iff_of_true rfl fun fits => fits.1 rfl)
      | cons cons rest =>
          simp only [handleOneReceived]
          split
          · rename_i packed
            have fits : Call.Fits ⟨s, info, cons :: rest⟩ := fits_of_head rest (packed ▸ by decide)
            split
            · rename_i fault
              exact absurd fault (safe_readString.ne_fault rest)
            · exact exact_call (iff_of_false (fun same => by cases same) (not_not.mpr fits))
            · split
              · exact exact_call (iff_of_false (fun same => by cases same) (not_not.mpr fits))
              · exact (ih _ _ _).after fits
          · split
            · rename_i container
              have fits : Call.Fits ⟨s, info, cons :: rest⟩ := fits_of_head rest (container ▸ by decide)
              split
              · exact exact_call (iff_of_false (fun same => by cases same) (not_not.mpr fits))
              · exact (exact_handleMessages ih _ _ _ _).after fits
            · exact exact_call (handleLeaf_fault s info cons rest)

/-! ## Messages inside of others -/

theorem mem_calls_andThen {handling : Handling} {next : HandleResult → SessionPrivate → Handling} {call : Call}
    (member : call ∈ (handling.andThen next).calls) :
    call ∈ handling.calls ∨ ∃ result s, call ∈ (next result s).calls := by
  rw [Handling.andThen] at member
  split at member
  · rename_i result s _
    exact (List.mem_append.mp member).imp_right fun later => ⟨result, s, later⟩
  · exact Or.inl member

theorem nonempty_part {inMsgId bytes : Nat} {ints : List Nat} (good : ¬ (badMsgId inMsgId || badLength bytes) = true)
    (fits : ¬ bytes / 4 > ints.length) : ints.take (bytes / 4) ≠ [] := by
  intro empty
  simp only [badLength, Bool.or_eq_true, not_or, decide_eq_true_eq, Nat.not_lt] at good
  have length := congrArg List.length empty
  rw [List.length_take, List.length_nil] at length
  omega

/-- Only the call for the message of a packet can be given nothing. -/
theorem handleMessages_nonempty {handle : SessionPrivate → OuterInfo → List Nat → Handling}
    (inner : ∀ s info ints, ints ≠ [] → ∀ call ∈ (handle s info ints).calls, call.ints ≠ []) (count : Nat)
    (s : SessionPrivate) (info : OuterInfo) (ints : List Nat) :
    ∀ call ∈ (handleMessages handle count s info ints).calls, call.ints ≠ [] := by
  induction count generalizing s info ints with
  | zero => exact List.forall_mem_nil _
  | succ count ih =>
      rw [handleMessages]
      split
      · exact List.forall_mem_nil _
      · split
        · exact List.forall_mem_nil _
        · exact List.forall_mem_nil _
        · split
          · exact List.forall_mem_nil _
          · rename_i good
            dsimp only
            split
            · exact List.forall_mem_nil _
            · rename_i fits
              split
              · intro call member
                rcases mem_calls_andThen member with earlier | ⟨result, s, later⟩
                · exact inner _ _ _ (nonempty_part good fits) call earlier
                · split at later
                  · exact ih _ _ _ call later
                  · cases later
              · exact ih _ _ _
              · exact List.forall_mem_nil _

theorem handleOneReceived_nonempty (fuel : Nat) (s : SessionPrivate) (info : OuterInfo) {ints : List Nat}
    (nonempty : ints ≠ []) : ∀ call ∈ (handleOneReceived inflate around fuel s info ints).calls, call.ints ≠ [] := by
  induction fuel generalizing s info ints with
  | zero => nofun
  | succ fuel ih =>
      have own : ∀ call ∈ [(⟨s, info, ints⟩ : Call)], call.ints ≠ [] := List.forall_mem_singleton.mpr nonempty
      cases ints with
      | nil => exact absurd rfl nonempty
      | cons cons rest =>
          simp only [handleOneReceived]
          split
          · split
            · exact own
            · exact own
            · split
              · exact own
              · rename_i unpacked
                exact List.forall_mem_cons.mpr ⟨nonempty, ih _ _ unpacked⟩
          · split
            · split
              · exact own
              · exact List.forall_mem_cons.mpr
                  ⟨nonempty, handleMessages_nonempty (fun s info ints some => ih s info some) _ _ _ _⟩
            · exact own

/-! ## Packets -/

/-- A message that passed the checks ends inside of what was decrypted. -/
theorem message_inside {count messageLength : Nat} (bounded : count * 4 ≤ kMaxMessageLength)
    (good : badMessageLength (count * 4) messageLength = false) :
    kEncryptedHeaderIntsCount + messageLength / 4 ≤ count := by
  simp only [badMessageLength, paddingSize, Bool.or_eq_false_iff, decide_eq_false_iff_not, not_lt, kMaxMessageLength,
    kMinPaddingSize, kMaxPaddingSize, kEncryptedHeaderIntsCount, not_not, gt_iff_lt, ne_eq] at good bounded ⊢
  omega

theorem exact_handleDecrypted (fuel : Nat) (link : Link) (s : SessionPrivate) (salt msgId msgIdHigh seqNo : Nat)
    (message : List Nat) :
    (handleDecrypted inflate around fuel link s salt msgId msgIdHigh seqNo message).Exact := by
  rw [handleDecrypted]
  split
  · exact (exact_handleOneReceived _ _ _ _).andThen fun _ _ => exact_finished _ _
  · exact exact_finished _ _
  · exact exact_finished _ _

theorem exists_six {ints : List Nat} (long : 6 ≤ ints.length) :
    ∃ a b c d e f rest, ints = a :: b :: c :: d :: e :: f :: rest := by
  rcases ints with _ | ⟨a, _ | ⟨b, _ | ⟨c, _ | ⟨d, _ | ⟨e, _ | ⟨f, rest⟩⟩⟩⟩⟩⟩
  iterate 6 exact absurd long (by simp)
  exact ⟨a, b, c, d, e, f, rest, rfl⟩

theorem exists_eight {ints : List Nat} (long : 8 ≤ ints.length) :
    ∃ a b c d e f g h rest, ints = a :: b :: c :: d :: e :: f :: g :: h :: rest := by
  obtain ⟨a, b, c, d, e, f, rest, rfl⟩ := exists_six (Nat.le_trans (by decide : 6 ≤ 8) long)
  rcases rest with _ | ⟨g, _ | ⟨h, rest⟩⟩
  iterate 2 exact absurd long (by simp)
  exact ⟨a, b, c, d, e, f, g, h, rest, rfl⟩

theorem exact_handlePacket (fuel : Nat) (link : Link) (s : SessionPrivate) (ints : List Nat) :
    (handlePacket inflate around fuel link s ints).Exact := by
  unfold handlePacket
  split
  · exact exact_finished _ _
  · rename_i enough
    simp only [kMinimalIntsCount, kExternalHeaderIntsCount, kEncryptedHeaderIntsCount, kMaxMessageLength] at enough
    split
    · rename_i keyLow keyHigh k₀ k₁ k₂ k₃ encrypted
      split
      · exact exact_finished _ _
      · have length := link.key.length_decrypt [k₀, k₁, k₂, k₃] (encrypted.take (encrypted.length / 4 * 4))
        rw [List.length_take] at length
        simp only [List.length_cons] at enough
        dsimp only
        split
        · rename_i decrypted
          split
          · exact exact_finished _ _
          · rename_i good
            rw [decrypted] at length
            simp only [List.length_cons] at length
            have inside := @message_inside (encrypted.length / 4 * 4) _ (by rw [kMaxMessageLength]; omega)
              (by simpa using fun bad => good (Or.inr (Or.inl bad)))
            rw [kEncryptedHeaderIntsCount] at inside
            rw [if_neg (by omega)]
            exact exact_handleDecrypted _ _ _ _ _ _ _ _
        · rename_i short
          obtain ⟨_, _, _, _, _, _, _, _, _, cut⟩ := @exists_eight (link.key.decrypt [k₀, k₁, k₂, k₃]
            (encrypted.take (encrypted.length / 4 * 4))) (by omega)
          exact absurd cut (short _ _ _ _ _ _ _ _ _)
    · rename_i short
      obtain ⟨_, _, _, _, _, _, _, cut⟩ := @exists_six ints (by omega)
      exact absurd cut (short _ _ _ _ _ _ _)

/-- All calls but the one for the packet's message are given something. -/
def Handling.InnerNonempty (handling : Handling) : Prop := ∀ call ∈ handling.calls.tail, call.ints ≠ []

theorem innerNonempty_finished (result : HandleResult) (s : SessionPrivate) : (finished result s).InnerNonempty := nofun

theorem innerNonempty_handleOneReceived (fuel : Nat) (s : SessionPrivate) (info : OuterInfo) (ints : List Nat) :
    (handleOneReceived inflate around fuel s info ints).InnerNonempty := by
  cases ints with
  | nil => cases fuel <;> nofun
  | cons cons rest =>
      intro call member
      exact handleOneReceived_nonempty fuel s info (List.cons_ne_nil cons rest) call (List.mem_of_mem_tail member)

theorem innerNonempty_handleDecrypted (fuel : Nat) (link : Link) (s : SessionPrivate)
    (salt msgId msgIdHigh seqNo : Nat) (message : List Nat) :
    (handleDecrypted inflate around fuel link s salt msgId msgIdHigh seqNo message).InnerNonempty := by
  rw [handleDecrypted]
  split
  · rw [Handling.andThen]
    split
    · have inner := @innerNonempty_handleOneReceived inflate around
      simp only [finished, List.append_nil]
      exact inner _ _ _ _
    · exact innerNonempty_handleOneReceived _ _ _ _
  · exact innerNonempty_finished _ _
  · exact innerNonempty_finished _ _

theorem innerNonempty_handlePacket (fuel : Nat) (link : Link) (s : SessionPrivate) (ints : List Nat) :
    (handlePacket inflate around fuel link s ints).InnerNonempty := by
  unfold handlePacket
  split
  · exact innerNonempty_finished _ _
  · split
    · split
      · exact innerNonempty_finished _ _
      · dsimp only
        split
        · split
          · exact innerNonempty_finished _ _
          · split
            · nofun
            · exact innerNonempty_handleDecrypted _ _ _ _ _ _ _ _
        · nofun
    · nofun

/-- A packet is read inside of its ints exactly when no call is made that does not fit: the one for a packet without a
message, or one for an `rpc_result` that ends before its answer. All other calls are given something. -/
theorem handlePacket_inside_iff (inflate : List Nat → List Nat) (around : Surroundings) (fuel : Nat) (link : Link)
    (s : SessionPrivate) (ints : List Nat) :
    ((handlePacket inflate around fuel link s ints).outcome ≠ .fault ↔
      ∀ call ∈ (handlePacket inflate around fuel link s ints).calls, call.Fits) ∧
    ∀ call ∈ (handlePacket inflate around fuel link s ints).calls.tail, call.ints ≠ [] := by
  refine ⟨?_, innerNonempty_handlePacket fuel link s ints⟩
  have fault := @exact_handlePacket inflate around fuel link s ints
  rw [Handling.Exact] at fault
  rw [ne_eq, fault]
  simp only [not_exists, not_and, not_not]

/-- Packets that pass the checks: one with an `rpc_result` of three ints, and one with no message at all. -/
theorem packet_read_outside :
    let key : EncryptionKey :=
      { keyId := 0, decrypt := fun _ ints => ints, length_decrypt := fun _ _ => rfl, msgKeyOf := fun _ => [0, 0, 0, 0] }
    let link : Link := { key := key, sessionId := 0, sessionSalt := 0, clientTime := 0 }
    (handlePacket id {} 1 link {} ([0, 0, 0, 0, 0, 0] ++ ([0, 0, 0, 0, 1, 0, 0, 12] ++
      ([mtpcRpcResult, 5, 0] ++ [0, 0, 0, 0, 0])))).outcome.isFault = true ∧
    (handlePacket id {} 1 link {} ([0, 0, 0, 0, 0, 0] ++ ([0, 0, 0, 0, 1, 0, 0, 0] ++
      [0, 0, 0, 0]))).outcome.isFault = true := by
  decide

end Handle

end IMeDesktop.Mtproto.Requests
