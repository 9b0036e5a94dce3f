import Mathlib

/-! # Constructor ids

The ids of the scheme that the session itself looks at, and how a 64-bit value lies in
ints. Ints are numbers below `2 ^ 32`.
-/

namespace IMeDesktop.Mtproto

def mtpcVector : Nat := 0x1cb5c415

def mtpcMsgContainer : Nat := 0x73f1f8dc
def mtpcRpcResult : Nat := 0xf35c6d01
def mtpcMsgsAck : Nat := 0x62d6b459
def mtpcBadMsgNotification : Nat := 0xa7eff811
def mtpcBadServerSalt : Nat := 0xedab447b
def mtpcMsgsStateReq : Nat := 0xda69fb52
def mtpcMsgsStateInfo : Nat := 0x04deb57d
def mtpcMsgsAllInfo : Nat := 0x8cc0d131
def mtpcMsgDetailedInfo : Nat := 0x276d3ec6
def mtpcMsgNewDetailedInfo : Nat := 0x809db6df
def mtpcMsgResendReq : Nat := 0x7d861a08
def mtpcNewSessionCreated : Nat := 0x9ec20908
def mtpcPong : Nat := 0x347773c5
def mtpcHttpWait : Nat := 0x9299359f

def mtpcPing : Nat := 0x7abe77ec
def mtpcPingDelayDisconnect : Nat := 0xf3427b8c
def mtpcInvokeAfterMsg : Nat := 0xcb9f372d
def mtpcInvokeWithLayer : Nat := 0xda9b0d0d
def kCurrentLayer : Nat := 143

/-- A `long` as it is written: the low int first. -/
def longInts (value : Nat) : List Nat := [value % 2 ^ 32, value / 2 ^ 32]

def longOf (low high : Nat) : Nat := low + 2 ^ 32 * high

@[simp]
theorem length_longInts (value : Nat) : (longInts value).length = 2 := rfl

theorem longOf_longInts (value : Nat) : longOf (value % 2 ^ 32) (value / 2 ^ 32) = value :=
  Nat.mod_add_div value (2 ^ 32)

end IMeDesktop.Mtproto
