import Hnatsd.Misc.Bytes

/-!
# Packets and the connection states

The packets two sessions of the sliding window protocol exchange (`swp.go:93-202`) and the state
machine that opens and closes a session (`tcp.go`).

Inboxes and nonces are strings; the empty one stands for "not known". Round-trip estimates and time
stamps of a packet only feed the estimate of the retry deadline, which is a parameter of the model,
and are left out.
-/

namespace Hnatsd.Swp
open Misc

/-- `TcpState` (`tcp.go:5-26`). -/
inductive TcpState where
  | fresh
  | closed
  | listen
  | synReceived
  | synSent
  | established
  | closeInitiatorHasSentFin
  | closeResponderGotFin
  deriving DecidableEq

/-- The number of a state. -/
def TcpState.num : TcpState → Nat
  | .fresh => 0
  | .closed => 1
  | .listen => 2
  | .synReceived => 3
  | .synSent => 4
  | .established => 5
  | .closeInitiatorHasSentFin => 6
  | .closeResponderGotFin => 7

/-- `TcpEvent` (`tcp.go:34-70`). -/
inductive TcpEvent where
  | nil
  | startListen
  | startConnect
  | syn
  | synAck
  | estabAck
  | startClose
  | applicationClosed
  | fin
  | finAck
  | dataAck
  | data
  | keepAlive
  deriving DecidableEq

/-- `TcpAction` (`tcp.go:72-83`). -/
inductive TcpAction where
  | noAction
  | sendSyn
  | sendSynAck
  | sendEstabAck
  | sendFin
  | sendFinAck
  | doAppClose
  | sendDataAck
  deriving DecidableEq

/-- `UpdateTcp` (`tcp.go:98-189`): the state after an event, and what is to be done. -/
def TcpState.updateTcp (s : TcpState) (e : TcpEvent) (fromState : TcpState) :
    TcpState × TcpAction :=
  match s, e with
  -- Closed is permanent
  | .closed, _ => (.closed, .sendFinAck)
  | .fresh, .startListen => (.listen, .noAction)
  | .fresh, .startConnect => (.synSent, .sendSyn)
  | .listen, .syn => (.synReceived, .sendSynAck)
  | .listen, .fin => (.closeResponderGotFin, .doAppClose)
  | .synReceived, .estabAck => (.established, .noAction)
  | .synReceived, .keepAlive =>
      -- the EstabAck was probably lost
      if fromState = .established then (.established, .noAction) else (.synReceived, .noAction)
  | .synReceived, .fin => (.closeResponderGotFin, .doAppClose)
  | .synSent, .synAck => (.established, .sendEstabAck)
  | .synSent, .syn => (.synReceived, .sendEstabAck)
  | .synSent, .fin => (.closeResponderGotFin, .doAppClose)
  | .established, .keepAlive => (.established, .sendDataAck)
  | .established, .startClose => (.closeInitiatorHasSentFin, .sendFin)
  | .established, .fin => (.closeResponderGotFin, .doAppClose)
  | .closeInitiatorHasSentFin, .finAck => (.closed, .noAction)
  | .closeInitiatorHasSentFin, .fin => (.closed, .noAction)
  | .closeResponderGotFin, .applicationClosed => (.closed, .noAction)
  | s, _ => (s, .noAction)

/-- `isRetryState` (`retry.go:18-28`). -/
def TcpState.isRetryState : TcpState → Bool
  | .synSent | .synReceived | .closeInitiatorHasSentFin => true
  | _ => false

/-- `Packet` (`swp.go:93-202`). -/
structure Packet where
  from' : Bytes := []
  dest : Bytes := []
  fromSessNonce : Bytes := []
  destSessNonce : Bytes := []
  seqNum : Int := 0
  seqRetry : Int := 0
  ackNum : Int := 0
  ackRetry : Int := 0
  tcpEvent : TcpEvent := .nil
  fromTcpState : TcpState := .fresh
  availReaderBytesCap : Int := 0
  availReaderMsgCap : Int := 0
  cumulBytesTransmitted : Int := 0
  data : Bytes := []
  dataOffset : Nat := 0
  blake2bChecksum : Bytes := []
  deriving DecidableEq

/-- `InWindow` (`swp.go:436-444`). -/
def inWindow (seqno min max : Int) : Bool := min ≤ seqno ∧ seqno ≤ max

/-- `CopyPacketSansData` (`recv.go:690-694`). -/
def Packet.copySansData (p : Packet) : Packet := { p with data := [] }

/-- What neither a retry nor a reader changes about a packet. -/
def Packet.message (p : Packet) : Packet :=
  { p with
    seqRetry := 0
    availReaderBytesCap := 0
    availReaderMsgCap := 0
    fromSessNonce := []
    destSessNonce := []
    dataOffset := 0 }

end Hnatsd.Swp
