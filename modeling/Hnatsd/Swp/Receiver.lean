import Hnatsd.Misc.Assoc
import Hnatsd.Swp.Sender

/-!
# The receiver of a session

The receiver checks the packets that arrive, hands each one to its sender for the flow control
information and the ack in it, then delivers data in order through a ring of slots and runs the
connection state machine on the rest (`recv.go`, `retry.go`). It has a pointer to the sender, so its
functions act on the session.

Left out: as-soon-as-possible delivery, the queries for the connection state and for the number of
messages held, and the application's callback on close.
-/

namespace Hnatsd.Swp
open Misc

/-- `tcpRetryLogic` (`retry.go:7-16`). -/
structure TcpRetryLogic where
  curState : TcpState := .fresh
  inUse : Bool := false
  firstStateAction : TcpAction := .noAction
  attemptCount : Nat := 0
  causalPacket : Option Packet := none

/-- Where the receiver is: in its `select`, handing a packet to the sender, or behind that. -/
inductive RecvAt where
  | select
  | handing (pack : Packet)
  | handed (pack : Packet)

/-- `RecvState` (`recv.go:24-101`). A slot of `rxq` holds a packet iff it is marked as received.
`connReqPending` says, if there is a request, whether its `Done` channel has been closed.
`consumed`, `batches` and `bytesRead` record what the consumer has taken: all packets, those taken
as batches of `ReadMessagesCh`, and the bytes taken by `Read`. -/
structure RecvState where
  inbox : Bytes
  remoteInbox : Bytes
  nextFrameExpected : Int := 0
  lastFrameClientConsumed : Int := 0
  rxq : List (Option Packet)
  recvWindowSize : Int
  recvWindowSizeBytes : Int
  lastMsgConsumed : Int := -1
  largestSeqnoRcvd : Int := -1
  maxCumulBytesTrans : Int := 0
  lastByteConsumed : Int := -1
  lastAvailReaderBytesCap : Int := 0
  lastAvailReaderMsgCap : Int := 0
  rcvdButNotConsumed : List (Int × Packet) := []
  readyForDelivery : List Packet := []
  tcpState : TcpState := .listen
  retry : TcpRetryLogic := {}
  retryTimerSet : Bool := false
  localSessNonce : Bytes
  remoteSessNonce : Bytes := []
  connReqPending : Option Bool := none
  place : RecvAt := .select
  consumed : List Packet := []
  batches : List (List Packet) := []
  bytesRead : Bytes := []

/-- `NewRecvState` (`recv.go:112-164`). -/
def RecvState.new (recvSz : Nat) (recvSzBytes : Int) (inbox destInbox nonce : Bytes) :
    RecvState where
  inbox := inbox
  remoteInbox := destInbox
  rxq := List.replicate recvSz none
  recvWindowSize := recvSz
  recvWindowSizeBytes := recvSzBytes
  localSessNonce := nonce

/-- The panics of a session. -/
inductive Panic where
  | lenBySeqByDeadline
  | cumulBytesDecreased
  | cumulBytesOutOfOrder
  | slotOutOfRange
  | remoteNonceDiffers
  | remoteNonceSet
  | noConnReqPending
  | closeOfClosed
  deriving DecidableEq

/-- A session: sender and receiver, whether their goroutines still run, and the panic that ended
the program. -/
structure Session where
  snd : SenderState
  rcv : RecvState
  sndRuns : Bool := true
  rcvRuns : Bool := true
  panic : Option Panic := none

def Session.fails (s : Session) (p : Panic) : Session := { s with panic := some p }

/-- `UpdateControl` (`recv.go:573-585`). -/
def Session.updateControl (s : Session) : Session :=
  let r := s.rcv
  let msgCap := r.recvWindowSize - (r.largestSeqnoRcvd - r.lastMsgConsumed)
  let bytesCap := r.recvWindowSizeBytes - (r.maxCumulBytesTrans - (r.lastByteConsumed + 1))
  { s with
    rcv := { r with lastAvailReaderMsgCap := msgCap, lastAvailReaderBytesCap := bytesCap }
    snd := { s.snd with flow := s.snd.flow.updateFlow msgCap bytesCap } }

/-- `cap(r.snd.SendAck)`. -/
def sendAckCap : Nat := 5

/-- `ack` (`recv.go:591-637`). A full queue loses its oldest ack. -/
def Session.ack (s : Session) (seqno : Int) (pack : Packet) (event : TcpEvent) : Session :=
  let s := s.updateControl
  let r := s.rcv
  let ack : Packet :=
    { from' := r.inbox
      fromSessNonce := r.localSessNonce
      dest := r.remoteInbox
      destSessNonce := r.remoteSessNonce
      seqNum := -99
      seqRetry := -99
      ackNum := seqno
      tcpEvent := event
      availReaderBytesCap := r.lastAvailReaderBytesCap
      availReaderMsgCap := r.lastAvailReaderMsgCap
      ackRetry := pack.seqRetry }
  let queue := if s.snd.sendAck.length = sendAckCap then s.snd.sendAck.drop 1 else s.snd.sendAck
  { s with snd := { s.snd with sendAck := queue ++ [ack] } }

/-- `doTcpAction` (`recv.go:703-770`), with the next event. -/
def Session.doTcpAction (s : Session) (act : TcpAction) (pack : Packet) : Session × TcpEvent :=
  let ack (s : Session) (event : TcpEvent) := s.ack s.rcv.lastFrameClientConsumed pack event
  match act with
  | .noAction => (s, .nil)
  | .sendDataAck => (ack s .dataAck, .nil)
  | .sendSyn => (ack s .syn, .nil)
  | .sendSynAck =>
      if s.rcv.remoteSessNonce ≠ [] ∧ s.rcv.remoteSessNonce ≠ pack.fromSessNonce then
        (s.fails .remoteNonceDiffers, .nil)
      else
        (ack { s with rcv := { s.rcv with remoteSessNonce := pack.fromSessNonce } } .synAck, .nil)
  | .sendEstabAck =>
      if s.rcv.remoteSessNonce ≠ [] then (s.fails .remoteNonceSet, .nil)
      else
        let s := { s with rcv := { s.rcv with remoteSessNonce := pack.fromSessNonce } }
        match s.rcv.connReqPending with
        | none => (s.fails .noConnReqPending, .nil)
        | some true => (s.fails .closeOfClosed, .nil)
        | some false =>
            (ack { s with rcv := { s.rcv with connReqPending := none } } .estabAck, .nil)
  | .sendFin => (ack s .fin, .nil)
  | .sendFinAck => (ack s .finAck, .nil)
  | .doAppClose => (ack s .finAck, .applicationClosed)

/-- `setupRetry` (`retry.go:78-108`). -/
def RecvState.setupRetry (r : RecvState) (pre post : TcpState) (pack : Packet) (act : TcpAction) :
    RecvState :=
  if post = pre then r
  else if r.tcpState.isRetryState then
    { r with
      retry := { r.retry with
        inUse := true
        curState := post
        firstStateAction := act
        causalPacket := some pack }
      retryTimerSet := true }
  else
    { r with
      retry := { r.retry with inUse := false, causalPacket := none }
      retryTimerSet := false }

/-- One event at the connection state machine (`recv.go:459-472`). -/
def Session.tcpEvent (s : Session) (event : TcpEvent) (pack : Packet) : Session × TcpEvent :=
  let pre := s.rcv.tcpState
  let (post, act) := pre.updateTcp event pack.fromTcpState
  let r := { s.rcv with tcpState := post }
  let r := if pre ≠ post then r.setupRetry pre post pack act else r
  Session.doTcpAction { s with rcv := r } act pack

/-- The jumps to `doNextEvent` (`recv.go:459-478`). -/
def Session.doNextEvent (pack : Packet) : Nat → Session → TcpEvent → Session
  | 0, s, _ => s
  | fuel + 1, s, event =>
      let (s, eventNext) := s.tcpEvent event pack
      if s.panic ≠ none ∨ eventNext = .nil then s else doNextEvent pack fuel s eventNext

/-- A packet that is not data (`recv.go:455-489`). -/
def Session.recvInfo (s : Session) (pack : Packet) : Session :=
  let s := s.doNextEvent pack 2 pack.tcpEvent
  if s.rcv.tcpState = .closed then { s with rcvRuns := false } else s

/-- The loop that moves slots to `ReadyForDelivery` (`recv.go:531-545`). Every round empties a
slot. -/
def RecvState.deliverReceived : Nat → RecvState → RecvState
  | 0, r => r
  | fuel + 1, r =>
      let pos := (r.nextFrameExpected % r.recvWindowSize).toNat
      match r.rxq.getD pos none with
      | none => r
      | some pack =>
          deliverReceived fuel { r with
            readyForDelivery := r.readyForDelivery ++ [pack]
            rxq := r.rxq.set pos none
            nextFrameExpected := r.nextFrameExpected + 1 }

/-- Data that is not an old duplicate is held until it is consumed (`recv.go:493-498`). -/
def RecvState.hold (r : RecvState) (pack : Packet) : RecvState :=
  if r.nextFrameExpected ≤ pack.seqNum then
    { r with rcvdButNotConsumed := assocSet r.rcvdButNotConsumed pack.seqNum pack }
  else r

/-- A data packet (`recv.go:491-556`). -/
def Session.recvData (s : Session) (pack : Packet) : Session :=
  let r := s.rcv.hold pack
  let pos := pack.seqNum.tmod r.recvWindowSize
  if pos < 0 then Session.fails { s with rcv := r } .slotOutOfRange
  else if inWindow pack.seqNum r.nextFrameExpected
      (r.nextFrameExpected + r.recvWindowSize - 1) = false then
    Session.ack { s with rcv := r } r.lastFrameClientConsumed pack .dataAck
  else
    let r := { r with rxq := r.rxq.set pos.toNat (some pack) }
    if pack.seqNum = r.nextFrameExpected then
      { s with
        rcv := r.deliverReceived r.rxq.length
        snd := { s.snd with recvLastFrameClientConsumed := r.lastFrameClientConsumed } }
    else { s with rcv := r }

end Hnatsd.Swp
