import Hnatsd.Misc.Int64
import Hnatsd.Misc.OrderedSet
import Hnatsd.Swp.Packet

/-!
# The sender of a session

The sender's window is a ring of slots that are overwritten in place. Two trees hold slots, not
copies of them, ordered by the retry deadline and by the sequence number the slots carry at the
moment (`sender.go`, `retree.go`). A tree is modelled by the positions of its slots in order.

Clock readings, and with them retry deadlines, are parameters of the steps. A time is the number of
nanoseconds since 1970. Every push brings a packet of its own.
-/

namespace Hnatsd.Swp
open Misc

/-- `TxqSlot` (`sender.go:14-19`). A slot enters the trees after its packet has been set. -/
structure TxqSlot where
  retryDeadline : Int := 0
  pack : Packet := {}

/-- `Flow` (`flow.go:18-61`): what the receiver advertises. -/
structure Flow where
  availReaderBytesCap : Int := 0
  availReaderMsgCap : Int := 0

/-- `UpdateFlow` (`flow.go:87-106`): negative capacities are ignored. -/
def Flow.updateFlow (f : Flow) (availReaderMsgCap availReaderBytesCap : Int) : Flow where
  availReaderMsgCap := if 0 ≤ availReaderMsgCap then availReaderMsgCap else f.availReaderMsgCap
  availReaderBytesCap :=
    if 0 ≤ availReaderBytesCap then availReaderBytesCap else f.availReaderBytesCap

/-- `SenderState` (`sender.go:34-99`). `retrying` holds the slots that a wakeup has taken out of the
trees and not yet sent again. `acked` and `heard` record what has happened: the packets that were
acknowledged, and the `AckNum` of every packet received with the last frame sent before it. -/
structure SenderState where
  inbox : Bytes
  dest : Bytes
  lastFrameSent : Int := -1
  txq : List TxqSlot
  senderWindowSize : Int
  sendHistory : List Packet := []
  sendAck : List Packet := []
  sentButNotAckedByDeadline : List Nat := []
  sentButNotAckedBySeqNum : List Nat := []
  lastSeenAvailReaderBytesCap : Int := 1024 * 1024
  lastSeenAvailReaderMsgCap : Int
  flow : Flow := {}
  totalBytesSent : Int := 0
  recvLastFrameClientConsumed : Int := 0
  localSessNonce : Bytes
  remoteSessNonce : Bytes := []
  retrying : List Nat := []
  acked : List Packet := []
  heard : List (Int × Int) := []

/-- `NewSenderState` (`sender.go:109-182`). -/
def SenderState.new (sendSz : Nat) (inbox destInbox nonce : Bytes) : SenderState where
  inbox := inbox
  dest := destInbox
  txq := List.replicate sendSz {}
  senderWindowSize := sendSz
  lastSeenAvailReaderMsgCap := sendSz
  localSessNonce := nonce

/-- The slot at a position of the ring. -/
def SenderState.slotAt (s : SenderState) (pos : Nat) : TxqSlot := s.txq.getD pos {}

def SenderState.setSlot (s : SenderState) (pos : Nat) (slot : TxqSlot) : SenderState :=
  { s with txq := s.txq.set pos slot }

/-- `compareRetryDeadline` (`retree.go:44-51`): times are compared by the difference of their 64-bit
`UnixNano`. -/
def compareRetryDeadline (a b : TxqSlot) : Int :=
  let ta := wrap64 a.retryDeadline
  let tb := wrap64 b.retryDeadline
  if ta ≠ tb then wrap64 (ta - tb) else a.pack.seqNum - b.pack.seqNum

/-- `compareSeqNum` (`retree.go:53-55`). -/
def compareSeqNum (a b : TxqSlot) : Int := a.pack.seqNum - b.pack.seqNum

namespace SenderState

/-- The order of the tree by deadline. -/
def byDeadline (s : SenderState) (i j : Nat) : Int :=
  compareRetryDeadline (s.slotAt i) (s.slotAt j)

/-- The order of the tree by sequence number. -/
def bySeqNum (s : SenderState) (i j : Nat) : Int :=
  compareSeqNum (s.slotAt i) (s.slotAt j)

/-- A slot is inserted into both trees. -/
def insertSlot (s : SenderState) (pos : Nat) : SenderState :=
  { s with
    sentButNotAckedByDeadline := treeInsert s.byDeadline pos s.sentButNotAckedByDeadline
    sentButNotAckedBySeqNum := treeInsert s.bySeqNum pos s.sentButNotAckedBySeqNum }

/-- `ComputeInflight` (`sender.go:186-193`). -/
def computeInflight (s : SenderState) : Int × Int :=
  ((s.sentButNotAckedByDeadline.map fun pos => ((s.slotAt pos).pack.data.length : Int)).sum,
    s.sentButNotAckedByDeadline.length)

/-- The flow check at the top of the send loop (`sender.go:222-246`). -/
def acceptSend (s : SenderState) : Bool :=
  let (bytesInflight, msgInflight) := s.computeInflight
  0 < s.lastSeenAvailReaderMsgCap - msgInflight ∧
    0 < s.lastSeenAvailReaderBytesCap - bytesInflight

/-- The packet as `Push` hands it to the sender (`swp.go:607-622`). -/
def pushed (s : SenderState) (data : Bytes) : Packet :=
  { from' := s.inbox, dest := s.dest, data := data, tcpEvent := .data }

/-- The packet as it is sent for the first time (`sender.go:447-504`). -/
def origPack (blake2b : Bytes → Bytes) (s : SenderState) (pack : Packet) : Packet :=
  { pack with
    cumulBytesTransmitted := s.totalBytesSent + pack.data.length
    blake2bChecksum := if 0 < pack.data.length then blake2b pack.data else pack.blake2bChecksum
    seqNum := s.lastFrameSent + 1
    from' := s.inbox
    availReaderBytesCap := s.flow.availReaderBytesCap
    availReaderMsgCap := s.flow.availReaderMsgCap
    fromSessNonce := s.localSessNonce
    destSessNonce := s.remoteSessNonce }

/-- The sender's counters and its history after a packet was sent for the first time. -/
def countSend (s : SenderState) (pack : Packet) : SenderState :=
  { s with
    lastFrameSent := pack.seqNum
    totalBytesSent := pack.cumulBytesTransmitted
    sendHistory := s.sendHistory ++ [pack] }

/-- `doOrigDataSend` (`sender.go:445-511`). -/
def doOrigDataSend (blake2b : Bytes → Bytes) (s : SenderState) (pack : Packet)
    (retryDeadline : Int) : SenderState × Packet :=
  let pack := s.origPack blake2b pack
  let pos := (pack.seqNum % s.senderWindowSize).toNat
  (((s.countSend pack).setSlot pos ⟨retryDeadline, pack⟩).insertSlot pos, pack)

/-- A wakeup takes the slots whose deadline has passed out of both trees
(`sender.go:264-288`, `retree.go:57-74`). -/
def wakeup (s : SenderState) (now : Int) : SenderState :=
  let goner (pos : Nat) : Bool := (s.slotAt pos).retryDeadline ≤ now
  let retry := s.sentButNotAckedByDeadline.takeWhile goner
  { s with
    sentButNotAckedByDeadline := s.sentButNotAckedByDeadline.dropWhile goner
    sentButNotAckedBySeqNum :=
      retry.foldl (fun tree pos => treeDelete s.bySeqNum pos tree) s.sentButNotAckedBySeqNum
    retrying := retry }

/-- The packet of a slot as it is sent again (`sender.go:299-316`). -/
def retryPack (s : SenderState) (pack : Packet) : Packet :=
  { pack with
    seqRetry := pack.seqRetry + 1
    availReaderBytesCap := s.flow.availReaderBytesCap
    availReaderMsgCap := s.flow.availReaderMsgCap
    fromSessNonce := s.localSessNonce
    destSessNonce := s.remoteSessNonce }

/-- One round of the retry loop (`sender.go:293-320`). -/
def resend (s : SenderState) (pos : Nat) (retryDeadline : Int) :
    SenderState × Packet :=
  let pack := s.retryPack (s.slotAt pos).pack
  ((s.setSlot pos ⟨retryDeadline, pack⟩).insertSlot pos, pack)

/-- What the sender does with a packet from its receiver (`sender.go:332-396`,
`retree.go:76-93`). -/
def gotPack (s : SenderState) (a : Packet) : SenderState :=
  let goner (pos : Nat) : Bool := (s.slotAt pos).pack.seqNum ≤ a.ackNum
  let acked := s.sentButNotAckedBySeqNum.takeWhile goner
  { s with
    lastSeenAvailReaderBytesCap := a.availReaderBytesCap
    lastSeenAvailReaderMsgCap := a.availReaderMsgCap
    sentButNotAckedBySeqNum := s.sentButNotAckedBySeqNum.dropWhile goner
    sentButNotAckedByDeadline :=
      acked.foldl (fun tree pos => treeDelete s.byDeadline pos tree) s.sentButNotAckedByDeadline
    acked := s.acked ++ acked.map fun pos => (s.slotAt pos).pack
    heard := s.heard ++ [(s.lastFrameSent, a.ackNum)] }

/-- `doKeepAlive` (`sender.go:513-560`); `due` says whether the keep-alive interval has passed since
the last send. -/
def doKeepAlive (s : SenderState) (state : TcpState) (due : Bool) : List Packet :=
  if s.dest = [] ∨ s.remoteSessNonce = [] then []
  else if due = false then []
  else
    [{ from' := s.inbox
       dest := s.dest
       seqNum := -777
       seqRetry := -777
       ackNum := s.recvLastFrameClientConsumed
       ackRetry := -777
       tcpEvent := .keepAlive
       fromTcpState := state
       availReaderBytesCap := s.flow.availReaderBytesCap
       availReaderMsgCap := s.flow.availReaderMsgCap
       fromSessNonce := s.localSessNonce
       destSessNonce := s.remoteSessNonce }]

/-- `doSendClosing` (`sender.go:562-596`). -/
def doSendClosing (s : SenderState) : Packet :=
  { from' := s.inbox
    dest := s.dest
    seqNum := -888
    seqRetry := -888
    ackRetry := -888
    tcpEvent := .fin
    availReaderBytesCap := s.flow.availReaderBytesCap
    availReaderMsgCap := s.flow.availReaderMsgCap
    fromSessNonce := s.localSessNonce
    destSessNonce := s.remoteSessNonce }

/-- The nonce of the peer is learned from the first ack that carries it (`sender.go:416-420`). -/
def learnNonce (s : SenderState) (ackPack : Packet) : SenderState :=
  if s.remoteSessNonce = [] ∧ ackPack.destSessNonce ≠ [] then
    { s with remoteSessNonce := ackPack.destSessNonce }
  else s

end SenderState

end Hnatsd.Swp
