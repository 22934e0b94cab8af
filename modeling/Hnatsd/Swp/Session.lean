import Hnatsd.Misc.Datagram
import Hnatsd.Swp.Receiver

/-!
# Sessions and their network

The cases of the two `select` loops of a session as steps (`sender.go:197-430`,
`recv.go:169-561`), and sessions on a network that drops, duplicates, reorders and delays packets.

Sender and receiver share nothing but channels, the flow record and one counter. A step is a case of
one loop, or of both where they meet at an unbuffered channel. What depends on a clock, on the
application or on the network accepting a packet is a parameter of the step.
-/

namespace Hnatsd.Swp
open Misc

/-- `SessionConfig` and the nonce of the session (`swp.go:273-306, 340-383`). -/
structure SessionConfig where
  localInbox : Bytes
  destInbox : Bytes
  windowMsgCount : Nat
  windowByteSz : Int
  nonce : Bytes

/-- `NewSession` takes a `WindowByteSz` below the number of messages for one that is not set
(`swp.go:346-349`). A window whose product overflows is too large to be allocated. -/
def SessionConfig.byteSz (cfg : SessionConfig) : Int :=
  if cfg.windowByteSz < cfg.windowMsgCount then cfg.windowMsgCount * 10 * 1024
  else cfg.windowByteSz

/-- `NewSession` (`swp.go:340-383`) for a config with at least one message in the window. -/
def Session.new (cfg : SessionConfig) : Session where
  snd := .new cfg.windowMsgCount cfg.localInbox cfg.destInbox cfg.nonce
  rcv := .new cfg.windowMsgCount cfg.byteSz cfg.localInbox cfg.destInbox cfg.nonce

/-- The size of the slices of `Write` (`swp.go:598-604`). -/
def SessionConfig.sliceSz (cfg : SessionConfig) : Int :=
  let maxSz := 1 <<< 19
  let sz := min cfg.byteSz maxSz
  if sz < 0 then maxSz else sz

/-- The data of the packets that `Write` pushes one after the other (`swp.go:592-624`), or nothing
where the division by the size of the slices panics. -/
def SessionConfig.write (cfg : SessionConfig) (payload : Bytes) : Option (List Bytes) :=
  let lenp := payload.length
  if lenp = 0 then some []
  else
    let sz := cfg.sliceSz.toNat
    if sz = 0 then none
    else
      let npack := lenp / sz
      let npack := if 0 < lenp - npack * sz then npack + 1 else npack
      some ((List.range npack).map fun i => (payload.take (min ((i + 1) * sz) lenp)).drop (i * sz))

/-- What a sequence of calls of `Write` pushes. -/
def SessionConfig.writeAll (cfg : SessionConfig) (payloads : List Bytes) : Option (List Bytes) :=
  (payloads.mapM cfg.write).map List.flatten

/-- The first SYN of a session without a peer decides who the peer is (`recv.go:363-374`). -/
def RecvState.lockOnto (r : RecvState) (pack : Packet) : RecvState :=
  if pack.tcpEvent = .syn ∧ (r.tcpState = .fresh ∨ r.tcpState = .listen) ∧ r.remoteInbox = [] ∧
      pack.from' ≠ [] then
    { r with remoteInbox := pack.from', remoteSessNonce := pack.fromSessNonce }
  else r

/-- Packets of other remotes and of other sessions are dropped, and damaged ones
(`recv.go:375-410`). -/
def RecvState.drops (blake2b : Bytes → Bytes) (r : RecvState) (pack : Packet) : Bool :=
  (r.remoteInbox ≠ [] ∧ pack.from' ≠ r.remoteInbox) ∨
  ((pack.destSessNonce ≠ [] ∨ TcpState.num .established ≤ r.tcpState.num) ∧
    pack.destSessNonce ≠ r.localSessNonce) ∨
  (r.remoteSessNonce ≠ [] ∧ pack.fromSessNonce ≠ r.remoteSessNonce) ∨
  (0 < pack.data.length ∧ pack.blake2bChecksum ≠ blake2b pack.data)

namespace Session

/-- A packet arrives: it is checked, counted and handed to the sender (`recv.go:360-447`). -/
def arrive (blake2b : Bytes → Bytes) (s : Session) (pack : Packet) : Option Session :=
  if s.panic = none ∧ s.rcvRuns then
    match s.rcv.place with
    | .select =>
        let r := s.rcv.lockOnto pack
        if r.drops blake2b pack then some { s with rcv := r }
        else if r.largestSeqnoRcvd < pack.seqNum ∧
            pack.cumulBytesTransmitted < r.maxCumulBytesTrans then
          some (fails { s with rcv := { r with largestSeqnoRcvd := pack.seqNum } }
            .cumulBytesDecreased)
        else
          let r :=
            if r.largestSeqnoRcvd < pack.seqNum then
              { r with
                largestSeqnoRcvd := pack.seqNum
                maxCumulBytesTrans := pack.cumulBytesTransmitted }
            else r
          if r.maxCumulBytesTrans < pack.cumulBytesTransmitted then
            some (fails { s with rcv := r } .cumulBytesOutOfOrder)
          else some (updateControl { s with rcv := { r with place := .handing pack } })
    | _ => none
  else none

/-- The consumer takes what is ready (`recv.go:335-352`). At the top of the loop `delivery.Seq` has
been set to `ReadyForDelivery`. -/
def deliverToConsumer (s : Session) (lastPack : Packet) : Session :=
  let r := s.rcv
  let r := { r with
    rcvdButNotConsumed :=
      r.readyForDelivery.foldl (fun held p => assocErase held p.seqNum) r.rcvdButNotConsumed
    lastMsgConsumed := lastPack.seqNum
    lastByteConsumed := lastPack.cumulBytesTransmitted
    readyForDelivery := []
    lastFrameClientConsumed := lastPack.seqNum
    consumed := r.consumed ++ r.readyForDelivery
    batches := r.batches ++ [r.readyForDelivery] }
  ack { s with rcv := r } r.lastFrameClientConsumed lastPack .dataAck

end Session

/-- The bytes of a packet that have not been read. -/
def Packet.unread (pk : Packet) : Nat := pk.data.length - pk.dataOffset

/-- `m` bytes of the first packet that is ready go to the reader (`recv.go:789-810`). -/
def RecvState.readPacket (r : RecvState) (pk : Packet) (m : Nat) : RecvState :=
  let pk' := { pk with dataOffset := pk.dataOffset + m }
  let r := { r with bytesRead := r.bytesRead ++ (pk.data.drop pk.dataOffset).take m }
  if m = pk.unread then
    { r with
      readyForDelivery := r.readyForDelivery.drop 1
      rcvdButNotConsumed := assocErase r.rcvdButNotConsumed pk.seqNum
      lastMsgConsumed := pk.seqNum
      lastFrameClientConsumed := pk.seqNum
      lastByteConsumed := pk.cumulBytesTransmitted
      consumed := r.consumed ++ [pk'] }
  else
    { r with
      readyForDelivery := pk' :: r.readyForDelivery.drop 1
      lastByteConsumed := pk.cumulBytesTransmitted - pk.unread + m }

/-- The loop of `fillAsMuchAsPossible` (`recv.go:788-816`) over the packets that are ready, with
`room` bytes left in the reader's buffer, and the last packet that was read to its end. -/
def RecvState.fill : List Packet → Nat → Option Packet → RecvState → RecvState × Option Packet
  | [], _, lastPack, r => (r, lastPack)
  | pk :: ready, room, lastPack, r =>
      let m := min room pk.unread
      let r := r.readPacket pk m
      let lastPack := if m = pk.unread then some pk else lastPack
      if room - m = 0 then (r, lastPack) else fill ready (room - m) lastPack r

/-- `fillAsMuchAsPossible` (`recv.go:772-821`) for a buffer of `lenp` bytes. -/
def Session.fillAsMuchAsPossible (s : Session) (lenp : Nat) : Session :=
  if lenp = 0 then s
  else
    let (r, lastPack) := RecvState.fill s.rcv.readyForDelivery lenp none s.rcv
    let s := { s with rcv := r }
    match lastPack with
    | none => s
    | some pack => s.ack r.lastFrameClientConsumed pack .dataAck

/-- `retryCheck` (`retry.go:30-76`); `elapsed` says whether the last attempt was more than a second
ago. -/
def Session.retryCheck (s : Session) (elapsed : Bool) : Session :=
  let r := { s.rcv with retryTimerSet := false }
  if r.retry.inUse = false then { s with rcv := r }
  else if r.retry.curState ≠ r.tcpState then
    { s with rcv := { r with retry := { r.retry with inUse := false, causalPacket := none } } }
  else if elapsed = false then { s with rcv := r }
  else
    let r := { r with retry := { r.retry with attemptCount := r.retry.attemptCount + 1 } }
    if 10 < r.retry.attemptCount then
      -- the receiver is asked to stop, and does so at its next choice of that case
      { s with rcv := { r with retry := { r.retry with inUse := false } } }
    else
      let s := (Session.doTcpAction { s with rcv := r } r.retry.firstStateAction
        (r.retry.causalPacket.getD {})).1
      { s with rcv := { s.rcv with retryTimerSet := true } }

/-- A connect request (`recv.go:248-308`, `sender.go:398-404`): the SYN, if one is to be sent.
`sendFails` says that the network does not take it. -/
def Session.connect (s : Session) (destInbox : Bytes) (sendFails : Bool) :
    Session × List Packet :=
  let r := s.rcv
  if r.remoteInbox ≠ [] ∧ r.remoteInbox ≠ destInbox then (s, [])
  else
    let r := if r.remoteInbox = [] then { r with remoteInbox := destInbox } else r
    if r.tcpState ≠ .listen ∧ r.tcpState ≠ .synSent then ({ s with rcv := r }, [])
    else
      let syn : Packet :=
        { from' := r.inbox
          fromSessNonce := r.localSessNonce
          dest := destInbox
          seqNum := -98
          seqRetry := -98
          tcpEvent := .syn }
      ({ s with rcv := { r with connReqPending := some sendFails, tcpState := .synSent } },
        if sendFails then [] else [syn])

/-- The steps of a session: those of the sender, those of the receiver, and those of both. -/
inductive Action where
  | push (data : Bytes) (retryDeadline : Int)
  | wakeup (now : Int)
  | resend (retryDeadline : Int)
  | sendAck (fails : Bool)
  | stopSender
  | gotPack
  | process
  | consume
  | read (lenp : Nat)
  | retryTimer (elapsed : Bool)
  | stopReceiver
  | connect (destInbox : Bytes) (fails : Bool)
  | keepAlive (due : Bool)
  | sendClosing
  deriving DecidableEq

/-- The sender is in its `select`. -/
def Session.sndSelects (s : Session) : Bool := s.sndRuns ∧ s.snd.retrying = []

/-- The receiver is in its `select`. -/
def Session.rcvSelects (s : Session) : Bool :=
  match s.rcv.place with
  | .select => s.rcvRuns
  | _ => false

/-- The sender takes the packet the receiver holds out, and panics if its trees differ in length
(`sender.go:332-381`). -/
def Session.handOver (s : Session) (pack : Packet) : Session :=
  let snd := s.snd.gotPack pack.copySansData
  let s := { s with snd := snd, rcv := { s.rcv with place := .handed pack } }
  if snd.sentButNotAckedBySeqNum.length ≠ snd.sentButNotAckedByDeadline.length then
    s.fails .lenBySeqByDeadline
  else s

/-- The receiver has dealt with the packet in its hands. -/
def Session.backToSelect (s : Session) : Session :=
  { s with rcv := { s.rcv with place := .select } }

/-- One step of a session, with the packets it sends. -/
def Session.step (blake2b : Bytes → Bytes) (s : Session) (a : Action) :
    Option (Session × List Packet) :=
  if s.panic ≠ none then none
  else
    match a with
    | .push data retryDeadline =>
        if s.sndSelects ∧ s.snd.acceptSend then
          let (snd, pack) := s.snd.doOrigDataSend blake2b (s.snd.pushed data) retryDeadline
          some ({ s with snd := snd }, [pack])
        else none
    | .wakeup now => if s.sndSelects then some ({ s with snd := s.snd.wakeup now }, []) else none
    | .resend retryDeadline =>
        match s.snd.retrying with
        | pos :: rest =>
            if s.sndRuns then
              let (snd, pack) := s.snd.resend pos retryDeadline
              some ({ s with snd := { snd with retrying := rest } }, [pack])
            else none
        | [] => none
    | .sendAck fails =>
        match s.snd.sendAck with
        | ackPack :: rest =>
            if s.sndSelects then
              let snd := { s.snd.learnNonce ackPack with sendAck := rest }
              if fails then some ({ s with snd := snd, sndRuns := false }, [])
              else some ({ s with snd := snd }, [ackPack])
            else none
        | [] => none
    | .stopSender => if s.sndSelects then some ({ s with sndRuns := false }, []) else none
    | .gotPack =>
        match s.rcv.place with
        | .handing pack => if s.sndSelects ∧ s.rcvRuns then some (s.handOver pack, []) else none
        | _ => none
    | .process =>
        match s.rcv.place with
        | .handed pack =>
            if s.rcvRuns then
              let s := s.backToSelect
              some (if pack.tcpEvent = .data then s.recvData pack else s.recvInfo pack, [])
            else none
        | _ => none
    | .consume =>
        match s.rcv.readyForDelivery.getLast? with
        | some lastPack =>
            if s.rcvSelects then some (s.deliverToConsumer lastPack, []) else none
        | none => none
    | .read lenp => if s.rcvSelects then some (s.fillAsMuchAsPossible lenp, []) else none
    | .retryTimer elapsed =>
        if s.rcvSelects ∧ s.rcv.retryTimerSet then some (s.retryCheck elapsed, []) else none
    | .stopReceiver =>
        match s.rcv.place with
        | .handed _ => none
        | _ => some ({ s with rcvRuns := false }, [])
    | .connect destInbox fails =>
        if s.rcvSelects ∧ s.sndSelects then some (s.connect destInbox fails) else none
    | .keepAlive due =>
        if s.rcvSelects ∧ s.sndSelects then some (s, s.snd.doKeepAlive s.rcv.tcpState due)
        else none
    | .sendClosing =>
        if s.rcvSelects ∧ s.sndSelects then some (s, [s.snd.doSendClosing]) else none

/-- Sessions on a network: a packet reaches the session that listens on its destination. -/
def swp (blake2b : Bytes → Bytes) : Protocol Session Action Packet where
  act := Session.step blake2b
  addressed s pack := pack.dest = s.rcv.inbox
  arrive := Session.arrive blake2b

/-- The two ends of a connection. -/
inductive End where
  | a
  | b
  deriving DecidableEq

/-- Two sessions that have each other as destination. -/
def joined (windowA windowB : Nat) : End → SessionConfig
  | .a => ⟨bytesOf "A", bytesOf "B", windowA, 65536, bytesOf "nonceA"⟩
  | .b => ⟨bytesOf "B", bytesOf "A", windowB, 65536, bytesOf "nonceB"⟩

/-- Sessions that have not done anything yet. -/
def start {ι : Type} (cfg : ι → SessionConfig) : Parties ι Session Packet where
  party i := .new (cfg i)
  wire := []

end Hnatsd.Swp
