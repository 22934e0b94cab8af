import Hnatsd.Swp.Proofs.Delivery

/-!
# What a receiver advertises

The capacity a session advertises is its window less the packets that have arrived and are not
consumed. A packet is consumed after it has been counted on arrival, so no advertisement exceeds the
window, however late it is sent.
-/

namespace Hnatsd.Swp
open Misc

/-- What is consumed or on its way to the consumer has been counted. -/
structure RecvState.Counts (window : Int) (r : RecvState) : Prop where
  size : r.recvWindowSize = window
  ring : ∀ p, some p ∈ r.rxq → p.seqNum ≤ r.largestSeqnoRcvd
  ready : ∀ p ∈ r.readyForDelivery, p.seqNum ≤ r.largestSeqnoRcvd
  hand : ∀ p, r.place.pack = some p → p.seqNum ≤ r.largestSeqnoRcvd
  consumed : r.lastMsgConsumed ≤ r.largestSeqnoRcvd

/-- Nothing that a session has ready to send advertises more than its window. -/
structure Session.Advertises (window : Int) (s : Session) : Prop where
  counts : s.rcv.Counts window
  flow : s.snd.flow.availReaderMsgCap ≤ window
  queue : ∀ q ∈ s.snd.sendAck, q.availReaderMsgCap ≤ window

section Counts

variable {window : Int} {r r' : RecvState}

namespace RecvState

section

variable (counts : r.Counts window)
include counts

/-- The window stays the same, and a packet that comes into the receiver's hands is counted. -/
theorem Counts.window_same {remote : Bytes} {place : RecvAt}
    (same : RecvState.SameWindow { r with remoteInbox := remote, place := place } r')
    (hand : ∀ p, place.pack = some p → p.seqNum ≤ r'.largestSeqnoRcvd) : r'.Counts window := by
  have largest := same.largest
  refine ⟨same.size.trans counts.size, fun p mem => ?_, fun p mem => ?_, fun p holds => ?_, ?_⟩
  · rw [same.rxq] at mem
    exact (counts.ring p mem).trans largest
  · rw [same.ready] at mem
    exact (counts.ready p mem).trans largest
  · rw [same.place] at holds
    exact hand p holds
  · rw [same.msgConsumed]
    exact counts.consumed.trans largest

theorem Counts.same (same : r.SameWindow r') :
    r'.Counts window :=
  counts.window_same same fun p holds => (counts.hand p holds).trans same.largest

theorem Counts.placed {place : RecvAt}
    (hand : ∀ p, place.pack = some p → p.seqNum ≤ r.largestSeqnoRcvd) :
    RecvState.Counts window { r with place := place } :=
  counts.window_same (.refl _) hand

theorem Counts.takes {pack : Packet}
    (takes : r.Takes pack r') : r'.Counts window := by
  obtain ⟨place, remote, placed, -, same⟩ := takes
  refine counts.window_same same fun p holds => ?_
  rcases placed with rfl | ⟨rfl, counted⟩
  · exact (counts.hand p holds).trans same.largest
  · exact Option.some.inj holds ▸ counted

theorem Counts.put {pack : Packet}
    (counted : pack.seqNum ≤ r.largestSeqnoRcvd) (pos : Nat) :
    RecvState.Counts window { r with rxq := r.rxq.set pos (some pack) } := by
  refine ⟨counts.size, fun p mem => ?_, counts.ready, counts.hand, counts.consumed⟩
  rcases List.mem_or_eq_of_mem_set mem with old | new
  · exact counts.ring p old
  · cases new
    exact counted

theorem Counts.deliverReceived (fuel : Nat) :
    (r.deliverReceived fuel).Counts window := by
  induction fuel generalizing r with
  | zero => exact counts
  | succ fuel ih =>
    simp only [RecvState.deliverReceived]
    split
    · exact counts
    · rename_i pack found
      have inRing := List.mem_of_getElem? (getElem?_of_getD_none found)
      refine ih ⟨counts.size, fun p mem => ?_, fun p mem => ?_, counts.hand, counts.consumed⟩
      · rcases List.mem_or_eq_of_mem_set mem with old | new
        · exact counts.ring p old
        · cases new
      · rcases List.mem_append.mp mem with old | new
        · exact counts.ready p old
        · exact List.mem_singleton.mp new ▸ counts.ring pack inRing

theorem Counts.readPacket {pk : Packet}
    (counted : pk.seqNum ≤ r.largestSeqnoRcvd) (m : Nat) : (r.readPacket pk m).Counts window := by
  have later (p : Packet) (mem : p ∈ r.readyForDelivery.drop 1) : p.seqNum ≤ r.largestSeqnoRcvd :=
    counts.ready p (List.mem_of_mem_drop mem)
  unfold RecvState.readPacket
  dsimp only
  split_ifs
  · exact ⟨counts.size, counts.ring, later, counts.hand, counted⟩
  · refine ⟨counts.size, counts.ring, fun p mem => ?_, counts.hand, counts.consumed⟩
    rcases List.mem_cons.mp mem with rfl | old
    · exact counted
    · exact later p old

end

theorem readPacket_largest (r : RecvState) (pk : Packet) (m : Nat) :
    (r.readPacket pk m).largestSeqnoRcvd = r.largestSeqnoRcvd := by
  unfold readPacket
  dsimp only
  split_ifs <;> rfl

theorem Counts.fill (ready : List Packet) (room : Nat) (lastPack : Option Packet)
    (counts : r.Counts window) (counted : ∀ p ∈ ready, p.seqNum ≤ r.largestSeqnoRcvd) :
    (RecvState.fill ready room lastPack r).1.Counts window := by
  induction ready generalizing room lastPack r with
  | nil => exact counts
  | cons pk ready ih =>
    have first := counts.readPacket (counted pk List.mem_cons_self) (min room pk.unread)
    simp only [RecvState.fill]
    by_cases full : room - min room pk.unread = 0
    · rw [if_pos full]
      exact first
    · rw [if_neg full]
      refine ih _ _ first fun p mem => ?_
      rw [r.readPacket_largest pk]
      exact counted p (List.mem_cons_of_mem _ mem)

end RecvState

end Counts

section Advertises

variable {blake2b : Bytes → Bytes} {window : Int} {s s' : Session}

namespace Session

theorem advertises_new (cfg : SessionConfig) :
    (new cfg).Advertises cfg.windowMsgCount where
  counts := by
    refine ⟨rfl, fun p mem => ?_, fun p mem => ?_, fun p holds => ?_, Int.le_refl _⟩
    · cases List.eq_of_mem_replicate mem
    · cases mem
    · cases holds
  flow := Int.natCast_nonneg _
  queue q mem := by cases mem

section

variable (adv : s.Advertises window)
include adv

/-- Only the receiver changes. -/
theorem Advertises.of_rcv {r : RecvState}
    (counts : r.Counts window) : Session.Advertises window { s with rcv := r } :=
  ⟨counts, adv.flow, adv.queue⟩

theorem Advertises.same {r : RecvState}
    (same : s.rcv.SameWindow r) : Session.Advertises window { s with rcv := r } :=
  adv.of_rcv (adv.counts.same same)

theorem Advertises.fails (p : Panic) :
    (s.fails p).Advertises window := ⟨adv.counts, adv.flow, adv.queue⟩

/-- What is advertised is the window less what has been counted and not consumed. -/
theorem Advertises.updateControl :
    s.updateControl.Advertises window ∧ s.updateControl.rcv.lastAvailReaderMsgCap ≤ window := by
  have size := adv.counts.size
  have consumed := adv.counts.consumed
  have msgCap : s.updateControl.rcv.lastAvailReaderMsgCap ≤ window := by
    show s.rcv.recvWindowSize - (s.rcv.largestSeqnoRcvd - s.rcv.lastMsgConsumed) ≤ window
    omega
  refine ⟨⟨adv.counts.same (.of_eq rfl rfl), ?_, adv.queue⟩, msgCap⟩
  show (s.snd.flow.updateFlow _ _).availReaderMsgCap ≤ window
  unfold Flow.updateFlow
  dsimp only
  split_ifs
  · exact msgCap
  · exact adv.flow

theorem Advertises.ack (seqno : Int) (pack : Packet)
    (event : TcpEvent) : (s.ack seqno pack event).Advertises window := by
  obtain ⟨updated, msgCap⟩ := adv.updateControl
  refine ⟨updated.counts, updated.flow, fun q mem => ?_⟩
  rcases List.mem_append.mp mem with old | new
  · refine updated.queue q ?_
    split_ifs at old
    · exact List.mem_of_mem_drop old
    · exact old
  · exact List.mem_singleton.mp new ▸ msgCap

theorem Advertises.doTcpAction (act : TcpAction)
    (pack : Packet) : (s.doTcpAction act pack).1.Advertises window := by
  have learned : Session.Advertises window
      { s with rcv := { s.rcv with remoteSessNonce := pack.fromSessNonce } } :=
    adv.same (.of_eq rfl rfl)
  cases act with
  | noAction => exact adv
  | sendDataAck => exact adv.ack _ pack .dataAck
  | sendSyn => exact adv.ack _ pack .syn
  | sendFin => exact adv.ack _ pack .fin
  | sendFinAck => exact adv.ack _ pack .finAck
  | doAppClose => exact adv.ack _ pack .finAck
  | sendSynAck =>
    simp only [Session.doTcpAction]
    split_ifs
    · exact adv.fails _
    · exact learned.ack _ pack .synAck
  | sendEstabAck =>
    simp only [Session.doTcpAction]
    split_ifs
    · exact adv.fails _
    · split
      · exact learned.fails _
      · exact learned.fails _
      · refine Session.Advertises.ack (adv.same ?_) _ pack .estabAck
        exact .of_eq rfl rfl

theorem Advertises.tcpEvent (event : TcpEvent)
    (pack : Packet) : (s.tcpEvent event pack).1.Advertises window := by
  simp only [Session.tcpEvent]
  generalize s.rcv.tcpState.updateTcp event pack.fromTcpState = updated
  obtain ⟨post, act⟩ := updated
  refine Session.Advertises.doTcpAction (adv.same ?_) act pack
  split_ifs
  · refine RecvState.SameWindow.trans ?_ (RecvState.setupRetry_window _ _ _ pack act)
    exact .of_eq rfl rfl
  · exact .of_eq rfl rfl

end

theorem Advertises.doNextEvent (pack : Packet) (fuel : Nat) (adv : s.Advertises window)
    (event : TcpEvent) : (Session.doNextEvent pack fuel s event).Advertises window := by
  induction fuel generalizing s event with
  | zero => exact adv
  | succ fuel ih =>
    have first := adv.tcpEvent event pack
    simp only [Session.doNextEvent]
    split_ifs
    · exact first
    · exact ih first _

section

variable (adv : s.Advertises window)
include adv

theorem Advertises.recvInfo (pack : Packet) :
    (s.recvInfo pack).Advertises window := by
  have events := Session.Advertises.doNextEvent pack 2 adv pack.tcpEvent
  simp only [Session.recvInfo]
  split_ifs
  · exact ⟨events.counts, events.flow, events.queue⟩
  · exact events

theorem Advertises.retryCheck (elapsed : Bool) :
    (s.retryCheck elapsed).Advertises window := by
  simp only [Session.retryCheck]
  split_ifs
  · exact adv.same (.of_eq rfl rfl)
  · exact adv.same (.of_eq rfl rfl)
  · exact adv.same (.of_eq rfl rfl)
  · exact adv.same (.of_eq rfl rfl)
  · refine Session.Advertises.same (Session.Advertises.doTcpAction (adv.same ?_) _ _) ?_
    · exact .of_eq rfl rfl
    · exact .of_eq rfl rfl

theorem Advertises.connect (destInbox : Bytes)
    (fails : Bool) :
    (s.connect destInbox fails).1.Advertises window ∧
      ∀ p ∈ (s.connect destInbox fails).2, p.availReaderMsgCap = 0 := by
  obtain ⟨remote, -, same, -⟩ := s.connect_window destInbox fails
  have counts := adv.counts.window_same same
    fun p holds => (adv.counts.hand p holds).trans same.largest
  have snd : (s.connect destInbox fails).1.snd = s.snd := by
    unfold Session.connect
    dsimp only
    split_ifs <;> rfl
  refine ⟨⟨counts, snd ▸ adv.flow, snd ▸ adv.queue⟩, fun p mem => ?_⟩
  unfold Session.connect at mem
  dsimp only at mem
  split_ifs at mem <;> simp only [List.mem_singleton, List.not_mem_nil] at mem <;> rw [mem]

theorem Advertises.recvData {pack : Packet}
    (counted : pack.seqNum ≤ s.rcv.largestSeqnoRcvd) : (s.recvData pack).Advertises window := by
  have held : (s.rcv.hold pack).Counts window := adv.counts.same (s.rcv.hold_window pack)
  have counted' := counted.trans (s.rcv.hold_window pack).largest
  simp only [Session.recvData]
  split_ifs
  · exact (adv.of_rcv held).fails _
  · exact (adv.of_rcv held).ack _ pack .dataAck
  · exact ⟨(held.put counted' _).deliverReceived _, adv.flow, adv.queue⟩
  · exact adv.of_rcv (held.put counted' _)

theorem Advertises.deliverToConsumer {lastPack : Packet}
    (last : s.rcv.readyForDelivery.getLast? = some lastPack) :
    (s.deliverToConsumer lastPack).Advertises window := by
  have counted := adv.counts.ready lastPack (List.mem_of_getLast? last)
  refine Session.Advertises.ack (adv.of_rcv ?_) _ lastPack .dataAck
  exact ⟨adv.counts.size, adv.counts.ring, fun _ mem => absurd mem List.not_mem_nil,
    adv.counts.hand, counted⟩

theorem Advertises.fillAsMuchAsPossible (lenp : Nat) :
    (s.fillAsMuchAsPossible lenp).Advertises window := by
  have filled := adv.counts.fill s.rcv.readyForDelivery lenp none adv.counts.ready
  simp only [Session.fillAsMuchAsPossible]
  split_ifs
  · exact adv
  · split
    · exact adv.of_rcv filled
    · exact (adv.of_rcv filled).ack _ _ .dataAck

/-- An arrival is counted before it is handed on. -/
theorem Advertises.arrive {pack : Packet}
    (arrived : s.arrive blake2b pack = some s') : s'.Advertises window := by
  have counts := adv.counts.takes (arrive_takes arrived)
  unfold Session.arrive at arrived
  split_ifs at arrived
  split at arrived
  · dsimp only at arrived
    split_ifs at arrived <;> cases arrived
    · exact adv.of_rcv counts
    · exact (adv.of_rcv counts).fails _
    · exact (adv.of_rcv counts).fails _
    · exact (Session.Advertises.updateControl (adv.of_rcv counts)).1
    · exact (adv.of_rcv counts).fails _
    · exact (Session.Advertises.updateControl (adv.of_rcv counts)).1
  · cases arrived

/-- Nothing that a session sends advertises more than its window. -/
theorem Advertises.step (nonneg : 0 ≤ window) {a : Action}
    {sent : List Packet} (moved : s.Moved blake2b a s' sent) :
    s'.Advertises window ∧ ∀ p ∈ sent, p.availReaderMsgCap ≤ window := by
  have silent (p : Packet) (mem : p ∈ ([] : List Packet)) : p.availReaderMsgCap ≤ window :=
    absurd mem List.not_mem_nil
  have back : s.backToSelect.Advertises window := by
    refine adv.of_rcv (adv.counts.placed fun p holds => ?_)
    cases holds
  cases moved with
  | push data deadline free =>
    refine ⟨⟨adv.counts, adv.flow, adv.queue⟩, fun p mem => ?_⟩
    exact List.mem_singleton.mp mem ▸ adv.flow
  | wakeup now free => exact ⟨⟨adv.counts, adv.flow, adv.queue⟩, silent⟩
  | resend pos rest deadline waiting =>
    refine ⟨⟨adv.counts, adv.flow, adv.queue⟩, fun p mem => ?_⟩
    exact List.mem_singleton.mp mem ▸ adv.flow
  | sendAck ackPack rest fails runs queued =>
    have queue := adv.queue
    rw [queued] at queue
    refine ⟨⟨adv.counts, ?_, fun q mem => queue q (List.mem_cons_of_mem _ mem)⟩, fun p mem => ?_⟩
    · obtain ⟨nonce, learned⟩ := s.snd.learnNonce_fields ackPack
      rw [learned]
      exact adv.flow
    · split_ifs at mem
      · cases mem
      · exact queue p (List.mem_singleton.mp mem ▸ List.mem_cons_self)
  | gotPack pack handing free =>
    refine ⟨⟨?_, ?_, ?_⟩, silent⟩
    · rw [s.handOver_rcv]
      refine adv.counts.placed fun p holds => adv.counts.hand p ?_
      rw [handing]
      exact holds
    · rw [s.handOver_snd]
      exact adv.flow
    · rw [s.handOver_snd]
      exact adv.queue
  | data pack handed isData =>
    exact ⟨back.recvData (adv.counts.hand pack (by rw [handed]; rfl)), silent⟩
  | info pack handed isInfo => exact ⟨back.recvInfo pack, silent⟩
  | consume lastPack last => exact ⟨adv.deliverToConsumer last, silent⟩
  | read lenp => exact ⟨adv.fillAsMuchAsPossible lenp, silent⟩
  | retryTimer elapsed => exact ⟨adv.retryCheck elapsed, silent⟩
  | connect destInbox fails =>
    obtain ⟨connected, syn⟩ := adv.connect destInbox fails
    exact ⟨connected, fun p mem => syn p mem ▸ nonneg⟩
  | keepAlive due =>
    exact ⟨adv, fun p mem => (s.snd.doKeepAlive_fields mem).2.2.2 ▸ adv.flow⟩
  | sendClosing => exact ⟨adv, fun p mem => List.mem_singleton.mp mem ▸ adv.flow⟩
  | stopSender => exact ⟨⟨adv.counts, adv.flow, adv.queue⟩, silent⟩
  | stopReceiver => exact ⟨⟨adv.counts, adv.flow, adv.queue⟩, silent⟩

end

end Session

end Advertises

end Hnatsd.Swp
