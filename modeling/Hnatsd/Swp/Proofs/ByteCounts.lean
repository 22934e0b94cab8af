import Hnatsd.Swp.Proofs.Delivery

/-!
# The byte counts of packets

A sender stamps each data packet with the number of bytes it has sent up to the packet's end, and a
retry keeps the stamp. The receiver keeps the stamp of the packet with the highest number it has
received, and panics if the stamps do not go up with the numbers. Whatever else arrives has a
negative number and no stamp.
-/

namespace Hnatsd.Swp
open Misc

/-- The number of bytes in the data of packets. -/
def bytesIn (packs : List Packet) : Int := (packs.flatMap Packet.data).length

/-- The panics over `CumulBytesTransmitted`. -/
def Panic.ofCounts : Panic → Bool
  | .cumulBytesDecreased | .cumulBytesOutOfOrder => true
  | .lenBySeqByDeadline | .slotOutOfRange | .remoteNonceDiffers | .remoteNonceSet
  | .noConnReqPending | .closeOfClosed => false

/-- Only data is numbered and stamped. -/
def Packet.Marked (p : Packet) : Prop :=
  p.tcpEvent ≠ .data → p.seqNum < 0 ∧ p.cumulBytesTransmitted = 0

/-- What `UpdateControl` takes for the capacity in bytes. -/
def RecvState.bytesCap (r : RecvState) : Int :=
  r.recvWindowSizeBytes - (r.maxCumulBytesTrans - (r.lastByteConsumed + 1))

section Controlled

/-- The counters stay, the capacity in bytes is left as it is or computed from them, and the acks
that have been queued are no data. -/
structure Session.Controlled (s s' : Session) : Prop where
  largest : s'.rcv.largestSeqnoRcvd = s.rcv.largestSeqnoRcvd
  cumul : s'.rcv.maxCumulBytesTrans = s.rcv.maxCumulBytesTrans
  lastByte : s'.rcv.lastByteConsumed = s.rcv.lastByteConsumed
  window : s'.rcv.recvWindowSizeBytes = s.rcv.recvWindowSizeBytes
  cap : s'.rcv.lastAvailReaderBytesCap = s.rcv.lastAvailReaderBytesCap ∨
    s'.rcv.lastAvailReaderBytesCap = s.rcv.bytesCap
  acks : ∀ a ∈ s'.snd.sendAck, a ∈ s.snd.sendAck ∨ a.Marked
  panic : ∀ p, s'.panic = some p → s.panic = some p ∨ p.ofCounts = false

/-- The counters and the capacity in bytes. -/
def RecvState.counters (r : RecvState) : Int × Int × Int × Int × Int :=
  (r.largestSeqnoRcvd, r.maxCumulBytesTrans, r.lastByteConsumed, r.recvWindowSizeBytes,
    r.lastAvailReaderBytesCap)

variable {s s' s'' : Session}

namespace Session

theorem Controlled.of_eq (counters : s'.rcv.counters = s.rcv.counters)
    (acks : s'.snd.sendAck = s.snd.sendAck) (panic : s'.panic = s.panic) : s.Controlled s' := by
  simp only [RecvState.counters, Prod.mk.injEq] at counters
  obtain ⟨largest, cumul, lastByte, window, cap⟩ := counters
  refine ⟨largest, cumul, lastByte, window, Or.inl cap, ?_, ?_⟩
  · intro a mem
    exact Or.inl (acks ▸ mem)
  · intro p failed
    exact Or.inl (panic ▸ failed)

theorem Controlled.bytesCap (same : s.Controlled s') :
    s'.rcv.bytesCap = s.rcv.bytesCap := by
  rw [RecvState.bytesCap, RecvState.bytesCap, same.window, same.cumul, same.lastByte]

theorem Controlled.trans (first : s.Controlled s') (second : s'.Controlled s'') :
    s.Controlled s'' where
  largest := second.largest.trans first.largest
  cumul := second.cumul.trans first.cumul
  lastByte := second.lastByte.trans first.lastByte
  window := second.window.trans first.window
  cap := by
    rcases second.cap with left | computed
    · rw [left]
      exact first.cap
    · exact Or.inr (computed.trans first.bytesCap)
  acks := by
    intro a mem
    rcases second.acks a mem with old | new
    · exact first.acks a old
    · exact Or.inr new
  panic := by
    intro p failed
    rcases second.panic p failed with old | other
    · exact first.panic p old
    · exact Or.inr other

theorem updateControl_controlled (s : Session) : s.Controlled s.updateControl :=
  ⟨rfl, rfl, rfl, rfl, Or.inr rfl, fun _ => Or.inl, fun _ => Or.inl⟩

theorem ack_controlled (s : Session) (seqno : Int) (pack : Packet) (event : TcpEvent) :
    s.Controlled (s.ack seqno pack event) := by
  refine ⟨rfl, rfl, rfl, rfl, Or.inr rfl, ?_, fun _ => Or.inl⟩
  intro a mem
  rcases List.mem_append.mp mem with old | new
  · apply Or.inl
    split_ifs at old
    · exact List.mem_of_mem_drop old
    · exact old
  · rw [List.mem_singleton.mp new]
    exact Or.inr fun _ => ⟨Int.negSucc_lt_zero 98, rfl⟩

theorem fails_controlled (s : Session) {p : Panic} (other : p.ofCounts = false) :
    s.Controlled (s.fails p) := by
  refine ⟨rfl, rfl, rfl, rfl, Or.inl rfl, fun _ => Or.inl, ?_⟩
  intro q failed
  cases failed
  exact Or.inr other

theorem doTcpAction_controlled (s : Session) (act : TcpAction) (pack : Packet) :
    s.Controlled (s.doTcpAction act pack).1 := by
  cases act with
  | noAction => exact .of_eq rfl rfl rfl
  | sendDataAck => exact s.ack_controlled _ pack .dataAck
  | sendSyn => exact s.ack_controlled _ pack .syn
  | sendFin => exact s.ack_controlled _ pack .fin
  | sendFinAck => exact s.ack_controlled _ pack .finAck
  | doAppClose => exact s.ack_controlled _ pack .finAck
  | sendSynAck =>
    simp only [doTcpAction]
    split_ifs
    · exact s.fails_controlled rfl
    · refine Session.Controlled.trans ?_ (ack_controlled _ _ pack .synAck)
      exact .of_eq rfl rfl rfl
  | sendEstabAck =>
    simp only [doTcpAction]
    split_ifs
    · exact s.fails_controlled rfl
    · split
      · refine Session.Controlled.trans ?_ (fails_controlled _ rfl)
        exact .of_eq rfl rfl rfl
      · refine Session.Controlled.trans ?_ (fails_controlled _ rfl)
        exact .of_eq rfl rfl rfl
      · refine Session.Controlled.trans ?_ (ack_controlled _ _ pack .estabAck)
        exact .of_eq rfl rfl rfl

theorem tcpEvent_controlled (s : Session) (event : TcpEvent) (pack : Packet) :
    s.Controlled (s.tcpEvent event pack).1 := by
  simp only [tcpEvent]
  generalize s.rcv.tcpState.updateTcp event pack.fromTcpState = updated
  obtain ⟨post, act⟩ := updated
  refine Session.Controlled.trans ?_ (doTcpAction_controlled _ act pack)
  dsimp only
  split_ifs
  · unfold RecvState.setupRetry
    split_ifs <;> exact .of_eq rfl rfl rfl
  · exact .of_eq rfl rfl rfl

theorem doNextEvent_controlled (pack : Packet) (fuel : Nat) (s : Session)
    (event : TcpEvent) : s.Controlled (doNextEvent pack fuel s event) := by
  induction fuel generalizing s event with
  | zero => exact .of_eq rfl rfl rfl
  | succ fuel ih =>
    have first := s.tcpEvent_controlled event pack
    simp only [doNextEvent]
    split_ifs
    · exact first
    · exact first.trans (ih _ _)

theorem recvInfo_controlled (s : Session) (pack : Packet) :
    s.Controlled (s.recvInfo pack) := by
  have events := doNextEvent_controlled pack 2 s pack.tcpEvent
  simp only [recvInfo]
  split_ifs
  · exact events.trans (.of_eq rfl rfl rfl)
  · exact events

theorem Controlled.timer (same : s.Controlled s') (isSet : Bool) :
    s.Controlled { s' with rcv := { s'.rcv with retryTimerSet := isSet } } :=
  same.trans (.of_eq rfl rfl rfl)

theorem retryCheck_controlled (s : Session) (elapsed : Bool) :
    s.Controlled (s.retryCheck elapsed) := by
  simp only [retryCheck]
  split_ifs
  · exact .of_eq rfl rfl rfl
  · exact .of_eq rfl rfl rfl
  · exact .of_eq rfl rfl rfl
  · exact .of_eq rfl rfl rfl
  · refine Session.Controlled.timer (Session.Controlled.trans ?_ (doTcpAction_controlled _ _ _)) true
    exact .of_eq rfl rfl rfl

theorem connect_controlled (s : Session) (destInbox : Bytes) (fails : Bool) :
    s.Controlled (s.connect destInbox fails).1 ∧
      ∀ p ∈ (s.connect destInbox fails).2, p.Marked := by
  unfold connect
  dsimp only
  have silent : ∀ p ∈ ([] : List Packet), p.Marked := fun _ mem => absurd mem List.not_mem_nil
  have syn {p : Packet} (number : p.seqNum = -98) (stamp : p.cumulBytesTransmitted = 0) :
      ∀ q ∈ [p], q.Marked := by
    intro q mem
    rw [List.mem_singleton.mp mem]
    exact fun _ => ⟨by omega, stamp⟩
  split_ifs
  · exact ⟨.of_eq rfl rfl rfl, silent⟩
  · exact ⟨.of_eq rfl rfl rfl, silent⟩
  · exact ⟨.of_eq rfl rfl rfl, silent⟩
  · exact ⟨.of_eq rfl rfl rfl, syn rfl rfl⟩
  · exact ⟨.of_eq rfl rfl rfl, silent⟩
  · exact ⟨.of_eq rfl rfl rfl, silent⟩
  · exact ⟨.of_eq rfl rfl rfl, syn rfl rfl⟩

end Session

/-- The loop that makes packets ready leaves the counters alone. -/
theorem RecvState.deliverReceived_counters (r : RecvState) (fuel : Nat) :
    (r.deliverReceived fuel).counters = r.counters := by
  induction fuel generalizing r with
  | zero => rfl
  | succ fuel ih =>
    simp only [RecvState.deliverReceived]
    split
    · rfl
    · exact ih _

namespace Session

theorem recvData_controlled (s : Session) (pack : Packet) :
    s.Controlled (s.recvData pack) := by
  have held : s.Controlled { s with rcv := s.rcv.hold pack } := by
    unfold RecvState.hold
    split_ifs <;> exact .of_eq rfl rfl rfl
  simp only [recvData]
  split_ifs
  · exact held.trans (fails_controlled _ rfl)
  · exact held.trans (ack_controlled _ _ pack .dataAck)
  · refine held.trans ?_
    exact .of_eq (RecvState.deliverReceived_counters _ _) rfl rfl
  · exact held.trans (.of_eq rfl rfl rfl)

theorem handOver_controlled (s : Session) (pack : Packet) :
    s.Controlled (s.handOver pack) := by
  unfold handOver
  dsimp only
  split_ifs
  · refine Session.Controlled.trans ?_ (fails_controlled _ rfl)
    exact .of_eq rfl rfl rfl
  · exact .of_eq rfl rfl rfl

end Session

variable {blake2b : Bytes → Bytes}

/-- What the consumer takes is the only thing that a session's own steps count. -/
theorem Session.Moved.controlled {a : Action} {sent : List Packet}
    (moved : s.Moved blake2b a s' sent) (notConsume : a ≠ .consume)
    (notRead : ∀ lenp, a ≠ .read lenp) : s.Controlled s' := by
  cases moved with
  | gotPack pack handing free => exact s.handOver_controlled pack
  | data pack handed isData =>
    refine Session.Controlled.trans ?_ (s.backToSelect.recvData_controlled pack)
    exact .of_eq rfl rfl rfl
  | info pack handed isInfo =>
    refine Session.Controlled.trans ?_ (s.backToSelect.recvInfo_controlled pack)
    exact .of_eq rfl rfl rfl
  | consume lastPack last => exact absurd rfl notConsume
  | read lenp => exact absurd rfl (notRead lenp)
  | retryTimer elapsed => exact s.retryCheck_controlled elapsed
  | connect destInbox fails => exact (s.connect_controlled destInbox fails).1
  | sendAck ackPack rest fails runs queued =>
    refine ⟨rfl, rfl, rfl, rfl, Or.inl rfl, ?_, fun _ => Or.inl⟩
    intro a mem
    rw [queued]
    exact Or.inl (List.mem_cons_of_mem _ mem)
  | push | wakeup | resend | keepAlive | sendClosing | stopSender | stopReceiver =>
    exact .of_eq rfl rfl rfl

/-- The receiver after the consumer has taken all that is ready. -/
def RecvState.consumeAll (r : RecvState) (lastPack : Packet) : RecvState :=
  { r with
    rcvdButNotConsumed :=
      r.readyForDelivery.foldl (fun held p => assocErase held p.seqNum) r.rcvdButNotConsumed
    lastMsgConsumed := lastPack.seqNum
    lastByteConsumed := lastPack.cumulBytesTransmitted
    readyForDelivery := []
    lastFrameClientConsumed := lastPack.seqNum
    consumed := r.consumed ++ r.readyForDelivery
    batches := r.batches ++ [r.readyForDelivery] }

namespace Session

theorem deliverToConsumer_controlled (s : Session) (lastPack : Packet) :
    Session.Controlled { s with rcv := s.rcv.consumeAll lastPack } (s.deliverToConsumer lastPack) :=
  ack_controlled _ _ lastPack .dataAck

theorem fillAsMuchAsPossible_controlled (s : Session) {lenp : Nat} (some : lenp ≠ 0) :
    Session.Controlled { s with rcv := (RecvState.fill s.rcv.readyForDelivery lenp none s.rcv).1 }
      (s.fillAsMuchAsPossible lenp) := by
  simp only [fillAsMuchAsPossible, if_neg some]
  split
  · exact .of_eq rfl rfl rfl
  · exact ack_controlled _ _ _ .dataAck

end Session

namespace RecvState

theorem readPacket_counters (r : RecvState) (pk : Packet) (m : Nat) :
    (r.readPacket pk m).largestSeqnoRcvd = r.largestSeqnoRcvd ∧
      (r.readPacket pk m).maxCumulBytesTrans = r.maxCumulBytesTrans ∧
      (r.readPacket pk m).lastAvailReaderBytesCap = r.lastAvailReaderBytesCap := by
  unfold readPacket
  dsimp only
  split_ifs <;> exact ⟨rfl, rfl, rfl⟩

theorem fill_counters (ready : List Packet) (room : Nat) (lastPack : Option Packet)
    (r : RecvState) :
    (fill ready room lastPack r).1.largestSeqnoRcvd = r.largestSeqnoRcvd ∧
      (fill ready room lastPack r).1.maxCumulBytesTrans = r.maxCumulBytesTrans ∧
      (fill ready room lastPack r).1.lastAvailReaderBytesCap =
        r.lastAvailReaderBytesCap := by
  induction ready generalizing room lastPack r with
  | nil => exact ⟨rfl, rfl, rfl⟩
  | cons pk ready ih =>
    obtain ⟨largest, cumul, cap⟩ := r.readPacket_counters pk (min room pk.unread)
    simp only [fill]
    by_cases full : room - min room pk.unread = 0
    · rw [if_pos full]
      exact ⟨largest, cumul, cap⟩
    · rw [if_neg full]
      obtain ⟨largest', cumul', cap'⟩ := ih (room - min room pk.unread)
        (if min room pk.unread = pk.unread then some pk else lastPack)
        (r.readPacket pk (min room pk.unread))
      exact ⟨largest'.trans largest, cumul'.trans cumul, cap'.trans cap⟩

end RecvState

/-- Whatever a session does of its own accord, its receiver's counts of what has arrived stay. -/
theorem Session.Moved.counters {a : Action} {sent : List Packet}
    (moved : s.Moved blake2b a s' sent) :
    ∃ r : RecvState, r.largestSeqnoRcvd = s.rcv.largestSeqnoRcvd ∧
      r.maxCumulBytesTrans = s.rcv.maxCumulBytesTrans ∧
      r.lastAvailReaderBytesCap = s.rcv.lastAvailReaderBytesCap ∧
      Session.Controlled { s with rcv := r } s' := by
  by_cases isConsume : a = .consume
  · subst isConsume
    cases moved with
    | consume lastPack last =>
      exact ⟨s.rcv.consumeAll lastPack, rfl, rfl, rfl, s.deliverToConsumer_controlled lastPack⟩
  by_cases isRead : ∃ lenp, a = .read lenp
  · obtain ⟨lenp, rfl⟩ := isRead
    cases moved with
    | read =>
      by_cases none' : lenp = 0
      · subst none'
        exact ⟨s.rcv, rfl, rfl, rfl, .of_eq rfl rfl rfl⟩
      · obtain ⟨largest, cumul, cap⟩ := RecvState.fill_counters s.rcv.readyForDelivery lenp none s.rcv
        exact ⟨_, largest, cumul, cap, s.fillAsMuchAsPossible_controlled none'⟩
  · exact ⟨s.rcv, rfl, rfl, rfl, moved.controlled isConsume fun lenp is => isRead ⟨lenp, is⟩⟩

/-- All that a session sends is marked as it should be, if its queue of acks is. -/
theorem Session.Moved.marked {a : Action} {sent : List Packet} {dest : Bytes}
    (moved : s.Moved blake2b a s' sent) (sendsTo : s.SendsTo dest)
    (acks : ∀ x ∈ s.snd.sendAck, x.Marked) :
    (∀ x ∈ s'.snd.sendAck, x.Marked) ∧ ∀ p ∈ sent, p.Marked := by
  have queue : ∀ x ∈ s'.snd.sendAck, x.Marked := by
    obtain ⟨r, -, -, -, same⟩ := moved.counters
    intro x mem
    exact (same.acks x mem).elim (acks x) id
  refine ⟨queue, ?_⟩
  intro p mem
  cases moved with
  | push data deadline free accepts =>
    rw [List.mem_singleton.mp mem]
    exact fun notData => absurd rfl notData
  | resend pos rest deadline waiting =>
    obtain ⟨-, isSent⟩ := sendsTo.sends.resend waiting deadline
    rw [List.mem_singleton.mp mem]
    exact fun notData => absurd (sendsTo.sends.pushed.fields isSent).2.1 notData
  | sendAck ackPack rest fails runs queued =>
    split_ifs at mem
    · cases mem
    · rw [List.mem_singleton.mp mem]
      apply acks
      rw [queued]
      exact List.mem_cons_self
  | connect destInbox fails => exact (s.connect_controlled destInbox fails).2 p mem
  | keepAlive due =>
    unfold SenderState.doKeepAlive at mem
    split_ifs at mem
    · cases mem
    · cases mem
    · rw [List.mem_singleton.mp mem]
      exact fun _ => ⟨Int.negSucc_lt_zero 776, rfl⟩
  | sendClosing =>
    rw [List.mem_singleton.mp mem]
    exact fun _ => ⟨Int.negSucc_lt_zero 887, rfl⟩
  | wakeup | gotPack | data | info | consume | read | retryTimer | stopSender | stopReceiver =>
    cases mem

/-- The receiver with a packet counted that has arrived. -/
def RecvState.count (r : RecvState) (pack : Packet) : RecvState :=
  if r.largestSeqnoRcvd < pack.seqNum then
    { r with
      largestSeqnoRcvd := pack.seqNum
      maxCumulBytesTrans := pack.cumulBytesTransmitted }
  else r

namespace Session

/-- An arrival is dropped, or found to break the order of the counts, or counted. -/
theorem arrive_cases {pack : Packet} (arrived : s.arrive blake2b pack = some s') :
    s.Controlled s' ∨
      (s.rcv.largestSeqnoRcvd < pack.seqNum ∧
        pack.cumulBytesTransmitted < s.rcv.maxCumulBytesTrans) ∨
      (pack.seqNum ≤ s.rcv.largestSeqnoRcvd ∧
        s.rcv.maxCumulBytesTrans < pack.cumulBytesTransmitted) ∨
      Session.Controlled { s with rcv := s.rcv.count pack } s' := by
  have locked : s.Controlled { s with rcv := s.rcv.lockOnto pack } := by
    unfold RecvState.lockOnto
    split_ifs <;> exact .of_eq rfl rfl rfl
  have largest : (s.rcv.lockOnto pack).largestSeqnoRcvd = s.rcv.largestSeqnoRcvd := locked.largest
  have cumul : (s.rcv.lockOnto pack).maxCumulBytesTrans = s.rcv.maxCumulBytesTrans := locked.cumul
  have cap : (s.rcv.lockOnto pack).lastAvailReaderBytesCap = s.rcv.lastAvailReaderBytesCap := by
    unfold RecvState.lockOnto
    split_ifs <;> rfl
  unfold arrive at arrived
  split_ifs at arrived
  split at arrived
  · dsimp only at arrived
    rw [largest, cumul] at arrived
    split_ifs at arrived with drops decreases grows exceeds exceeds <;> cases arrived
    · exact Or.inl locked
    · exact Or.inr (Or.inl decreases)
    · exact absurd exceeds (Int.lt_irrefl _)
    · refine Or.inr (Or.inr (Or.inr ?_))
      rw [RecvState.count, if_pos grows]
      refine Session.Controlled.trans ?_ (updateControl_controlled _)
      exact ⟨rfl, rfl, locked.lastByte, locked.window, Or.inl cap, fun _ => Or.inl, fun _ => Or.inl⟩
    · rw [cumul] at exceeds
      exact Or.inr (Or.inr (Or.inl ⟨Int.not_lt.mp grows, exceeds⟩))
    · refine Or.inr (Or.inr (Or.inr ?_))
      rw [RecvState.count, if_neg grows]
      refine locked.trans (Session.Controlled.trans ?_ (updateControl_controlled _))
      exact .of_eq rfl rfl rfl
  · cases arrived

theorem arrive_sendAck {pack : Packet} (arrived : s.arrive blake2b pack = some s') :
    s'.snd.sendAck = s.snd.sendAck := by
  unfold arrive at arrived
  split_ifs at arrived
  split at arrived
  · dsimp only at arrived
    split_ifs at arrived <;> cases arrived <;> rfl
  · cases arrived

end Session

end Controlled

section Stamps

theorem bytesIn_append (packs packs' : List Packet) :
    bytesIn (packs ++ packs') = bytesIn packs + bytesIn packs' := by
  rw [bytesIn, List.flatMap_append, List.length_append, Int.natCast_add]
  rfl

theorem bytesIn_nonneg (packs : List Packet) : 0 ≤ bytesIn packs := Int.natCast_nonneg _

theorem bytesIn_take_mono (packs : List Packet) {k m : Nat} (le : k ≤ m) :
    bytesIn (packs.take k) ≤ bytesIn (packs.take m) := by
  obtain ⟨later, eq⟩ := List.take_prefix_take_left le (l := packs)
  rw [← eq, bytesIn_append]
  have := bytesIn_nonneg later
  omega

/-- The stamp of each packet is the number of bytes up to its end. -/
structure SenderState.Stamped (snd : SenderState) : Prop where
  total : snd.totalBytesSent = bytesIn snd.sendHistory
  stamps : ∀ (k : Nat) (q : Packet), snd.sendHistory[k]? = some q →
    q.cumulBytesTransmitted = bytesIn (snd.sendHistory.take (k + 1))

theorem SenderState.stamped_new (sendSz : Nat) (inbox dest nonce : Bytes) :
    (SenderState.new sendSz inbox dest nonce).Stamped where
  total := rfl
  stamps k q found := by simp [SenderState.new] at found

variable {blake2b : Bytes → Bytes} {s s' : Session} {snd : SenderState}

namespace SenderState

/-- A push adds the bytes of its data to the total. -/
theorem Stamped.push (stamped : snd.Stamped) (data : Bytes) (retryDeadline : Int) :
    (snd.doOrigDataSend blake2b (snd.pushed data) retryDeadline).1.Stamped := by
  have total : snd.totalBytesSent + data.length =
      bytesIn (snd.sendHistory ++ [snd.origPack blake2b (snd.pushed data)]) := by
    rw [bytesIn_append, stamped.total]
    simp [bytesIn, origPack, pushed]
  refine ⟨total, ?_⟩
  intro k q found
  change (snd.sendHistory ++ [snd.origPack blake2b (snd.pushed data)])[k]? = some q at found
  change _ = bytesIn ((snd.sendHistory ++ [snd.origPack blake2b (snd.pushed data)]).take (k + 1))
  rcases Nat.lt_or_ge k snd.sendHistory.length with old | past
  · rw [List.getElem?_append_left old] at found
    rw [List.take_append_of_le_length old]
    exact stamped.stamps k q found
  · rw [List.getElem?_append_right past, List.getElem?_singleton] at found
    split_ifs at found
    cases found
    rw [List.take_of_length_le (by rw [List.length_append, List.length_singleton]; omega)]
    exact total

theorem Stamped.step (stamped : s.snd.Stamped) {a : Action} {sent : List Packet}
    (moved : s.Moved blake2b a s' sent) : s'.snd.Stamped := by
  generalize after : s'.snd = snd
  have sender := moved.sender
  rw [after] at sender
  cases sender with
  | push data deadline free accepts => exact stamped.push data deadline
  | wakeup | resend | gotPack | beside => exact ⟨stamped.total, stamped.stamps⟩

theorem Stamped.arrive (stamped : s.snd.Stamped) {pack : Packet}
    (arrived : s.arrive blake2b pack = some s') : s'.snd.Stamped := by
  obtain ⟨flow, acks, counter, kept⟩ := (@Session.arrive_responds blake2b 0 [] s s' pack arrived).kept
  rw [kept]
  exact ⟨stamped.total, stamped.stamps⟩

/-- A packet that was sent has the stamp it was pushed with. -/
theorem Stamped.sent {peer : Bytes} (stamped : snd.Stamped)
    (pushed : PushedTo peer snd.sendHistory) {p : Packet} (sent : Sent snd.sendHistory p) :
    p.cumulBytesTransmitted = bytesIn (snd.sendHistory.take (p.seqNum + 1).toNat) := by
  have number := pushed.seqNum sent
  obtain ⟨q, found, same⟩ := sent
  have stamp : p.message.cumulBytesTransmitted = q.message.cumulBytesTransmitted :=
    congrArg Packet.cumulBytesTransmitted same
  have index : (p.seqNum + 1).toNat = p.seqNum.toNat + 1 := by omega
  rw [index]
  exact stamp.trans (stamped.stamps _ q found)

end SenderState

/-- The receiver has the stamp of the highest number it has received. -/
structure RecvState.Counted (history : List Packet) (r : RecvState) : Prop where
  lower : -1 ≤ r.largestSeqnoRcvd
  upper : r.largestSeqnoRcvd < history.length
  cumul : r.maxCumulBytesTrans = bytesIn (history.take (r.largestSeqnoRcvd + 1).toNat)

variable {history history' : List Packet} {r r' : RecvState}

namespace RecvState

theorem Counted.same (counted : r.Counted history)
    (largest : r'.largestSeqnoRcvd = r.largestSeqnoRcvd)
    (cumul : r'.maxCumulBytesTrans = r.maxCumulBytesTrans) : r'.Counted history := by
  refine ⟨?_, ?_, ?_⟩
  · rw [largest]
    exact counted.lower
  · rw [largest]
    exact counted.upper
  · rw [largest, cumul]
    exact counted.cumul

theorem Counted.mono (counted : r.Counted history) (grows : history <+: history') :
    r.Counted history' := by
  obtain ⟨later, rfl⟩ := grows
  have upper := counted.upper
  have lower := counted.lower
  refine ⟨lower, ?_, ?_⟩
  · rw [List.length_append]
    omega
  · rw [List.take_append_of_le_length (by omega)]
    exact counted.cumul

/-- The stamp the receiver has is that of the packet with the number it has. -/
theorem Counted.highest {peer : Bytes} (counted : r.Counted snd.sendHistory)
    (stamped : snd.Stamped) (pushed : PushedTo peer snd.sendHistory) :
    r.largestSeqnoRcvd = -1 ∧ r.maxCumulBytesTrans = 0 ∨
      ∃ q ∈ snd.sendHistory, q.seqNum = r.largestSeqnoRcvd ∧
        r.maxCumulBytesTrans = q.cumulBytesTransmitted := by
  have lower := counted.lower
  have upper := counted.upper
  have cumul := counted.cumul
  by_cases none' : r.largestSeqnoRcvd = -1
  · rw [none'] at cumul
    exact Or.inl ⟨none', cumul⟩
  · have inside : r.largestSeqnoRcvd.toNat < snd.sendHistory.length := by omega
    have found := List.getElem?_eq_getElem inside
    have index : (r.largestSeqnoRcvd + 1).toNat = r.largestSeqnoRcvd.toNat + 1 := by omega
    rw [index] at cumul
    refine Or.inr ⟨_, List.getElem_mem inside, ?_, cumul.trans (stamped.stamps _ _ found).symm⟩
    rw [pushed.numbered _ _ found]
    omega

/-- Neither check of an arrival fails: the stamps of data go up with the numbers, and what is not
data is numbered below all data. -/
theorem Counted.checks {peer : Bytes} (counted : r.Counted snd.sendHistory)
    (stamped : snd.Stamped) (pushed : PushedTo peer snd.sendHistory) {pack : Packet}
    (marked : pack.Marked) (fromHistory : pack.tcpEvent = .data → Sent snd.sendHistory pack) :
    (r.count pack).Counted snd.sendHistory ∧
      ¬(r.largestSeqnoRcvd < pack.seqNum ∧ pack.cumulBytesTransmitted < r.maxCumulBytesTrans) ∧
      ¬(pack.seqNum ≤ r.largestSeqnoRcvd ∧ r.maxCumulBytesTrans < pack.cumulBytesTransmitted) := by
  have lower := counted.lower
  by_cases isData : pack.tcpEvent = .data
  · have number := pushed.seqNum (fromHistory isData)
    have stamp := stamped.sent pushed (fromHistory isData)
    rw [counted.cumul, stamp]
    refine ⟨?_, ?_, ?_⟩
    · unfold count
      split_ifs
      · exact ⟨Int.le_trans (by decide) number.1, number.2, stamp⟩
      · exact counted
    · rintro ⟨above, decreases⟩
      have := bytesIn_take_mono snd.sendHistory
        (show (r.largestSeqnoRcvd + 1).toNat ≤ (pack.seqNum + 1).toNat by omega)
      omega
    · rintro ⟨below, exceeds⟩
      have := bytesIn_take_mono snd.sendHistory
        (show (pack.seqNum + 1).toNat ≤ (r.largestSeqnoRcvd + 1).toNat by omega)
      omega
  · obtain ⟨negative, unstamped⟩ := marked isData
    have nonneg := bytesIn_nonneg (snd.sendHistory.take (r.largestSeqnoRcvd + 1).toNat)
    rw [← counted.cumul] at nonneg
    refine ⟨?_, ?_, ?_⟩
    · rw [count, if_neg (by omega)]
      exact counted
    · rintro ⟨above, -⟩
      omega
    · rintro ⟨-, exceeds⟩
      omega

end RecvState

end Stamps

section Link

variable {ι : Type} {blake2b : Bytes → Bytes} {cfg : ι → SessionConfig} {a b : ι}

/-- All data that arrives at `b` has been sent by `a`. -/
def DataFrom (a b : ι) (s : Parties ι Session Packet) : PartyAction ι Action → Prop
  | .arrive i k => i = b → ∀ m, s.wire[k]? = some m → m.dest = (s.party b).rcv.inbox →
      m.tcpEvent = .data → Sent (s.party a).snd.sendHistory m
  | .act _ _ => True

/-- The counts of `b` are those of what `a` has sent. -/
structure CountLink (cfg : ι → SessionConfig) (a b : ι) (s : Parties ι Session Packet) : Prop where
  marked : Vouched (fun i _ p => p.SendsTo (cfg i).destInbox ∧ ∀ x ∈ p.snd.sendAck, x.Marked)
    (fun _ m => m.Marked) s
  stamped : (s.party a).snd.Stamped
  counted : (s.party b).rcv.Counted (s.party a).snd.sendHistory
  safe : ∀ p, (s.party b).panic = some p → p.ofCounts = false

theorem countLink_start (windows : ∀ i, 1 ≤ (cfg i).windowMsgCount) :
    CountLink cfg a b (start cfg) where
  marked := by
    refine ⟨?_, fun _ mem => absurd mem List.not_mem_nil⟩
    intro i
    exact ⟨(@link_start ι cfg i i windows).sendsTo i, fun _ mem => absurd mem List.not_mem_nil⟩
  stamped := SenderState.stamped_new _ _ _ _
  counted := ⟨Int.le_refl _, Int.negSucc_lt_zero 0, rfl⟩
  safe p failed := by cases failed

theorem Link.dataFrom {s : Parties ι Session Packet} (link : Link cfg a b s)
    (e : PartyAction ι Action) : DataFrom a b s e := by
  cases e with
  | act i act => trivial
  | arrive i k =>
    intro _ m found toB isData
    exact link.wire m (List.mem_of_getElem? found) isData (toB.trans link.inbox)

variable [DecidableEq ι]

theorem CountLink.marked_step {s s' : Parties ι Session Packet} (link : CountLink cfg a b s)
    {e : PartyAction ι Action} (stepped : (swp blake2b).step s e = some s') :
    Vouched (fun i _ p => p.SendsTo (cfg i).destInbox ∧ ∀ x ∈ p.snd.sendAck, x.Marked)
      (fun _ m => m.Marked) s' := by
  refine link.marked.step (fun _ _ => True) (fun _ _ _ _ knows => knows) ?_ ?_
    (fun _ _ _ => trivial) stepped
  · intro i wire p a p' sent ⟨sendsTo, acks⟩ _ acted
    have moved := (Session.step_moved acted).2
    obtain ⟨acks', isMarked⟩ := moved.marked sendsTo acks
    exact ⟨⟨(sendsTo.step moved).sendsTo, acks'⟩, fun _ => id, isMarked⟩
  · intro i wire p q m p' ⟨sendsTo, acks⟩ _ _ arrived
    refine ⟨⟨(sendsTo.arrive arrived).sendsTo, ?_⟩, fun _ => id⟩
    rw [Session.arrive_sendAck arrived]
    exact acks

/-- The history of `a` grows. -/
theorem CountLink.grows {s s' : Parties ι Session Packet} (link : CountLink cfg a b s)
    {e : PartyAction ι Action} (stepped : (swp blake2b).step s e = some s') :
    (s.party a).snd.sendHistory <+: (s'.party a).snd.sendHistory := by
  obtain ⟨news, eq, -⟩ := ((link.marked.knows a).1.protocolStep stepped).history
  rw [eq]
  exact List.prefix_append _ _

/-- A step of a session's own. -/
theorem CountLink.act {s : Parties ι Session Packet} (link : CountLink cfg a b s) {i : ι}
    {act : Action} {p : Session} {sent : List Packet}
    (stepped : (swp blake2b).step s (.act i act) = some (s.update i p sent))
    (moved : (s.party i).Moved blake2b act p sent) : CountLink cfg a b (s.update i p sent) := by
  obtain ⟨r, largest, cumul, -, controlled⟩ := moved.counters
  refine ⟨link.marked_step stepped, ?_, RecvState.Counted.mono ?_ (link.grows stepped), ?_⟩
  · by_cases same : a = i
    · subst same
      rw [Parties.update_self]
      exact link.stamped.step moved
    · rw [Parties.update_of_ne s same]
      exact link.stamped
  · by_cases same : b = i
    · subst same
      rw [Parties.update_self]
      exact link.counted.same (controlled.largest.trans largest) (controlled.cumul.trans cumul)
    · rw [Parties.update_of_ne s same]
      exact link.counted
  · by_cases same : b = i
    · subst same
      rw [Parties.update_self]
      intro panic failed
      exact (controlled.panic panic failed).elim (link.safe panic) id
    · rw [Parties.update_of_ne s same]
      exact link.safe

/-- An arrival, at `b` of nothing but what `a` has sent. -/
theorem CountLink.arrive {s : Parties ι Session Packet} (link : CountLink cfg a b s) {i : ι}
    {k : Nat} {m : Packet} {p : Session} (found : s.wire[k]? = some m)
    (addressed : m.dest = (s.party i).rcv.inbox) (dataFrom : DataFrom a b s (.arrive i k))
    (stepped : (swp blake2b).step s (.arrive i k) = some (s.update i p []))
    (arrived : (s.party i).arrive blake2b m = some p) : CountLink cfg a b (s.update i p []) := by
  obtain ⟨sendsTo, -⟩ := link.marked.knows a
  obtain ⟨-, marked⟩ := link.marked.wire m (List.mem_of_getElem? found)
  have stamped : ((s.update i p []).party a).snd.Stamped := by
    by_cases same : a = i
    · subst same
      rw [Parties.update_self]
      exact link.stamped.arrive arrived
    · rw [Parties.update_of_ne s same]
      exact link.stamped
  by_cases same : b = i
  · subst same
    obtain ⟨counted, keepsUp, inOrder⟩ :=
      link.counted.checks link.stamped sendsTo.sends.pushed marked
        (dataFrom rfl m found addressed)
    have controlled : ∃ r : RecvState, r.Counted (s.party a).snd.sendHistory ∧
        Session.Controlled { s.party b with rcv := r } p := by
      rcases Session.arrive_cases arrived with dropped | decreases | exceeds | isCounted
      · exact ⟨_, link.counted, dropped⟩
      · exact absurd decreases keepsUp
      · exact absurd exceeds inOrder
      · exact ⟨_, counted, isCounted⟩
    obtain ⟨r, counted, controlled⟩ := controlled
    refine ⟨link.marked_step stepped, stamped, RecvState.Counted.mono ?_ (link.grows stepped), ?_⟩
    · rw [Parties.update_self]
      exact counted.same controlled.largest controlled.cumul
    · rw [Parties.update_self]
      intro panic failed
      exact (controlled.panic panic failed).elim (link.safe panic) id
  · refine ⟨link.marked_step stepped, stamped, RecvState.Counted.mono ?_ (link.grows stepped), ?_⟩
    · rw [Parties.update_of_ne s same]
      exact link.counted
    · rw [Parties.update_of_ne s same]
      exact link.safe

theorem CountLink.step {s s' : Parties ι Session Packet} (link : CountLink cfg a b s)
    {e : PartyAction ι Action} (dataFrom : DataFrom a b s e)
    (stepped : (swp blake2b).step s e = some s') : CountLink cfg a b s' := by
  cases e with
  | act i act =>
    obtain ⟨⟨p, sent⟩, acted, rfl⟩ := Option.map_eq_some_iff.mp stepped
    exact link.act stepped (Session.step_moved acted).2
  | arrive i k =>
    obtain ⟨m, p, found, addressed, arrived, rfl⟩ := Protocol.step_arrive stepped
    exact link.arrive found (of_decide_eq_true addressed) dataFrom stepped arrived

/-- All data at `b` is from `a` if no other session has `b` as its destination. -/
theorem dataFrom_only (only : ∀ i, i ≠ a → (cfg i).destInbox ≠ (cfg b).localInbox)
    (windows : ∀ i, 1 ≤ (cfg i).windowMsgCount) (actions : List (PartyAction ι Action)) :
    Along (swp blake2b).step (DataFrom a b) (start cfg) actions := by
  have along : ∀ (actions : List (PartyAction ι Action)) (s : Parties ι Session Packet),
      Link cfg a b s → Along (swp blake2b).step (DataFrom a b) s actions := by
    intro actions
    induction actions with
    | nil => exact fun _ _ => trivial
    | cons e actions ih =>
      intro s link
      exact ⟨link.dataFrom e, fun s' stepped => ih s' (link.step only stepped)⟩
  exact along actions _ (link_start windows)

end Link

end Hnatsd.Swp
