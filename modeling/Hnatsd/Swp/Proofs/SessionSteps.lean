import Hnatsd.Swp.Session

/-!
# What the steps of a session can do

Each case of the two loops once more, without the conditions that no proof needs, and what the
receiver's functions leave alone: of the sender they touch the flow record, the queue of acks and
the counter for keep-alives.
-/

namespace Hnatsd.Swp
open Misc List Session RecvState SenderState

variable {r r' : RecvState}

variable {blake2b : Bytes → Bytes}

/-- The steps of a session. -/
inductive Session.Moved (blake2b : Bytes → Bytes) (s : Session) :
    Action → Session → List Packet → Prop where
  | push (data : Bytes) (retryDeadline : Int) (free : s.snd.retrying = [])
      (accepts : s.snd.acceptSend = true) :
      Session.Moved blake2b s (.push data retryDeadline)
        { s with snd := (s.snd.doOrigDataSend blake2b (s.snd.pushed data) retryDeadline).1 }
        [(s.snd.doOrigDataSend blake2b (s.snd.pushed data) retryDeadline).2]
  | wakeup (now : Int) (free : s.snd.retrying = []) :
      Session.Moved blake2b s (.wakeup now) { s with snd := s.snd.wakeup now } []
  | resend (pos : Nat) (rest : List Nat) (retryDeadline : Int)
      (waiting : s.snd.retrying = pos :: rest) :
      Session.Moved blake2b s (.resend retryDeadline)
        { s with snd := { (s.snd.resend pos retryDeadline).1 with retrying := rest } }
        [(s.snd.resend pos retryDeadline).2]
  | sendAck (ackPack : Packet) (rest : List Packet) (fails runs : Bool)
      (queued : s.snd.sendAck = ackPack :: rest) :
      Session.Moved blake2b s (.sendAck fails)
        { s with snd := { s.snd.learnNonce ackPack with sendAck := rest }, sndRuns := runs }
        (if fails then [] else [ackPack])
  | gotPack (pack : Packet) (handing : s.rcv.place = .handing pack) (free : s.snd.retrying = []) :
      Session.Moved blake2b s .gotPack (s.handOver pack) []
  | data (pack : Packet) (handed : s.rcv.place = .handed pack) (isData : pack.tcpEvent = .data) :
      Session.Moved blake2b s .process (s.backToSelect.recvData pack) []
  | info (pack : Packet) (handed : s.rcv.place = .handed pack) (isInfo : pack.tcpEvent ≠ .data) :
      Session.Moved blake2b s .process (s.backToSelect.recvInfo pack) []
  | consume (lastPack : Packet) (last : s.rcv.readyForDelivery.getLast? = some lastPack) :
      Session.Moved blake2b s .consume (s.deliverToConsumer lastPack) []
  | read (lenp : Nat) : Session.Moved blake2b s (.read lenp) (s.fillAsMuchAsPossible lenp) []
  | retryTimer (elapsed : Bool) (selects : s.rcv.place = .select) :
      Session.Moved blake2b s (.retryTimer elapsed) (s.retryCheck elapsed) []
  | connect (destInbox : Bytes) (fails : Bool) (selects : s.rcv.place = .select) :
      Session.Moved blake2b s (.connect destInbox fails) (s.connect destInbox fails).1
        (s.connect destInbox fails).2
  | keepAlive (due : Bool) :
      Session.Moved blake2b s (.keepAlive due) s (s.snd.doKeepAlive s.rcv.tcpState due)
  | sendClosing : Session.Moved blake2b s .sendClosing s [s.snd.doSendClosing]
  | stopSender : Session.Moved blake2b s .stopSender { s with sndRuns := false } []
  | stopReceiver : Session.Moved blake2b s .stopReceiver { s with rcvRuns := false } []

theorem SenderState.slotAt_setSlot_ne {snd : SenderState} {pos i : Nat} {slot : TxqSlot}
    (ne : i ≠ pos) : (snd.setSlot pos slot).slotAt i = snd.slotAt i := by
  simp [slotAt, setSlot, getD_eq_getElem?_getD,
    getElem?_set_ne (Ne.symm ne)]

theorem SenderState.slotAt_setSlot_self {snd : SenderState} {pos : Nat} {slot : TxqSlot}
    (inRing : pos < snd.txq.length) : (snd.setSlot pos slot).slotAt pos = slot := by
  simp [slotAt, setSlot, getD_eq_getElem?_getD,
    getElem?_set_self inRing]

theorem SenderState.learnNonce_fields (snd : SenderState) (ackPack : Packet) :
    ∃ nonce, snd.learnNonce ackPack = { snd with remoteSessNonce := nonce } := by
  unfold learnNonce
  split_ifs
  · exact ⟨_, rfl⟩
  · exact ⟨_, rfl⟩

theorem Session.sndSelects_free {s : Session} (selects : s.sndSelects = true) :
    s.snd.retrying = [] := by
  unfold sndSelects at selects
  exact (of_decide_eq_true selects).2

theorem Session.rcvSelects_place {s : Session} (selects : s.rcvSelects = true) :
    s.rcv.place = .select := by
  unfold rcvSelects at selects
  split at selects
  · assumption
  · cases selects

theorem Session.step_moved {s s' : Session} {a : Action} {sent : List Packet}
    (stepped : s.step blake2b a = some (s', sent)) :
    s.panic = none ∧ s.Moved blake2b a s' sent := by
  unfold step at stepped
  by_cases dead : s.panic ≠ none
  · rw [if_pos dead] at stepped
    cases stepped
  rw [if_neg dead] at stepped
  refine ⟨not_not.mp dead, ?_⟩
  cases a with
  | push data retryDeadline =>
    simp only [Option.ite_none_right_eq_some, Option.some.injEq, Prod.mk.injEq] at stepped
    obtain ⟨⟨selects, accepts⟩, rfl, rfl⟩ := stepped
    exact .push data retryDeadline (sndSelects_free selects) accepts
  | wakeup now =>
    simp only [Option.ite_none_right_eq_some, Option.some.injEq, Prod.mk.injEq] at stepped
    obtain ⟨selects, rfl, rfl⟩ := stepped
    exact .wakeup now (sndSelects_free selects)
  | resend retryDeadline =>
    dsimp only at stepped
    split at stepped
    · rename_i pos rest waiting
      simp only [Option.ite_none_right_eq_some, Option.some.injEq, Prod.mk.injEq] at stepped
      obtain ⟨-, rfl, rfl⟩ := stepped
      exact .resend pos rest retryDeadline waiting
    · cases stepped
  | sendAck fails =>
    dsimp only at stepped
    split at stepped
    · rename_i ackPack rest queued
      split_ifs at stepped with selects failed
      · cases stepped
        subst failed
        exact .sendAck ackPack rest true false queued
      · cases stepped
        have succeeded : fails = false := by simpa using failed
        subst succeeded
        exact .sendAck ackPack rest false s.sndRuns queued
    · cases stepped
  | stopSender =>
    simp only [Option.ite_none_right_eq_some, Option.some.injEq, Prod.mk.injEq] at stepped
    obtain ⟨-, rfl, rfl⟩ := stepped
    exact .stopSender
  | gotPack =>
    dsimp only at stepped
    split at stepped
    · rename_i pack handing
      simp only [Option.ite_none_right_eq_some, Option.some.injEq, Prod.mk.injEq] at stepped
      obtain ⟨⟨selects, -⟩, rfl, rfl⟩ := stepped
      exact .gotPack pack handing (sndSelects_free selects)
    · cases stepped
  | process =>
    dsimp only at stepped
    split at stepped
    · rename_i pack handed
      split_ifs at stepped with runs isData
      · cases stepped
        exact .data pack handed isData
      · cases stepped
        exact .info pack handed isData
    · cases stepped
  | consume =>
    dsimp only at stepped
    split at stepped
    · rename_i lastPack last
      simp only [Option.ite_none_right_eq_some, Option.some.injEq, Prod.mk.injEq] at stepped
      obtain ⟨-, rfl, rfl⟩ := stepped
      exact .consume lastPack last
    · cases stepped
  | read lenp =>
    simp only [Option.ite_none_right_eq_some, Option.some.injEq, Prod.mk.injEq] at stepped
    obtain ⟨-, rfl, rfl⟩ := stepped
    exact .read lenp
  | retryTimer elapsed =>
    simp only [Option.ite_none_right_eq_some, Option.some.injEq, Prod.mk.injEq] at stepped
    obtain ⟨⟨selects, -⟩, rfl, rfl⟩ := stepped
    exact .retryTimer elapsed (rcvSelects_place selects)
  | stopReceiver =>
    dsimp only at stepped
    split at stepped
    · cases stepped
    · cases stepped
      exact .stopReceiver
  | connect destInbox fails =>
    simp only [Option.ite_none_right_eq_some, Option.some.injEq] at stepped
    obtain ⟨⟨selects, -⟩, connected⟩ := stepped
    have moved : s.Moved blake2b _ _ _ := .connect destInbox fails (rcvSelects_place selects)
    rwa [connected] at moved
  | keepAlive due =>
    simp only [Option.ite_none_right_eq_some, Option.some.injEq, Prod.mk.injEq] at stepped
    obtain ⟨-, rfl, rfl⟩ := stepped
    exact .keepAlive due
  | sendClosing =>
    simp only [Option.ite_none_right_eq_some, Option.some.injEq, Prod.mk.injEq] at stepped
    obtain ⟨-, rfl, rfl⟩ := stepped
    exact .sendClosing

/-- An ack of frame `n` to `peer`. -/
def IsAck (n : Int) (peer : Bytes) (a : Packet) : Prop :=
  a.ackNum = n ∧ a.tcpEvent ≠ .data ∧ a.dest = peer

/-- What the receiver may do to the sender while `n` is the last frame consumed. -/
structure Session.Responds (n : Int) (peer : Bytes) (s s' : Session) : Prop where
  kept : ∃ flow acks counter, s'.snd =
    { s.snd with flow := flow, sendAck := acks, recvLastFrameClientConsumed := counter }
  acks : ∀ a ∈ s'.snd.sendAck, a ∈ s.snd.sendAck ∨ IsAck n peer a
  counter : s'.snd.recvLastFrameClientConsumed = s.snd.recvLastFrameClientConsumed ∨
    s'.snd.recvLastFrameClientConsumed = n
  panic : s.panic ≠ some .lenBySeqByDeadline → s'.panic ≠ some .lenBySeqByDeadline

namespace RecvState

/-- The receiver's window, what it has delivered and who its peer is stay the same. -/
structure SameWindow (r r' : RecvState) : Prop where
  next : r'.nextFrameExpected = r.nextFrameExpected := by rfl
  last : r'.lastFrameClientConsumed = r.lastFrameClientConsumed := by rfl
  rxq : r'.rxq = r.rxq := by rfl
  size : r'.recvWindowSize = r.recvWindowSize := by rfl
  ready : r'.readyForDelivery = r.readyForDelivery := by rfl
  consumed : r'.consumed = r.consumed := by rfl
  batches : r'.batches = r.batches := by rfl
  bytes : r'.bytesRead = r.bytesRead := by rfl
  msgConsumed : r'.lastMsgConsumed = r.lastMsgConsumed := by rfl
  largest : r.largestSeqnoRcvd ≤ r'.largestSeqnoRcvd := by exact Int.le_refl _
  inbox : r'.inbox = r.inbox := by rfl
  remote : r'.remoteInbox = r.remoteInbox := by rfl
  place : r'.place = r.place := by rfl

/-- The fields that stay the same. -/
def windowFields (r : RecvState) :=
  (r.nextFrameExpected, r.lastFrameClientConsumed, r.rxq, r.recvWindowSize, r.readyForDelivery,
    r.consumed, r.batches, r.bytesRead, r.lastMsgConsumed, r.inbox, r.remoteInbox, r.place)

theorem SameWindow.of_fields
    (same : r'.windowFields = r.windowFields)
    (largest : r.largestSeqnoRcvd ≤ r'.largestSeqnoRcvd) : r.SameWindow r' := by
  simp only [windowFields, Prod.mk.injEq] at same
  obtain ⟨next, last, rxq, size, ready, consumed, batches, bytes, msgConsumed, inbox, remote,
    place⟩ := same
  exact ⟨next, last, rxq, size, ready, consumed, batches, bytes, msgConsumed, largest, inbox,
    remote, place⟩

theorem SameWindow.of_eq (same : r'.windowFields = r.windowFields)
    (largest : r'.largestSeqnoRcvd = r.largestSeqnoRcvd) : r.SameWindow r' :=
  .of_fields same (Int.le_of_eq largest.symm)

theorem SameWindow.refl (r : RecvState) : r.SameWindow r := .of_eq rfl rfl

theorem SameWindow.trans {r'' : RecvState} (h : r.SameWindow r')
    (h' : r'.SameWindow r'') : r.SameWindow r'' where
  next := h'.next.trans h.next
  last := h'.last.trans h.last
  rxq := h'.rxq.trans h.rxq
  size := h'.size.trans h.size
  ready := h'.ready.trans h.ready
  consumed := h'.consumed.trans h.consumed
  batches := h'.batches.trans h.batches
  bytes := h'.bytes.trans h.bytes
  msgConsumed := h'.msgConsumed.trans h.msgConsumed
  largest := h.largest.trans h'.largest
  inbox := h'.inbox.trans h.inbox
  remote := h'.remote.trans h.remote
  place := h'.place.trans h.place

end RecvState

section Responds

variable {n : Int} {peer : Bytes} {s s' s'' : Session}

namespace Session

theorem Responds.refl (s : Session) : Session.Responds n peer s s :=
  ⟨⟨_, _, _, rfl⟩, fun _ mem => Or.inl mem, Or.inl rfl, id⟩

theorem Responds.trans (h : Session.Responds n peer s s')
    (h' : Session.Responds n peer s' s'') : Session.Responds n peer s s'' where
  kept := by
    obtain ⟨flow, acks, counter, eq⟩ := h.kept
    obtain ⟨flow', acks', counter', eq'⟩ := h'.kept
    exact ⟨flow', acks', counter', by rw [eq', eq]⟩
  acks a mem := by
    rcases h'.acks a mem with old | new
    · exact h.acks a old
    · exact Or.inr new
  counter := by
    rcases h'.counter with same | set
    · exact same ▸ h.counter
    · exact Or.inr set
  panic fine := h'.panic (h.panic fine)

/-- The sender is untouched. -/
theorem Responds.of_snd (same : s'.snd = s.snd)
    (panic : s.panic ≠ some .lenBySeqByDeadline → s'.panic ≠ some .lenBySeqByDeadline) :
    Session.Responds n peer s s' :=
  ⟨⟨_, _, _, same⟩, fun _ mem => Or.inl (same ▸ mem), Or.inl (by rw [same]), panic⟩

/-- A step of the receiver that delivers nothing. -/
structure Answers (n : Int) (peer : Bytes) (s s' : Session) : Prop where
  responds : Session.Responds n peer s s'
  window : s.rcv.SameWindow s'.rcv

theorem Answers.refl (s : Session) : Answers n peer s s := ⟨.refl s, .refl _⟩

theorem Answers.trans (h : Answers n peer s s')
    (h' : Answers n peer s' s'') : Answers n peer s s'' :=
  ⟨h.responds.trans h'.responds, h.window.trans h'.window⟩

/-- Only the receiver changes, and its window does not. -/
theorem Answers.of_rcv (same : s.rcv.SameWindow r) :
    Answers n peer s { s with rcv := r } :=
  ⟨.of_snd rfl id, same⟩

theorem Answers.fails (s : Session) {p : Panic} (other : p ≠ .lenBySeqByDeadline) :
    Answers n peer s (s.fails p) :=
  ⟨.of_snd rfl fun _ eq => other (Option.some.inj eq), .refl _⟩

theorem ack_window (s : Session) (seqno : Int) (pack : Packet) (event : TcpEvent) :
    s.rcv.SameWindow (s.ack seqno pack event).rcv := .of_eq rfl rfl

theorem ack_answers (s : Session) (remote : s.rcv.remoteInbox = peer) (pack : Packet)
    (event : TcpEvent) (notData : event ≠ .data) :
    Answers n peer s (s.ack n pack event) := by
  refine ⟨⟨⟨_, _, _, rfl⟩, fun a mem => ?_, Or.inl rfl, id⟩, s.ack_window n pack event⟩
  rcases mem_append.mp mem with old | new
  · refine Or.inl ?_
    split_ifs at old
    · exact mem_of_mem_drop old
    · exact old
  · rw [mem_singleton] at new
    subst new
    exact Or.inr ⟨rfl, notData, remote⟩

theorem Responds.acked (remote : r.remoteInbox = peer) (pack : Packet)
    (event : TcpEvent) (notData : event ≠ .data) :
    Session.Responds n peer s (ack { s with rcv := r } n pack event) :=
  have untouched : Session.Responds n peer s { s with rcv := r } := .of_snd rfl id
  untouched.trans (ack_answers _ remote pack event notData).responds

theorem Answers.acked (same : s.rcv.SameWindow r)
    (remote : r.remoteInbox = peer) (pack : Packet) (event : TcpEvent) (notData : event ≠ .data) :
    Answers n peer s (ack { s with rcv := r } n pack event) :=
  (Answers.of_rcv same).trans (ack_answers _ remote pack event notData)

/-- The actions of the connection state machine answer with the last frame consumed. -/
theorem doTcpAction_answers (s : Session) (last : s.rcv.lastFrameClientConsumed = n)
    (remote : s.rcv.remoteInbox = peer) (act : TcpAction) (pack : Packet) :
    Answers n peer s (s.doTcpAction act pack).1 := by
  subst last
  cases act with
  | noAction => exact .refl s
  | sendDataAck => exact s.ack_answers remote pack .dataAck (by decide)
  | sendSyn => exact s.ack_answers remote pack .syn (by decide)
  | sendFin => exact s.ack_answers remote pack .fin (by decide)
  | sendFinAck => exact s.ack_answers remote pack .finAck (by decide)
  | doAppClose => exact s.ack_answers remote pack .finAck (by decide)
  | sendSynAck =>
    simp only [doTcpAction]
    split_ifs
    · exact .fails s (by decide)
    · refine Answers.acked ?_ ?_ pack .synAck (by decide)
      · exact .of_eq rfl rfl
      · exact remote
  | sendEstabAck =>
    have learned : s.rcv.SameWindow { s.rcv with remoteSessNonce := pack.fromSessNonce } := .of_eq rfl rfl
    simp only [doTcpAction]
    split_ifs
    · exact .fails s (by decide)
    · split
      · exact (Answers.of_rcv learned).trans (.fails _ (by decide))
      · exact (Answers.of_rcv learned).trans (.fails _ (by decide))
      · refine Answers.acked ?_ ?_ pack .estabAck (by decide)
        · exact .of_eq rfl rfl
        · exact remote

end Session

theorem RecvState.setupRetry_window (r : RecvState) (pre post : TcpState) (pack : Packet)
    (act : TcpAction) : r.SameWindow (r.setupRetry pre post pack act) := by
  unfold setupRetry
  split_ifs
  · exact .refl r
  · exact .of_eq rfl rfl
  · exact .of_eq rfl rfl

namespace Session

theorem tcpEvent_answers (s : Session) (last : s.rcv.lastFrameClientConsumed = n)
    (remote : s.rcv.remoteInbox = peer) (event : TcpEvent) (pack : Packet) :
    Answers n peer s (s.tcpEvent event pack).1 := by
  simp only [tcpEvent]
  generalize s.rcv.tcpState.updateTcp event pack.fromTcpState = updated
  obtain ⟨post, act⟩ := updated
  have moved : s.rcv.SameWindow { s.rcv with tcpState := post } := .of_eq rfl rfl
  have window : s.rcv.SameWindow (if s.rcv.tcpState ≠ post then
      setupRetry { s.rcv with tcpState := post } s.rcv.tcpState post pack act
    else { s.rcv with tcpState := post }) := by
    split_ifs
    · exact moved.trans (setupRetry_window _ _ _ pack act)
    · exact moved
  exact (Answers.of_rcv window).trans
    (doTcpAction_answers _ (window.last.trans last) (window.remote.trans remote) act pack)

theorem doNextEvent_answers (pack : Packet) (fuel : Nat) (s : Session)
    (last : s.rcv.lastFrameClientConsumed = n) (remote : s.rcv.remoteInbox = peer)
    (event : TcpEvent) : Answers n peer s (doNextEvent pack fuel s event) := by
  induction fuel generalizing s event with
  | zero => exact .refl s
  | succ fuel ih =>
    have first := s.tcpEvent_answers last remote event pack
    simp only [doNextEvent]
    split_ifs
    · exact first
    · exact first.trans
        (ih _ (first.window.last.trans last) (first.window.remote.trans remote) _)

theorem recvInfo_answers (s : Session) (last : s.rcv.lastFrameClientConsumed = n)
    (remote : s.rcv.remoteInbox = peer) (pack : Packet) :
    Answers n peer s (s.recvInfo pack) := by
  have events := doNextEvent_answers pack 2 s last remote pack.tcpEvent
  simp only [recvInfo]
  split_ifs
  · exact events.trans ⟨.of_snd rfl id, .refl _⟩
  · exact events

theorem retryCheck_answers (s : Session) (last : s.rcv.lastFrameClientConsumed = n)
    (remote : s.rcv.remoteInbox = peer) (elapsed : Bool) :
    Answers n peer s (s.retryCheck elapsed) := by
  have plain (r : RecvState) (same : s.rcv.SameWindow r) :
      Answers n peer s { s with rcv := r } := .of_rcv same
  simp only [retryCheck]
  split_ifs
  · exact plain _ (.of_eq rfl rfl)
  · exact plain _ (.of_eq rfl rfl)
  · exact plain _ (.of_eq rfl rfl)
  · exact plain _ (.of_eq rfl rfl)
  · refine (plain _ ?_).trans ((doTcpAction_answers _ ?_ ?_ _ _).trans (.of_rcv ?_))
    · exact .of_eq rfl rfl
    · exact last
    · exact remote
    · exact .of_eq rfl rfl

theorem connect_responds (s : Session) (destInbox : Bytes) (fails : Bool) :
    Session.Responds n peer s (s.connect destInbox fails).1 := by
  unfold connect
  dsimp only
  split_ifs <;> exact .of_snd rfl id

/-- A connect request sends at most a SYN. A session that knows its peer connects to nobody else. -/
theorem connect_window (s : Session) (destInbox : Bytes) (fails : Bool) :
    ∃ remote, (s.rcv.remoteInbox ≠ [] → remote = s.rcv.remoteInbox) ∧
      SameWindow { s.rcv with remoteInbox := remote } (s.connect destInbox fails).1.rcv ∧
      ∀ p ∈ (s.connect destInbox fails).2, IsAck 0 remote p := by
  by_cases other : s.rcv.remoteInbox ≠ [] ∧ s.rcv.remoteInbox ≠ destInbox
  · rw [connect, if_pos other]
    exact ⟨_, fun _ => rfl, .refl _, fun _ mem => nomatch mem⟩
  have agrees (known : s.rcv.remoteInbox ≠ []) : destInbox = s.rcv.remoteInbox := by
    by_contra differs
    exact other ⟨known, Ne.symm differs⟩
  have remote (r : RecvState) (is : r = if s.rcv.remoteInbox = [] then
      { s.rcv with remoteInbox := destInbox } else s.rcv) :
      r = { s.rcv with remoteInbox := destInbox } := by
    subst is
    split_ifs with unknown
    · rfl
    · rw [agrees unknown]
  simp only [connect, if_neg other]
  rw [remote _ rfl]
  refine ⟨destInbox, agrees, ?_⟩
  split_ifs
  · exact ⟨.refl _, fun _ mem => nomatch mem⟩
  · refine ⟨.of_eq rfl rfl, fun _ mem => ?_⟩
    cases mem
  · refine ⟨.of_eq rfl rfl, fun p mem => ?_⟩
    rw [mem_singleton] at mem
    subst mem
    exact ⟨rfl, nofun, rfl⟩

end Session

theorem RecvState.lockOnto_window (r : RecvState) (pack : Packet) :
    ∃ remote, (r.remoteInbox ≠ [] → remote = r.remoteInbox) ∧
      SameWindow { r with remoteInbox := remote } (r.lockOnto pack) := by
  unfold lockOnto
  split_ifs with locks
  · exact ⟨pack.from', fun known => absurd locks.2.2.1 known, .of_eq rfl rfl⟩
  · exact ⟨_, fun _ => rfl, .refl _⟩

/-- An arrival leaves the sender alone, apart from the flow record. -/
theorem Session.arrive_responds {pack : Packet} (arrived : s.arrive blake2b pack = some s') :
    Session.Responds n peer s s' := by
  unfold arrive at arrived
  split_ifs at arrived
  split at arrived
  · dsimp only at arrived
    split_ifs at arrived <;> cases arrived
    · exact .of_snd rfl id
    · exact .of_snd rfl fun _ => nofun
    · exact .of_snd rfl fun _ => nofun
    · exact ⟨⟨_, _, _, rfl⟩, fun _ mem => Or.inl mem, Or.inl rfl, id⟩
    · exact .of_snd rfl fun _ => nofun
    · exact ⟨⟨_, _, _, rfl⟩, fun _ mem => Or.inl mem, Or.inl rfl, id⟩
  · cases arrived

/-- At most the peer becomes known, and the packet is counted and comes into the receiver's
hands. -/
def RecvState.Takes (pack : Packet) (r r' : RecvState) : Prop :=
  ∃ place remote,
    (place = r.place ∨ place = .handing pack ∧ pack.seqNum ≤ r'.largestSeqnoRcvd) ∧
    (r.remoteInbox ≠ [] → remote = r.remoteInbox) ∧
    SameWindow { r with remoteInbox := remote, place := place } r'

theorem Session.arrive_takes {pack : Packet} (arrived : s.arrive blake2b pack = some s') :
    s.rcv.Takes pack s'.rcv := by
  obtain ⟨remote, known, locked⟩ := s.rcv.lockOnto_window pack
  have counts {r : RecvState} (same : (s.rcv.lockOnto pack).SameWindow r) : s.rcv.Takes pack r :=
    ⟨_, remote, Or.inl rfl, known, locked.trans same⟩
  have placed : SameWindow
      { s.rcv with remoteInbox := remote, place := .handing pack }
      { s.rcv.lockOnto pack with place := .handing pack } :=
    ⟨locked.next, locked.last, locked.rxq, locked.size, locked.ready, locked.consumed,
      locked.batches, locked.bytes, locked.msgConsumed, locked.largest, locked.inbox, locked.remote,
      rfl⟩
  have takes {r : RecvState} (counted : pack.seqNum ≤ r.largestSeqnoRcvd)
      (same : SameWindow { s.rcv.lockOnto pack with place := .handing pack } r) :
      s.rcv.Takes pack r :=
    ⟨_, remote, Or.inr ⟨rfl, counted⟩, known, placed.trans same⟩
  unfold arrive at arrived
  split_ifs at arrived
  split at arrived
  · dsimp only at arrived
    split_ifs at arrived with drops decreases grows <;> cases arrived
    · exact counts (.refl _)
    · exact counts (.of_fields rfl (Int.le_of_lt decreases.1))
    · exact counts (.of_fields rfl (Int.le_of_lt grows))
    · exact takes (Int.le_refl _) (.of_fields rfl (Int.le_of_lt grows))
    · exact counts (.refl _)
    · exact takes (Int.not_lt.mp grows) (.of_eq rfl rfl)
  · cases arrived

theorem RecvState.hold_window (r : RecvState) (pack : Packet) : r.SameWindow (r.hold pack) := by
  unfold hold
  split_ifs
  · exact .of_eq rfl rfl
  · exact .refl r

theorem Session.recvData_responds (s : Session) (last : s.rcv.lastFrameClientConsumed = n)
    (remote : s.rcv.remoteInbox = peer) (pack : Packet) :
    Session.Responds n peer s (s.recvData pack) := by
  have held := s.rcv.hold_window pack
  have last' := held.last.trans last
  simp only [recvData]
  split_ifs
  · exact .of_snd rfl fun _ => nofun
  · rw [last']
    exact (Answers.acked held (held.remote.trans remote) pack .dataAck nofun).responds
  · exact ⟨⟨_, _, _, rfl⟩, fun _ mem => Or.inl mem, Or.inr last', id⟩
  · exact .of_snd rfl id

theorem Session.deliverToConsumer_responds (s : Session) (remote : s.rcv.remoteInbox = peer)
    (lastPack : Packet) :
    Session.Responds lastPack.seqNum peer s (s.deliverToConsumer lastPack) := by
  simp only [deliverToConsumer]
  refine Session.Responds.acked ?_ lastPack .dataAck nofun
  exact remote

/-- What `Read` leaves alone; what the consumer has taken stays taken. -/
structure RecvState.SameRing (r r' : RecvState) : Prop where
  remote : r'.remoteInbox = r.remoteInbox
  inbox : r'.inbox = r.inbox
  next : r'.nextFrameExpected = r.nextFrameExpected
  rxq : r'.rxq = r.rxq
  size : r'.recvWindowSize = r.recvWindowSize
  place : r'.place = r.place
  consumed : r.consumed <+: r'.consumed

theorem RecvState.SameRing.trans {r'' : RecvState} (h : r.SameRing r')
    (h' : r'.SameRing r'') : r.SameRing r'' where
  remote := h'.remote.trans h.remote
  inbox := h'.inbox.trans h.inbox
  next := h'.next.trans h.next
  rxq := h'.rxq.trans h.rxq
  size := h'.size.trans h.size
  place := h'.place.trans h.place
  consumed := h.consumed.trans h'.consumed

theorem RecvState.readPacket_ring (r : RecvState) (pk : Packet) (m : Nat) :
    r.SameRing (r.readPacket pk m) := by
  unfold readPacket
  dsimp only
  split_ifs
  · exact ⟨rfl, rfl, rfl, rfl, rfl, rfl, prefix_append _ _⟩
  · exact ⟨rfl, rfl, rfl, rfl, rfl, rfl, prefix_rfl⟩

theorem RecvState.fill_ring (ready : List Packet) (room : Nat) (lastPack : Option Packet)
    (r : RecvState) : r.SameRing (fill ready room lastPack r).1 := by
  induction ready generalizing room lastPack r with
  | nil => exact ⟨rfl, rfl, rfl, rfl, rfl, rfl, prefix_rfl⟩
  | cons pk ready ih =>
    have first := r.readPacket_ring pk (min room pk.unread)
    simp only [fill]
    by_cases full : room - min room pk.unread = 0
    · rw [if_pos full]
      exact first
    · rw [if_neg full]
      exact first.trans (ih _ _ _)

theorem Session.fillAsMuchAsPossible_ring (s : Session) (lenp : Nat) :
    s.rcv.SameRing (s.fillAsMuchAsPossible lenp).rcv := by
  have ring := fill_ring s.rcv.readyForDelivery lenp none s.rcv
  simp only [fillAsMuchAsPossible]
  split_ifs
  · exact ⟨rfl, rfl, rfl, rfl, rfl, rfl, prefix_rfl⟩
  · split
    · exact ring
    · refine ring.trans ?_
      exact ⟨rfl, rfl, rfl, rfl, rfl, rfl, prefix_rfl⟩

theorem Session.fillAsMuchAsPossible_responds (s : Session) (remote : s.rcv.remoteInbox = peer)
    (lenp : Nat) :
    Session.Responds (s.fillAsMuchAsPossible lenp).rcv.lastFrameClientConsumed peer s
      (s.fillAsMuchAsPossible lenp) := by
  have ring := fill_ring s.rcv.readyForDelivery lenp none s.rcv
  simp only [fillAsMuchAsPossible]
  split_ifs
  · exact .refl s
  · split
    · exact .of_snd rfl id
    · exact Session.Responds.acked (ring.remote.trans remote) _ .dataAck nofun

end Responds

namespace Session

theorem handOver_snd (s : Session) (pack : Packet) :
    (s.handOver pack).snd = s.snd.gotPack pack.copySansData := by
  unfold handOver
  dsimp only
  split_ifs <;> rfl

theorem handOver_rcv (s : Session) (pack : Packet) :
    (s.handOver pack).rcv = { s.rcv with place := .handed pack } := by
  unfold handOver
  dsimp only
  split_ifs <;> rfl

/-- What the steps of a session do to its sender. The receiver touches the flow record, the queue of
acks and the counter, and sending an ack may teach the sender the nonce of its peer. -/
inductive SenderMoved (blake2b : Bytes → Bytes) (s : Session) : Action → SenderState → Prop
    where
  | push (data : Bytes) (retryDeadline : Int) (free : s.snd.retrying = [])
      (accepts : s.snd.acceptSend = true) :
      Session.SenderMoved blake2b s (.push data retryDeadline)
        (s.snd.doOrigDataSend blake2b (s.snd.pushed data) retryDeadline).1
  | wakeup (now : Int) (free : s.snd.retrying = []) :
      Session.SenderMoved blake2b s (.wakeup now) (s.snd.wakeup now)
  | resend (pos : Nat) (rest : List Nat) (retryDeadline : Int)
      (waiting : s.snd.retrying = pos :: rest) :
      Session.SenderMoved blake2b s (.resend retryDeadline)
        { (s.snd.resend pos retryDeadline).1 with retrying := rest }
  | gotPack (pack : Packet) (handing : s.rcv.place = .handing pack) (free : s.snd.retrying = []) :
      Session.SenderMoved blake2b s .gotPack (s.snd.gotPack pack.copySansData)
  | beside (act : Action) (flow : Flow) (acks : List Packet) (counter : Int) (nonce : Bytes) :
      Session.SenderMoved blake2b s act
        { s.snd with
          flow := flow
          sendAck := acks
          recvLastFrameClientConsumed := counter
          remoteSessNonce := nonce }

theorem Moved.sender {s s' : Session} {act : Action} {sent : List Packet}
    (moved : s.Moved blake2b act s' sent) : s.SenderMoved blake2b act s'.snd := by
  have kept {n : Int} {peer : Bytes} (responds : Session.Responds n peer s s') :
      s.SenderMoved blake2b act s'.snd := by
    obtain ⟨flow, acks, counter, eq⟩ := responds.kept
    rw [eq]
    exact .beside act flow acks counter s.snd.remoteSessNonce
  cases moved with
  | push data deadline free accepts => exact .push data deadline free accepts
  | wakeup now free => exact .wakeup now free
  | resend pos rest deadline waiting => exact .resend pos rest deadline waiting
  | sendAck ackPack rest fails runs queued =>
    obtain ⟨nonce, learned⟩ := s.snd.learnNonce_fields ackPack
    rw [learned]
    exact .beside _ s.snd.flow rest s.snd.recvLastFrameClientConsumed nonce
  | gotPack pack handing free =>
    rw [s.handOver_snd]
    exact .gotPack pack handing free
  | data pack handed isData =>
    have responds := s.backToSelect.recvData_responds rfl rfl pack
    exact kept ⟨responds.kept, responds.acks, responds.counter, responds.panic⟩
  | info pack handed isInfo =>
    have responds := (s.backToSelect.recvInfo_answers rfl rfl pack).responds
    exact kept ⟨responds.kept, responds.acks, responds.counter, responds.panic⟩
  | consume lastPack last => exact kept (s.deliverToConsumer_responds rfl lastPack)
  | read lenp => exact kept (s.fillAsMuchAsPossible_responds rfl lenp)
  | retryTimer elapsed => exact kept (s.retryCheck_answers rfl rfl elapsed).responds
  | connect destInbox fails => exact kept (@connect_responds 0 [] s destInbox fails)
  | keepAlive | sendClosing | stopSender | stopReceiver =>
    exact kept (@Session.Responds.of_snd 0 [] s _ rfl id)

end Session

end Hnatsd.Swp
