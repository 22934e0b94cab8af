import Hnatsd.Swp.Proofs.Delivery

/-!
# The handshake in the steps of a session

What a step does to the part of a receiver that opens the session, which acks it puts into the
sender's queue, and what the sender sends.
-/

namespace Hnatsd.Swp
open Misc List Session RecvState

/-- The part of a receiver that opens the session. -/
structure Handshake where
  tcpState : TcpState
  localSessNonce : Bytes
  remoteSessNonce : Bytes
  remoteInbox : Bytes
  retry : TcpRetryLogic
  connReqPending : Option Bool
  hand : Option Packet

def RecvState.handshake (r : RecvState) : Handshake where
  tcpState := r.tcpState
  localSessNonce := r.localSessNonce
  remoteSessNonce := r.remoteSessNonce
  remoteInbox := r.remoteInbox
  retry := r.retry
  connReqPending := r.connReqPending
  hand := r.place.pack

section Transitions

/-- The transitions of the connection state machine after `Fresh`. Only a SYN or a SYNACK that is
waited for has an answer that carries a nonce. -/
inductive Turn : TcpState → TcpEvent → TcpState → TcpAction → Prop where
  | stays (state : TcpState) (e : TcpEvent) (act : TcpAction)
      (plain : act = .noAction ∨ act = .sendDataAck ∨ act = .sendFinAck)
      (notSyn : state = .listen → e ≠ .syn) : Turn state e state act
  | closes (state : TcpState) (e : TcpEvent) (post : TcpState) (act : TcpAction)
      (shut : post = .closeInitiatorHasSentFin ∨ post = .closeResponderGotFin ∨ post = .closed)
      (plain : act = .noAction ∨ act = .sendFin ∨ act = .doAppClose) : Turn state e post act
  | passive : Turn .listen .syn .synReceived .sendSynAck
  | simultaneous : Turn .synSent .syn .synReceived .sendEstabAck
  | active : Turn .synSent .synAck .established .sendEstabAck
  | confirmed (e : TcpEvent) (confirms : e = .estabAck ∨ e = .keepAlive) :
      Turn .synReceived e .established .noAction

theorem updateTcp_turn {state : TcpState} (started : state ≠ .fresh) (e : TcpEvent)
    (fromState : TcpState) :
    Turn state e (state.updateTcp e fromState).1 (state.updateTcp e fromState).2 := by
  have quiet (state : TcpState) (e : TcpEvent) (notSyn : state = .listen → e ≠ .syn) :
      Turn state e state .noAction := .stays state e .noAction (Or.inl rfl) notSyn
  cases state with
  | fresh => exact absurd rfl started
  | closed => exact .stays .closed e .sendFinAck (Or.inr (Or.inr rfl)) nofun
  | listen =>
    cases e with
    | syn => exact .passive
    | fin => exact .closes _ _ _ _ (Or.inr (Or.inl rfl)) (Or.inr (Or.inr rfl))
    | _ => exact quiet _ _ nofun
  | synReceived =>
    cases e with
    | estabAck => exact .confirmed _ (Or.inl rfl)
    | keepAlive =>
      simp only [TcpState.updateTcp]
      split_ifs
      · exact .confirmed _ (Or.inr rfl)
      · exact quiet _ _ nofun
    | fin => exact .closes _ _ _ _ (Or.inr (Or.inl rfl)) (Or.inr (Or.inr rfl))
    | _ => exact quiet _ _ nofun
  | synSent =>
    cases e with
    | synAck => exact .active
    | syn => exact .simultaneous
    | fin => exact .closes _ _ _ _ (Or.inr (Or.inl rfl)) (Or.inr (Or.inr rfl))
    | _ => exact quiet _ _ nofun
  | established =>
    cases e with
    | keepAlive => exact .stays _ _ .sendDataAck (Or.inr (Or.inl rfl)) nofun
    | startClose => exact .closes _ _ _ _ (Or.inl rfl) (Or.inr (Or.inl rfl))
    | fin => exact .closes _ _ _ _ (Or.inr (Or.inl rfl)) (Or.inr (Or.inr rfl))
    | _ => exact quiet _ _ nofun
  | closeInitiatorHasSentFin =>
    cases e with
    | finAck => exact .closes _ _ _ _ (Or.inr (Or.inr rfl)) (Or.inl rfl)
    | fin => exact .closes _ _ _ _ (Or.inr (Or.inr rfl)) (Or.inl rfl)
    | _ => exact quiet _ _ nofun
  | closeResponderGotFin =>
    cases e with
    | applicationClosed => exact .closes _ _ _ _ (Or.inr (Or.inr rfl)) (Or.inl rfl)
    | _ => exact quiet _ _ nofun

/-- A new state, with the action that may have to be tried again in it. -/
def Handshake.enters (h : Handshake) (post : TcpState) (act : TcpAction) (pack : Packet) :
    Handshake :=
  { h with
    tcpState := post
    retry :=
      if post = h.tcpState then h.retry
      else if post.isRetryState then
        { h.retry with
          inUse := true
          curState := post
          firstStateAction := act
          causalPacket := some pack }
      else { h.retry with inUse := false, causalPacket := none } }

theorem Handshake.enters_self (h : Handshake) (act : TcpAction) (pack : Packet) :
    h.enters h.tcpState act pack = h := by
  simp [Handshake.enters]

end Transitions

section Answers

variable {s s' : Session} {pack : Packet} {may may' : TcpEvent → Prop}

/-- Of the sender, only the queue of acks matters: what is new in it carries the nonces of the
receiver. -/
structure Session.Replies (may : TcpEvent → Prop) (s s' : Session) : Prop where
  own : s'.snd.localSessNonce = s.snd.localSessNonce
  peer : s'.snd.remoteSessNonce = s.snd.remoteSessNonce
  slots : s'.snd.txq = s.snd.txq
  acks : ∀ a ∈ s'.snd.sendAck, a ∈ s.snd.sendAck ∨
    (a.fromSessNonce = s'.rcv.localSessNonce ∧ a.destSessNonce = s'.rcv.remoteSessNonce ∧
      may a.tcpEvent)

theorem Session.Replies.of_snd (same : s'.snd = s.snd) : Replies may s s' :=
  ⟨by rw [same], by rw [same], by rw [same], fun a mem => Or.inl (same ▸ mem)⟩

theorem Session.ack_replies (s : Session) (r : RecvState) (seqno : Int) (pack : Packet)
    {event : TcpEvent} (allowed : may event) :
    Replies may s (Session.ack { s with rcv := r } seqno pack event) := by
  refine ⟨rfl, rfl, rfl, fun a mem => ?_⟩
  rcases mem_append.mp mem with old | new
  · refine Or.inl ?_
    split_ifs at old
    · exact mem_of_mem_drop old
    · exact old
  · rw [mem_singleton] at new
    subst new
    exact Or.inr ⟨rfl, rfl, allowed⟩

/-- The acks that do not open a session. -/
def TcpEvent.IsPlainAck (e : TcpEvent) : Prop := e = .dataAck ∨ e = .fin ∨ e = .finAck

/-- The outcomes of an action. -/
inductive Session.Acted (s : Session) (pack : Packet) (act : TcpAction) (s' : Session) : Prop where
  | plain (other : act ≠ .sendSynAck ∧ act ≠ .sendEstabAck) (panic : s'.panic = s.panic)
      (same : s'.rcv.handshake = s.rcv.handshake)
      (replies : s.Replies (fun e => e.IsPlainAck ∨ e = .syn ∧ act = .sendSyn) s')
  | synAck (is : act = .sendSynAck)
      (free : s.rcv.remoteSessNonce = [] ∨ s.rcv.remoteSessNonce = pack.fromSessNonce)
      (panic : s'.panic = s.panic)
      (learned : s'.rcv.handshake =
        { s.rcv.handshake with remoteSessNonce := pack.fromSessNonce })
      (replies : s.Replies (· = .synAck) s')
  | estabAck (is : act = .sendEstabAck) (free : s.rcv.remoteSessNonce = [])
      (pending : s.rcv.connReqPending = some false) (panic : s'.panic = s.panic)
      (learned : s'.rcv.handshake =
        { s.rcv.handshake with
          remoteSessNonce := pack.fromSessNonce
          connReqPending := none })
      (replies : s.Replies (· = .estabAck) s')
  | fails (p : Panic) (panic : s'.panic = some p)
      (why : act = .sendSynAck ∧ s.rcv.remoteSessNonce ≠ [] ∧
          s.rcv.remoteSessNonce ≠ pack.fromSessNonce ∨
        act = .sendEstabAck ∧ (s.rcv.remoteSessNonce ≠ [] ∨ s.rcv.connReqPending = none ∨
          s.rcv.connReqPending = some true))
      (snd : s'.snd = s.snd) (own : s'.rcv.localSessNonce = s.rcv.localSessNonce)
      (kept : s.rcv.remoteSessNonce ≠ [] → s'.rcv.remoteSessNonce = s.rcv.remoteSessNonce)

theorem Session.doTcpAction_acted (s : Session) (act : TcpAction) (pack : Packet) :
    s.Acted pack act (s.doTcpAction act pack).1 := by
  have replies {r : RecvState} {event : TcpEvent} {may : TcpEvent → Prop} (allowed : may event) :=
    s.ack_replies r s.rcv.lastFrameClientConsumed pack allowed
  cases act with
  | noAction => exact .plain ⟨nofun, nofun⟩ rfl rfl (.of_snd rfl)
  | sendDataAck => exact .plain ⟨nofun, nofun⟩ rfl rfl (replies (Or.inl (Or.inl rfl)))
  | sendSyn => exact .plain ⟨nofun, nofun⟩ rfl rfl (replies (Or.inr ⟨rfl, rfl⟩))
  | sendFin => exact .plain ⟨nofun, nofun⟩ rfl rfl (replies (Or.inl (Or.inr (Or.inl rfl))))
  | sendFinAck => exact .plain ⟨nofun, nofun⟩ rfl rfl (replies (Or.inl (Or.inr (Or.inr rfl))))
  | doAppClose => exact .plain ⟨nofun, nofun⟩ rfl rfl (replies (Or.inl (Or.inr (Or.inr rfl))))
  | sendSynAck =>
    simp only [doTcpAction]
    split_ifs with differs
    · exact .fails .remoteNonceDiffers rfl (Or.inl ⟨rfl, differs⟩) rfl rfl fun _ => rfl
    · have free : s.rcv.remoteSessNonce = [] ∨ s.rcv.remoteSessNonce = pack.fromSessNonce := by
        by_contra! both
        exact differs both
      exact .synAck rfl free rfl rfl (replies rfl)
  | sendEstabAck =>
    simp only [doTcpAction]
    split_ifs with set
    · exact .fails .remoteNonceSet rfl (Or.inr ⟨rfl, Or.inl set⟩) rfl rfl fun _ => rfl
    · have free : s.rcv.remoteSessNonce = [] := not_not.mp set
      split
      · rename_i pending
        exact .fails .noConnReqPending rfl (Or.inr ⟨rfl, Or.inr (Or.inl pending)⟩) rfl rfl
          fun known => absurd free known
      · rename_i pending
        exact .fails .closeOfClosed rfl (Or.inr ⟨rfl, Or.inr (Or.inr pending)⟩) rfl rfl
          fun known => absurd free known
      · rename_i pending
        exact .estabAck rfl free pending rfl rfl (replies rfl)

/-- An action that neither learns a nonce nor answers a request. -/
theorem Session.Acted.of_plain {act : TcpAction} (acted : s.Acted pack act s')
    (plain : act ≠ .sendSynAck ∧ act ≠ .sendEstabAck) :
    s'.panic = s.panic ∧ s'.rcv.handshake = s.rcv.handshake ∧
      s.Replies (fun e => e.IsPlainAck ∨ e = .syn ∧ act = .sendSyn) s' := by
  cases acted with
  | plain other panic same replies => exact ⟨panic, same, replies⟩
  | synAck is => exact absurd is plain.1
  | estabAck is => exact absurd is plain.2
  | fails p panic why =>
    rcases why with ⟨is, -⟩ | ⟨is, -⟩
    · exact absurd is plain.1
    · exact absurd is plain.2

/-- An event: the state changes, then the action is taken. -/
inductive Session.Turned (s : Session) (pack : Packet) (e : TcpEvent) (s' : Session) : Prop where
  | turned (post : TcpState) (act : TcpAction) (mid : Session)
      (turn : Turn s.rcv.tcpState e post act) (snd : mid.snd = s.snd)
      (panic : mid.panic = s.panic)
      (enters : mid.rcv.handshake = s.rcv.handshake.enters post act pack)
      (acted : mid.Acted pack act s')

theorem RecvState.setupRetry_handshake (r : RecvState) (post : TcpState) (act : TcpAction)
    (pack : Packet) :
    (if r.tcpState ≠ post then
        setupRetry { r with tcpState := post } r.tcpState post pack act
      else { r with tcpState := post }).handshake = r.handshake.enters post act pack := by
  by_cases same : r.tcpState = post
  · subst same
    simp [Handshake.enters, handshake]
  · have same' : post ≠ r.tcpState := Ne.symm same
    by_cases retries : post.isRetryState = true
    · simp [same, same', setupRetry, Handshake.enters, handshake, retries]
    · simp [same, same', setupRetry, Handshake.enters, handshake, retries]

theorem Session.tcpEvent_turned {s : Session} (started : s.rcv.tcpState ≠ .fresh) (e : TcpEvent)
    (pack : Packet) : s.Turned pack e (s.tcpEvent e pack).1 := by
  refine .turned _ _ _ (updateTcp_turn started e pack.fromTcpState) ?_ ?_ ?_
    (doTcpAction_acted _ _ pack)
  · rfl
  · rfl
  · exact s.rcv.setupRetry_handshake _ _ pack

theorem Session.doTcpAction_next (s : Session) (act : TcpAction) (pack : Packet) :
    (s.doTcpAction act pack).2 = .nil ∨ (s.doTcpAction act pack).2 = .applicationClosed := by
  cases act with
  | sendSynAck =>
    simp only [doTcpAction]
    split_ifs <;> exact Or.inl rfl
  | sendEstabAck =>
    simp only [doTcpAction]
    split_ifs
    · exact Or.inl rfl
    · split <;> exact Or.inl rfl
  | doAppClose => exact Or.inr rfl
  | _ => exact Or.inl rfl

/-- What holds after the event of a packet and is kept when the application has closed. -/
theorem Session.recvInfo_keeps {Keeps : Session → Prop}
    (first : Keeps (s.tcpEvent pack.tcpEvent pack).1)
    (later : ∀ s, s.panic = none → Keeps s → Keeps (s.tcpEvent .applicationClosed pack).1)
    (stops : ∀ s, Keeps s → Keeps { s with rcvRuns := false }) : Keeps (s.recvInfo pack) := by
  have jumps (fuel : Nat) (e : TcpEvent) (s : Session) (once : Keeps (s.tcpEvent e pack).1) :
      Keeps (doNextEvent pack (fuel + 1) s e) := by
    induction fuel generalizing s e with
    | zero =>
      simp only [doNextEvent]
      split_ifs <;> exact once
    | succ fuel ih =>
      rw [doNextEvent]
      dsimp only
      split_ifs with ends
      · exact once
      · obtain ⟨alive, goesOn⟩ := not_or.mp ends
        have closed : (s.tcpEvent e pack).2 = .applicationClosed :=
          (doTcpAction_next _ _ pack).resolve_left goesOn
        refine ih _ _ ?_
        rw [closed]
        exact later _ (not_not.mp alive) once
  have after := jumps 1 pack.tcpEvent s first
  simp only [recvInfo]
  split_ifs
  · exact stops _ after
  · exact after

/-- A firing of the retry timer. -/
inductive Session.Retried (s : Session) (elapsed : Bool) (s' : Session) : Prop where
  | rests (retry : TcpRetryLogic) (off : retry = s.rcv.retry ∨ retry.inUse = false)
      (snd : s'.snd = s.snd) (panic : s'.panic = s.panic)
      (rests : s'.rcv.handshake = { s.rcv.handshake with retry := retry })
  | again (mid : Session) (inUse : s.rcv.retry.inUse = true)
      (inState : s.rcv.retry.curState = s.rcv.tcpState) (isElapsed : elapsed = true)
      (snd : mid.snd = s.snd) (panic : mid.panic = s.panic)
      (counts : mid.rcv.handshake = { s.rcv.handshake with
        retry := { s.rcv.retry with attemptCount := s.rcv.retry.attemptCount + 1 } })
      (acted : mid.Acted (s.rcv.retry.causalPacket.getD {}) s.rcv.retry.firstStateAction s')

theorem Session.Acted.setTimer {act : TcpAction} (acted : s.Acted pack act s') :
    s.Acted pack act { s' with rcv := { s'.rcv with retryTimerSet := true } } := by
  cases acted with
  | plain other panic same replies =>
    exact .plain other panic same ⟨replies.own, replies.peer, replies.slots, replies.acks⟩
  | synAck is free panic learned replies =>
    exact .synAck is free panic learned ⟨replies.own, replies.peer, replies.slots, replies.acks⟩
  | estabAck is free pending panic learned replies =>
    exact .estabAck is free pending panic learned
      ⟨replies.own, replies.peer, replies.slots, replies.acks⟩
  | fails p panic why snd own kept => exact .fails p panic why snd own kept

theorem Session.retryCheck_retried (s : Session) (elapsed : Bool) :
    s.Retried elapsed (s.retryCheck elapsed) := by
  simp only [retryCheck]
  split_ifs with unused other early many
  · exact .rests _ (Or.inl rfl) rfl rfl rfl
  · exact .rests _ (Or.inr rfl) rfl rfl rfl
  · exact .rests _ (Or.inl rfl) rfl rfl rfl
  · exact .rests _ (Or.inr rfl) rfl rfl rfl
  · refine .again _ (by simpa using unused) (not_not.mp other) (by simpa using early) ?_ ?_ ?_
      (doTcpAction_acted _ _ _).setTimer
    · rfl
    · rfl
    · rfl

end Answers

section Opening

variable {s s' : Session} {pack : Packet}

/-- A SYN of a connect request. -/
structure Packet.IsSyn (nonce : Bytes) (m : Packet) : Prop where
  own : m.fromSessNonce = nonce
  peer : m.destSessNonce = []
  event : m.tcpEvent = .syn
  empty : m.data = []

/-- A connect request. A session that knows its peer connects to nobody else. -/
inductive Session.Connected (s : Session) (fails : Bool) (s' : Session) (sent : List Packet) :
    Prop where
  | refused (inbox : Bytes) (known : inbox = [] → s.rcv.remoteInbox = []) (snd : s'.snd = s.snd)
      (panic : s'.panic = s.panic)
      (same : s'.rcv.handshake = { s.rcv.handshake with remoteInbox := inbox })
      (silent : sent = [])
  | opens (inbox : Bytes) (known : inbox = [] → s.rcv.remoteInbox = [])
      (ready : s.rcv.tcpState = .listen ∨ s.rcv.tcpState = .synSent) (snd : s'.snd = s.snd)
      (panic : s'.panic = s.panic)
      (waits : s'.rcv.handshake = { s.rcv.handshake with
        remoteInbox := inbox
        connReqPending := some fails
        tcpState := .synSent })
      (syn : ∀ m ∈ sent, m.IsSyn s.rcv.localSessNonce)

theorem Session.connect_connected (s : Session) (destInbox : Bytes) (fails : Bool) :
    s.Connected fails (s.connect destInbox fails).1 (s.connect destInbox fails).2 := by
  unfold Session.connect
  dsimp only
  by_cases other : s.rcv.remoteInbox ≠ [] ∧ s.rcv.remoteInbox ≠ destInbox
  · rw [if_pos other]
    exact .refused _ id rfl rfl rfl rfl
  rw [if_neg other]
  -- the receiver that knows whom to connect to
  have located : ∃ inbox, (inbox = [] → s.rcv.remoteInbox = []) ∧
      (if s.rcv.remoteInbox = [] then { s.rcv with remoteInbox := destInbox } else s.rcv) =
        { s.rcv with remoteInbox := inbox } := by
    split_ifs with unknown
    · exact ⟨destInbox, fun _ => unknown, rfl⟩
    · exact ⟨_, id, rfl⟩
  obtain ⟨inbox, known, eq⟩ := located
  rw [eq]
  by_cases notReady : s.rcv.tcpState ≠ .listen ∧ s.rcv.tcpState ≠ .synSent
  · rw [if_pos notReady]
    exact .refused inbox known rfl rfl rfl rfl
  · rw [if_neg notReady]
    have ready : s.rcv.tcpState = .listen ∨ s.rcv.tcpState = .synSent := by
      by_contra! both
      exact notReady both
    refine .opens inbox known ready rfl rfl rfl fun m mem => ?_
    dsimp only at mem
    split_ifs at mem
    · cases mem
    · rw [mem_singleton] at mem
      subst mem
      exact ⟨rfl, rfl, rfl, rfl⟩

/-- An arrival. -/
inductive Session.Arrived (blake2b : Bytes → Bytes) (s : Session) (pack : Packet) (s' : Session) :
    Prop where
  | dropped (drops : (s.rcv.lockOnto pack).drops blake2b pack = true)
      (panic : s'.panic = s.panic) (same : s'.rcv.handshake = (s.rcv.lockOnto pack).handshake)
  | broken (p : Panic) (count : p = .cumulBytesDecreased ∨ p = .cumulBytesOutOfOrder)
      (panic : s'.panic = some p) (same : s'.rcv.handshake = (s.rcv.lockOnto pack).handshake)
  | taken (accepts : (s.rcv.lockOnto pack).drops blake2b pack = false)
      (panic : s'.panic = s.panic)
      (takes : s'.rcv.handshake = { (s.rcv.lockOnto pack).handshake with hand := some pack })

theorem Session.arrive_arrived {blake2b : Bytes → Bytes}
    (arrived : s.arrive blake2b pack = some s') :
    s.panic = none ∧ s.rcv.handshake.hand = none ∧
      Replies (fun _ => False) s s' ∧ s.Arrived blake2b pack s' := by
  unfold arrive at arrived
  split_ifs at arrived with runs
  split at arrived
  · rename_i select
    have free : s.rcv.handshake.hand = none := by
      simp only [handshake, select, RecvAt.pack]
    refine ⟨runs.1, free, ?_⟩
    have flow {t : Session} (same : s.snd = t.snd) :
        Replies (fun _ => False) s t.updateControl :=
      ⟨by rw [same]; rfl, by rw [same]; rfl, by rw [same]; rfl,
        fun a mem => Or.inl (by rw [same]; exact mem)⟩
    dsimp only at arrived
    split_ifs at arrived with drops <;> cases arrived
    · exact ⟨.of_snd rfl, .dropped drops rfl rfl⟩
    · exact ⟨.of_snd rfl, .broken _ (Or.inl rfl) rfl rfl⟩
    · exact ⟨.of_snd rfl, .broken _ (Or.inr rfl) rfl rfl⟩
    · exact ⟨flow rfl, .taken (by simpa using drops) rfl rfl⟩
    · exact ⟨.of_snd rfl, .broken _ (Or.inr rfl) rfl rfl⟩
    · exact ⟨flow rfl, .taken (by simpa using drops) rfl rfl⟩
  · cases arrived

end Opening

section Delivering

/-- The frame lemmas of the functions that deliver data. -/
theorem RecvState.hold_handshake (r : RecvState) (pack : Packet) :
    (r.hold pack).handshake = r.handshake := by
  unfold hold
  split_ifs <;> rfl

theorem RecvState.deliverReceived_handshake (r : RecvState) (fuel : Nat) :
    (r.deliverReceived fuel).handshake = r.handshake := by
  induction fuel generalizing r with
  | zero => rfl
  | succ fuel ih =>
    simp only [deliverReceived]
    split
    · rfl
    · exact ih _

theorem RecvState.readPacket_handshake (r : RecvState) (pk : Packet) (m : Nat) :
    (r.readPacket pk m).handshake = r.handshake := by
  unfold readPacket
  dsimp only
  split_ifs <;> rfl

theorem RecvState.fill_handshake (ready : List Packet) (room : Nat) (lastPack : Option Packet)
    (r : RecvState) : (fill ready room lastPack r).1.handshake = r.handshake := by
  induction ready generalizing room lastPack r with
  | nil => rfl
  | cons pk ready ih =>
    have first := r.readPacket_handshake pk (min room pk.unread)
    simp only [fill]
    by_cases full : room - min room pk.unread = 0
    · rw [if_pos full]
      exact first
    · rw [if_neg full]
      exact (ih ..).trans first

/-- Nothing happens to the handshake but that data is acked, or that the session ends for another
reason. -/
structure Session.Delivers (s s' : Session) : Prop where
  same : s'.rcv.handshake = s.rcv.handshake
  panic : s'.panic = s.panic ∨ s'.panic = some .slotOutOfRange ∨ s'.panic = some .lenBySeqByDeadline
  replies : s.Replies (· = .dataAck) s'

theorem Session.recvData_delivers (s : Session) (pack : Packet) :
    s.Delivers (s.recvData pack) := by
  have held := s.rcv.hold_handshake pack
  simp only [recvData]
  split_ifs
  · exact ⟨held, Or.inr (Or.inl rfl), .of_snd rfl⟩
  · exact ⟨held, Or.inl rfl, s.ack_replies _ _ pack rfl⟩
  · refine ⟨(deliverReceived_handshake _ _).trans held, Or.inl rfl, ?_⟩
    exact ⟨rfl, rfl, rfl, fun _ mem => Or.inl mem⟩
  · exact ⟨held, Or.inl rfl, .of_snd rfl⟩

theorem Session.fillAsMuchAsPossible_delivers (s : Session) (lenp : Nat) :
    s.Delivers (s.fillAsMuchAsPossible lenp) := by
  have filled := fill_handshake s.rcv.readyForDelivery lenp none s.rcv
  simp only [fillAsMuchAsPossible]
  split_ifs
  · exact ⟨rfl, Or.inl rfl, .of_snd rfl⟩
  · split
    · exact ⟨filled, Or.inl rfl, .of_snd rfl⟩
    · exact ⟨filled, Or.inl rfl, s.ack_replies _ _ _ rfl⟩

theorem Session.handOver_delivers (s : Session) {pack : Packet}
    (handing : s.rcv.place = .handing pack) : s.Delivers (s.handOver pack) := by
  refine ⟨?_, ?_, ?_⟩
  · rw [s.handOver_rcv]
    simp only [handshake, handing, RecvAt.pack]
  · unfold handOver
    dsimp only
    split_ifs
    · exact Or.inr (Or.inr rfl)
    · exact Or.inl rfl
  · refine ⟨?_, ?_, ?_, fun a mem => Or.inl ?_⟩
    · rw [s.handOver_snd]; rfl
    · rw [s.handOver_snd]; rfl
    · rw [s.handOver_snd]; rfl
    · rw [s.handOver_snd] at mem
      exact mem

end Delivering

section Sending

/-- The slots of the ring hold data, or nothing yet. -/
def OnlyData (txq : List TxqSlot) : Prop :=
  ∀ slot ∈ txq, slot.pack.tcpEvent = .nil ∨ slot.pack.tcpEvent = .data

theorem OnlyData.set {txq : List TxqSlot} (only : OnlyData txq) (pos : Nat) {slot : TxqSlot}
    (event : slot.pack.tcpEvent = .nil ∨ slot.pack.tcpEvent = .data) :
    OnlyData (txq.set pos slot) := by
  intro slot' mem
  rcases mem_or_eq_of_mem_set mem with old | rfl
  · exact only slot' old
  · exact event

theorem OnlyData.slotAt {snd : SenderState} (only : OnlyData snd.txq) (pos : Nat) :
    (snd.slotAt pos).pack.tcpEvent = .nil ∨ (snd.slotAt pos).pack.tcpEvent = .data := by
  unfold SenderState.slotAt
  rw [getD_eq_getElem?_getD]
  cases found : snd.txq[pos]? with
  | none => exact Or.inl rfl
  | some slot => exact only slot (mem_of_getElem? found)

/-- A packet that the sender makes up by itself. -/
structure SenderState.Makes (snd : SenderState) (m : Packet) : Prop where
  own : m.fromSessNonce = snd.localSessNonce
  peer : m.destSessNonce = snd.remoteSessNonce
  event : m.tcpEvent = .nil ∨ m.tcpEvent = .data ∨ m.tcpEvent = .fin ∨
    m.tcpEvent = .keepAlive ∧ m.destSessNonce ≠ []

theorem SenderState.doKeepAlive_makes (snd : SenderState) {state : TcpState} {due : Bool}
    {m : Packet} (mem : m ∈ snd.doKeepAlive state due) : snd.Makes m := by
  unfold SenderState.doKeepAlive at mem
  split_ifs at mem with unknown
  · cases mem
  · cases mem
  · rw [mem_singleton] at mem
    subst mem
    exact ⟨rfl, rfl, Or.inr (Or.inr (Or.inr ⟨rfl, (not_or.mp unknown).2⟩))⟩

/-- The steps of a session. -/
inductive Session.Shaken (s : Session) : Action → Session → List Packet → Prop where
  | makes {a : Action} {s' : Session} {sent : List Packet} (rcv : s'.rcv = s.rcv)
      (panic : s'.panic = s.panic) (own : s'.snd.localSessNonce = s.snd.localSessNonce)
      (peer : s'.snd.remoteSessNonce = s.snd.remoteSessNonce)
      (acks : s'.snd.sendAck = s.snd.sendAck)
      (slots : OnlyData s.snd.txq → OnlyData s'.snd.txq)
      (sends : OnlyData s.snd.txq → ∀ m ∈ sent, s.snd.Makes m) : Session.Shaken s a s' sent
  | forwards {a : Action} {s' : Session} {sent : List Packet} (ackPack : Packet)
      (rest : List Packet) (queued : s.snd.sendAck = ackPack :: rest) (rcv : s'.rcv = s.rcv)
      (panic : s'.panic = s.panic)
      (snd : s'.snd = { s.snd.learnNonce ackPack with sendAck := rest })
      (sends : ∀ m ∈ sent, m = ackPack) : Session.Shaken s a s' sent
  | delivers {a : Action} {s' : Session} (delivers : s.Delivers s') : Session.Shaken s a s' []
  | data {s' : Session} (pack : Packet) (hand : s.rcv.handshake.hand = some pack)
      (isData : pack.tcpEvent = .data) (delivers : s.backToSelect.Delivers s') :
      Session.Shaken s .process s' []
  | info (pack : Packet) (handed : s.rcv.place = .handed pack) :
      Session.Shaken s .process (s.backToSelect.recvInfo pack) []
  | retries {s' : Session} (elapsed : Bool) (idle : s.rcv.handshake.hand = none)
      (retried : s.Retried elapsed s') :
      Session.Shaken s (.retryTimer elapsed) s' []
  | connects {s' : Session} {sent : List Packet} (destInbox : Bytes) (fails : Bool)
      (idle : s.rcv.handshake.hand = none) (connected : s.Connected fails s' sent) :
      Session.Shaken s (.connect destInbox fails) s' sent

theorem Session.Moved.shaken {blake2b : Bytes → Bytes} {s s' : Session} {a : Action}
    {sent : List Packet} (moved : s.Moved blake2b a s' sent) : s.Shaken a s' sent := by
  have idle (selects : s.rcv.place = .select) : s.rcv.handshake.hand = none := by
    simp only [handshake, selects, RecvAt.pack]
  cases moved with
  | push data deadline free =>
    have isData : (s.snd.origPack blake2b (s.snd.pushed data)).tcpEvent = .data := rfl
    refine .makes rfl rfl rfl rfl rfl (fun only => ?_) fun _ m mem => ?_
    · exact only.set _ (Or.inr isData)
    · rw [mem_singleton] at mem
      subst mem
      exact ⟨rfl, rfl, Or.inr (Or.inl isData)⟩
  | wakeup now free => exact .makes rfl rfl rfl rfl rfl id fun _ _ mem => nomatch mem
  | resend pos rest deadline waiting =>
    refine .makes rfl rfl rfl rfl rfl (fun only => ?_) fun only m mem => ?_
    · exact only.set pos (only.slotAt pos)
    · rw [mem_singleton] at mem
      subst mem
      refine ⟨rfl, rfl, ?_⟩
      rcases only.slotAt pos with isNil | isData
      · exact Or.inl isNil
      · exact Or.inr (Or.inl isData)
  | sendAck ackPack rest fails runs queued =>
    refine .forwards ackPack rest queued rfl rfl rfl fun m mem => ?_
    split_ifs at mem
    · cases mem
    · exact mem_singleton.mp mem
  | gotPack pack handing free => exact .delivers (s.handOver_delivers handing)
  | data pack handed isData =>
    refine .data pack ?_ isData (s.backToSelect.recvData_delivers pack)
    simp only [handshake, handed, RecvAt.pack]
  | info pack handed isInfo => exact .info pack handed
  | consume lastPack last =>
    exact .delivers ⟨rfl, Or.inl rfl, s.ack_replies _ _ lastPack rfl⟩
  | read lenp => exact .delivers (s.fillAsMuchAsPossible_delivers lenp)
  | retryTimer elapsed selects =>
    exact .retries elapsed (idle selects) (s.retryCheck_retried elapsed)
  | connect destInbox fails selects =>
    exact .connects destInbox fails (idle selects) (s.connect_connected destInbox fails)
  | keepAlive due =>
    exact .makes rfl rfl rfl rfl rfl id fun _ _ mem => s.snd.doKeepAlive_makes mem
  | sendClosing =>
    refine .makes rfl rfl rfl rfl rfl id fun _ m mem => ?_
    rw [mem_singleton] at mem
    subst mem
    exact ⟨rfl, rfl, Or.inr (Or.inr (Or.inl rfl))⟩
  | stopSender => exact .makes rfl rfl rfl rfl rfl id fun _ _ mem => nomatch mem
  | stopReceiver => exact .makes rfl rfl rfl rfl rfl id fun _ _ mem => nomatch mem

end Sending

end Hnatsd.Swp
