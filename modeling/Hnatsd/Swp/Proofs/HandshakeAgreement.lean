import Hnatsd.Swp.Proofs.HandshakeSteps

/-!
# Agreement of the two ends

A session records the nonce of its peer once. Whatever it sends carries its own nonce and, if any,
the one it has recorded; and what takes a receiver to `Established` carries both. So the peer of an
established receiver is a session that has recorded it, whatever packets of other sessions on the
same inboxes are still around.
-/

namespace Hnatsd.Swp
open Misc

variable {h : Handshake} {sent : List Packet}

/-- The events that can take a receiver to `Established`. -/
def TcpEvent.confirms : TcpEvent → Bool
  | .synAck | .estabAck | .keepAlive => true
  | _ => false

/-- A packet of the session: it carries the nonces the session has recorded. -/
structure Session.Vouches (s : Session) (m : Packet) : Prop where
  own : m.fromSessNonce = s.rcv.localSessNonce
  named : m.fromSessNonce ≠ []
  recorded : m.destSessNonce ≠ [] →
    s.rcv.remoteSessNonce = m.destSessNonce ∧ s.snd.remoteSessNonce = m.destSessNonce
  confirms : m.tcpEvent.confirms = true → m.destSessNonce ≠ []

/-- A nonce that has been recorded stays. -/
structure Session.Remembers (s s' : Session) : Prop where
  own : s'.rcv.localSessNonce = s.rcv.localSessNonce
  rcv : s.rcv.remoteSessNonce ≠ [] → s'.rcv.remoteSessNonce = s.rcv.remoteSessNonce
  snd : s.snd.remoteSessNonce ≠ [] → s'.snd.remoteSessNonce = s.snd.remoteSessNonce

/-- What an established receiver rests on: a packet from its peer to itself. -/
structure Handshake.Agrees (wire : List Packet) (h : Handshake) : Prop where
  named : h.localSessNonce ≠ []
  started : h.tcpState ≠ .fresh
  unlocked : h.tcpState = .listen → h.remoteInbox = [] → h.remoteSessNonce = []
  causal : h.retry.inUse = true → h.retry.curState.isRetryState = true ∧
    (h.retry.causalPacket.getD {}).fromSessNonce ≠ []
  peer : h.tcpState = .synReceived ∨ h.tcpState = .established → h.remoteSessNonce ≠ []
  agreed : h.tcpState = .established →
    ∃ m ∈ wire, m.fromSessNonce = h.remoteSessNonce ∧ m.destSessNonce = h.localSessNonce

/-- A packet that has passed the filters. -/
structure Handshake.Holds (wire : List Packet) (h : Handshake) (m : Packet) : Prop where
  onWire : m ∈ wire
  named : m.fromSessNonce ≠ []
  confirms : m.tcpEvent.confirms = true → m.destSessNonce = h.localSessNonce
  peer : h.remoteSessNonce = [] ∨ h.remoteSessNonce = m.fromSessNonce

/-- The packet in the receiver's hands, if any, has passed the filters. -/
def Handshake.HoldsAll (wire : List Packet) (h : Handshake) : Prop :=
  ∀ m, h.hand = some m → h.Holds wire m

theorem Handshake.HoldsAll.idle {wire : List Packet} (idle : h.hand = none) :
    h.HoldsAll wire := by
  intro m hand
  rw [idle] at hand
  cases hand

/-- The sender learns from its receiver only. -/
structure Session.Speaks (s : Session) : Prop where
  own : s.snd.localSessNonce = s.rcv.localSessNonce
  learned : s.snd.remoteSessNonce ≠ [] → s.snd.remoteSessNonce = s.rcv.remoteSessNonce
  acks : ∀ a ∈ s.snd.sendAck, a.fromSessNonce = s.rcv.localSessNonce ∧
    (a.destSessNonce ≠ [] → a.destSessNonce = s.rcv.remoteSessNonce) ∧
    (a.tcpEvent.confirms = true → a.destSessNonce ≠ [])
  slots : OnlyData s.snd.txq

structure Session.Agrees (wire : List Packet) (s : Session) : Prop where
  handshake : s.rcv.handshake.Agrees wire
  hand : s.rcv.handshake.HoldsAll wire
  speaks : s.Speaks

section Nonces

variable {wire : List Packet} {s s' s'' : Session} {pack m : Packet} {may : TcpEvent → Prop}

theorem Session.Vouches.remembered (vouches : s.Vouches m) (remembers : s.Remembers s') :
    s'.Vouches m where
  own := vouches.own.trans remembers.own.symm
  named := vouches.named
  recorded known := by
    obtain ⟨rcv, snd⟩ := vouches.recorded known
    exact ⟨(remembers.rcv (rcv ▸ known)).trans rcv, (remembers.snd (snd ▸ known)).trans snd⟩
  confirms := vouches.confirms

theorem Session.Remembers.trans (first : s.Remembers s') (later : s'.Remembers s'') :
    s.Remembers s'' where
  own := later.own.trans first.own
  rcv known := by
    have same := first.rcv known
    exact (later.rcv (same ▸ known)).trans same
  snd known := by
    have same := first.snd known
    exact (later.snd (same ▸ known)).trans same

theorem Session.Replies.remembers (replies : s.Replies may s')
    (own : s'.rcv.localSessNonce = s.rcv.localSessNonce)
    (rcv : s.rcv.remoteSessNonce ≠ [] → s'.rcv.remoteSessNonce = s.rcv.remoteSessNonce) :
    s.Remembers s' :=
  ⟨own, rcv, fun _ => replies.peer⟩

/-- New acks carry the nonces of the receiver. -/
theorem Session.Speaks.replies (speaks : s.Speaks) (replies : s.Replies may s')
    (remembers : s.Remembers s')
    (known : ∀ e, may e → e.confirms = true → s'.rcv.remoteSessNonce ≠ []) : s'.Speaks where
  own := by rw [replies.own, speaks.own, remembers.own]
  learned isKnown := by
    rw [replies.peer] at isKnown ⊢
    have same := speaks.learned isKnown
    exact same.trans (remembers.rcv (same ▸ isKnown)).symm
  acks a mem := by
    rcases replies.acks a mem with old | ⟨own, peer, allowed⟩
    · obtain ⟨own, peer, confirms⟩ := speaks.acks a old
      refine ⟨own.trans remembers.own.symm, fun isKnown => ?_, confirms⟩
      have same := peer isKnown
      exact same.trans (remembers.rcv (same ▸ isKnown)).symm
    · refine ⟨own, fun _ => peer, fun confirms => ?_⟩
      rw [peer]
      exact known _ allowed confirms
  slots := replies.slots ▸ speaks.slots

theorem TcpEvent.IsPlainAck.confirms {e : TcpEvent} (plain : e.IsPlainAck) : e.confirms = false := by
  rcases plain with rfl | rfl | rfl <;> rfl

/-- A state is entered with a nonce. -/
theorem Handshake.Agrees.enters (agrees : h.Agrees wire) {post : TcpState}
    (act : TcpAction) (named : pack.fromSessNonce ≠ []) (nonce : Bytes) (pending : Option Bool)
    (opened : post ≠ .fresh ∧ post ≠ .listen)
    (peer : post = .synReceived ∨ post = .established → nonce ≠ [])
    (agreed : post = .established →
      ∃ m ∈ wire, m.fromSessNonce = nonce ∧ m.destSessNonce = h.localSessNonce) :
    Handshake.Agrees wire { h.enters post act pack with
      remoteSessNonce := nonce
      connReqPending := pending } := by
  refine ⟨agrees.named, opened.1, fun listens => absurd listens opened.2, fun inUse => ?_, peer,
    agreed⟩
  by_cases same : post = h.tcpState
  · simp only [Handshake.enters, same, if_true] at inUse ⊢
    exact agrees.causal inUse
  · by_cases retries : post.isRetryState = true
    · simp only [Handshake.enters, same, retries, if_true, if_false]
      exact ⟨trivial, named⟩
    · simp only [Handshake.enters, same, retries, if_false, Bool.false_eq_true] at inUse

end Nonces

section Steps

variable {blake2b : Bytes → Bytes} {wire : List Packet} {s s' : Session} {pack : Packet}

namespace Session

/-- What a step leaves: agreement, unless the session has panicked, and the nonces recorded. -/
structure Passes (wire : List Packet) (s s' : Session) : Prop where
  agrees : s'.panic = none → s'.Agrees wire
  remembers : s.Remembers s'

/-- A step of the receiver, told by its handshake and its acks. -/
theorem Passes.of_replies {may : TcpEvent → Prop} (speaks : s.Speaks)
    (same : s'.rcv.handshake = h) (agrees : h.Agrees wire)
    (hand : h.HoldsAll wire) (replies : s.Replies may s')
    (own : h.localSessNonce = s.rcv.localSessNonce)
    (kept : s.rcv.remoteSessNonce ≠ [] → h.remoteSessNonce = s.rcv.remoteSessNonce)
    (known : ∀ e, may e → e.confirms = true → h.remoteSessNonce ≠ []) :
    Session.Passes wire s s' := by
  subst same
  have remembers : s.Remembers s' := replies.remembers own kept
  exact ⟨fun _ => ⟨agrees, hand, speaks.replies replies remembers known⟩, remembers⟩

/-- A step in the processing of a packet. -/
structure Processes (wire : List Packet) (pack : Packet) (s s' : Session) : Prop where
  passes : Session.Passes wire s s'
  holds : s'.panic = none → s'.rcv.handshake.hand = none ∧ s'.rcv.handshake.Holds wire pack

/-- An event of a packet that has passed the filters, or its consequence. -/
theorem Turned.processes {e : TcpEvent} (turned : s.Turned pack e s')
    (agrees : s.Agrees wire) (idle : s.rcv.handshake.hand = none)
    (holds : s.rcv.handshake.Holds wire pack)
    (event : e.confirms = true → pack.tcpEvent.confirms = true) :
    Session.Processes wire pack s s' := by
  obtain ⟨post, act, mid, turn, snd, panic, enters, acted⟩ := turned
  have was := agrees.handshake
  have own : mid.rcv.localSessNonce = s.rcv.localSessNonce :=
    congrArg Handshake.localSessNonce enters
  have nonce : mid.rcv.remoteSessNonce = s.rcv.remoteSessNonce :=
    congrArg Handshake.remoteSessNonce enters
  have speaks : mid.Speaks := by
    have same : s.Replies (fun _ => False) mid := .of_snd snd
    exact agrees.speaks.replies same (same.remembers own fun _ => nonce) nofun
  have back : s.Remembers mid := ⟨own, fun _ => nonce, fun _ => by rw [snd]⟩
  -- the answer with which the state is entered
  have goesOn {h : Handshake} {may : TcpEvent → Prop} (same : s'.rcv.handshake = h)
      (agrees' : h.Agrees wire) (handed : h.hand = none) (replies : mid.Replies may s')
      (own' : h.localSessNonce = s.rcv.localSessNonce)
      (kept : s.rcv.remoteSessNonce ≠ [] → h.remoteSessNonce = s.rcv.remoteSessNonce)
      (heard : h.remoteSessNonce = [] ∨ h.remoteSessNonce = pack.fromSessNonce)
      (known : ∀ e, may e → e.confirms = true → h.remoteSessNonce ≠ []) :
      Session.Processes wire pack s s' := by
    have passes : Session.Passes wire mid s' := by
      refine .of_replies speaks same agrees' (.idle handed) replies (own'.trans own.symm) ?_ known
      rw [nonce]
      exact kept
    refine ⟨⟨passes.agrees, back.trans passes.remembers⟩, fun _ => ⟨same ▸ handed, ?_⟩⟩
    rw [same]
    exact ⟨holds.onWire, holds.named, fun confirms => (holds.confirms confirms).trans own'.symm,
      heard⟩
  have plainly (plain : act ≠ .sendSynAck ∧ act ≠ .sendEstabAck)
      (agrees' : (s.rcv.handshake.enters post act pack).Agrees wire) :
      Session.Processes wire pack s s' := by
    obtain ⟨-, same, replies⟩ := acted.of_plain plain
    refine goesOn (same.trans enters) agrees' idle replies rfl (fun _ => rfl) holds.peer ?_
    rintro e (plainAck | ⟨rfl, -⟩) confirms
    · cases plainAck.confirms.symm.trans confirms
    · cases confirms
  -- the nonce of the packet is recorded
  have learns (opened : post ≠ .fresh ∧ post ≠ .listen) (agreed : post = .established →
        ∃ m ∈ wire, m.fromSessNonce = pack.fromSessNonce ∧
          m.destSessNonce = s.rcv.localSessNonce)
      (isAnswer : act = .sendSynAck ∨ act = .sendEstabAck) :
      Session.Processes wire pack s s' := by
    have agrees' (pending : Option Bool) :=
      was.enters act holds.named pack.fromSessNonce pending opened (fun _ => holds.named) agreed
    cases acted with
    | plain other =>
      rcases isAnswer with is | is
      · exact absurd is other.1
      · exact absurd is other.2
    | synAck is free still learned replies =>
      rw [enters] at learned
      rw [nonce] at free
      exact goesOn learned (agrees' _) idle replies rfl
        (fun isKnown => (free.resolve_left isKnown).symm) (Or.inr rfl) fun _ _ _ => holds.named
    | estabAck is free pending still learned replies =>
      rw [enters] at learned
      rw [nonce] at free
      exact goesOn learned (agrees' _) idle replies rfl
        (fun isKnown => absurd free isKnown) (Or.inr rfl) fun _ _ _ => holds.named
    | fails p failed why sndSame ownSame kept =>
      have dead : s'.panic ≠ none := by
        rw [failed]
        nofun
      refine ⟨⟨fun alive => absurd alive dead, ?_⟩, fun alive => absurd alive dead⟩
      exact back.trans ⟨ownSame, kept, fun _ => by rw [sndSame]⟩
  generalize state : s.rcv.tcpState = pre at turn
  cases turn with
  | stays _ _ act plain notSyn =>
    subst state
    refine plainly ?_ ?_
    · rcases plain with rfl | rfl | rfl <;> exact ⟨nofun, nofun⟩
    · exact (s.rcv.handshake.enters_self act pack).symm ▸ was
  | closes _ _ post act shut plain =>
    refine plainly ?_ ?_
    · rcases plain with rfl | rfl | rfl <;> exact ⟨nofun, nofun⟩
    · refine was.enters act holds.named s.rcv.remoteSessNonce s.rcv.connReqPending ?_ ?_ ?_
      · rcases shut with rfl | rfl | rfl <;> exact ⟨nofun, nofun⟩
      · rcases shut with rfl | rfl | rfl <;> nofun
      · rcases shut with rfl | rfl | rfl <;> nofun
  | passive => exact learns ⟨nofun, nofun⟩ nofun (Or.inl rfl)
  | simultaneous => exact learns ⟨nofun, nofun⟩ nofun (Or.inr rfl)
  | active =>
    refine learns ⟨nofun, nofun⟩ (fun _ => ⟨pack, holds.onWire, rfl, ?_⟩) (Or.inr rfl)
    exact holds.confirms (event rfl)
  | confirmed e confirms =>
    have known : s.rcv.remoteSessNonce ≠ [] := was.peer (Or.inl state)
    refine plainly ⟨nofun, nofun⟩ ?_
    refine was.enters _ holds.named s.rcv.remoteSessNonce s.rcv.connReqPending ⟨nofun, nofun⟩
      (fun _ => known) fun _ => ⟨pack, holds.onWire, (holds.peer.resolve_left known).symm, ?_⟩
    refine holds.confirms (event ?_)
    rcases confirms with rfl | rfl <;> rfl

/-- The action that is tried again has the nonce of a packet. -/
theorem Retried.passes {elapsed : Bool} (retried : s.Retried elapsed s')
    (agrees : s.Agrees wire) (idle : s.rcv.handshake.hand = none) :
    Session.Passes wire s s' := by
  have was := agrees.handshake
  cases retried with
  | rests retry off snd panic rests =>
    have replies : s.Replies (fun _ => False) s' := .of_snd snd
    refine .of_replies agrees.speaks rests ?_ (.idle idle) replies rfl (fun _ => rfl) nofun
    refine ⟨was.named, was.started, was.unlocked, fun inUse => ?_, was.peer, was.agreed⟩
    rcases off with rfl | unused
    · exact was.causal inUse
    · cases unused.symm.trans inUse
  | again mid inUse inState isElapsed snd panic counts acted =>
    obtain ⟨retries, named⟩ := was.causal inUse
    have notListen : s.rcv.tcpState ≠ .listen := by
      intro listens
      change s.rcv.retry.curState.isRetryState = true at retries
      rw [inState, listens] at retries
      cases retries
    have own : mid.rcv.localSessNonce = s.rcv.localSessNonce :=
      congrArg Handshake.localSessNonce counts
    have nonce : mid.rcv.remoteSessNonce = s.rcv.remoteSessNonce :=
      congrArg Handshake.remoteSessNonce counts
    have silent : s.Replies (fun _ => False) mid := .of_snd snd
    have back : s.Remembers mid := silent.remembers own fun _ => nonce
    have speaks : mid.Speaks := agrees.speaks.replies silent back nofun
    have from' {t : Session} (passes : Session.Passes wire mid t) : Session.Passes wire s t :=
      ⟨passes.agrees, back.trans passes.remembers⟩
    have learns (nonce' : Bytes) (pending : Option Bool) (isNamed : nonce' ≠ [])
        (kept : s.rcv.remoteSessNonce ≠ [] → nonce' = s.rcv.remoteSessNonce) :
        Handshake.Agrees wire { mid.rcv.handshake with
          remoteSessNonce := nonce'
          connReqPending := pending } := by
      rw [counts]
      refine ⟨was.named, was.started, fun listens => absurd listens notListen, was.causal,
        fun _ => isNamed, fun established => ?_⟩
      rw [kept (was.peer (Or.inr established))]
      exact was.agreed established
    cases acted with
    | plain other still same replies =>
      refine from' (.of_replies speaks (same.trans counts) ?_ (.idle idle) replies own.symm
        (fun _ => nonce.symm) ?_)
      · exact ⟨was.named, was.started, was.unlocked, was.causal, was.peer, was.agreed⟩
      · rintro e (plainAck | ⟨rfl, -⟩) confirms
        · cases plainAck.confirms.symm.trans confirms
        · cases confirms
    | synAck is free still learned replies =>
      have kept (known : mid.rcv.remoteSessNonce ≠ []) := (free.resolve_left known).symm
      refine from' (.of_replies speaks learned (learns _ _ named ?_) (.idle ?_) replies rfl kept
        fun _ _ _ => named)
      · rw [← nonce]
        exact kept
      · rw [counts]
        exact idle
    | estabAck is free pending still learned replies =>
      refine from' (.of_replies speaks learned (learns _ _ named ?_) (.idle ?_) replies rfl
        (fun known => absurd free known) fun _ _ _ => named)
      · rw [← nonce]
        exact fun known => absurd free known
      · rw [counts]
        exact idle
    | fails p failed why sndSame ownSame kept =>
      refine from' ⟨fun alive => ?_, ownSame, kept, fun _ => by rw [sndSame]⟩
      rw [failed] at alive
      cases alive

theorem Connected.passes {fails : Bool}
    (connected : s.Connected fails s' sent) (agrees : s.Agrees wire)
    (idle : s.rcv.handshake.hand = none) :
    Session.Passes wire s s' ∧ ∀ m ∈ sent, s'.Vouches m := by
  have was := agrees.handshake
  cases connected with
  | refused inbox known snd panic same silent =>
    subst silent
    have replies : s.Replies (fun _ => False) s' := .of_snd snd
    refine ⟨.of_replies agrees.speaks same ?_ (.idle idle) replies rfl (fun _ => rfl) nofun,
      fun _ mem => nomatch mem⟩
    exact ⟨was.named, was.started, fun listens unknown => was.unlocked listens (known unknown),
      was.causal, was.peer, was.agreed⟩
  | opens inbox known ready snd panic waits syn =>
    have replies : s.Replies (fun _ => False) s' := .of_snd snd
    have own : s'.rcv.localSessNonce = s.rcv.localSessNonce :=
      congrArg Handshake.localSessNonce waits
    refine ⟨.of_replies agrees.speaks waits ?_ (.idle idle) replies rfl (fun _ => rfl) nofun,
      fun m mem => ?_⟩
    · exact ⟨was.named, nofun, nofun, was.causal, nofun, nofun⟩
    · obtain ⟨isOwn, unaddressed, isSyn, -⟩ := syn m mem
      refine ⟨isOwn.trans own.symm, isOwn ▸ was.named, fun addressed => ?_, fun confirms => ?_⟩
      · exact absurd unaddressed addressed
      · rw [isSyn] at confirms
        cases confirms

theorem Delivers.passes (delivers : s.Delivers s') (agrees : s.Agrees wire) :
    Session.Passes wire s s' := by
  refine .of_replies agrees.speaks delivers.same agrees.handshake agrees.hand delivers.replies rfl
    (fun _ => rfl) ?_
  rintro _ rfl confirms
  cases confirms

theorem Agrees.backToSelect (agrees : s.Agrees wire) : s.backToSelect.Agrees wire := by
  obtain ⟨was, -, speaks⟩ := agrees
  exact ⟨⟨was.named, was.started, was.unlocked, was.causal, was.peer, was.agreed⟩, .idle rfl,
    speaks.own, speaks.learned, speaks.acks, speaks.slots⟩

/-- What a session does with a packet in its hands it does after going back to its `select`. -/
theorem Passes.of_backToSelect (passes : Session.Passes wire s.backToSelect s') :
    Session.Passes wire s s' :=
  ⟨passes.agrees, passes.remembers.own, passes.remembers.rcv, passes.remembers.snd⟩

/-- The sender makes up a packet by itself. -/
theorem Agrees.makes (agrees : s.Agrees wire) (rcv : s'.rcv = s.rcv)
    (own : s'.snd.localSessNonce = s.snd.localSessNonce)
    (peer : s'.snd.remoteSessNonce = s.snd.remoteSessNonce)
    (acks : s'.snd.sendAck = s.snd.sendAck) (slots : OnlyData s.snd.txq → OnlyData s'.snd.txq) (sends : OnlyData s.snd.txq → ∀ m ∈ sent, s.snd.Makes m) :
    Session.Passes wire s s' ∧ ∀ m ∈ sent, s'.Vouches m := by
  obtain ⟨was, hand, speaks⟩ := agrees
  refine ⟨⟨fun _ => ⟨rcv ▸ was, rcv ▸ hand, ?_⟩, by rw [rcv], fun _ => by rw [rcv],
    fun _ => peer⟩, fun m mem => ?_⟩
  · refine ⟨?_, ?_, ?_, slots speaks.slots⟩
    · rw [own, rcv, speaks.own]
    · rw [peer, rcv]
      exact speaks.learned
    · rw [acks, rcv]
      exact speaks.acks
  · obtain ⟨isOwn, toPeer, event⟩ := sends speaks.slots m mem
    rw [speaks.own] at isOwn
    refine ⟨?_, isOwn ▸ was.named, fun addressed => ?_, fun confirms => ?_⟩
    · rw [rcv]
      exact isOwn
    · rw [rcv, peer, ← toPeer]
      rw [toPeer] at addressed
      exact ⟨(speaks.learned addressed).symm.trans toPeer.symm, rfl⟩
    · rcases event with is | is | is | ⟨-, addressed⟩
      · rw [is] at confirms
        cases confirms
      · rw [is] at confirms
        cases confirms
      · rw [is] at confirms
        cases confirms
      · exact addressed

end Session

/-- The nonce of the peer is learned from an ack that carries one, unless it is known. -/
theorem SenderState.learnNonce_cases (snd : SenderState) (ackPack : Packet) :
    (snd.remoteSessNonce = [] ∧ ackPack.destSessNonce ≠ [] ∧
      (snd.learnNonce ackPack).remoteSessNonce = ackPack.destSessNonce) ∨
    (ackPack.destSessNonce ≠ [] → snd.remoteSessNonce ≠ []) ∧
      (snd.learnNonce ackPack).remoteSessNonce = snd.remoteSessNonce := by
  unfold SenderState.learnNonce
  split_ifs with learns
  · exact Or.inl ⟨learns.1, learns.2, rfl⟩
  · exact Or.inr ⟨fun addressed unknown => learns ⟨unknown, addressed⟩, rfl⟩

namespace Session

/-- The sender forwards an ack of its receiver. -/
theorem Agrees.forwards (agrees : s.Agrees wire) {ackPack : Packet} {rest : List Packet}
    (queued : s.snd.sendAck = ackPack :: rest) (rcv : s'.rcv = s.rcv)
    (snd : s'.snd = { s.snd.learnNonce ackPack with sendAck := rest })
    (sends : ∀ m ∈ sent, m = ackPack) :
    Session.Passes wire s s' ∧ ∀ m ∈ sent, s'.Vouches m := by
  obtain ⟨was, hand, speaks⟩ := agrees
  have acks := speaks.acks
  rw [queued] at acks
  obtain ⟨isOwn, toPeer, confirms⟩ := acks ackPack List.mem_cons_self
  have nonce : s'.snd.remoteSessNonce = (s.snd.learnNonce ackPack).remoteSessNonce := by rw [snd]
  have learned : s'.snd.remoteSessNonce ≠ [] →
      s'.snd.remoteSessNonce = s.rcv.remoteSessNonce := by
    rcases s.snd.learnNonce_cases ackPack with ⟨-, addressed, learns⟩ | ⟨-, knows⟩
    · rw [nonce, learns]
      exact toPeer
    · rw [nonce, knows]
      exact speaks.learned
  have recorded : ackPack.destSessNonce ≠ [] → s'.snd.remoteSessNonce ≠ [] := by
    rcases s.snd.learnNonce_cases ackPack with ⟨-, -, learns⟩ | ⟨known, knows⟩
    · rw [nonce, learns]
      exact id
    · rw [nonce, knows]
      exact known
  obtain ⟨_, fields⟩ := s.snd.learnNonce_fields ackPack
  refine ⟨⟨fun _ => ⟨rcv ▸ was, rcv ▸ hand, ?_⟩, by rw [rcv], fun _ => by rw [rcv],
    fun known => ?_⟩, fun m mem => ?_⟩
  · refine ⟨?_, ?_, ?_, ?_⟩
    · rw [snd, fields, rcv]
      exact speaks.own
    · rw [rcv]
      exact learned
    · rw [snd, rcv]
      exact fun a mem => acks a (List.mem_cons_of_mem _ mem)
    · rw [snd, fields]
      exact speaks.slots
  · rcases s.snd.learnNonce_cases ackPack with ⟨unknown, -, -⟩ | ⟨-, knows⟩
    · exact absurd unknown known
    · exact nonce.trans knows
  · rw [sends m mem]
    refine ⟨?_, isOwn ▸ was.named, fun addressed => ?_, confirms⟩
    · rw [rcv]
      exact isOwn
    · rw [rcv, toPeer addressed]
      exact ⟨rfl, learned (recorded addressed)⟩

/-- A packet that is not data goes through the connection state machine, possibly twice. -/
theorem Agrees.recvInfo (agrees : s.Agrees wire) {pack : Packet}
    (handed : s.rcv.place = .handed pack) :
    Session.Passes wire s.backToSelect (s.backToSelect.recvInfo pack) := by
  have hand : s.rcv.handshake.hand = some pack := by
    simp only [RecvState.handshake, handed, RecvAt.pack]
  have holds := agrees.hand pack hand
  have back := agrees.backToSelect
  have first := tcpEvent_turned back.handshake.started pack.tcpEvent pack
  have processes : Session.Processes wire pack s.backToSelect (s.backToSelect.recvInfo pack) := by
    refine @Session.recvInfo_keeps _ pack (Session.Processes wire pack s.backToSelect)
      (first.processes back rfl ⟨holds.onWire, holds.named, holds.confirms, holds.peer⟩ id) ?_ ?_
    · intro t alive done
      obtain ⟨idle, holds'⟩ := done.holds alive
      have agrees' := done.passes.agrees alive
      have later := tcpEvent_turned agrees'.handshake.started .applicationClosed pack
      have next := later.processes agrees' idle holds' (by rintro ⟨⟩)
      exact ⟨⟨next.passes.agrees, done.passes.remembers.trans next.passes.remembers⟩, next.holds⟩
    · intro t done
      refine ⟨⟨fun alive => ?_, ?_⟩, done.holds⟩
      · obtain ⟨handshake, hand', speaks'⟩ := done.passes.agrees alive
        exact ⟨handshake, hand', speaks'.own, speaks'.learned, speaks'.acks, speaks'.slots⟩
      · have remembers := done.passes.remembers
        exact ⟨remembers.own, remembers.rcv, remembers.snd⟩
  exact processes.passes

theorem Shaken.passes {a : Action} (shaken : s.Shaken a s' sent)
    (agrees : s.Agrees wire) : Session.Passes wire s s' ∧ ∀ m ∈ sent, s'.Vouches m := by
  cases shaken with
  | makes rcv panic own peer acks slots sends => exact agrees.makes rcv own peer acks slots sends
  | forwards ackPack rest queued rcv panic snd sends => exact agrees.forwards queued rcv snd sends
  | delivers delivers => exact ⟨delivers.passes agrees, fun _ mem => nomatch mem⟩
  | data pack hand isData delivers =>
    exact ⟨(delivers.passes agrees.backToSelect).of_backToSelect, fun _ mem => nomatch mem⟩
  | info pack handed => exact ⟨(agrees.recvInfo handed).of_backToSelect, fun _ mem => nomatch mem⟩
  | retries elapsed idle retried =>
    exact ⟨retried.passes agrees idle, fun _ mem => nomatch mem⟩
  | connects destInbox fails idle connected => exact connected.passes agrees idle

theorem Agrees.arrive {sender : Session} (agrees : s.Agrees wire) (onWire : pack ∈ wire)
    (vouches : sender.Vouches pack) (arrived : s.arrive blake2b pack = some s') :
    Session.Passes wire s s' := by
  obtain ⟨alive, idle, replies, arrived⟩ := arrive_arrived arrived
  have was := agrees.handshake
  -- a nonce is learned here only if none is known
  have locked : ∃ nonce inbox, (s.rcv.lockOnto pack).handshake = { s.rcv.handshake with
        remoteSessNonce := nonce
        remoteInbox := inbox } ∧
      (s.rcv.remoteSessNonce ≠ [] → nonce = s.rcv.remoteSessNonce) ∧
      Handshake.Agrees wire (s.rcv.lockOnto pack).handshake := by
    unfold RecvState.lockOnto
    split_ifs with locks
    · obtain ⟨-, isOpen, unlocated, located⟩ := locks
      have listens : s.rcv.tcpState = .listen := isOpen.resolve_left was.started
      refine ⟨_, _, rfl, fun known => absurd (was.unlocked listens unlocated) known, ?_⟩
      refine ⟨was.named, was.started, fun _ unknown => absurd unknown located, was.causal, ?_, ?_⟩
      · exact fun _ => vouches.named
      · intro established
        cases listens.symm.trans established
    · exact ⟨_, _, rfl, fun _ => rfl, was⟩
  obtain ⟨nonce, inbox, same, kept, agrees'⟩ := locked
  have own : (s.rcv.lockOnto pack).localSessNonce = s.rcv.localSessNonce :=
    congrArg Handshake.localSessNonce same
  have kept' : s.rcv.remoteSessNonce ≠ [] →
      (s.rcv.lockOnto pack).remoteSessNonce = s.rcv.remoteSessNonce := by
    intro known
    exact (congrArg Handshake.remoteSessNonce same).trans (kept known)
  have stays (is : s'.rcv.handshake = (s.rcv.lockOnto pack).handshake) :
      Session.Passes wire s s' := by
    refine .of_replies agrees.speaks is agrees' (.idle ?_) replies own kept' nofun
    rw [same]
    exact idle
  cases arrived with
  | dropped drops panic is => exact stays is
  | broken p count panic is => exact stays is
  | taken accepts panic takes =>
    unfold RecvState.drops at accepts
    have passed := of_decide_eq_false accepts
    obtain ⟨-, passed⟩ := not_or.mp passed
    obtain ⟨dest, passed⟩ := not_or.mp passed
    obtain ⟨source, -⟩ := not_or.mp passed
    refine .of_replies agrees.speaks takes ?_ ?_ replies own kept' nofun
    · exact ⟨agrees'.named, agrees'.started, agrees'.unlocked, agrees'.causal, agrees'.peer,
        agrees'.agreed⟩
    · rintro m hand
      cases hand
      refine ⟨onWire, vouches.named, fun confirms => ?_, ?_⟩
      · by_contra differs
        exact dest ⟨Or.inl (vouches.confirms confirms), differs⟩
      · by_contra! differs
        exact source ⟨differs.1, Ne.symm differs.2⟩

end Session

end Steps

section Runs

variable {ι : Type} [DecidableEq ι]

theorem Session.Agrees.grows {wire : List Packet} {s : Session} (agrees : s.Agrees wire) :
    s.Agrees (wire ++ sent) := by
  obtain ⟨was, hand, speaks⟩ := agrees
  refine ⟨⟨was.named, was.started, was.unlocked, was.causal, was.peer, fun established => ?_⟩,
    fun m held => ?_, speaks⟩
  · obtain ⟨m, onWire, agreed⟩ := was.agreed established
    exact ⟨m, List.mem_append_left _ onWire, agreed⟩
  · obtain ⟨onWire, named, confirms, peer⟩ := hand m held
    exact ⟨List.mem_append_left _ onWire, named, confirms, peer⟩

theorem Session.agrees_new {cfg : SessionConfig} (named : cfg.nonce ≠ []) :
    (Session.new cfg).Agrees [] := by
  refine ⟨⟨named, nofun, fun _ _ => rfl, nofun, ?_, nofun⟩, .idle rfl, rfl, fun known => ?_,
    fun a mem => ?_, fun slot mem => ?_⟩
  · rintro (is | is) <;> cases is
  · exact absurd rfl known
  · exact absurd mem List.not_mem_nil
  · rw [List.eq_of_mem_replicate mem]
    exact Or.inl rfl

/-- What a session with nonce `own` knows. -/
def Session.Knows (own : Bytes) (wire : List Packet) (s : Session) : Prop :=
  s.rcv.localSessNonce = own ∧ (s.panic = none → s.Agrees wire)

/-- In every run of any number of sessions with nonces of their own, the peer of an established
receiver is a session that has recorded the nonce of that receiver, in its receiver and in its
sender. -/
theorem handshake_agreement (blake2b : Bytes → Bytes) (cfg : ι → SessionConfig)
    (distinct : Function.Injective fun i => (cfg i).nonce) (named : ∀ i, (cfg i).nonce ≠ [])
    (actions : List (PartyAction ι Action)) (s : Parties ι Session Packet)
    (ran : runFrom (swp blake2b).step (start cfg) actions = some s) (i : ι)
    (alive : (s.party i).panic = none)
    (established : (s.party i).rcv.tcpState = .established) :
    (∃ j, (s.party j).rcv.localSessNonce = (s.party i).rcv.remoteSessNonce) ∧
      ∀ j, (s.party j).rcv.localSessNonce = (s.party i).rcv.remoteSessNonce →
        (s.party j).rcv.remoteSessNonce = (s.party i).rcv.localSessNonce ∧
        (s.party j).snd.remoteSessNonce = (s.party i).rcv.localSessNonce := by
  have vouched : Vouched (fun i => Session.Knows (cfg i).nonce) Session.Vouches s := by
    refine invariant_of_run (fun s e s' inv stepped => ?_)
      ⟨fun i => ⟨rfl, fun _ => Session.agrees_new (named i)⟩,
        fun _ mem => absurd mem List.not_mem_nil⟩ ran
    refine inv.step (fun _ _ => True) ?_ ?_ ?_ (fun _ _ _ => trivial) stepped
    · exact fun _ _ _ t knows => ⟨knows.1, fun alive => (knows.2 alive).grows⟩
    · rintro j wire t a t' sent ⟨own, agrees⟩ - acted
      obtain ⟨alive, moved⟩ := Session.step_moved acted
      obtain ⟨passes, sends⟩ := moved.shaken.passes (agrees alive)
      exact ⟨⟨passes.remembers.own.trans own, passes.agrees⟩,
        fun _ vouches => vouches.remembered passes.remembers, sends⟩
    · rintro j wire t sender m t' ⟨own, agrees⟩ onWire vouches arrived
      have passes := (agrees (Session.arrive_arrived arrived).1).arrive onWire vouches arrived
      exact ⟨⟨passes.remembers.own.trans own, passes.agrees⟩,
        fun _ vouches => vouches.remembered passes.remembers⟩
  have knows := (vouched.knows i).2 alive
  obtain ⟨m, onWire, source, dest⟩ := knows.handshake.agreed established
  obtain ⟨j, vouches⟩ := vouched.wire m onWire
  have isPeer : (s.party j).rcv.localSessNonce = (s.party i).rcv.remoteSessNonce :=
    vouches.own.symm.trans source
  refine ⟨⟨j, isPeer⟩, fun k same => ?_⟩
  have only : k = j := by
    apply distinct
    exact ((vouched.knows k).1.symm.trans (same.trans isPeer.symm)).trans (vouched.knows j).1
  subst only
  have addressed : m.destSessNonce ≠ [] := by
    rw [dest]
    exact knows.handshake.named
  obtain ⟨rcv, snd⟩ := vouches.recorded addressed
  exact ⟨rcv.trans dest, snd.trans dest⟩

/-- The EstabAck of `a` is lost, and `b` learns of the connection by a keep-alive of `a`. -/
theorem handshake_agreement_two : ∃ s,
    runFrom (swp id).step (start (joined 2 2))
      [.act .a (.connect (bytesOf "B") false), .arrive .b 0, .act .b .gotPack, .act .b .process,
        .act .b (.sendAck false), .arrive .a 1, .act .a .gotPack, .act .a .process,
        .act .a (.sendAck false), .act .a (.keepAlive true), .arrive .b 3, .act .b .gotPack,
        .act .b .process] = some s ∧
      ((s.party .b).panic = none ∧ (s.party .b).rcv.tcpState = .established) ∧
      ((∃ j, (s.party j).rcv.localSessNonce = (s.party .b).rcv.remoteSessNonce) ∧
        ∀ j, (s.party j).rcv.localSessNonce = (s.party .b).rcv.remoteSessNonce →
          (s.party j).rcv.remoteSessNonce = (s.party .b).rcv.localSessNonce ∧
          (s.party j).snd.remoteSessNonce = (s.party .b).rcv.localSessNonce) := by
  refine exists_run_imp (P := fun s => (s.party .b).panic = none ∧
    (s.party .b).rcv.tcpState = .established) (fun s ran final => ⟨final, ?_⟩) (by decide)
  refine handshake_agreement id (joined 2 2) ?_ ?_ _ s ran .b final.1 final.2
  · intro i j same
    cases i <;> cases j <;> first | rfl | exact absurd same (by decide)
  · intro i
    cases i <;> decide

end Runs

end Hnatsd.Swp
