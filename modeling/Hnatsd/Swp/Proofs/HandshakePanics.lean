import Hnatsd.Swp.Proofs.HandshakeSteps

/-!
# The panics of the handshake

`doTcpAction` panics if a nonce it is about to learn is known already, if there is no connect
request to answer, and if the request has been answered. An arrival cannot bring this about in a
session whose SYN got out. The retry timer can: in `SynReceived` it repeats the action by which the
session came there, and after a simultaneous open that is `SendEstabAck`.
-/

namespace Hnatsd.Swp
open Misc

variable {h : Handshake} {may : TcpEvent → Prop}

/-- The panics of `doTcpAction`, with that of a second `close(Done)`. -/
def Panic.ofHandshake : Panic → Bool
  | .remoteNonceDiffers | .remoteNonceSet | .noConnReqPending | .closeOfClosed => true
  | .lenBySeqByDeadline | .cumulBytesDecreased | .cumulBytesOutOfOrder | .slotOutOfRange => false

/-- A SYN or SYNACK is not processed in `SynSent` after the SYN of the last connect request could
not be sent, and the retry timer does not come due in the `SynReceived` of a simultaneous open. -/
def Session.OpensSafely (s : Session) : Action → Prop
  | .process =>
      match s.rcv.place with
      | .handed pack =>
          s.rcv.tcpState = .synSent → pack.tcpEvent = .syn ∨ pack.tcpEvent = .synAck →
            s.rcv.connReqPending ≠ some true
      | _ => True
  | .retryTimer elapsed =>
      s.rcv.retry.inUse = true → s.rcv.retry.curState = s.rcv.tcpState →
        s.rcv.retry.firstStateAction = .sendEstabAck → elapsed = false
  | _ => True

/-- While a session waits for an answer it knows no nonce and has a request to answer. An action to
repeat is not a SYN, and a SYNACK is repeated with the nonce known. -/
structure Handshake.Fit (h : Handshake) : Prop where
  started : h.tcpState ≠ .fresh
  waits : h.tcpState = .synSent → h.remoteSessNonce = [] ∧ h.connReqPending ≠ none
  noSyn : h.retry.inUse = true → h.retry.firstStateAction ≠ .sendSyn
  synAck : h.retry.inUse = true → h.retry.firstStateAction = .sendSynAck →
    (h.tcpState ≠ .listen ∧ h.tcpState ≠ .synSent) ∧
      h.remoteSessNonce = (h.retry.causalPacket.getD {}).fromSessNonce

/-- In `Listen` only the SYN in the receiver's hands can have brought a nonce. -/
def Handshake.Unlocked (h : Handshake) : Prop :=
  match h.hand with
  | none => h.tcpState = .listen → h.remoteSessNonce = []
  | some p => (h.remoteSessNonce = [] ∨ h.remoteSessNonce = p.fromSessNonce) ∧
      (h.tcpState = .listen → p.tcpEvent ≠ .syn → h.remoteSessNonce = [])

structure Session.Fit (s : Session) : Prop where
  handshake : s.rcv.handshake.Fit
  unlocked : s.rcv.handshake.Unlocked
  acks : ∀ a ∈ s.snd.sendAck, a.tcpEvent ≠ .syn
  slots : OnlyData s.snd.txq

/-- No panic of the handshake has happened, and without a panic none is near. -/
structure Session.Sound (s : Session) : Prop where
  fit : s.panic = none → s.Fit
  safe : ∀ p, s.panic = some p → p.ofHandshake = false

/-- A SYN is addressed to no particular session. -/
def Packet.OpenSyn (m : Packet) : Prop :=
  m.tcpEvent = .syn → m.destSessNonce = [] ∧ m.data = []

section Steps

variable {blake2b : Bytes → Bytes} {s s' : Session} {pack : Packet}

theorem Session.Replies.noSyn (replies : s.Replies may s')
    (acks : ∀ a ∈ s.snd.sendAck, a.tcpEvent ≠ .syn) (notSyn : ∀ e, may e → e ≠ .syn) :
    ∀ a ∈ s'.snd.sendAck, a.tcpEvent ≠ .syn := by
  intro a mem
  rcases replies.acks a mem with old | ⟨-, -, allowed⟩
  · exact acks a old
  · exact notSyn _ allowed

theorem Session.Replies.onlyData (replies : s.Replies may s')
    (slots : OnlyData s.snd.txq) : OnlyData s'.snd.txq :=
  replies.slots ▸ slots

theorem TcpEvent.IsPlainAck.notSyn {e : TcpEvent} (plain : e.IsPlainAck) : e ≠ .syn := by
  rcases plain with rfl | rfl | rfl <;> nofun

/-- A state behind the opening is entered. -/
theorem Handshake.Fit.enters (fit : h.Fit) {post : TcpState} {act : TcpAction}
    (pack : Packet) (nonce : Bytes) (pending : Option Bool)
    (behind : post ≠ .fresh ∧ post ≠ .listen ∧ post ≠ .synSent) (notSyn : act ≠ .sendSyn)
    (stays : post = h.tcpState → nonce = h.remoteSessNonce)
    (learns : act = .sendSynAck → nonce = pack.fromSessNonce) :
    Handshake.Fit { h.enters post act pack with
      remoteSessNonce := nonce
      connReqPending := pending } := by
  obtain ⟨notFresh, notListen, notSynSent⟩ := behind
  refine ⟨notFresh, fun waits => absurd waits notSynSent, fun inUse => ?_, fun inUse is => ?_⟩
  · by_cases same : post = h.tcpState
    · simp only [Handshake.enters, same, if_true] at inUse ⊢
      exact fit.noSyn inUse
    · by_cases retries : post.isRetryState = true
      · simpa only [Handshake.enters, same, retries, if_true, if_false] using notSyn
      · simp only [Handshake.enters, same, retries, if_false, Bool.false_eq_true] at inUse
  · refine ⟨⟨notListen, notSynSent⟩, ?_⟩
    by_cases same : post = h.tcpState
    · simp only [Handshake.enters, same, if_true] at inUse is ⊢
      rw [stays same]
      exact (fit.synAck inUse is).2
    · by_cases retries : post.isRetryState = true
      · simp only [Handshake.enters, same, retries, if_true, if_false] at is ⊢
        exact learns is
      · simp only [Handshake.enters, same, retries, if_false, Bool.false_eq_true] at inUse

/-- The session goes on and may have put acks into the queue. -/
theorem Session.Sound.goesOn (alive : s.panic = none)
    (acks : ∀ a ∈ s.snd.sendAck, a.tcpEvent ≠ .syn) (slots : OnlyData s.snd.txq)
    (fit : s'.rcv.handshake.Fit) (unlocked : s'.rcv.handshake.Unlocked)
    (still : s'.panic = s.panic) (replies : s.Replies may s') (notSyn : ∀ e, may e → e ≠ .syn) :
    s'.Sound where
  fit _ := ⟨fit, unlocked, replies.noSyn acks notSyn, replies.onlyData slots⟩
  safe p failed := by
    rw [still, alive] at failed
    cases failed

theorem Session.Sound.of_panic {p : Panic} (failed : s.panic = some p)
    (other : p.ofHandshake = false) : s.Sound where
  fit alive := by
    rw [failed] at alive
    cases alive
  safe q isFailed := by
    rw [failed] at isFailed
    cases isFailed
    exact other

namespace Handshake

theorem unlocked_idle (idle : h.hand = none)
    (free : h.tcpState = .listen → h.remoteSessNonce = []) : h.Unlocked := by
  unfold Handshake.Unlocked
  rw [idle]
  exact free

theorem Unlocked.free (unlocked : h.Unlocked) (idle : h.hand = none)
    (listens : h.tcpState = .listen) : h.remoteSessNonce = [] := by
  unfold Handshake.Unlocked at unlocked
  rw [idle] at unlocked
  exact unlocked listens

theorem Unlocked.handed (unlocked : h.Unlocked)
    (hand : h.hand = some pack) :
    (h.remoteSessNonce = [] ∨ h.remoteSessNonce = pack.fromSessNonce) ∧
      (h.tcpState = .listen → pack.tcpEvent ≠ .syn → h.remoteSessNonce = []) := by
  unfold Handshake.Unlocked at unlocked
  rwa [hand] at unlocked

end Handshake

namespace Session

/-- An event of a packet, or its consequence. -/
theorem Turned.sound {e : TcpEvent} (turned : s.Turned pack e s') (alive : s.panic = none)
    (fit : s.rcv.handshake.Fit) (idle : s.rcv.handshake.hand = none)
    (acks : ∀ a ∈ s.snd.sendAck, a.tcpEvent ≠ .syn) (slots : OnlyData s.snd.txq)
    (opens : s.rcv.tcpState = .listen → e = .syn →
      s.rcv.remoteSessNonce = [] ∨ s.rcv.remoteSessNonce = pack.fromSessNonce)
    (free : s.rcv.tcpState = .listen → e ≠ .syn → s.rcv.remoteSessNonce = [])
    (sent : s.rcv.tcpState = .synSent → e = .syn ∨ e = .synAck →
      s.rcv.connReqPending ≠ some true) : s'.Sound ∧ s'.rcv.handshake.hand = none := by
  obtain ⟨post, act, mid, turn, snd, panic, enters, acted⟩ := turned
  have nonce : mid.rcv.remoteSessNonce = s.rcv.remoteSessNonce :=
    congrArg Handshake.remoteSessNonce enters
  have pending : mid.rcv.connReqPending = s.rcv.connReqPending :=
    congrArg Handshake.connReqPending enters
  have goesOn {h : Handshake} {may : TcpEvent → Prop} (same : s'.rcv.handshake = h) (hFit : h.Fit)
      (unlocked : h.tcpState = .listen → h.remoteSessNonce = []) (handed : h.hand = none)
      (still : s'.panic = mid.panic) (replies : mid.Replies may s')
      (notSyn : ∀ e, may e → e ≠ .syn) : s'.Sound ∧ s'.rcv.handshake.hand = none := by
    subst same
    exact ⟨.goesOn (panic.trans alive) (snd ▸ acks) (snd ▸ slots) hFit
      (Handshake.unlocked_idle handed unlocked) still replies notSyn, handed⟩
  have plainly (plain : act ≠ .sendSynAck ∧ act ≠ .sendEstabAck) (notSyn : act ≠ .sendSyn)
      (hFit : (s.rcv.handshake.enters post act pack).Fit)
      (unlocked : post = .listen → s.rcv.remoteSessNonce = []) :
      s'.Sound ∧ s'.rcv.handshake.hand = none := by
    obtain ⟨still, same, replies⟩ := acted.of_plain plain
    refine goesOn (same.trans enters) hFit unlocked idle still replies fun e may => ?_
    rcases may with plainAck | ⟨-, is⟩
    · exact plainAck.notSyn
    · exact absurd is notSyn
  have answers (is : act = .sendEstabAck) (waiting : s.rcv.tcpState = .synSent)
      (event : e = .syn ∨ e = .synAck) (behind : post ≠ .fresh ∧ post ≠ .listen ∧ post ≠ .synSent) :
      s'.Sound ∧ s'.rcv.handshake.hand = none := by
    obtain ⟨unset, isPending⟩ := fit.waits waiting
    subst is
    cases acted with
    | plain other => exact absurd rfl other.2
    | synAck is => cases is
    | estabAck is free' pending' still learned replies =>
      rw [enters] at learned
      refine goesOn learned ?_ (fun listens => absurd listens behind.2.1) idle still replies ?_
      · refine fit.enters pack _ _ behind nofun (fun same => ?_) nofun
        exact absurd (same.trans waiting) behind.2.2
      · rintro _ rfl
        nofun
    | fails p panic' why =>
      rcases why with ⟨is, -⟩ | ⟨-, known | missing | closed⟩
      · cases is
      · exact absurd (nonce.trans unset) known
      · exact absurd (pending.symm.trans missing) isPending
      · exact absurd (pending.symm.trans closed) (sent waiting event)
  generalize was : s.rcv.tcpState = state at turn
  cases turn with
  | stays state e act plain notSyn =>
    subst was
    refine plainly ?_ ?_ ?_ fun listens => free listens (notSyn listens)
    · rcases plain with rfl | rfl | rfl <;> exact ⟨nofun, nofun⟩
    · rcases plain with rfl | rfl | rfl <;> nofun
    · exact (s.rcv.handshake.enters_self act pack).symm ▸ fit
  | closes state e post act shut plain =>
    have behind : post ≠ .fresh ∧ post ≠ .listen ∧ post ≠ .synSent := by
      rcases shut with rfl | rfl | rfl <;> exact ⟨nofun, nofun, nofun⟩
    refine plainly ?_ ?_ ?_ fun listens => absurd listens behind.2.1
    · rcases plain with rfl | rfl | rfl <;> exact ⟨nofun, nofun⟩
    · rcases plain with rfl | rfl | rfl <;> nofun
    · refine fit.enters pack s.rcv.remoteSessNonce s.rcv.connReqPending behind ?_ (fun _ => rfl) ?_
      · rcases plain with rfl | rfl | rfl <;> nofun
      · rcases plain with rfl | rfl | rfl <;> nofun
  | passive =>
    cases acted with
    | plain other => exact absurd rfl other.1
    | estabAck is => cases is
    | synAck is free' still learned replies =>
      rw [enters] at learned
      refine goesOn learned ?_ nofun idle still replies ?_
      · refine fit.enters pack _ s.rcv.connReqPending ⟨nofun, nofun, nofun⟩ nofun (fun same => ?_)
          fun _ => rfl
        cases same.trans was
      · rintro _ rfl
        nofun
    | fails p panic' why =>
      rcases why with ⟨-, known, differs⟩ | ⟨is, -⟩
      · rw [nonce] at known differs
        exact absurd (opens was rfl) (not_or.mpr ⟨known, differs⟩)
      · cases is
  | simultaneous => exact answers rfl was (Or.inl rfl) ⟨nofun, nofun, nofun⟩
  | active => exact answers rfl was (Or.inr rfl) ⟨nofun, nofun, nofun⟩
  | confirmed e confirms =>
    refine plainly ⟨nofun, nofun⟩ nofun ?_ nofun
    exact fit.enters pack s.rcv.remoteSessNonce s.rcv.connReqPending ⟨nofun, nofun, nofun⟩ nofun
      (fun _ => rfl) nofun

/-- The retry timer does not repeat an EstabAck. -/
theorem Retried.sound {elapsed : Bool} (retried : s.Retried elapsed s')
    (alive : s.panic = none) (fit : s.Fit) (safely : s.OpensSafely (.retryTimer elapsed)) :
    s'.Sound := by
  cases retried with
  | rests retry off snd panic rests =>
    have hFit : Handshake.Fit { s.rcv.handshake with retry := retry } := by
      have was := fit.handshake
      rcases off with rfl | unused
      · exact was
      · refine ⟨was.started, was.waits, fun inUse => ?_, fun inUse => ?_⟩
        · cases unused.symm.trans inUse
        · cases unused.symm.trans inUse
    have replies : s.Replies (fun _ => False) s' := .of_snd snd
    exact .goesOn alive fit.acks fit.slots (rests ▸ hFit) (rests ▸ fit.unlocked) panic replies nofun
  | again mid inUse inState isElapsed snd panic counts acted =>
    have notEstabAck : s.rcv.retry.firstStateAction ≠ .sendEstabAck := by
      intro is
      cases isElapsed.symm.trans (safely inUse inState is)
    have nonce : mid.rcv.remoteSessNonce = s.rcv.remoteSessNonce :=
      congrArg Handshake.remoteSessNonce counts
    have was := fit.handshake
    have hFit : mid.rcv.handshake.Fit := by
      rw [counts]
      exact ⟨was.started, was.waits, was.noSyn, was.synAck⟩
    have unlocked : mid.rcv.handshake.Unlocked := counts ▸ fit.unlocked
    have goesOn {may : TcpEvent → Prop} (same : s'.rcv.handshake = mid.rcv.handshake)
        (still : s'.panic = mid.panic) (replies : mid.Replies may s')
        (notSyn : ∀ e, may e → e ≠ .syn) : s'.Sound :=
      .goesOn (panic.trans alive) (snd ▸ fit.acks) (snd ▸ fit.slots) (same ▸ hFit)
        (same ▸ unlocked) still replies notSyn
    cases acted with
    | plain other still same replies =>
      refine goesOn same still replies fun e may => ?_
      rcases may with plainAck | ⟨-, is⟩
      · exact plainAck.notSyn
      · exact absurd is (was.noSyn inUse)
    | synAck is free still learned replies =>
      refine goesOn (learned.trans ?_) still replies ?_
      · -- the nonce is the one already known
        have known : mid.rcv.handshake.remoteSessNonce =
            (s.rcv.retry.causalPacket.getD {}).fromSessNonce :=
          nonce.trans (was.synAck inUse is).2
        rw [← known]
      · rintro _ rfl
        nofun
    | estabAck is => exact absurd is notEstabAck
    | fails p panic' why =>
      rcases why with ⟨is, -, differs⟩ | ⟨is, -⟩
      · rw [nonce] at differs
        exact absurd (was.synAck inUse is).2 differs
      · exact absurd is notEstabAck

theorem Connected.sound {fails : Bool} {sent : List Packet}
    (connected : s.Connected fails s' sent) (alive : s.panic = none) (fit : s.Fit)
    (idle : s.rcv.handshake.hand = none) : s'.Sound ∧ ∀ m ∈ sent, m.OpenSyn := by
  have was := fit.handshake
  have goesOn (hFit : s'.rcv.handshake.Fit) (unlocked : s'.rcv.handshake.Unlocked)
      (snd : s'.snd = s.snd) (still : s'.panic = s.panic) : s'.Sound := by
    have replies : s.Replies (fun _ => False) s' := .of_snd snd
    exact .goesOn alive fit.acks fit.slots hFit unlocked still replies nofun
  cases connected with
  | refused inbox known snd panic same silent =>
    subst silent
    refine ⟨goesOn ?_ ?_ snd panic, fun _ mem => nomatch mem⟩
    · rw [same]
      exact ⟨was.started, was.waits, was.noSyn, was.synAck⟩
    · rw [same]
      exact fit.unlocked
  | opens inbox known ready snd panic waits syn =>
    have unset : s.rcv.remoteSessNonce = [] := by
      rcases ready with listens | isWaiting
      · exact fit.unlocked.free idle listens
      · exact (was.waits isWaiting).1
    refine ⟨goesOn ?_ ?_ snd panic, fun m mem _ => ⟨(syn m mem).peer, (syn m mem).empty⟩⟩
    · rw [waits]
      refine ⟨nofun, fun _ => ⟨unset, nofun⟩, was.noSyn, fun inUse is => ?_⟩
      have passed := (was.synAck inUse is).1
      rcases ready with listens | isWaiting
      · exact absurd listens passed.1
      · exact absurd isWaiting passed.2
    · refine Handshake.unlocked_idle ?_ fun _ => ?_
      · rw [waits]
        exact idle
      · rw [waits]
        exact unset

theorem Delivers.sound (delivers : s.Delivers s') (alive : s.panic = none)
    (fit : s.Fit) : s'.Sound := by
  rcases delivers.panic with still | failed | failed
  · refine .goesOn alive fit.acks fit.slots ?_ ?_ still delivers.replies ?_
    · exact delivers.same ▸ fit.handshake
    · exact delivers.same ▸ fit.unlocked
    · rintro _ rfl
      nofun
  · exact .of_panic failed rfl
  · exact .of_panic failed rfl

theorem Shaken.sound {a : Action} {sent : List Packet} (shaken : s.Shaken a s' sent)
    (alive : s.panic = none) (fit : s.Fit) (safely : s.OpensSafely a) :
    s'.Sound ∧ ∀ m ∈ sent, m.OpenSyn := by
  cases shaken with
  | makes rcv panic own peer acks slots sends =>
    refine ⟨⟨fun _ => ⟨rcv ▸ fit.handshake, rcv ▸ fit.unlocked, acks ▸ fit.acks,
      slots fit.slots⟩, fun p failed => ?_⟩, fun m mem isSyn => ?_⟩
    · cases (panic.trans alive).symm.trans failed
    · have event := (sends fit.slots m mem).event
      rw [isSyn] at event
      rcases event with is | is | is | ⟨is, -⟩ <;> cases is
  | forwards ackPack rest queued rcv panic snd sends =>
    obtain ⟨nonce, learned⟩ := s.snd.learnNonce_fields ackPack
    have acks := fit.acks
    rw [queued] at acks
    rw [learned] at snd
    refine ⟨⟨fun _ => ⟨rcv ▸ fit.handshake, rcv ▸ fit.unlocked, ?_, ?_⟩, fun p failed => ?_⟩,
      fun m mem isSyn => ?_⟩
    · rw [snd]
      exact fun a mem => acks a (List.mem_cons_of_mem _ mem)
    · rw [snd]
      exact fit.slots
    · cases (panic.trans alive).symm.trans failed
    · rw [sends m mem] at isSyn
      exact absurd isSyn (acks ackPack List.mem_cons_self)
  | delivers delivers => exact ⟨delivers.sound alive fit, (by rintro _ ⟨⟩)⟩
  | data pack hand isData delivers =>
    have back : s.backToSelect.Fit := by
      refine ⟨⟨fit.handshake.started, fit.handshake.waits, fit.handshake.noSyn,
        fit.handshake.synAck⟩, Handshake.unlocked_idle rfl fun listens => ?_, fit.acks, fit.slots⟩
      exact (fit.unlocked.handed hand).2 listens (by rw [isData]; rintro ⟨⟩)
    exact ⟨delivers.sound alive back, (by rintro _ ⟨⟩)⟩
  | info pack handed =>
    have hand : s.rcv.handshake.hand = some pack := by
      simp only [RecvState.handshake, handed, RecvAt.pack]
    obtain ⟨nonce, free⟩ := fit.unlocked.handed hand
    have back : s.backToSelect.rcv.handshake.Fit :=
      ⟨fit.handshake.started, fit.handshake.waits, fit.handshake.noSyn, fit.handshake.synAck⟩
    have sent : s.rcv.tcpState = .synSent → pack.tcpEvent = .syn ∨ pack.tcpEvent = .synAck →
        s.rcv.connReqPending ≠ some true := by
      simpa only [Session.OpensSafely, handed] using safely
    have first := tcpEvent_turned back.started pack.tcpEvent pack
    have keeps : (s.backToSelect.recvInfo pack).Sound ∧
        (s.backToSelect.recvInfo pack).rcv.handshake.hand = none := by
      refine @Session.recvInfo_keeps _ pack (fun t => t.Sound ∧ t.rcv.handshake.hand = none)
        (first.sound alive back rfl fit.acks fit.slots (fun _ _ => nonce) free sent) ?_ ?_
      · rintro t alive' ⟨sound, idle⟩
        have fit' := sound.fit alive'
        have later := tcpEvent_turned fit'.handshake.started .applicationClosed pack
        refine later.sound alive' fit'.handshake idle fit'.acks fit'.slots (by rintro _ ⟨⟩) ?_ ?_
        · exact fun listens _ => fit'.unlocked.free idle listens
        · rintro - (is | is) <;> cases is
      · rintro t ⟨sound, idle⟩
        exact ⟨⟨fun alive' => ⟨(sound.fit alive').handshake, (sound.fit alive').unlocked,
          (sound.fit alive').acks, (sound.fit alive').slots⟩, sound.safe⟩, idle⟩
    exact ⟨keeps.1, (by rintro _ ⟨⟩)⟩
  | retries elapsed idle retried =>
    exact ⟨retried.sound alive fit safely, (by rintro _ ⟨⟩)⟩
  | connects destInbox fails idle connected => exact connected.sound alive fit idle

end Session

/-- The SYN that a session without a peer locks onto is not dropped. -/
theorem RecvState.lockOnto_accepts {r : RecvState} (openSyn : pack.OpenSyn)
    (locks : pack.tcpEvent = .syn ∧ (r.tcpState = .fresh ∨ r.tcpState = .listen) ∧
      r.remoteInbox = [] ∧ pack.from' ≠ []) : (r.lockOnto pack).drops blake2b pack = false := by
  obtain ⟨noNonce, noData⟩ := openSyn locks.1
  unfold RecvState.lockOnto RecvState.drops
  rw [if_pos locks]
  rcases locks.2.1 with fresh | listens
  · simp [noNonce, noData, fresh, TcpState.num]
  · simp [noNonce, noData, listens, TcpState.num]

theorem Session.Sound.arrive (sound : s.Sound) (openSyn : pack.OpenSyn)
    (arrived : s.arrive blake2b pack = some s') : s'.Sound := by
  obtain ⟨alive, idle, replies, arrived⟩ := Session.arrive_arrived arrived
  have fit := sound.fit alive
  have was := fit.handshake
  have goesOn (hFit : s'.rcv.handshake.Fit) (unlocked : s'.rcv.handshake.Unlocked)
      (still : s'.panic = s.panic) : s'.Sound :=
    .goesOn alive fit.acks fit.slots hFit unlocked still replies nofun
  by_cases locks : pack.tcpEvent = .syn ∧ (s.rcv.tcpState = .fresh ∨ s.rcv.tcpState = .listen) ∧
      s.rcv.remoteInbox = [] ∧ pack.from' ≠ []
  · have listens : s.rcv.tcpState = .listen := locks.2.1.resolve_left was.started
    have locked : s.rcv.lockOnto pack =
        { s.rcv with remoteInbox := pack.from', remoteSessNonce := pack.fromSessNonce } :=
      if_pos locks
    cases arrived with
    | dropped drops =>
      rw [RecvState.lockOnto_accepts openSyn locks] at drops
      cases drops
    | broken p count failed => rcases count with rfl | rfl <;> exact .of_panic failed rfl
    | taken accepts still takes =>
      rw [locked] at takes
      refine goesOn ?_ ?_ still
      · rw [takes]
        refine ⟨was.started, fun waits => ?_, was.noSyn, fun inUse is => ?_⟩
        · cases listens.symm.trans waits
        · exact absurd listens (was.synAck inUse is).1.1
      · rw [takes]
        exact ⟨Or.inr rfl, fun _ notSyn => absurd locks.1 notSyn⟩
  · have same : s.rcv.lockOnto pack = s.rcv := if_neg locks
    cases arrived with
    | dropped drops still kept =>
      rw [same] at kept
      exact goesOn (kept ▸ was) (kept ▸ fit.unlocked) still
    | broken p count failed => rcases count with rfl | rfl <;> exact .of_panic failed rfl
    | taken accepts still takes =>
      rw [same] at takes accepts
      refine goesOn ?_ ?_ still
      · rw [takes]
        exact ⟨was.started, was.waits, was.noSyn, was.synAck⟩
      · rw [takes]
        refine ⟨?_, fun listens _ => fit.unlocked.free idle listens⟩
        unfold RecvState.drops at accepts
        have kept := of_decide_eq_false accepts
        by_contra! differs
        exact kept (Or.inr (Or.inr (Or.inl ⟨differs.1, Ne.symm differs.2⟩)))

end Steps

section Runs

variable {ι : Type} [DecidableEq ι]

def OpensSafely (s : Parties ι Session Packet) : PartyAction ι Action → Prop
  | .act i a => (s.party i).OpensSafely a
  | .arrive _ _ => True

instance (s : Session) (a : Action) : Decidable (s.OpensSafely a) := by
  unfold Session.OpensSafely
  split
  · split <;> infer_instance
  · infer_instance
  · infer_instance

instance (s : Parties ι Session Packet) (e : PartyAction ι Action) :
    Decidable (OpensSafely s e) := by
  unfold OpensSafely
  split <;> infer_instance

theorem Session.sound_new (cfg : SessionConfig) : (Session.new cfg).Sound where
  fit _ := by
    refine ⟨⟨nofun, nofun, nofun, nofun⟩, fun _ => rfl, fun a mem => ?_, fun slot mem => ?_⟩
    · exact absurd mem List.not_mem_nil
    · rw [List.eq_of_mem_replicate mem]
      exact Or.inl rfl
  safe := nofun

/-- In a run of any number of sessions that open safely, no session panics in the handshake. -/
theorem handshake_never_panics (blake2b : Bytes → Bytes) (cfg : ι → SessionConfig)
    (actions : List (PartyAction ι Action)) (s : Parties ι Session Packet)
    (along : Along (swp blake2b).step OpensSafely (start cfg) actions)
    (ran : runFrom (swp blake2b).step (start cfg) actions = some s) (i : ι) (p : Panic)
    (failed : (s.party i).panic = some p) : p.ofHandshake = false := by
  have vouched : Vouched (fun _ _ t => t.Sound) (fun _ m => m.OpenSyn) s := by
    refine invariant_of_along (fun s e s' inv safely stepped => ?_)
      ⟨fun i => Session.sound_new (cfg i), fun _ mem => absurd mem List.not_mem_nil⟩ along ran
    refine inv.step Session.OpensSafely (fun _ _ _ _ => id) ?_ ?_ ?_ stepped
    · intro _ _ t a t' sent sound safely acted
      obtain ⟨alive, moved⟩ := Session.step_moved acted
      obtain ⟨sound', sends⟩ := moved.shaken.sound alive (sound.fit alive) safely
      exact ⟨sound', fun _ => id, sends⟩
    · intro _ _ t _ m t' sound _ openSyn arrived
      exact ⟨sound.arrive openSyn arrived, fun _ => id⟩
    · rintro j a rfl
      exact safely
  exact (vouched.knows i).safe p failed

/-- The first SYN of `a` cannot be sent, `b` repeats its SYNACK, and the session opens. -/
theorem handshake_never_panics_open : ∃ s,
    runFrom (swp id).step (start (joined 2 2))
      [.act .a (.connect (bytesOf "B") true), .act .a (.connect (bytesOf "B") false), .arrive .b 0,
        .act .b .gotPack, .act .b .process, .act .b (.retryTimer true), .act .b (.sendAck false),
        .arrive .a 1, .act .a .gotPack, .act .a .process, .act .a (.sendAck false), .arrive .b 2,
        .act .b .gotPack, .act .b .process] = some s ∧
      ((s.party .a).rcv.tcpState = .established ∧ (s.party .b).rcv.tcpState = .established) ∧
      ∀ i p, (s.party i).panic = some p → p.ofHandshake = false := by
  refine exists_run_imp (P := fun s => (s.party .a).rcv.tcpState = .established ∧
    (s.party .b).rcv.tcpState = .established) (fun s ran final => ⟨final, ?_⟩) (by decide)
  exact handshake_never_panics id (joined 2 2) _ s (by decide) ran

/-- Both sessions connect, and the EstabAck of `a` is lost: the retry timer of `b` makes it panic.
And if the SYN of `a` cannot be sent, the SYN of `b` makes `a` panic. -/
theorem handshake_panics :
    (∃ s, runFrom (swp id).step (start (joined 2 2))
      [.act .a (.connect (bytesOf "B") false), .act .b (.connect (bytesOf "A") false), .arrive .b 0,
        .act .b .gotPack, .act .b .process, .act .b (.retryTimer true)] = some s ∧
      (s.party .b).panic = some .remoteNonceSet) ∧
    ∃ s, runFrom (swp id).step (start (joined 2 2))
      [.act .a (.connect (bytesOf "B") true), .act .b (.connect (bytesOf "A") false), .arrive .a 0,
        .act .a .gotPack, .act .a .process] = some s ∧
      (s.party .a).panic = some .closeOfClosed :=
  ⟨exists_run (by decide), exists_run (by decide)⟩

end Runs

end Hnatsd.Swp
