import Hnatsd.Swp.Proofs.Delivery
import Hnatsd.Swp.Proofs.SenderTrees

/-!
# Acknowledgements

Everything a session sends acknowledges at most what its consumer has taken, with one exception:
`LastFrameClientConsumed` starts at 0 and data and SYN packets leave `AckNum` at 0, which the sender
takes as an ack of its packet 0. In runs where nothing reaches the sender before packet 0 has been
consumed, no packet is acknowledged before it has been consumed.
-/

namespace Hnatsd.Swp
open Misc List

variable {dest : Bytes} {sent : List Packet} {p : Session}

section Acks

variable {blake2b : Bytes → Bytes} {s s' : Session}

/-- No ack that a session has ready is ahead of its consumer. -/
structure Session.AcksTaken (s : Session) : Prop where
  queue : ∀ q ∈ s.snd.sendAck, q.ackNum ≤ s.rcv.lastFrameClientConsumed
  counter : s.snd.recvLastFrameClientConsumed ≤ s.rcv.lastFrameClientConsumed

theorem Session.AcksTaken.responds (acks : s.AcksTaken) {n : Int} {peer : Bytes}
    (responds : Session.Responds n peer s s')
    (grows : s.rcv.lastFrameClientConsumed ≤ s'.rcv.lastFrameClientConsumed)
    (last : n ≤ s'.rcv.lastFrameClientConsumed) : s'.AcksTaken := by
  refine ⟨fun q mem => ?_, ?_⟩
  · rcases responds.acks q mem with old | new
    · exact (acks.queue q old).trans grows
    · exact new.1 ▸ last
  · rcases responds.counter with same | set
    · exact same ▸ acks.counter.trans grows
    · exact set ▸ last

theorem RecvState.Continues.last_le {history : List Packet} {r r' : RecvState}
    (continues : r.Continues r') (receives : r.Receives history)
    (receives' : r'.Receives history) :
    r.lastFrameClientConsumed ≤ r'.lastFrameClientConsumed := by
  have := continues.consumed.length_le
  rw [receives.last, receives'.last]
  omega

/-- Everything a session sends acknowledges at most what its consumer has taken. -/
theorem Session.AcksTaken.step (acks : s.AcksTaken) (sendsTo : s.SendsTo dest)
    (nonneg : 0 ≤ s'.rcv.lastFrameClientConsumed)
    (grows : s.rcv.lastFrameClientConsumed ≤ s'.rcv.lastFrameClientConsumed) {a : Action} (moved : s.Moved blake2b a s' sent) :
    s'.AcksTaken ∧ ∀ p ∈ sent, p.ackNum ≤ s'.rcv.lastFrameClientConsumed := by
  have data {p : Packet} (isSent : Sent s.snd.sendHistory p) :
      p.ackNum ≤ s'.rcv.lastFrameClientConsumed :=
    (sendsTo.sends.pushed.fields isSent).1 ▸ nonneg
  have back : s.backToSelect.AcksTaken := ⟨acks.queue, acks.counter⟩
  cases moved with
  | push content deadline free =>
    refine ⟨⟨acks.queue, acks.counter⟩, fun p mem => ?_⟩
    rw [mem_singleton] at mem
    exact mem ▸ nonneg
  | wakeup now free => exact ⟨⟨acks.queue, acks.counter⟩, fun _ mem => nomatch mem⟩
  | resend pos rest deadline waiting =>
    refine ⟨⟨acks.queue, acks.counter⟩, fun p mem => ?_⟩
    rw [mem_singleton] at mem
    exact mem ▸ data (sendsTo.sends.resend waiting deadline).2
  | sendAck ackPack rest fails runs queued =>
    have queue := acks.queue
    rw [queued] at queue
    refine ⟨⟨fun q mem => queue q (mem_cons_of_mem _ mem), ?_⟩, fun p mem => ?_⟩
    · obtain ⟨nonce, learned⟩ := s.snd.learnNonce_fields ackPack
      rw [learned]
      exact acks.counter
    · split_ifs at mem
      · cases mem
      · rw [mem_singleton] at mem
        exact queue p (mem ▸ mem_cons_self)
  | gotPack pack handing free =>
    refine ⟨⟨?_, ?_⟩, fun _ mem => nomatch mem⟩
    · rw [s.handOver_snd, s.handOver_rcv]
      exact acks.queue
    · rw [s.handOver_snd, s.handOver_rcv]
      exact acks.counter
  | data pack handed isData =>
    have same := s.backToSelect.recvData_consumer pack
    exact ⟨back.responds (s.backToSelect.recvData_responds rfl rfl pack) grows same.last.ge,
      fun _ mem => nomatch mem⟩
  | info pack handed isInfo =>
    have answers := s.backToSelect.recvInfo_answers rfl rfl pack
    exact ⟨back.responds answers.responds grows answers.window.last.ge, fun _ mem => nomatch mem⟩
  | consume lastPack last =>
    exact ⟨acks.responds (s.deliverToConsumer_responds rfl lastPack) grows (Int.le_refl _),
      fun _ mem => nomatch mem⟩
  | read lenp =>
    exact ⟨acks.responds (s.fillAsMuchAsPossible_responds rfl lenp) grows (Int.le_refl _),
      fun _ mem => nomatch mem⟩
  | retryTimer elapsed =>
    have answers := s.retryCheck_answers rfl rfl elapsed
    exact ⟨acks.responds answers.responds grows answers.window.last.ge, fun _ mem => nomatch mem⟩
  | connect destInbox fails =>
    obtain ⟨remote, -, -, syn⟩ := s.connect_window destInbox fails
    exact ⟨acks.responds (@Session.connect_responds 0 [] s destInbox fails) grows nonneg,
      fun p mem => (syn p mem).1 ▸ nonneg⟩
  | keepAlive due =>
    exact ⟨acks, fun p mem => (s.snd.doKeepAlive_fields mem).2.1 ▸ acks.counter⟩
  | sendClosing =>
    refine ⟨acks, fun p mem => ?_⟩
    rw [mem_singleton] at mem
    exact mem ▸ nonneg
  | stopSender => exact ⟨⟨acks.queue, acks.counter⟩, fun _ mem => nomatch mem⟩
  | stopReceiver => exact ⟨⟨acks.queue, acks.counter⟩, fun _ mem => nomatch mem⟩

/-- A session that knows its peer sends to nobody else. -/
structure Session.OnlyTo (dest : Bytes) (s : Session) : Prop where
  remote : s.rcv.remoteInbox = dest
  queue : ∀ q ∈ s.snd.sendAck, q.dest = dest

theorem Session.OnlyTo.responds {dest : Bytes} (only : s.OnlyTo dest) {n : Int}
    (responds : Session.Responds n dest s s') (remote : s'.rcv.remoteInbox = dest) :
    s'.OnlyTo dest := by
  refine ⟨remote, fun q mem => ?_⟩
  rcases responds.acks q mem with old | new
  · exact only.queue q old
  · exact new.2.2

theorem Session.OnlyTo.step (only : s.OnlyTo dest) (known : dest ≠ [])
    (sends : s.snd.Sends dest) {a : Action}
    (moved : s.Moved blake2b a s' sent) : s'.OnlyTo dest ∧ ∀ p ∈ sent, p.dest = dest := by
  have remote := only.remote
  have back : s.backToSelect.OnlyTo dest := ⟨remote, only.queue⟩
  cases moved with
  | push content deadline free =>
    refine ⟨⟨remote, only.queue⟩, fun p mem => ?_⟩
    rw [mem_singleton] at mem
    exact mem ▸ sends.dest
  | wakeup now free => exact ⟨⟨remote, only.queue⟩, fun _ mem => nomatch mem⟩
  | resend pos rest deadline waiting =>
    refine ⟨⟨remote, only.queue⟩, fun p mem => ?_⟩
    rw [mem_singleton] at mem
    exact mem ▸ (sends.pushed.fields (sends.resend waiting deadline).2).2.2
  | sendAck ackPack rest fails runs queued =>
    have queue := only.queue
    rw [queued] at queue
    refine ⟨⟨remote, fun q mem => queue q (mem_cons_of_mem _ mem)⟩, fun p mem => ?_⟩
    split_ifs at mem
    · cases mem
    · rw [mem_singleton] at mem
      exact queue p (mem ▸ mem_cons_self)
  | gotPack pack handing free =>
    refine ⟨⟨?_, ?_⟩, fun _ mem => nomatch mem⟩
    · rw [s.handOver_rcv]
      exact remote
    · rw [s.handOver_snd]
      exact only.queue
  | data pack handed isData =>
    have same := s.backToSelect.recvData_consumer pack
    exact ⟨back.responds (s.backToSelect.recvData_responds rfl remote pack)
      (same.remote.trans remote), fun _ mem => nomatch mem⟩
  | info pack handed isInfo =>
    have answers := s.backToSelect.recvInfo_answers rfl remote pack
    exact ⟨back.responds answers.responds (answers.window.remote.trans remote),
      fun _ mem => nomatch mem⟩
  | consume lastPack last =>
    exact ⟨only.responds (s.deliverToConsumer_responds remote lastPack) remote,
      fun _ mem => nomatch mem⟩
  | read lenp =>
    exact ⟨only.responds (s.fillAsMuchAsPossible_responds remote lenp)
      ((s.fillAsMuchAsPossible_ring lenp).remote.trans remote), fun _ mem => nomatch mem⟩
  | retryTimer elapsed =>
    have answers := s.retryCheck_answers rfl remote elapsed
    exact ⟨only.responds answers.responds (answers.window.remote.trans remote),
      fun _ mem => nomatch mem⟩
  | connect destInbox fails =>
    obtain ⟨peer, same, window, syn⟩ := s.connect_window destInbox fails
    have peerIs : peer = dest := (same (remote ▸ known)).trans remote
    exact ⟨only.responds (@Session.connect_responds 0 dest s destInbox fails)
      (window.remote.trans peerIs), fun p mem => (syn p mem).2.2.trans peerIs⟩
  | keepAlive due =>
    exact ⟨only, fun p mem => (s.snd.doKeepAlive_fields mem).2.2.1.trans sends.dest⟩
  | sendClosing =>
    refine ⟨only, fun p mem => ?_⟩
    rw [mem_singleton] at mem
    exact mem ▸ sends.dest
  | stopSender => exact ⟨⟨remote, only.queue⟩, fun _ mem => nomatch mem⟩
  | stopReceiver => exact ⟨⟨remote, only.queue⟩, fun _ mem => nomatch mem⟩

end Acks

section NoFalseAck

variable {ι : Type} {blake2b : Bytes → Bytes} {cfg : ι → SessionConfig} {a b : ι}

/-- Where an acknowledged packet comes from. -/
theorem Session.Moved.acked {s s' : Session} (sends : s.snd.Sends dest)
    {act : Action} (moved : s.Moved blake2b act s' sent) {p : Packet}
    (mem : p ∈ s'.snd.acked) :
    p ∈ s.snd.acked ∨ act = .gotPack ∧ Sent s.snd.sendHistory p ∧
      p.seqNum ∈ s.snd.sentButNotAckedBySeqNum.map s.snd.seqOf ∧
      ∃ pack, s.rcv.place.pack = some pack ∧ p.seqNum ≤ pack.ackNum := by
  generalize after : s'.snd = snd at mem
  have sender := moved.sender
  rw [after] at sender
  cases sender with
  | gotPack pack handing free =>
    rcases (sends.gotPack pack.copySansData).2 p mem with old | ⟨isSent, below, inTree⟩
    · exact Or.inl old
    · exact Or.inr ⟨rfl, isSent, inTree, pack, by rw [handing]; rfl, below⟩
  | push | wakeup | resend | beside => exact Or.inl mem

/-- Everything that reaches `a` acknowledges at most what the consumer of `b` has taken, and what is
acknowledged at `a` has been taken at `b`. -/
structure AckLink (cfg : ι → SessionConfig) (a b : ι) (s : Parties ι Session Packet) : Prop where
  link : Link cfg a b s
  onlyTo : (s.party a).OnlyTo (cfg a).destInbox
  inbox : (s.party a).rcv.inbox = (cfg a).localInbox
  acks : (s.party b).AcksTaken
  wire : ∀ p ∈ s.wire, p.dest = (cfg a).localInbox →
    p.ackNum ≤ (s.party b).rcv.lastFrameClientConsumed
  hand : ∀ p, (s.party a).rcv.place.pack = some p →
    p.ackNum ≤ (s.party b).rcv.lastFrameClientConsumed
  taken : ∀ p ∈ (s.party a).snd.acked, ∃ q ∈ (s.party b).rcv.consumed, q.message = p.message

/-- A packet up to the last one consumed has been consumed. -/
theorem Link.consumed {s : Parties ι Session Packet} (link : Link cfg a b s) {p : Packet}
    (isSent : Sent (s.party a).snd.sendHistory p)
    (last : p.seqNum ≤ (s.party b).rcv.lastFrameClientConsumed)
    (nonempty : (s.party b).rcv.consumed ≠ []) :
    ∃ q ∈ (s.party b).rcv.consumed, q.message = p.message := by
  have pushed := (link.sendsTo a).sends.pushed
  have nonneg := (pushed.seqNum isSent).1
  have positive := length_pos_iff.mpr nonempty
  rw [link.receives.last] at last
  have bound : p.seqNum.toNat < (s.party b).rcv.consumed.length := by omega
  have inOrdered : (s.party b).rcv.ordered[p.seqNum.toNat]? =
      some (s.party b).rcv.consumed[p.seqNum.toNat] := by
    rw [RecvState.ordered, getElem?_append_left bound, getElem?_eq_getElem bound]
  refine ⟨_, getElem_mem bound, ?_⟩
  obtain ⟨number, q, inHistory, same⟩ := link.receives.numbered pushed inOrdered
  obtain ⟨q', inHistory', same'⟩ := isSent
  have index : (s.party b).rcv.consumed[p.seqNum.toNat].seqNum.toNat = p.seqNum.toNat := by omega
  rw [index, inHistory'] at inHistory
  cases inHistory
  rw [same, same']

theorem ackLink_start (windows : ∀ i, 1 ≤ (cfg i).windowMsgCount) :
    AckLink cfg a b (start cfg) where
  link := link_start windows
  onlyTo := ⟨rfl, fun _ mem => nomatch mem⟩
  inbox := rfl
  acks := by
    refine ⟨fun _ mem => ?_, Int.le_refl _⟩
    cases mem
  wire _ mem := nomatch mem
  hand _ holds := nomatch holds
  taken _ mem := nomatch mem

/-- Nothing is handed to the sender of `a` while packet 0 is not acknowledged and the consumer of
`b` has taken nothing. -/
def FirstTaken (a b : ι) (s : Parties ι Session Packet) : PartyAction ι Action → Prop
  | .act i .gotPack =>
      i = a → 0 ∈ (s.party a).snd.sentButNotAckedBySeqNum.map (s.party a).snd.seqOf →
        (s.party b).rcv.consumed ≠ []
  | _ => True

/-- A step of `a` acknowledges only what the consumer of `b` has taken. -/
theorem AckLink.taken_step {s : Parties ι Session Packet} (acks : AckLink cfg a b s) {act : Action}
    (first : FirstTaken a b s (.act a act))
    (moved : (s.party a).Moved blake2b act p sent) (q : Packet) (mem : q ∈ p.snd.acked) :
    ∃ q' ∈ (s.party b).rcv.consumed, q'.message = q.message := by
  have sends := (acks.link.sendsTo a).sends
  rcases moved.acked sends mem with old | ⟨rfl, isSent, inTree, pack, holds, below⟩
  · exact acks.taken q old
  · have last := below.trans (acks.hand pack holds)
    refine acks.link.consumed isSent last fun empty => ?_
    -- with nothing consumed, only packet 0 can be acknowledged
    have zero := acks.link.receives.last
    rw [empty] at zero
    have nonneg := (sends.pushed.seqNum isSent).1
    have isZero : q.seqNum = 0 := Int.le_antisymm (last.trans_eq zero) nonneg
    exact first rfl (isZero ▸ inTree) empty

variable [DecidableEq ι]

instance (a b : ι) (s : Parties ι Session Packet) :
    (e : PartyAction ι Action) → Decidable (FirstTaken a b s e)
  | .act i .gotPack => inferInstanceAs (Decidable (i = a → _ → _ ≠ []))
  | .act _ (.push _ _) | .act _ (.wakeup _) | .act _ (.resend _) | .act _ (.sendAck _)
  | .act _ .stopSender | .act _ .process | .act _ .consume | .act _ (.read _)
  | .act _ (.retryTimer _) | .act _ .stopReceiver | .act _ (.connect _ _)
  | .act _ (.keepAlive _) | .act _ .sendClosing | .arrive _ _ => isTrue trivial

/-- Session `a` changes and sends nothing to itself. -/
theorem AckLink.update_a {s : Parties ι Session Packet} (acks : AckLink cfg a b s) (ne : a ≠ b)
    (apart : (cfg a).destInbox ≠ (cfg a).localInbox)
    (link : Link cfg a b (s.update a p sent)) (onlyTo : p.OnlyTo (cfg a).destInbox)
    (inbox : p.rcv.inbox = (s.party a).rcv.inbox)
    (dest : ∀ q ∈ sent, q.dest = (cfg a).destInbox)
    (hand : ∀ q, p.rcv.place.pack = some q →
      q.ackNum ≤ (s.party b).rcv.lastFrameClientConsumed)
    (taken : ∀ q ∈ p.snd.acked, ∃ q' ∈ (s.party b).rcv.consumed, q'.message = q.message) :
    AckLink cfg a b (s.update a p sent) := by
  have other := Parties.update_of_ne s (Ne.symm ne) p sent
  have self := s.update_self a p sent
  refine ⟨link, ?_, ?_, ?_, fun q mem toA => ?_, ?_, ?_⟩
  · rwa [self]
  · rw [self]
    exact inbox.trans acks.inbox
  · rw [other]
    exact acks.acks
  · rw [other]
    rcases mem_append.mp mem with old | new
    · exact acks.wire q old toA
    · exact absurd ((dest q new).symm.trans toA) apart
  · rwa [self, other]
  · rwa [self, other]

/-- Session `b` changes. -/
theorem AckLink.update_b {s : Parties ι Session Packet} (acks : AckLink cfg a b s) (ne : a ≠ b) (link : Link cfg a b (s.update b p sent))
    (acksTaken : p.AcksTaken)
    (grows : (s.party b).rcv.lastFrameClientConsumed ≤ p.rcv.lastFrameClientConsumed)
    (consumed : (s.party b).rcv.consumed <+: p.rcv.consumed)
    (sentAcks : ∀ q ∈ sent, q.ackNum ≤ p.rcv.lastFrameClientConsumed) :
    AckLink cfg a b (s.update b p sent) := by
  have other := Parties.update_of_ne s ne p sent
  have self := s.update_self b p sent
  refine ⟨link, ?_, ?_, ?_, fun q mem toA => ?_, fun q holds => ?_, fun q mem => ?_⟩
  · rw [other]
    exact acks.onlyTo
  · rw [other]
    exact acks.inbox
  · rwa [self]
  · rw [self]
    rcases mem_append.mp mem with old | new
    · exact (acks.wire q old toA).trans grows
    · exact sentAcks q new
  · rw [other] at holds
    rw [self]
    exact (acks.hand q holds).trans grows
  · rw [other] at mem
    rw [self]
    obtain ⟨q', isConsumed, eq⟩ := acks.taken q mem
    exact ⟨q', consumed.subset isConsumed, eq⟩

theorem AckLink.step {s : Parties ι Session Packet} (acks : AckLink cfg a b s)
    (two : ∀ i, i = a ∨ i = b) (ne : a ≠ b) (known : (cfg a).destInbox ≠ [])
    (apart : ∀ i, (cfg i).destInbox ≠ (cfg i).localInbox) {e : PartyAction ι Action}
    (first : FirstTaken a b s e) {s' : Parties ι Session Packet}
    (stepped : (swp blake2b).step s e = some s') : AckLink cfg a b s' := by
  have link : Link cfg a b s' := by
    refine acks.link.step (fun i other => ?_) stepped
    rw [(two i).resolve_left other]
    exact apart b
  have pushed := (acks.link.sendsTo a).sends.pushed
  rcases Protocol.step_cases stepped with
    ⟨i, act, p, sent, rfl, acted, rfl⟩ | ⟨i, k, m, p, rfl, onWire, addressed, arrived, rfl⟩
  · obtain ⟨-, moved⟩ := Session.step_moved acted
    rcases two i with rfl | rfl
    · obtain ⟨onlyTo, dest⟩ := acks.onlyTo.step known (acks.link.sendsTo _).sends moved
      exact acks.update_a ne (apart _) link onlyTo moved.continues.inbox dest
        (fun q holds => acks.hand q (moved.continues.hand q holds)) (acks.taken_step first moved)
    · have received := acks.link.receives.step pushed acks.link.hand moved
      have grows := moved.continues.last_le acks.link.receives received
      have nonneg : 0 ≤ p.rcv.lastFrameClientConsumed := received.last ▸ Int.natCast_nonneg _
      obtain ⟨taken, sentAcks⟩ := acks.acks.step (acks.link.sendsTo _) nonneg grows moved
      exact acks.update_b ne link taken grows moved.continues.consumed sentAcks
  · have arrival := (Session.arrive_takes arrived).arrival
    have responds {n : Int} {peer : Bytes} := @Session.arrive_responds blake2b n peer _ _ m arrived
    rcases two i with rfl | rfl
    · have remote := acks.onlyTo.remote
      refine acks.update_a ne (apart _) link ?_ arrival.inbox (fun _ mem => nomatch mem) ?_ ?_
      · exact acks.onlyTo.responds (n := 0) responds
          ((arrival.remote (remote ▸ known)).trans remote)
      · intro q holds
        rcases arrival.hand q holds with old | rfl
        · exact acks.hand q old
        · exact acks.wire q onWire ((of_decide_eq_true addressed).trans acks.inbox)
      · intro q mem
        obtain ⟨flow, queue, counter, kept⟩ := (@responds 0 []).kept
        rw [kept] at mem
        exact acks.taken q mem
    · have nonneg : 0 ≤ p.rcv.lastFrameClientConsumed :=
        arrival.last ▸ acks.link.receives.last ▸ Int.natCast_nonneg _
      exact acks.update_b ne link (acks.acks.responds (@responds 0 []) arrival.last.ge nonneg)
        arrival.last.ge (arrival.consumed ▸ prefix_rfl) fun _ mem => nomatch mem

/-- Of two sessions `a` and `b`, the sender of `a` takes a packet for acknowledged only if the
consumer of `b` has taken it, provided that nothing is handed to the sender of `a` between its first
packet and the moment the consumer of `b` has taken that packet. -/
theorem acked_consumed (blake2b : Bytes → Bytes) (cfg : ι → SessionConfig) (a b : ι)
    (two : ∀ i, i = a ∨ i = b) (ne : a ≠ b) (windows : ∀ i, 1 ≤ (cfg i).windowMsgCount)
    (known : (cfg a).destInbox ≠ []) (apart : ∀ i, (cfg i).destInbox ≠ (cfg i).localInbox)
    (actions : List (PartyAction ι Action)) (s : Parties ι Session Packet)
    (along : Along (swp blake2b).step (FirstTaken a b) (start cfg) actions)
    (ran : runFrom (swp blake2b).step (start cfg) actions = some s) :
    ∀ p ∈ (s.party a).snd.acked, ∃ q ∈ (s.party b).rcv.consumed,
      q.seqNum = p.seqNum ∧ q.data = p.data := by
  have acks : AckLink cfg a b s :=
    invariant_of_along (fun _ _ _ inv first => inv.step two ne known apart first)
      (ackLink_start windows) along ran
  intro p mem
  obtain ⟨q, consumed, same⟩ := acks.taken p mem
  have seqNum : q.message.seqNum = p.message.seqNum := congrArg Packet.seqNum same
  have data : q.message.data = p.message.data := congrArg Packet.data same
  exact ⟨q, consumed, seqNum, data⟩

/-- The packet of `a` is consumed at `b` before the ack reaches `a`. -/
theorem acked_consumed_one : ∃ s,
    runFrom (swp id).step (start (joined 2 2))
      [.act .a (.push (bytesOf "x") 10), .arrive .b 0, .act .b .gotPack, .act .b .process,
        .act .b .consume, .act .b (.sendAck false), .arrive .a 1, .act .a .gotPack] = some s ∧
      (s.party .a).snd.acked.length = 1 ∧
      ∀ p ∈ (s.party .a).snd.acked, ∃ q ∈ (s.party .b).rcv.consumed,
        q.seqNum = p.seqNum ∧ q.data = p.data := by
  refine exists_run_imp (P := fun s => (s.party .a).snd.acked.length = 1)
    (fun s ran final => ⟨final, ?_⟩) (by decide)
  exact acked_consumed id (joined 2 2) .a .b (fun i => by cases i <;> simp) (by decide)
    (fun i => by cases i <;> decide) (by decide) (fun i => by cases i <;> decide) _ s
    (by decide) ran

/-- Data of `b` that crosses the first packet of `a` acknowledges it, although `b` has not received
it. -/
theorem acked_not_received : ∃ s,
    runFrom (swp id).step (start (joined 2 2))
      [.act .a (.push (bytesOf "x") 10), .act .b (.push (bytesOf "y") 10), .arrive .a 1,
        .act .a .gotPack] = some s ∧
      (s.party .a).snd.acked.map Packet.data = [bytesOf "x"] ∧
      (s.party .a).snd.sentButNotAckedBySeqNum = [] ∧
      (s.party .b).rcv.consumed = [] ∧ (s.party .b).rcv.largestSeqnoRcvd = -1 :=
  exists_run (by decide)

end NoFalseAck

end Hnatsd.Swp
