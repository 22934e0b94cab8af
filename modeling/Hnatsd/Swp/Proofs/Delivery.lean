import Hnatsd.Swp.Proofs.Receiving

/-!
# Delivery in order, and acknowledgements

Whatever the network does, the consumer of a session gets a beginning of what its peer pushed, each
packet once and in order. An `AckNum` of 0 stands for "nothing consumed yet" as well as for
"packet 0 consumed", so a sender takes the first packet it receives as an ack of its packet 0.
-/

namespace Hnatsd.Swp
open Misc List Session Parties

/-- The packet in the receiver's hands. -/
def RecvAt.pack : RecvAt → Option Packet
  | .select => none
  | .handing pack | .handed pack => some pack

/-- The data of a push. -/
def Action.pushes : Action → List Bytes
  | .push data _ => [data]
  | _ => []

section Sending

/-- All data of a session goes to `dest`, and its queue of acks holds none. -/
structure Session.SendsTo (dest : Bytes) (s : Session) : Prop where
  sends : s.snd.Sends dest
  queue : ∀ a ∈ s.snd.sendAck, a.tcpEvent ≠ .data

/-- A step adds the pushed packets to the history and sends packets of the history only. -/
structure Session.SendsIn (dest : Bytes) (s s' : Session) (pushes : List Bytes)
    (sent : List Packet) : Prop where
  sendsTo : s'.SendsTo dest
  history : ∃ news, s'.snd.sendHistory = s.snd.sendHistory ++ news ∧
    news.map Packet.data = pushes
  sent : ∀ p ∈ sent, p.tcpEvent = .data → p.dest = dest ∧ Sent s'.snd.sendHistory p

variable {blake2b : Bytes → Bytes} {dest : Bytes} {s s' : Session}

theorem Session.SendsTo.responds (sendsTo : s.SendsTo dest) {n : Int} {peer : Bytes}
    (responds : Responds n peer s s') {pushes : List Bytes} (none' : pushes = [])
    {sent : List Packet} (notData : ∀ p ∈ sent, p.tcpEvent ≠ .data) :
    SendsIn dest s s' pushes sent := by
  obtain ⟨flow, acks, counter, kept⟩ := responds.kept
  have sends := sendsTo.sends
  refine ⟨⟨?_, fun a mem => ?_⟩, ⟨[], by rw [kept, append_nil], none'.symm⟩, fun p mem isData => ?_⟩
  · rw [kept]
    exact ⟨sends.ring, sends.dest, sends.count, sends.pushed, sends.slots⟩
  · rcases responds.acks a mem with old | new
    · exact sendsTo.queue a old
    · exact new.2.1
  · exact absurd isData (notData p mem)

theorem SenderState.doKeepAlive_fields (snd : SenderState) {state : TcpState} {due : Bool}
    {p : Packet} (mem : p ∈ snd.doKeepAlive state due) :
    p.tcpEvent = .keepAlive ∧ p.ackNum = snd.recvLastFrameClientConsumed ∧ p.dest = snd.dest ∧
      p.availReaderMsgCap = snd.flow.availReaderMsgCap := by
  unfold SenderState.doKeepAlive at mem
  split_ifs at mem
  · cases mem
  · cases mem
  · rw [mem_singleton] at mem
    subst mem
    exact ⟨rfl, rfl, rfl, rfl⟩

theorem Session.SendsTo.step (sendsTo : s.SendsTo dest) {a : Action} {sent : List Packet}
    (moved : s.Moved blake2b a s' sent) : SendsIn dest s s' a.pushes sent := by
  have sends := sendsTo.sends
  have queue := sendsTo.queue
  cases moved with
  | push data deadline free =>
    obtain ⟨sends', isSent⟩ := sends.doOrigDataSend blake2b data deadline
    refine ⟨⟨sends', queue⟩, ⟨[_], rfl, rfl⟩, fun p mem isData => ?_⟩
    rw [mem_singleton] at mem
    subst mem
    exact ⟨sends.dest, isSent⟩
  | wakeup now free =>
    exact ⟨⟨sends.wakeup now, queue⟩, ⟨[], (append_nil _).symm, rfl⟩, fun _ mem => nomatch mem⟩
  | resend pos rest deadline waiting =>
    obtain ⟨sends', isSent⟩ := sends.resend waiting deadline
    refine ⟨⟨sends', queue⟩, ⟨[], (append_nil _).symm, rfl⟩, fun p mem _ => ?_⟩
    rw [mem_singleton] at mem
    subst mem
    exact ⟨(sends.pushed.fields isSent).2.2, isSent⟩
  | sendAck ackPack rest fails runs queued =>
    rw [queued] at queue
    obtain ⟨nonce, learned⟩ := s.snd.learnNonce_fields ackPack
    rw [learned]
    refine ⟨⟨?_, fun a mem => queue a (mem_cons_of_mem _ mem)⟩,
      ⟨[], (append_nil _).symm, rfl⟩, fun p mem isData => ?_⟩
    · exact ⟨sends.ring, sends.dest, sends.count, sends.pushed, sends.slots⟩
    · split_ifs at mem
      · cases mem
      · rw [mem_singleton] at mem
        exact absurd isData (queue p (mem ▸ mem_cons_self))
  | gotPack pack handing free =>
    have got := (sends.gotPack pack.copySansData).1
    refine ⟨⟨?_, ?_⟩, ⟨[], ?_, rfl⟩, fun _ mem => nomatch mem⟩
    · rw [s.handOver_snd]
      exact got
    · rw [s.handOver_snd]
      exact queue
    · rw [s.handOver_snd, append_nil]
      rfl
  | data pack handed isData =>
    have back : s.backToSelect.SendsTo dest := ⟨sends, queue⟩
    have sendsIn : SendsIn dest s.backToSelect (s.backToSelect.recvData pack) [] [] :=
      back.responds (s.backToSelect.recvData_responds rfl rfl pack) rfl fun _ mem => nomatch mem
    exact ⟨sendsIn.sendsTo, sendsIn.history, sendsIn.sent⟩
  | info pack handed isInfo =>
    have back : s.backToSelect.SendsTo dest := ⟨sends, queue⟩
    have answers := s.backToSelect.recvInfo_answers rfl rfl pack
    have sendsIn : SendsIn dest s.backToSelect (s.backToSelect.recvInfo pack) [] [] :=
      back.responds answers.responds rfl fun _ mem => nomatch mem
    exact ⟨sendsIn.sendsTo, sendsIn.history, sendsIn.sent⟩
  | consume lastPack last =>
    exact sendsTo.responds (s.deliverToConsumer_responds rfl lastPack) rfl fun _ mem => nomatch mem
  | read lenp =>
    exact sendsTo.responds (s.fillAsMuchAsPossible_responds rfl lenp) rfl fun _ mem => nomatch mem
  | retryTimer elapsed =>
    exact sendsTo.responds (s.retryCheck_answers rfl rfl elapsed).responds rfl
      fun _ mem => nomatch mem
  | connect destInbox fails =>
    obtain ⟨remote, -, -, syn⟩ := s.connect_window destInbox fails
    exact sendsTo.responds (@connect_responds 0 [] s destInbox fails) rfl
      fun p mem => (syn p mem).2.1
  | keepAlive due =>
    refine ⟨sendsTo, ⟨[], (append_nil _).symm, rfl⟩, fun p mem isData => ?_⟩
    rw [(s.snd.doKeepAlive_fields mem).1] at isData
    cases isData
  | sendClosing =>
    refine ⟨sendsTo, ⟨[], (append_nil _).symm, rfl⟩, fun p mem isData => ?_⟩
    rw [mem_singleton] at mem
    subst mem
    cases isData
  | stopSender => exact ⟨⟨sends, queue⟩, ⟨[], (append_nil _).symm, rfl⟩, fun _ mem => nomatch mem⟩
  | stopReceiver => exact ⟨⟨sends, queue⟩, ⟨[], (append_nil _).symm, rfl⟩, fun _ mem => nomatch mem⟩

theorem Session.SendsTo.arrive (sendsTo : s.SendsTo dest) {pack : Packet}
    (arrived : s.arrive blake2b pack = some s') : SendsIn dest s s' [] [] :=
  sendsTo.responds (@arrive_responds blake2b 0 [] s s' pack arrived) rfl
    fun _ mem => nomatch mem

end Sending

section Taking

/-- What the consumer has taken stays taken, a known peer stays the peer, and no new packet comes
into the receiver's hands. -/
structure RecvState.Continues (r r' : RecvState) : Prop where
  inbox : r'.inbox = r.inbox
  remote : r.remoteInbox ≠ [] → r'.remoteInbox = r.remoteInbox
  consumed : r.consumed <+: r'.consumed
  hand : ∀ p, r'.place.pack = some p → r.place.pack = some p

variable {blake2b : Bytes → Bytes} {peer : Bytes} {history : List Packet} {s s' : Session}
  {r r' : RecvState}

theorem RecvState.Continues.refl (r : RecvState) : r.Continues r :=
  ⟨rfl, fun _ => rfl, prefix_rfl, fun _ => id⟩

theorem RecvState.SameConsumer.continues (same : r.SameConsumer r') : r.Continues r' where
  inbox := same.inbox
  remote _ := same.remote
  consumed := same.consumed ▸ prefix_rfl
  hand _ holds := same.place ▸ holds

theorem RecvState.Receives.elsewhere (receives : r.Receives history) (remote : Bytes)
    (place : RecvAt) :
    RecvState.Receives history { r with remoteInbox := remote, place := place } :=
  ⟨receives.ring, receives.held, receives.inOrder, receives.next, receives.last⟩

theorem Session.Moved.continues {a : Action} {sent : List Packet}
    (moved : s.Moved blake2b a s' sent) : s.rcv.Continues s'.rcv := by
  have back {r : RecvState} (same : s.backToSelect.rcv.SameConsumer r) : s.rcv.Continues r := by
    refine ⟨same.inbox, fun _ => same.remote, same.consumed ▸ prefix_rfl, fun p holds => ?_⟩
    rw [same.place] at holds
    cases holds
  cases moved with
  | gotPack pack handing free =>
    rw [s.handOver_rcv]
    refine ⟨rfl, fun _ => rfl, prefix_rfl, fun p holds => ?_⟩
    rw [handing]
    exact holds
  | data pack handed isData => exact back (s.backToSelect.recvData_consumer pack)
  | info pack handed isInfo =>
    exact back (s.backToSelect.recvInfo_answers rfl rfl pack).window.sameConsumer
  | consume lastPack last =>
    exact ⟨rfl, fun _ => rfl, prefix_append _ _, fun _ => id⟩
  | read lenp =>
    have ring := s.fillAsMuchAsPossible_ring lenp
    exact ⟨ring.inbox, fun _ => ring.remote, ring.consumed, fun _ holds => ring.place ▸ holds⟩
  | retryTimer elapsed =>
    exact (s.retryCheck_answers rfl rfl elapsed).window.sameConsumer.continues
  | connect destInbox fails =>
    obtain ⟨remote, known, same, -⟩ := s.connect_window destInbox fails
    refine ⟨same.inbox, fun isKnown => ?_, same.consumed ▸ prefix_rfl, fun p holds => ?_⟩
    · exact same.remote.trans (known isKnown)
    · rwa [same.place] at holds
  | push | wakeup | resend | sendAck | keepAlive | sendClosing | stopSender | stopReceiver =>
    exact .refl _

theorem RecvState.Receives.step (receives : s.rcv.Receives history)
    (pushed : PushedTo peer history)
    (hand : ∀ p, s.rcv.place.pack = some p → p.tcpEvent = .data → Sent history p)
    {a : Action} {sent : List Packet} (moved : s.Moved blake2b a s' sent) :
    s'.rcv.Receives history := by
  have back : s.backToSelect.rcv.Receives history := receives.elsewhere s.rcv.remoteInbox .select
  cases moved with
  | gotPack pack handing free =>
    rw [s.handOver_rcv]
    exact receives.elsewhere s.rcv.remoteInbox _
  | data pack handed isData =>
    exact recvData_receives back pushed (hand pack (by rw [handed]; rfl) isData)
  | info pack handed isInfo =>
    exact back.same (s.backToSelect.recvInfo_answers rfl rfl pack).window
  | consume lastPack last => exact deliverToConsumer_receives receives pushed last
  | read lenp => exact fillAsMuchAsPossible_receives receives pushed lenp
  | retryTimer elapsed => exact receives.same (s.retryCheck_answers rfl rfl elapsed).window
  | connect destInbox fails =>
    obtain ⟨remote, -, same, -⟩ := s.connect_window destInbox fails
    exact (receives.elsewhere remote s.rcv.place).same same
  | push | wakeup | resend | sendAck | keepAlive | sendClosing | stopSender | stopReceiver =>
    exact receives

theorem RecvState.Receives.takes (receives : r.Receives history) {pack : Packet}
    (takes : r.Takes pack r') : r'.Receives history := by
  obtain ⟨place, remote, -, -, same⟩ := takes
  exact (receives.elsewhere remote place).same same

/-- What an arrival leaves alone. -/
structure RecvState.Arrival (pack : Packet) (r r' : RecvState) : Prop where
  inbox : r'.inbox = r.inbox
  remote : r.remoteInbox ≠ [] → r'.remoteInbox = r.remoteInbox
  consumed : r'.consumed = r.consumed
  batches : r'.batches = r.batches
  last : r'.lastFrameClientConsumed = r.lastFrameClientConsumed
  hand : ∀ p, r'.place.pack = some p → r.place.pack = some p ∨ p = pack

theorem RecvState.Takes.arrival {pack : Packet} (takes : r.Takes pack r') :
    r.Arrival pack r' := by
  obtain ⟨place, remote, placed, known, same⟩ := takes
  refine ⟨same.inbox, fun isKnown => same.remote.trans (known isKnown), same.consumed,
    same.batches, same.last, fun p holds => ?_⟩
  rw [same.place] at holds
  rcases placed with rfl | ⟨rfl, -⟩
  · exact Or.inl holds
  · exact Or.inr (Option.some.inj holds).symm

/-- Without calls of `Read`, the consumer has taken what its batches hold. -/
theorem RecvState.batches_step {a : Action} {sent : List Packet}
    (moved : s.Moved blake2b a s' sent) (notRead : ∀ lenp, a ≠ .read lenp)
    (batched : s.rcv.batches.flatten = s.rcv.consumed) :
    s'.rcv.batches.flatten = s'.rcv.consumed := by
  have same {r : RecvState} (batches : r.batches = s.rcv.batches)
      (consumed : r.consumed = s.rcv.consumed) : r.batches.flatten = r.consumed := by
    rw [batches, consumed, batched]
  cases moved with
  | gotPack pack handing free =>
    rw [s.handOver_rcv]
    exact batched
  | data pack handed isData =>
    have kept := s.backToSelect.recvData_consumer pack
    exact same kept.batches kept.consumed
  | info pack handed isInfo =>
    have kept := (s.backToSelect.recvInfo_answers rfl rfl pack).window
    exact same kept.batches kept.consumed
  | consume lastPack last =>
    show (s.rcv.batches ++ [s.rcv.readyForDelivery]).flatten = _
    rw [flatten_append, batched, flatten_singleton]
    rfl
  | read lenp => exact absurd rfl (notRead lenp)
  | retryTimer elapsed =>
    have kept := (s.retryCheck_answers rfl rfl elapsed).window
    exact same kept.batches kept.consumed
  | connect destInbox fails =>
    obtain ⟨remote, known, kept, -⟩ := s.connect_window destInbox fails
    exact same kept.batches kept.consumed
  | push | wakeup | resend | sendAck | keepAlive | sendClosing | stopSender | stopReceiver =>
    exact batched

end Taking

section Link

variable {ι : Type} {blake2b : Bytes → Bytes} {cfg : ι → SessionConfig} {a b : ι}

/-- Session `b` receives data from `a` only, and what it has received is what `a` pushed. -/
structure Link (cfg : ι → SessionConfig) (a b : ι) (s : Parties ι Session Packet) : Prop where
  sendsTo : ∀ i, (s.party i).SendsTo (cfg i).destInbox
  inbox : (s.party b).rcv.inbox = (cfg b).localInbox
  receives : (s.party b).rcv.Receives (s.party a).snd.sendHistory
  wire : ∀ p ∈ s.wire, p.tcpEvent = .data → p.dest = (cfg b).localInbox →
    Sent (s.party a).snd.sendHistory p
  hand : ∀ p, (s.party b).rcv.place.pack = some p → p.tcpEvent = .data →
    Sent (s.party a).snd.sendHistory p

theorem link_start (windows : ∀ i, 1 ≤ (cfg i).windowMsgCount) : Link cfg a b (start cfg) where
  sendsTo i := ⟨SenderState.sends_new (windows i) _ _, fun _ mem => nomatch mem⟩
  inbox := rfl
  receives := RecvState.receives_new (windows b) _ _ _ _
  wire _ mem := nomatch mem
  hand _ holds := nomatch holds

variable [DecidableEq ι]

/-- What one session's step does to the link, given what it does to the session. -/
theorem Link.update {s : Parties ι Session Packet} (link : Link cfg a b s)
    (only : ∀ i, i ≠ a → (cfg i).destInbox ≠ (cfg b).localInbox) {i : ι} {p : Session}
    {pushes : List Bytes} {sent : List Packet}
    (sendsIn : SendsIn (cfg i).destInbox (s.party i) p pushes sent)
    (inbox : i = b → p.rcv.inbox = (s.party b).rcv.inbox)
    (receives : i = b → p.rcv.Receives (s.party a).snd.sendHistory)
    (hand : i = b → ∀ q, p.rcv.place.pack = some q → q.tcpEvent = .data →
      Sent (s.party a).snd.sendHistory q) :
    Link cfg a b (s.update i p sent) := by
  have grows : (s.party a).snd.sendHistory <+: ((s.update i p sent).party a).snd.sendHistory := by
    by_cases same : a = i
    · subst same
      obtain ⟨news, eq, -⟩ := sendsIn.history
      rw [update_self, eq]
      exact prefix_append _ _
    · simp only [update_of_ne s same, prefix_rfl]
  refine ⟨fun j => ?_, ?_, ?_, fun q mem isData toB => ?_, fun q holds isData => ?_⟩
  · by_cases same : j = i
    · subst same
      rw [update_self]
      exact sendsIn.sendsTo
    · rw [update_of_ne s same]
      exact link.sendsTo j
  · by_cases same : b = i
    · subst same
      rw [update_self]
      exact (inbox rfl).trans link.inbox
    · rw [update_of_ne s same]
      exact link.inbox
  · refine RecvState.Receives.mono ?_ grows
    by_cases same : b = i
    · subst same
      rw [update_self]
      exact receives rfl
    · rw [update_of_ne s same]
      exact link.receives
  · rcases mem_append.mp mem with old | new
    · exact (link.wire q old isData toB).mono grows
    · obtain ⟨dest, isSent⟩ := sendsIn.sent q new isData
      have isA : i = a := by
        by_contra other
        exact only i other (dest.symm.trans toB)
      subst isA
      rwa [update_self]
  · refine Sent.mono ?_ grows
    by_cases same : b = i
    · subst same
      rw [update_self] at holds
      exact hand rfl q holds isData
    · rw [update_of_ne s same] at holds
      exact link.hand q holds isData

theorem Link.step {s : Parties ι Session Packet} (link : Link cfg a b s)
    (only : ∀ i, i ≠ a → (cfg i).destInbox ≠ (cfg b).localInbox) {e : PartyAction ι Action}
    {s' : Parties ι Session Packet} (stepped : (swp blake2b).step s e = some s') :
    Link cfg a b s' := by
  have pushed := (link.sendsTo a).sends.pushed
  rcases Protocol.step_cases stepped with
    ⟨i, act, p, sent, rfl, acted, rfl⟩ | ⟨i, k, m, p, rfl, onWire, addressed, arrived, rfl⟩
  · obtain ⟨-, moved⟩ := step_moved acted
    refine link.update only ((link.sendsTo i).step moved) ?_ ?_ ?_
    · rintro rfl
      exact moved.continues.inbox
    · rintro rfl
      exact link.receives.step pushed link.hand moved
    · rintro rfl q holds isData
      exact link.hand q (moved.continues.hand q holds) isData
  · have takes := arrive_takes arrived
    refine link.update only ((link.sendsTo i).arrive arrived) ?_ ?_ ?_
    · rintro rfl
      exact takes.arrival.inbox
    · rintro rfl
      exact link.receives.takes takes
    · rintro rfl q holds isData
      rcases takes.arrival.hand q holds with old | rfl
      · exact link.hand q old isData
      · exact link.wire q onWire isData ((of_decide_eq_true addressed).trans link.inbox)

/-- The data that an action pushes at session `i`. -/
def pushesAt (i : ι) : PartyAction ι Action → List Bytes
  | .act j a => if j = i then a.pushes else []
  | .arrive _ _ => []

/-- The data of the pushes at session `i`. -/
def pushesOf (i : ι) (actions : List (PartyAction ι Action)) : List Bytes :=
  actions.flatMap (pushesAt i)

theorem Session.SendsTo.protocolStep {s s' : Parties ι Session Packet} {i : ι}
    {e : PartyAction ι Action} {dest : Bytes} (sendsTo : (s.party i).SendsTo dest)
    (stepped : (swp blake2b).step s e = some s') :
    SendsIn dest (s.party i) (s'.party i) (pushesAt i e) [] := by
  have idle : SendsIn dest (s.party i) (s.party i) [] [] :=
    ⟨sendsTo, ⟨[], (append_nil _).symm, rfl⟩, fun _ mem => nomatch mem⟩
  rcases Protocol.step_cases stepped with
    ⟨j, act, p, sent, rfl, acted, rfl⟩ | ⟨j, k, m, p, rfl, -, -, arrived, rfl⟩
  · by_cases same : i = j
    · subst same
      have sendsIn := sendsTo.step (step_moved acted).2
      rw [update_self, pushesAt, if_pos rfl]
      exact ⟨sendsIn.sendsTo, sendsIn.history, fun _ mem => nomatch mem⟩
    · rw [update_of_ne s same, pushesAt, if_neg (Ne.symm same)]
      exact idle
  · by_cases same : i = j
    · subst same
      rw [update_self]
      exact sendsTo.arrive arrived
    · rw [update_of_ne s same]
      exact idle

theorem history_pushes {s s' : Parties ι Session Packet} {i : ι}
    {actions : List (PartyAction ι Action)} {dest : Bytes} (sendsTo : (s.party i).SendsTo dest)
    (ran : runFrom (swp blake2b).step s actions = some s') :
    (s'.party i).snd.sendHistory.map Packet.data =
      (s.party i).snd.sendHistory.map Packet.data ++ pushesOf i actions := by
  induction actions generalizing s with
  | nil =>
    cases ran
    exact (append_nil _).symm
  | cons e rest ih =>
    obtain ⟨mid, stepped, ran⟩ := Option.bind_eq_some_iff.mp ran
    have sendsIn := sendsTo.protocolStep stepped
    obtain ⟨news, history, data⟩ := sendsIn.history
    rw [ih sendsIn.sendsTo ran, history, map_append, data, append_assoc]
    rfl

/-- Without calls of `Read` at `b`, its consumer has taken what its batches hold. -/
theorem batches_run {s : Parties ι Session Packet} {actions : List (PartyAction ι Action)}
    (noRead : ∀ lenp, PartyAction.act b (.read lenp) ∉ actions)
    (ran : runFrom (swp blake2b).step (start cfg) actions = some s) :
    (s.party b).rcv.batches.flatten = (s.party b).rcv.consumed := by
  refine @invariant_of_along _ _ _ (fun _ e => ∀ lenp, e ≠ .act b (.read lenp))
    (fun s => (s.party b).rcv.batches.flatten = (s.party b).rcv.consumed) ?_ _ s actions rfl
    (along_of_forall fun e mem _ lenp is => noRead lenp (is ▸ mem)) ran
  intro s e s' inv guard stepped
  refine @Protocol.local_invariant _ _ _ _ _ _ b
    (fun s : Session => s.rcv.batches.flatten = s.rcv.consumed)
    (fun _ act => ∀ lenp, act ≠ Action.read lenp) ?_ ?_ s e s' inv ?_ stepped
  · intro p act p' sent inv notRead acted
    exact RecvState.batches_step (step_moved acted).2 notRead inv
  · intro p m p' inv arrived
    have arrival := (arrive_takes arrived).arrival
    rw [arrival.batches, arrival.consumed]
    exact inv
  · rintro act rfl lenp rfl
    exact guard lenp rfl

/-- The batches that the consumer of `b` has received from `ReadMessagesCh` make up, at every moment
and in order, the packets pushed at `a`: the `k`-th has the number `k` and the data of the `k`-th
push. -/
theorem delivered_in_order (blake2b : Bytes → Bytes) (cfg : ι → SessionConfig) (a b : ι)
    (windows : ∀ i, 1 ≤ (cfg i).windowMsgCount)
    (only : ∀ i, i ≠ a → (cfg i).destInbox ≠ (cfg b).localInbox)
    (actions : List (PartyAction ι Action)) (s : Parties ι Session Packet)
    (noRead : ∀ lenp, PartyAction.act b (.read lenp) ∉ actions)
    (ran : runFrom (swp blake2b).step (start cfg) actions = some s) :
    (s.party b).rcv.batches.flatten.map Packet.data <+: pushesOf a actions ∧
      ∀ (k : Nat) (p : Packet), (s.party b).rcv.batches.flatten[k]? = some p → p.seqNum = k := by
  have link : Link cfg a b s := invariant_of_run (fun _ _ _ inv => inv.step only)
    (link_start windows) ran
  have history := history_pushes ((@link_start ι cfg a b windows).sendsTo a) ran
  rw [batches_run noRead ran]
  have inOrder : (s.party b).rcv.consumed <+: (s.party b).rcv.ordered := prefix_append _ _
  refine ⟨?_, fun k p found => ?_⟩
  · have data := ((inOrder.map Packet.message).trans link.receives.inOrder).map Packet.data
    rw [map_map, map_map] at data
    change _ <+: (s.party a).snd.sendHistory.map Packet.data at data
    rw [history] at data
    exact data
  · obtain ⟨rest, eq⟩ := inOrder
    have inOrdered : (s.party b).rcv.ordered[k]? = some p := by
      rw [← eq, getElem?_append_left (List.getElem?_eq_some_iff.mp found).1]
      exact found
    exact (link.receives.numbered (link.sendsTo a).sends.pushed inOrdered).1

/-- The second packet arrives first, then the first one twice, and the consumer takes both at
once. -/
theorem delivered_in_order_two : ∃ s,
    runFrom (swp id).step (start (joined 2 2))
      [.act .a (.push (bytesOf "x") 10), .act .a (.push (bytesOf "y") 20), .arrive .b 1,
        .act .b .gotPack, .act .b .process, .arrive .b 0, .act .b .gotPack, .act .b .process,
        .arrive .b 0, .act .b .gotPack, .act .b .process, .act .b .consume] = some s ∧
      (s.party .b).rcv.batches.flatten.length = 2 ∧
      (s.party .b).rcv.batches.flatten.map Packet.data <+: [bytesOf "x", bytesOf "y"] := by
  refine exists_run_imp (P := fun s => (s.party .b).rcv.batches.flatten.length = 2)
    (fun s ran final => ⟨final, ?_⟩) (by decide)
  exact (delivered_in_order id (joined 2 2) .a .b (fun i => by cases i <;> decide)
    (fun i other => by cases i <;> first | exact absurd rfl other | decide) _ s
    (fun lenp mem => by simp at mem) ran).1

end Link

end Hnatsd.Swp
