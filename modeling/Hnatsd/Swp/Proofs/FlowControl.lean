import Hnatsd.Swp.Proofs.Acknowledged
import Hnatsd.Swp.Proofs.Advertised
import Hnatsd.Swp.Proofs.RetryScheduled

/-!
# Flow control

The sender pushes while it has fewer packets in flight than the peer advertised last. No
advertisement exceeds the window of the peer, and what is in flight is everything sent that has not
been acknowledged, as long as no slot of the ring is overwritten. So the receiver is not overrun
unless the sender goes by a capacity the peer never advertised (its own window, before it has
received anything) or takes a packet for acknowledged that the peer has not consumed.
-/

namespace Hnatsd.Swp
open Misc List Session SenderState

variable {sent : List Packet} {p : Session}

section Sender

variable {blake2b : Bytes → Bytes} {s s' : Session}

/-- What a sender learns from its peer, it learns from the packet it is handed. -/
theorem Session.Moved.learns {act : Action}
    (moved : s.Moved blake2b act s' sent) :
    s'.snd.senderWindowSize = s.snd.senderWindowSize ∧ ((s'.snd.heard = s.snd.heard ∧
      s'.snd.lastSeenAvailReaderMsgCap = s.snd.lastSeenAvailReaderMsgCap) ∨
    ∃ pack, act = .gotPack ∧ s.snd.retrying = [] ∧ s.rcv.place.pack = some pack ∧
      s'.snd.heard = s.snd.heard ++ [(s.snd.lastFrameSent, pack.ackNum)] ∧
      s'.snd.lastSeenAvailReaderMsgCap = pack.availReaderMsgCap) := by
  generalize after : s'.snd = snd
  have sender := moved.sender
  rw [after] at sender
  cases sender with
  | gotPack pack handing free =>
    exact ⟨rfl, Or.inr ⟨pack, rfl, free, by rw [handing]; rfl, rfl, rfl⟩⟩
  | push | wakeup | resend | beside => exact ⟨rfl, Or.inl ⟨rfl, rfl⟩⟩

/-- The flow check compares what is in flight with the capacity seen last. -/
theorem SenderState.inflight_lt {snd : SenderState} (accepts : snd.acceptSend = true) :
    (snd.sentButNotAckedByDeadline.length : Int) < snd.lastSeenAvailReaderMsgCap := by
  have capacity := (of_decide_eq_true accepts).1
  change 0 < snd.lastSeenAvailReaderMsgCap - (snd.sentButNotAckedByDeadline.length : Int) at capacity
  omega

/-- The packets in flight are those sent from `low` on. -/
theorem SenderState.Tracks.inflight {snd : SenderState} {low : Int} (tracks : snd.Tracks low)
    (free : snd.retrying = []) :
    (snd.sentButNotAckedByDeadline.length : Int) = snd.sendHistory.length - low := by
  have count := tracks.covers.length tracks.lowest.2
  rw [length_map, live_of_free free, ← tracks.trees.same.length_eq] at count
  have numbered := tracks.numbered
  omega

end Sender

section Flow

variable {ι : Type} {blake2b : Bytes → Bytes} {cfg : ι → SessionConfig} {a b : ι}

/-- Before the sender of `a` has been handed anything, it pushes no more than the window of `b`. -/
def FirstWindow (a b : ι) (s : Parties ι Session Packet) : PartyAction ι Action → Prop
  | .act i (.push _ _) =>
      i = a → (s.party a).snd.heard = [] →
        ((s.party a).snd.sentButNotAckedByDeadline.length : Int) < (s.party b).rcv.recvWindowSize
  | _ => True

/-- The sender of `a` never has more packets on their way than the window of `b`. -/
structure FlowLink (cfg : ι → SessionConfig) (a b : ι) (s : Parties ι Session Packet) : Prop where
  acks : AckLink cfg a b s
  tracked : (s.party a).Tracked
  heard : ∀ e ∈ (s.party a).snd.heard, min e.1 e.2 < (s.party b).rcv.consumed.length
  advertises : (s.party b).Advertises (cfg b).windowMsgCount
  wire : ∀ p ∈ s.wire, p.dest = (cfg a).localInbox →
    p.availReaderMsgCap ≤ (cfg b).windowMsgCount
  hand : ∀ p, (s.party a).rcv.place.pack = some p → p.availReaderMsgCap ≤ (cfg b).windowMsgCount
  capacity : (s.party a).snd.heard ≠ [] →
    (s.party a).snd.lastSeenAvailReaderMsgCap ≤ (cfg b).windowMsgCount
  bound : (s.party a).snd.sendHistory.length ≤
    (s.party b).rcv.consumed.length + (cfg b).windowMsgCount

/-- The packets that `a` has sent and the consumer of `b` has not consumed. -/
def unconsumed (a b : ι) (s : Parties ι Session Packet) : List Packet :=
  (s.party a).snd.sendHistory.filter fun p =>
    p.seqNum ∉ (s.party b).rcv.consumed.map Packet.seqNum

theorem flowLink_start (windows : ∀ i, 1 ≤ (cfg i).windowMsgCount) :
    FlowLink cfg a b (start cfg) where
  acks := ackLink_start windows
  tracked := ⟨⟨0, tracks_new (windows a) _ _ _⟩, nofun⟩
  heard e mem := by cases mem
  advertises := advertises_new (cfg b)
  wire p mem := by cases mem
  hand p holds := by cases holds
  capacity none' := absurd rfl none'
  bound := Nat.zero_le _

/-- What is not in flight has been consumed. -/
theorem FlowLink.low_le {s : Parties ι Session Packet} (flow : FlowLink cfg a b s) {low : Int}
    (tracks : (s.party a).snd.Tracks low) : low ≤ (s.party b).rcv.consumed.length := by
  rcases tracks.lowFrom with rfl | ⟨e, mem, rfl⟩
  · exact Int.natCast_nonneg _
  · exact flow.heard e mem

/-- What the sender of `a` is handed acknowledges nothing that is not consumed. -/
theorem FlowLink.heard_gotPack {s : Parties ι Session Packet} (flow : FlowLink cfg a b s)
    (first : FirstTaken a b s (.act a .gotPack)) (free : (s.party a).snd.retrying = [])
    {pack : Packet} (holds : (s.party a).rcv.place.pack = some pack) :
    min (s.party a).snd.lastFrameSent pack.ackNum < (s.party b).rcv.consumed.length := by
  obtain ⟨⟨low, tracks⟩, -⟩ := flow.tracked
  have acked := flow.acks.hand pack holds
  have last := flow.acks.link.receives.last
  have low_le := flow.low_le tracks
  have lowest := tracks.lowest
  by_cases unsent : (s.party a).snd.lastFrameSent < 0
  · omega
  by_cases empty : (s.party b).rcv.consumed = []
  · -- nothing is acknowledged yet, so packet 0 is in flight
    rw [empty, length_nil] at low_le
    have inFlight := (tracks.covers.mem 0).mpr ⟨by omega, by omega⟩
    rw [live_of_free free] at inFlight
    exact absurd empty (first rfl inFlight)
  · have := length_pos_iff.mpr empty
    omega

/-- A push that the flow check accepts. -/
theorem FlowLink.bound_push {s : Parties ι Session Packet} (flow : FlowLink cfg a b s)
    {data : Bytes} {deadline : Int} (window : FirstWindow a b s (.act a (.push data deadline)))
    (free : (s.party a).snd.retrying = []) (accepts : (s.party a).snd.acceptSend = true) :
    (s.party a).snd.sendHistory.length + 1 ≤
      (s.party b).rcv.consumed.length + (cfg b).windowMsgCount := by
  obtain ⟨⟨low, tracks⟩, -⟩ := flow.tracked
  have low_le := flow.low_le tracks
  have inflight := tracks.inflight free
  have size := flow.advertises.counts.size
  have capacity := inflight_lt accepts
  by_cases unheard : (s.party a).snd.heard = []
  · have := window rfl unheard
    omega
  · have := flow.capacity unheard
    omega

theorem FlowLink.bound_step {s : Parties ι Session Packet} (flow : FlowLink cfg a b s)
    {act : Action} (window : FirstWindow a b s (.act a act))
    (moved : (s.party a).Moved blake2b act p sent) :
    p.snd.sendHistory.length ≤ (s.party b).rcv.consumed.length + (cfg b).windowMsgCount := by
  obtain ⟨news, history, pushes⟩ := ((flow.acks.link.sendsTo a).step moved).history
  have count := congrArg length pushes
  rw [length_map] at count
  rw [history, length_append, count]
  cases act with
  | push data deadline =>
    cases moved with
    | push _ _ free accepts => exact flow.bound_push window free accepts
  | _ => exact flow.bound

variable [DecidableEq ι]

/-- Session `a` changes and sends nothing to itself. -/
theorem FlowLink.update_a {s : Parties ι Session Packet} (flow : FlowLink cfg a b s) (ne : a ≠ b)
    (apart : (cfg a).destInbox ≠ (cfg a).localInbox)
    (acks : AckLink cfg a b (s.update a p sent)) (tracked : p.Tracked)
    (dest : ∀ q ∈ sent, q.dest = (cfg a).destInbox)
    (heard : ∀ e ∈ p.snd.heard, min e.1 e.2 < (s.party b).rcv.consumed.length)
    (hand : ∀ q, p.rcv.place.pack = some q → q.availReaderMsgCap ≤ (cfg b).windowMsgCount)
    (capacity : p.snd.heard ≠ [] → p.snd.lastSeenAvailReaderMsgCap ≤ (cfg b).windowMsgCount)
    (bound : p.snd.sendHistory.length ≤
      (s.party b).rcv.consumed.length + (cfg b).windowMsgCount) :
    FlowLink cfg a b (s.update a p sent) := by
  have other := Parties.update_of_ne s (Ne.symm ne) p sent
  have self := s.update_self a p sent
  refine ⟨acks, ?_, ?_, ?_, fun q mem toA => ?_, ?_, ?_, ?_⟩
  · rwa [self]
  · rwa [self, other]
  · rw [other]
    exact flow.advertises
  · rcases mem_append.mp mem with old | new
    · exact flow.wire q old toA
    · exact absurd ((dest q new).symm.trans toA) apart
  · rwa [self]
  · rwa [self]
  · rwa [self, other]

/-- Session `b` changes. -/
theorem FlowLink.update_b {s : Parties ι Session Packet} (flow : FlowLink cfg a b s) (ne : a ≠ b) (acks : AckLink cfg a b (s.update b p sent))
    (advertises : p.Advertises (cfg b).windowMsgCount)
    (consumed : (s.party b).rcv.consumed <+: p.rcv.consumed)
    (caps : ∀ q ∈ sent, q.availReaderMsgCap ≤ (cfg b).windowMsgCount) :
    FlowLink cfg a b (s.update b p sent) := by
  have other := Parties.update_of_ne s ne p sent
  have self := s.update_self b p sent
  have grows := consumed.length_le
  refine ⟨acks, ?_, fun e mem => ?_, ?_, fun q mem toA => ?_, ?_, ?_, ?_⟩
  · rw [other]
    exact flow.tracked
  · rw [other] at mem
    rw [self]
    have := flow.heard e mem
    omega
  · rwa [self]
  · rcases mem_append.mp mem with old | new
    · exact flow.wire q old toA
    · exact caps q new
  · rw [other]
    exact flow.hand
  · rw [other]
    exact flow.capacity
  · rw [self, other]
    have := flow.bound
    omega

instance (a b : ι) (s : Parties ι Session Packet) :
    (e : PartyAction ι Action) → Decidable (FirstWindow a b s e)
  | .act i (.push _ _) => inferInstanceAs (Decidable (i = a → _ = [] → _ < _))
  | .act _ .gotPack | .act _ (.wakeup _) | .act _ (.resend _) | .act _ (.sendAck _)
  | .act _ .stopSender | .act _ .process | .act _ .consume | .act _ (.read _)
  | .act _ (.retryTimer _) | .act _ .stopReceiver | .act _ (.connect _ _)
  | .act _ (.keepAlive _) | .act _ .sendClosing | .arrive _ _ => isTrue trivial

/-- The conditions on a step. -/
def Paced (a b : ι) (s : Parties ι Session Packet) (e : PartyAction ι Action) : Prop :=
  FirstTaken a b s e ∧ RoomAt a s e ∧ FirstWindow a b s e

instance (a b : ι) (s : Parties ι Session Packet) (e : PartyAction ι Action) :
    Decidable (Paced a b s e) := inferInstanceAs (Decidable (_ ∧ _ ∧ _))

theorem FlowLink.step {s : Parties ι Session Packet} (flow : FlowLink cfg a b s)
    (two : ∀ i, i = a ∨ i = b) (ne : a ≠ b) (known : (cfg a).destInbox ≠ [])
    (apart : ∀ i, (cfg i).destInbox ≠ (cfg i).localInbox) {e : PartyAction ι Action}
    (paced : Paced a b s e) {s' : Parties ι Session Packet}
    (stepped : (swp blake2b).step s e = some s') : FlowLink cfg a b s' := by
  obtain ⟨first, room, window⟩ := paced
  have acks := flow.acks.step two ne known apart first stepped
  rcases Protocol.step_cases stepped with
    ⟨i, act, p, sent, rfl, acted, rfl⟩ | ⟨i, k, m, p, rfl, onWire, addressed, arrived, rfl⟩
  · obtain ⟨-, moved⟩ := step_moved acted
    rcases two i with rfl | rfl
    · have tracked := Tracked.step _ act p sent flow.tracked (room rfl) acted
      have dest := (flow.acks.onlyTo.step known (flow.acks.link.sendsTo _).sends moved).2
      have hand (q : Packet) (holds : p.rcv.place.pack = some q) :=
        flow.hand q (moved.continues.hand q holds)
      refine flow.update_a ne (apart _) acks tracked dest ?_ hand ?_ (flow.bound_step window moved)
      · rcases moved.learns.2 with ⟨heard, -⟩ | ⟨pack, rfl, free, holds, heard, -⟩
        · rw [heard]
          exact flow.heard
        · rw [heard]
          intro e mem
          rcases mem_append.mp mem with old | new
          · exact flow.heard e old
          · exact mem_singleton.mp new ▸ flow.heard_gotPack first free holds
      · rcases moved.learns.2 with ⟨heard, same⟩ | ⟨pack, rfl, free, holds, heard, same⟩
        · rw [heard, same]
          exact flow.capacity
        · rw [same]
          exact fun _ => flow.hand pack holds
    · obtain ⟨advertises, caps⟩ := flow.advertises.step (Int.natCast_nonneg _) moved
      exact flow.update_b ne acks advertises moved.continues.consumed caps
  · have arrival := (arrive_takes arrived).arrival
    rcases two i with rfl | rfl
    · obtain ⟨sendFlow, queue, counter, kept⟩ :=
        (@arrive_responds blake2b 0 [] _ _ m arrived).kept
      refine flow.update_a ne (apart _) acks ?_ (fun _ mem => absurd mem not_mem_nil) ?_ ?_ ?_ ?_
      · exact Tracked.arrive _ m p flow.tracked arrived
      · rw [kept]
        exact flow.heard
      · intro q holds
        rcases arrival.hand q holds with old | rfl
        · exact flow.hand q old
        · exact flow.wire q onWire ((of_decide_eq_true addressed).trans flow.acks.inbox)
      · rw [kept]
        exact flow.capacity
      · rw [kept]
        exact flow.bound
    · exact flow.update_b ne acks (flow.advertises.arrive arrived)
        (arrival.consumed ▸ prefix_rfl) fun _ mem => absurd mem not_mem_nil

omit [DecidableEq ι] in
/-- The packets sent and not consumed are the last ones sent. -/
theorem FlowLink.unconsumed_le {s : Parties ι Session Packet} (flow : FlowLink cfg a b s) :
    (unconsumed a b s).length ≤ (cfg b).windowMsgCount := by
  have link := flow.acks.link
  have pushed := (link.sendsTo a).sends.pushed
  have consumed : ((s.party a).snd.sendHistory.take (s.party b).rcv.consumed.length).filter
      (fun p => p.seqNum ∉ (s.party b).rcv.consumed.map Packet.seqNum) = [] := by
    refine filter_eq_nil_iff.mpr fun p mem => ?_
    obtain ⟨k, found⟩ := mem_iff_getElem?.mp mem
    rw [getElem?_take] at found
    split_ifs at found with below
    have number := pushed.numbered k p found
    have inOrder : (s.party b).rcv.ordered[k]? = some (s.party b).rcv.consumed[k] := by
      rw [RecvState.ordered, getElem?_append_left below, getElem?_eq_getElem below]
    have number' := (link.receives.numbered pushed inOrder).1
    rw [decide_eq_true_eq, not_not]
    exact mem_map.mpr ⟨_, getElem_mem below, number'.trans number.symm⟩
  have bound := flow.bound
  have rest := length_filter_le
    (fun p => decide (p.seqNum ∉ (s.party b).rcv.consumed.map Packet.seqNum))
    ((s.party a).snd.sendHistory.drop (s.party b).rcv.consumed.length)
  rw [length_drop] at rest
  unfold unconsumed
  rw [← take_append_drop (s.party b).rcv.consumed.length (s.party a).snd.sendHistory,
    filter_append, consumed, nil_append]
  omega

omit [DecidableEq ι] in
/-- A packet of `a` does not lie above the window of `b`. -/
theorem FlowLink.in_window {s : Parties ι Session Packet} (flow : FlowLink cfg a b s) {p : Packet}
    (sent : Sent (s.party a).snd.sendHistory p) :
    p.seqNum < (s.party b).rcv.nextFrameExpected + (s.party b).rcv.recvWindowSize := by
  have link := flow.acks.link
  have seqNum := (link.sendsTo a).sends.pushed.seqNum sent
  have next := link.receives.next
  have size := flow.advertises.counts.size
  have bound := flow.bound
  rw [RecvState.ordered, length_append] at next
  omega

/-- The number of packets that `a` has sent and the consumer of `b` has not consumed never exceeds
the window of `b`, and no data packet lies above that window when it arrives, provided that every
step is paced. -/
theorem never_overrun (blake2b : Bytes → Bytes) (cfg : ι → SessionConfig) (a b : ι)
    (two : ∀ i, i = a ∨ i = b) (ne : a ≠ b) (windows : ∀ i, 1 ≤ (cfg i).windowMsgCount)
    (known : (cfg a).destInbox ≠ []) (apart : ∀ i, (cfg i).destInbox ≠ (cfg i).localInbox)
    (actions : List (PartyAction ι Action)) (s : Parties ι Session Packet)
    (along : Along (swp blake2b).step (Paced a b) (start cfg) actions)
    (ran : runFrom (swp blake2b).step (start cfg) actions = some s) :
    ((unconsumed a b s).length : Int) ≤ (s.party b).rcv.recvWindowSize ∧
      ∀ p, p.tcpEvent = .data → (p ∈ s.wire ∧ p.dest = (s.party b).rcv.inbox ∨
        (s.party b).rcv.place.pack = some p) →
        p.seqNum < (s.party b).rcv.nextFrameExpected + (s.party b).rcv.recvWindowSize := by
  have flow : FlowLink cfg a b s :=
    invariant_of_along (fun _ _ _ inv paced => inv.step two ne known apart paced)
      (flowLink_start windows) along ran
  refine ⟨?_, fun p isData there => flow.in_window ?_⟩
  · rw [flow.advertises.counts.size]
    exact Int.ofNat_le.mpr flow.unconsumed_le
  · have link := flow.acks.link
    rcases there with ⟨onWire, toB⟩ | holds
    · exact link.wire p onWire isData (toB.trans link.inbox)
    · exact link.hand p holds isData

/-- The window of `b` is full, one packet is consumed and acknowledged, and the next one is sent. -/
theorem never_overrun_full : ∃ s,
    runFrom (swp id).step (start (joined 2 2))
      [.act .a (.push (bytesOf "x") 10), .act .a (.push (bytesOf "y") 20), .arrive .b 0,
        .act .b .gotPack, .act .b .process, .act .b .consume, .act .b (.sendAck false),
        .arrive .a 2, .act .a .gotPack, .act .a .process, .act .a (.push (bytesOf "z") 30)] =
      some s ∧
      (unconsumed .a .b s).length = 2 ∧
      ((unconsumed .a .b s).length : Int) ≤ (s.party .b).rcv.recvWindowSize := by
  refine exists_run_imp (P := fun s => (unconsumed .a .b s).length = 2)
    (fun s ran final => ⟨final, ?_⟩) (by decide)
  exact (never_overrun id (joined 2 2) .a .b (fun i => by cases i <;> simp) (by decide)
    (fun i => by cases i <;> decide) (by decide) (fun i => by cases i <;> decide) _ s
    (by decide) ran).1

/-- With a window of two at `a` and of one at `b`, two packets are sent before `b` has consumed any,
and the second is discarded when it arrives first. -/
theorem overrun_small_receiver : ∃ s,
    runFrom (swp id).step (start (joined 2 1))
      [.act .a (.push (bytesOf "x") 10), .act .a (.push (bytesOf "y") 20), .arrive .b 1,
        .act .b .gotPack, .act .b .process] = some s ∧
      (s.party .b).rcv.recvWindowSize < (unconsumed .a .b s).length ∧
      (s.wire.map fun p => (p.tcpEvent, p.seqNum, p.seqRetry)) = [(.data, 0, 0), (.data, 1, 0)] ∧
      (s.party .b).rcv.nextFrameExpected + (s.party .b).rcv.recvWindowSize = 1 ∧
      (s.party .b).rcv.largestSeqnoRcvd = 1 ∧ (s.party .b).rcv.rxq = [none] ∧
      (s.party .b).rcv.readyForDelivery = [] :=
  exists_run (by decide)

end Flow

end Hnatsd.Swp
