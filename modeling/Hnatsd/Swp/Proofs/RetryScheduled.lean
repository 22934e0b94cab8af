import Hnatsd.Swp.Proofs.SenderTrees

/-!
# Every unacknowledged packet is scheduled for retry

The flow check of the sender compares the number of packets in flight with what the peer advertises
and never with its own ring. In runs where the ring has room at every push, every packet that has
not been acknowledged is in both trees.
-/

namespace Hnatsd.Swp
open Misc SenderState

/-- The highest `AckNum` received so far. -/
def SenderState.highestAck (s : SenderState) : Int := (s.heard.map Prod.snd).foldl max (-1)

/-- A packet was sent, and every `AckNum` received since then is below its number. -/
def SenderState.Unacked (s : SenderState) (n : Int) : Prop :=
  0 ≤ n ∧ n ≤ s.lastFrameSent ∧ ∀ e ∈ s.heard, n ≤ e.1 → e.2 < n

/-- Both trees hold exactly one entry for every packet sent above the highest `AckNum` received,
none but for packets not acknowledged since they were sent, in the order of their current keys, with
the packet still in its slot. -/
structure SenderState.Scheduled (s : SenderState) : Prop where
  same : s.sentButNotAckedByDeadline.Perm s.sentButNotAckedBySeqNum
  above : ∀ n, s.highestAck < n → n ≤ s.lastFrameSent →
    (s.sentButNotAckedBySeqNum.map s.seqOf).count n = 1
  once : (s.sentButNotAckedBySeqNum.map s.seqOf).Nodup
  entries : ∀ n, n ∈ s.sentButNotAckedBySeqNum.map s.seqOf ↔ s.Unacked n
  carries : ∀ pos ∈ s.sentButNotAckedBySeqNum, ∃ p,
    s.sendHistory[(s.seqOf pos).toNat]? = some p ∧ (s.slotAt pos).pack.message = p.message
  seqSorted : KeySorted s.seqOf s.sentButNotAckedBySeqNum
  dueSorted : KeySorted s.dueOf s.sentButNotAckedByDeadline
  bounded : (s.sentButNotAckedBySeqNum.length : Int) ≤ s.senderWindowSize

theorem le_foldl_max (l : List Int) (start : Int) :
    start ≤ l.foldl max start ∧ ∀ n ∈ l, n ≤ l.foldl max start := by
  induction l generalizing start with
  | nil => exact ⟨Int.le_refl _, nofun⟩
  | cons x xs ih =>
    obtain ⟨first, rest⟩ := ih (max start x)
    rw [List.foldl_cons]
    refine ⟨by omega, fun n mem => ?_⟩
    rcases List.mem_cons.mp mem with rfl | later
    · omega
    · exact rest n later

theorem SenderState.unacked_of_above {s : SenderState} {n : Int} (above : s.highestAck < n)
    (sent : n ≤ s.lastFrameSent) : s.Unacked n := by
  obtain ⟨start, bound⟩ := le_foldl_max (s.heard.map Prod.snd) (-1)
  unfold highestAck at above
  refine ⟨by omega, sent, fun e mem _ => ?_⟩
  exact Int.lt_of_le_of_lt (bound e.2 (List.mem_map_of_mem mem)) above

theorem SenderState.Tracks.unacked_iff {s : SenderState} {low : Int} (tracks : s.Tracks low)
    (n : Int) : (low ≤ n ∧ n ≤ s.lastFrameSent) ↔ s.Unacked n := by
  have lowest := tracks.lowest
  constructor
  · rintro ⟨atLeast, atMost⟩
    refine ⟨by omega, atMost, fun e mem sent => ?_⟩
    have := tracks.acked e mem
    omega
  · rintro ⟨nonneg, atMost, unacked⟩
    refine ⟨?_, atMost⟩
    rcases tracks.lowFrom with rfl | ⟨e, mem, eq⟩
    · exact nonneg
    · by_contra below
      have := unacked e mem (by omega)
      omega

theorem SenderState.Tracks.scheduled {s : SenderState} {low : Int} (tracks : s.Tracks low)
    (free : s.retrying = []) : s.Scheduled := by
  have isLive := live_of_free free
  have covers := tracks.covers
  have carries := tracks.carries
  rw [isLive] at covers carries
  have entries (n : Int) : n ∈ s.sentButNotAckedBySeqNum.map s.seqOf ↔ s.Unacked n :=
    (covers.mem n).trans (tracks.unacked_iff n)
  refine ⟨tracks.trees.same, fun n above sent => ?_, covers.nodup, entries, carries,
    tracks.trees.seqSorted, tracks.trees.dueSorted, ?_⟩
  · exact List.count_eq_one_of_mem covers.nodup
      ((entries n).mpr (unacked_of_above above sent))
  · have count := covers.length tracks.lowest.2
    have fits := tracks.fits
    rw [List.length_map] at count
    omega

/-- The packets not acknowledged are tracked, and the trees have never differed in length. -/
def Session.Tracked (s : Session) : Prop :=
  (∃ low, s.snd.Tracks low) ∧ s.panic ≠ some .lenBySeqByDeadline

/-- A push finds room in the ring, and retry deadlines are between 1970 and 2262. -/
def Session.RoomToSend (s : Session) : Action → Prop
  | .push _ deadline =>
      (s.snd.sentButNotAckedByDeadline.length : Int) < s.snd.senderWindowSize ∧ IsDated deadline
  | .resend deadline => IsDated deadline
  | _ => True

instance (s : Session) : (a : Action) → Decidable (s.RoomToSend a)
  | .push _ _ => inferInstanceAs (Decidable (_ ∧ _))
  | .resend deadline => inferInstanceAs (Decidable (IsDated deadline))
  | .wakeup _ | .sendAck _ | .stopSender | .gotPack | .process | .consume | .read _
  | .retryTimer _ | .stopReceiver | .connect _ _ | .keepAlive _ | .sendClosing => isTrue trivial

section Tracked

variable {blake2b : Bytes → Bytes} {s s' : Session}

/-- The receiver does not touch what the trees depend on. -/
theorem Session.Tracked.responds {n : Int} {peer : Bytes} (tracked : s.Tracked)
    (responds : Session.Responds n peer s s') : s'.Tracked := by
  obtain ⟨⟨low, tracks⟩, fine⟩ := tracked
  obtain ⟨flow, acks, counter, kept⟩ := responds.kept
  refine ⟨⟨low, ?_⟩, responds.panic fine⟩
  rw [kept]
  exact tracks.beside flow acks counter s.snd.remoteSessNonce

theorem SenderState.Tracks.learnNonce {snd : SenderState} {low : Int} (tracks : snd.Tracks low)
    (ackPack : Packet) (rest : List Packet) :
    Tracks { snd.learnNonce ackPack with sendAck := rest } low := by
  obtain ⟨nonce, learned⟩ := snd.learnNonce_fields ackPack
  rw [learned]
  exact tracks.beside snd.flow rest snd.recvLastFrameClientConsumed nonce

theorem Session.Tracked.handOver (tracked : s.Tracked) (pack : Packet)
    (free : s.snd.retrying = []) : (s.handOver pack).Tracked := by
  obtain ⟨⟨low, tracks⟩, fine⟩ := tracked
  have after := tracks.gotPack pack.copySansData free
  unfold Session.handOver
  dsimp only
  rw [if_neg (not_not.mpr after.trees.same.length_eq.symm)]
  exact ⟨⟨_, after⟩, fine⟩

theorem Session.Tracked.step (s : Session) (a : Action) (s' : Session) (sent : List Packet)
    (tracked : s.Tracked) (room : s.RoomToSend a) (stepped : s.step blake2b a = some (s', sent)) :
    s'.Tracked := by
  obtain ⟨-, moved⟩ := Session.step_moved stepped
  obtain ⟨⟨low, tracks⟩, fine⟩ := id tracked
  cases moved with
  | push data deadline free =>
    exact ⟨⟨low, tracks.doOrigDataSend blake2b _ free room.2 room.1⟩, fine⟩
  | wakeup now free => exact ⟨⟨low, tracks.wakeup now free⟩, fine⟩
  | resend pos rest deadline waiting => exact ⟨⟨low, tracks.resend waiting room⟩, fine⟩
  | sendAck ackPack rest fails runs queued => exact ⟨⟨low, tracks.learnNonce ackPack rest⟩, fine⟩
  | gotPack pack handing free => exact tracked.handOver pack free
  | data pack handed isData =>
    have back : s.backToSelect.Tracked := ⟨⟨low, tracks⟩, fine⟩
    exact back.responds (s.backToSelect.recvData_responds rfl rfl pack)
  | info pack handed isInfo =>
    have back : s.backToSelect.Tracked := ⟨⟨low, tracks⟩, fine⟩
    exact back.responds (s.backToSelect.recvInfo_answers rfl rfl pack).responds
  | consume lastPack last => exact tracked.responds (s.deliverToConsumer_responds rfl lastPack)
  | read lenp => exact tracked.responds (s.fillAsMuchAsPossible_responds rfl lenp)
  | retryTimer elapsed => exact tracked.responds (s.retryCheck_answers rfl rfl elapsed).responds
  | connect destInbox fails =>
    exact tracked.responds (@Session.connect_responds 0 [] s destInbox fails)
  | keepAlive due => exact tracked
  | sendClosing => exact tracked
  | stopSender => exact ⟨⟨low, tracks⟩, fine⟩
  | stopReceiver => exact ⟨⟨low, tracks⟩, fine⟩

theorem Session.Tracked.arrive (s : Session) (pack : Packet) (s' : Session) (tracked : s.Tracked)
    (arrived : s.arrive blake2b pack = some s') : s'.Tracked :=
  tracked.responds (@Session.arrive_responds blake2b 0 [] s s' pack arrived)

end Tracked

/-- The condition on a run: session `i` has room at its pushes. -/
def RoomAt {ι : Type} (i : ι) (s : Parties ι Session Packet) :
    PartyAction ι Action → Prop
  | .act j a => j = i → (s.party i).RoomToSend a
  | .arrive _ _ => True

instance {ι : Type} [DecidableEq ι] (i : ι) (s : Parties ι Session Packet) :
    (e : PartyAction ι Action) → Decidable (RoomAt i s e)
  | .act j a => inferInstanceAs (Decidable (j = i → (s.party i).RoomToSend a))
  | .arrive _ _ => isTrue trivial

/-- Whenever the sender of session `i` is at the top of its loop, every unacknowledged packet is
scheduled for retry, provided that its ring had room at every push and that the deadlines are
between 1970 and 2262. The panic on trees of different length is not reached. -/
theorem retry_scheduled {ι : Type} [DecidableEq ι] (blake2b : Bytes → Bytes)
    (cfg : ι → SessionConfig) (i : ι) (window : 1 ≤ (cfg i).windowMsgCount)
    (actions : List (PartyAction ι Action)) (s : Parties ι Session Packet)
    (along : Along (swp blake2b).step (RoomAt i) (start cfg) actions)
    (ran : runFrom (swp blake2b).step (start cfg) actions = some s) :
    (s.party i).panic ≠ some .lenBySeqByDeadline ∧
      ((s.party i).snd.retrying = [] → (s.party i).snd.Scheduled) := by
  have initial : Session.Tracked ((start cfg).party i) :=
    ⟨⟨0, tracks_new window _ _ _⟩, nofun⟩
  have keeps (s : Parties ι Session Packet) (e : PartyAction ι Action)
      (s' : Parties ι Session Packet) (inv : (s.party i).Tracked) (guard : RoomAt i s e)
      (stepped : (swp blake2b).step s e = some s') : (s'.party i).Tracked := by
    refine Protocol.local_invariant Session.Tracked.step Session.Tracked.arrive s e s' inv ?_ stepped
    rintro a rfl
    exact guard rfl
  obtain ⟨⟨low, tracks⟩, fine⟩ :=
    @invariant_of_along _ _ _ _ (fun s => (s.party i).Tracked) keeps _ _ _ initial along ran
  exact ⟨fine, tracks.scheduled⟩

/-- Two packets are sent, both retried, and the first is acknowledged after the consumer took it. -/
theorem retry_scheduled_two : ∃ s,
    runFrom (swp id).step (start (joined 2 2))
      [.act .a (.push (bytesOf "x") 10), .act .a (.push (bytesOf "y") 20), .act .a (.wakeup 15),
        .act .a (.resend 30), .arrive .b 0, .act .b .gotPack, .act .b .process, .act .b .consume,
        .act .b (.sendAck false), .arrive .a 3, .act .a .gotPack, .act .a .process] = some s ∧
      (s.party .a).snd.sentButNotAckedBySeqNum = [1] ∧ (s.party .a).snd.Scheduled := by
  refine exists_run_imp (P := fun s => (s.party .a).snd.sentButNotAckedBySeqNum = [1] ∧
    (s.party .a).snd.retrying = []) (fun s ran final => ⟨final.1, ?_⟩) (by decide)
  exact (retry_scheduled id (joined 2 2) .a (by decide) _ s (by decide) ran).2 final.2

/-- With a window of one at `a` and of two at `b`, the third packet overwrites the slot of the
second, which is never sent again although no ack for it has been received. -/
theorem retry_lost_small_window : ∃ s,
    runFrom (swp id).step (start (joined 1 2))
      [.act .a (.push (bytesOf "x") 10), .arrive .b 0, .act .b .gotPack, .act .b .process,
        .act .b .consume, .act .b (.sendAck false), .arrive .a 1, .act .a .gotPack,
        .act .a .process, .act .a (.push (bytesOf "y") 20), .act .a (.push (bytesOf "z") 30)] =
      some s ∧
      (s.party .a).snd.highestAck < 1 ∧ 1 ≤ (s.party .a).snd.lastFrameSent ∧
      (s.party .a).snd.sentButNotAckedBySeqNum.map (s.party .a).snd.seqOf = [2] ∧
      (s.party .a).snd.sentButNotAckedByDeadline.map (s.party .a).snd.seqOf = [2] ∧
      (s.party .a).snd.retrying = [] :=
  exists_run (by decide)

end Hnatsd.Swp
