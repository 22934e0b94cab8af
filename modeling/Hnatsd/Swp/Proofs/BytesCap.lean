import Hnatsd.Swp.Proofs.ByteCounts
import Hnatsd.Swp.Proofs.ByteStream

/-!
# The advertised capacity in bytes

`LastByteConsumed` starts as an index, -1 for "no byte yet", and becomes a count with the first
thing that is consumed; `UpdateControl` adds one to it in either case. So the capacity that a
receiver advertises is right until something is consumed, and one byte too large ever after.
-/

namespace Hnatsd.Swp
open Misc

/-- The payload bytes that have been handed to the consumer: all of the packets consumed, and what
has been read of the packets that are ready. -/
def RecvState.handed (r : RecvState) : Int :=
  bytesIn r.consumed + (r.readyForDelivery.map Packet.dataOffset).sum

/-- The window less what has been received and not handed on. -/
def RecvState.exactBytesCap (r : RecvState) : Int :=
  r.recvWindowSizeBytes - (r.maxCumulBytesTrans - r.handed)

/-- Nothing has been consumed, not even a part of a packet. -/
def RecvState.Untouched (r : RecvState) : Prop :=
  r.consumed = [] ∧ ∀ p ∈ r.readyForDelivery, p.dataOffset = 0

instance (r : RecvState) : Decidable r.Untouched := inferInstanceAs (Decidable (_ ∧ _))

/-- `LastByteConsumed` is an index as long as nothing has been consumed, then a count. -/
structure RecvState.Tallies (r : RecvState) : Prop where
  ring : ∀ p, some p ∈ r.rxq → p.dataOffset = 0
  opened : OneOpened r.readyForDelivery
  untouched : r.Untouched → r.lastByteConsumed = -1
  touched : ¬r.Untouched → r.lastByteConsumed = r.handed

section Tallies

variable {r r' : RecvState}

theorem sum_offsets_of_unread {ready : List Packet} (unread : ∀ p ∈ ready, p.dataOffset = 0) :
    (ready.map Packet.dataOffset).sum = 0 := by
  induction ready with
  | nil => rfl
  | cons p ready ih =>
    rw [List.map_cons, List.sum_cons, unread p List.mem_cons_self,
      ih fun q mem => unread q (List.mem_cons_of_mem _ mem)]

namespace RecvState

theorem Untouched.handed (untouched : r.Untouched) : r.handed = 0 := by
  rw [RecvState.handed, untouched.1, sum_offsets_of_unread untouched.2]
  rfl

/-- What `UpdateControl` computes. -/
theorem Tallies.bytesCap (tallies : r.Tallies) :
    r.bytesCap = r.exactBytesCap + if r.Untouched then 0 else 1 := by
  rw [RecvState.bytesCap, exactBytesCap]
  split_ifs with untouched
  · rw [tallies.untouched untouched, untouched.handed]
    omega
  · rw [tallies.touched untouched]
    omega

theorem tallies_new (recvSz : Nat) (recvSzBytes : Int) (inbox destInbox nonce : Bytes) :
    (new recvSz recvSzBytes inbox destInbox nonce).Tallies where
  ring _ mem := nomatch (List.eq_of_mem_replicate mem)
  opened := trivial
  untouched _ := rfl
  touched isTouched := absurd ⟨rfl, fun _ mem => absurd mem List.not_mem_nil⟩ isTouched

theorem Tallies.same (tallies : r.Tallies) (rxq : r'.rxq = r.rxq)
    (ready : r'.readyForDelivery = r.readyForDelivery) (consumed : r'.consumed = r.consumed)
    (lastByte : r'.lastByteConsumed = r.lastByteConsumed) : r'.Tallies := by
  have touch : r'.Untouched ↔ r.Untouched := by
    rw [RecvState.Untouched, RecvState.Untouched, ready, consumed]
  refine ⟨?_, ?_, ?_, ?_⟩
  · rw [rxq]
    exact tallies.ring
  · rw [ready]
    exact tallies.opened
  · rw [touch, lastByte]
    exact tallies.untouched
  · rw [touch, lastByte, handed, ready, consumed]
    exact tallies.touched

theorem Tallies.put (tallies : r.Tallies) {pack : Packet} (unread : pack.dataOffset = 0)
    (pos : Nat) : RecvState.Tallies { r with rxq := r.rxq.set pos (some pack) } := by
  refine ⟨?_, tallies.opened, tallies.untouched, tallies.touched⟩
  intro p mem
  rcases List.mem_or_eq_of_mem_set mem with old | new
  · exact tallies.ring p old
  · cases new
    exact unread

/-- A packet that becomes ready has not been read. -/
theorem Tallies.deliverReceived (tallies : r.Tallies) (fuel : Nat) :
    (r.deliverReceived fuel).Tallies := by
  induction fuel generalizing r with
  | zero => exact tallies
  | succ fuel ih =>
    simp only [RecvState.deliverReceived]
    split
    · exact tallies
    next pack found =>
      have unread := tallies.ring pack (List.mem_of_getElem? (getElem?_of_getD_none found))
      have touch (rxq : List (Option Packet)) (next : Int) : RecvState.Untouched { r with
          readyForDelivery := r.readyForDelivery ++ [pack]
          rxq := rxq
          nextFrameExpected := next } ↔ r.Untouched := by
        apply and_congr_right
        intro _
        rw [List.forall_mem_append, List.forall_mem_singleton]
        exact and_iff_left unread
      apply ih
      refine ⟨?_, tallies.opened.snoc unread, ?_, ?_⟩
      · intro p mem
        rcases List.mem_or_eq_of_mem_set mem with old | new
        · exact tallies.ring p old
        · cases new
      · rw [touch]
        exact tallies.untouched
      · rw [touch]
        intro isTouched
        rw [show (_ : Int) = r.handed from tallies.touched isTouched, handed,
          handed, List.map_append, List.sum_append]
        simp [unread]

end RecvState

variable {peer : Bytes} {snd : SenderState}

namespace RecvState

/-- The stamp of a packet in order is the number of bytes up to its end. -/
theorem Receives.stamp (receives : r.Receives snd.sendHistory) (stamped : snd.Stamped)
    {k : Nat} {p : Packet} (found : r.ordered[k]? = some p) :
    p.cumulBytesTransmitted = bytesIn (r.ordered.take (k + 1)) := by
  have bytes : ∀ packs : List Packet, bytesIn (packs.map Packet.message) = bytesIn packs := by
    intro packs
    rw [bytesIn, List.flatMap_map]
    rfl
  obtain ⟨later, eq⟩ := receives.inOrder
  have inside := (List.getElem?_eq_some_iff.mp found).1
  have at_k : (snd.sendHistory.map Packet.message)[k]? = some p.message := by
    rw [← eq, List.getElem?_append_left (by rwa [List.length_map]), List.getElem?_map, found]
    rfl
  rw [List.getElem?_map] at at_k
  obtain ⟨q, isPushed, same⟩ := Option.map_eq_some_iff.mp at_k
  calc p.cumulBytesTransmitted = q.cumulBytesTransmitted :=
        (congrArg Packet.cumulBytesTransmitted same).symm
    _ = bytesIn (snd.sendHistory.take (k + 1)) := stamped.stamps k q isPushed
    _ = bytesIn ((snd.sendHistory.map Packet.message).take (k + 1)) := by
        rw [← List.map_take, bytes]
    _ = bytesIn ((r.ordered.map Packet.message).take (k + 1)) := by
        rw [← eq, List.take_append_of_le_length (by rw [List.length_map]; omega)]
    _ = bytesIn (r.ordered.take (k + 1)) := by rw [← List.map_take, bytes]

/-- Reading some bytes of the first packet, or the rest of it. -/
theorem Tallies.readPacket (tallies : r.Tallies) (receives : r.Receives snd.sendHistory)
    (stamped : snd.Stamped) {pk : Packet} {later : List Packet}
    (first : r.readyForDelivery = pk :: later) {m : Nat} (fits : m ≤ pk.unread)
    (progress : m = pk.unread ∨ 0 < m) : (r.readPacket pk m).Tallies := by
  obtain ⟨partly, unread⟩ : OneOpened (pk :: later) := first ▸ tallies.opened
  have stamp : pk.cumulBytesTransmitted = bytesIn r.consumed + pk.data.length := by
    have inOrder : r.ordered = r.consumed ++ [pk] ++ later := by
      rw [ordered, first, List.append_assoc]
      rfl
    have isNext : r.ordered[r.consumed.length]? = some pk := by
      rw [ordered, first, List.getElem?_append_right (Nat.le_refl _), Nat.sub_self]
      rfl
    rw [receives.stamp stamped isNext, inOrder, List.take_append_of_le_length (by simp),
      List.take_of_length_le (by simp), bytesIn_append]
    simp [bytesIn]
  simp only [RecvState.readPacket]
  split_ifs with whole
  · refine ⟨tallies.ring, ?_, ?_, ?_⟩
    · rw [first]
      exact oneOpened_of_unread unread
    · rintro ⟨empty, -⟩
      exact absurd empty (List.append_ne_nil_of_right_ne_nil _ (List.cons_ne_nil _ _))
    · intro _
      rw [handed, bytesIn_append, stamp, first]
      simp [bytesIn, sum_offsets_of_unread unread]
  · have some' : 0 < m := progress.resolve_left whole
    refine ⟨tallies.ring, ?_, ?_, ?_⟩
    · rw [first]
      refine ⟨Or.inr ?_, unread⟩
      show pk.dataOffset + m < pk.data.length
      unfold Packet.unread at fits whole
      omega
    · rintro ⟨-, none'⟩
      have := none' _ List.mem_cons_self
      change pk.dataOffset + m = 0 at this
      omega
    · intro _
      rw [handed, stamp, first]
      simp only [List.drop_one, List.tail_cons, List.map_cons, List.sum_cons,
        sum_offsets_of_unread unread, Packet.unread]
      omega

/-- The loop of `Read`. -/
theorem Tallies.fill (stamped : snd.Stamped) (pushed : PushedTo peer snd.sendHistory)
    (ready : List Packet) {room : Nat} (some' : room ≠ 0) (lastPack : Option Packet)
    (tallies : r.Tallies) (receives : r.Receives snd.sendHistory)
    (isReady : r.readyForDelivery = ready) :
    (RecvState.fill ready room lastPack r).1.Tallies := by
  induction ready generalizing room lastPack r with
  | nil => exact tallies
  | cons pk ready ih =>
    obtain ⟨receives', whole⟩ := receives.readPacket pushed isReady (min room pk.unread)
    have tallies' := tallies.readPacket receives stamped isReady (Nat.min_le_right room pk.unread)
      (by omega)
    simp only [RecvState.fill]
    by_cases full : room - min room pk.unread = 0
    · rw [if_pos full]
      exact tallies'
    · rw [if_neg full]
      exact ih full _ tallies' receives' (whole (by omega))

theorem Tallies.consumeAll (tallies : r.Tallies)
    (receives : r.Receives snd.sendHistory) (stamped : snd.Stamped) {lastPack : Packet}
    (last : r.readyForDelivery.getLast? = some lastPack) : (r.consumeAll lastPack).Tallies := by
  have atEnd : r.ordered[r.ordered.length - 1]? = some lastPack := by
    rw [← List.getLast?_eq_getElem?, ordered, List.getLast?_append, last]
    rfl
  have stamp := receives.stamp stamped atEnd
  rw [List.take_of_length_le (by omega)] at stamp
  refine ⟨tallies.ring, trivial, ?_, ?_⟩
  · rintro ⟨empty, -⟩
    have none' : r.readyForDelivery = [] := (List.append_eq_nil_iff.mp empty).2
    rw [none'] at last
    cases last
  · intro _
    show lastPack.cumulBytesTransmitted = bytesIn (r.consumed ++ r.readyForDelivery) + 0
    rw [stamp, Int.add_zero]
    rfl

end RecvState

end Tallies

section Steps

variable {blake2b : Bytes → Bytes} {s s' : Session} {peer : Bytes} {snd : SenderState}

theorem Session.recvData_tallies (tallies : s.rcv.Tallies) {pack : Packet}
    (unread : pack.dataOffset = 0) : (s.recvData pack).rcv.Tallies := by
  have window := s.rcv.hold_window pack
  have held : (s.rcv.hold pack).Tallies := by
    apply tallies.same window.rxq window.ready window.consumed
    unfold RecvState.hold
    split_ifs <;> rfl
  simp only [Session.recvData]
  split_ifs
  · exact held
  · exact held.same rfl rfl rfl rfl
  · exact (held.put unread _).deliverReceived _
  · exact held.put unread _

theorem Session.fillAsMuchAsPossible_tallies (tallies : s.rcv.Tallies)
    (receives : s.rcv.Receives snd.sendHistory) (stamped : snd.Stamped)
    (pushed : PushedTo peer snd.sendHistory) (lenp : Nat) :
    (s.fillAsMuchAsPossible lenp).rcv.Tallies := by
  simp only [Session.fillAsMuchAsPossible]
  split_ifs with none'
  · exact tallies
  · have filled := RecvState.Tallies.fill stamped pushed s.rcv.readyForDelivery none' none tallies
      receives rfl
    split
    · exact filled
    · exact filled.same rfl rfl rfl rfl

/-- Whatever a session does of its own accord keeps the tally. -/
theorem RecvState.Tallies.step (tallies : s.rcv.Tallies)
    (receives : s.rcv.Receives snd.sendHistory) (stamped : snd.Stamped)
    (pushed : PushedTo peer snd.sendHistory)
    (hand : ∀ p, s.rcv.place.pack = some p → p.tcpEvent = .data → p.dataOffset = 0)
    {a : Action} {sent : List Packet} (moved : s.Moved blake2b a s' sent) : s'.rcv.Tallies := by
  have keeps {t t' : Session} (tally : t.rcv.Tallies) (window : t.rcv.SameWindow t'.rcv)
      (controlled : t.Controlled t') : t'.rcv.Tallies :=
    tally.same window.rxq window.ready window.consumed controlled.lastByte
  have back : s.backToSelect.rcv.Tallies := tallies.same rfl rfl rfl rfl
  cases moved with
  | gotPack pack handing free =>
    rw [s.handOver_rcv]
    exact tallies.same rfl rfl rfl rfl
  | data pack handed isData =>
    exact Session.recvData_tallies back (hand pack (by rw [handed]; rfl) isData)
  | info pack handed isInfo =>
    exact keeps back (s.backToSelect.recvInfo_answers rfl rfl pack).window
      (s.backToSelect.recvInfo_controlled pack)
  | consume lastPack last =>
    refine keeps (t := { s with rcv := s.rcv.consumeAll lastPack }) ?_
      (Session.ack_window _ _ lastPack .dataAck) (s.deliverToConsumer_controlled lastPack)
    exact tallies.consumeAll receives stamped last
  | read lenp => exact Session.fillAsMuchAsPossible_tallies tallies receives stamped pushed lenp
  | retryTimer elapsed =>
    exact keeps tallies (s.retryCheck_answers rfl rfl elapsed).window
      (s.retryCheck_controlled elapsed)
  | connect destInbox fails =>
    obtain ⟨remote, -, same, -⟩ := s.connect_window destInbox fails
    exact tallies.same same.rxq same.ready same.consumed
      (s.connect_controlled destInbox fails).1.lastByte
  | push | wakeup | resend | sendAck | keepAlive | sendClosing | stopSender | stopReceiver =>
    exact tallies

/-- Whatever a session does of its own accord leaves the capacity alone or computes it. -/
theorem Session.Moved.bytesCap {a : Action} {sent : List Packet}
    (moved : s.Moved blake2b a s' sent) :
    s'.rcv.lastAvailReaderBytesCap = s.rcv.lastAvailReaderBytesCap ∨
      s'.rcv.lastAvailReaderBytesCap = s'.rcv.bytesCap := by
  obtain ⟨r, -, -, cap, controlled⟩ := moved.counters
  rcases controlled.cap with left | computed
  · exact Or.inl (left.trans cap)
  · exact Or.inr (computed.trans controlled.bytesCap.symm)

/-- So does an arrival, and it keeps the tally. -/
theorem RecvState.Tallies.arrive (tallies : s.rcv.Tallies)
    (counted : s.rcv.Counted snd.sendHistory) (stamped : snd.Stamped)
    (pushed : PushedTo peer snd.sendHistory) {m : Packet} (marked : m.Marked)
    (fromHistory : m.tcpEvent = .data → Sent snd.sendHistory m)
    (arrived : s.arrive blake2b m = some s') :
    s'.rcv.Tallies ∧ s'.rcv.Counted snd.sendHistory ∧
      (s'.rcv.lastAvailReaderBytesCap = s.rcv.lastAvailReaderBytesCap ∨
        s'.rcv.lastAvailReaderBytesCap = s'.rcv.bytesCap) := by
  obtain ⟨counted', keepsUp, inOrder⟩ := counted.checks stamped pushed marked fromHistory
  obtain ⟨place, remote, -, -, same⟩ := Session.arrive_takes arrived
  have lastByte : (s.rcv.count m).lastByteConsumed = s.rcv.lastByteConsumed ∧
      (s.rcv.count m).lastAvailReaderBytesCap = s.rcv.lastAvailReaderBytesCap := by
    unfold RecvState.count
    split_ifs <;> exact ⟨rfl, rfl⟩
  have effect {r : RecvState} (isCounted : r.Counted snd.sendHistory)
      (last : r.lastByteConsumed = s.rcv.lastByteConsumed)
      (cap : r.lastAvailReaderBytesCap = s.rcv.lastAvailReaderBytesCap)
      (controlled : Session.Controlled { s with rcv := r } s') :
      s'.rcv.Tallies ∧ s'.rcv.Counted snd.sendHistory ∧
        (s'.rcv.lastAvailReaderBytesCap = s.rcv.lastAvailReaderBytesCap ∨
          s'.rcv.lastAvailReaderBytesCap = s'.rcv.bytesCap) := by
    refine ⟨?_, isCounted.same controlled.largest controlled.cumul, ?_⟩
    · exact tallies.same same.rxq same.ready same.consumed (controlled.lastByte.trans last)
    · rcases controlled.cap with left | computed
      · exact Or.inl (left.trans cap)
      · exact Or.inr (computed.trans controlled.bytesCap.symm)
  rcases Session.arrive_cases arrived with dropped | decreases | exceeds | isCounted
  · exact effect counted rfl rfl dropped
  · exact absurd decreases keepsUp
  · exact absurd exceeds inOrder
  · exact effect counted' lastByte.1 lastByte.2 isCounted

end Steps

section Link

variable {ι : Type} {blake2b : Bytes → Bytes} {cfg : ι → SessionConfig} {a b : ι}

/-- The tally of `b` is right. -/
structure CapLink (cfg : ι → SessionConfig) (a b : ι) (s : Parties ι Session Packet) : Prop where
  link : Link cfg a b s
  counts : CountLink cfg a b s
  whole : Vouched (fun i _ p => p.SendsTo (cfg i).destInbox ∧ p.Unopened)
    (fun _ m => m.tcpEvent = .data → m.dataOffset = 0) s
  tallies : (s.party b).rcv.Tallies

theorem CapLink.pushed {s : Parties ι Session Packet} (caps : CapLink cfg a b s) :
    PushedTo (cfg a).destInbox (s.party a).snd.sendHistory :=
  (caps.link.sendsTo a).sends.pushed

/-- What arrives at `b` is data of `a` or marked as no data. -/
theorem CapLink.onWire {s : Parties ι Session Packet} (caps : CapLink cfg a b s) {m : Packet}
    (mem : m ∈ s.wire) (toB : m.dest = (s.party b).rcv.inbox) :
    m.Marked ∧ (m.tcpEvent = .data → Sent (s.party a).snd.sendHistory m) := by
  obtain ⟨-, marked⟩ := caps.counts.marked.wire m mem
  exact ⟨marked, fun isData => caps.link.wire m mem isData (toB.trans caps.link.inbox)⟩

variable [DecidableEq ι]

theorem CapLink.step {s s' : Parties ι Session Packet} (caps : CapLink cfg a b s)
    (only : ∀ i, i ≠ a → (cfg i).destInbox ≠ (cfg b).localInbox) {e : PartyAction ι Action}
    (stepped : (swp blake2b).step s e = some s') : CapLink cfg a b s' := by
  refine ⟨caps.link.step only stepped, caps.counts.step (caps.link.dataFrom e) stepped,
    whole_step caps.whole stepped, ?_⟩
  have stamped := caps.counts.stamped
  rcases Protocol.step_cases stepped with
    ⟨i, act, p, sent, rfl, acted, rfl⟩ | ⟨i, k, m, p, rfl, onWire, addressed, arrived, rfl⟩
  · by_cases same : b = i
    · subst same
      rw [Parties.update_self]
      exact caps.tallies.step caps.link.receives stamped caps.pushed (caps.whole.knows b).2.hand
        (Session.step_moved acted).2
    · rw [Parties.update_of_ne s same]
      exact caps.tallies
  · by_cases same : b = i
    · subst same
      rw [Parties.update_self]
      obtain ⟨marked, fromHistory⟩ := caps.onWire onWire (of_decide_eq_true addressed)
      exact (caps.tallies.arrive caps.counts.counted stamped caps.pushed marked fromHistory
        arrived).1
    · rw [Parties.update_of_ne s same]
      exact caps.tallies

theorem capLink_run (only : ∀ i, i ≠ a → (cfg i).destInbox ≠ (cfg b).localInbox)
    (windows : ∀ i, 1 ≤ (cfg i).windowMsgCount) {s : Parties ι Session Packet}
    {actions : List (PartyAction ι Action)}
    (ran : runFrom (swp blake2b).step (start cfg) actions = some s) : CapLink cfg a b s := by
  refine invariant_of_run (fun _ _ _ caps => caps.step only) ?_ ran
  exact ⟨link_start windows, countLink_start windows, whole_start windows,
    RecvState.tallies_new _ _ _ _ _⟩

/-- A session with another capacity in bytes than it has. -/
def Session.setBytesCap (s : Session) (v : Int) : Session :=
  { s with rcv := { s.rcv with lastAvailReaderBytesCap := v } }

/-- The session does a step of its own, or a packet that has been sent to it arrives. -/
def Session.Next (blake2b : Bytes → Bytes) (wire : List Packet) (s t : Session) : Prop :=
  (∃ a sent, s.step blake2b a = some (t, sent)) ∨
    ∃ m ∈ wire, m.dest = s.rcv.inbox ∧ s.arrive blake2b m = some t

/-- In every run the capacity that `UpdateControl` computes is right as long as nothing has been
consumed, and afterwards one byte too large. That it has been computed shows in that it does not
depend on what was there before. -/
theorem bytes_cap_computed (blake2b : Bytes → Bytes) (cfg : ι → SessionConfig) (a b : ι)
    (only : ∀ i, i ≠ a → (cfg i).destInbox ≠ (cfg b).localInbox)
    (windows : ∀ i, 1 ≤ (cfg i).windowMsgCount) (actions : List (PartyAction ι Action))
    (s : Parties ι Session Packet)
    (ran : runFrom (swp blake2b).step (start cfg) actions = some s) (v : Int) (t : Session)
    (next : Session.Next blake2b s.wire ((s.party b).setBytesCap v) t) :
    (t.rcv.lastAvailReaderBytesCap = v ∨ t.rcv.lastAvailReaderBytesCap =
      t.rcv.exactBytesCap + if t.rcv.Untouched then 0 else 1) ∧
    (t.rcv.largestSeqnoRcvd = -1 ∧ t.rcv.maxCumulBytesTrans = 0 ∨
      ∃ q ∈ (s.party a).snd.sendHistory, q.seqNum = t.rcv.largestSeqnoRcvd ∧
        t.rcv.maxCumulBytesTrans = q.cumulBytesTransmitted) := by
  have caps : CapLink cfg a b s := capLink_run only windows ran
  have stamped := caps.counts.stamped
  have pushed := caps.pushed
  have tallies : ((s.party b).setBytesCap v).rcv.Tallies := caps.tallies.same rfl rfl rfl rfl
  have counted : ((s.party b).setBytesCap v).rcv.Counted (s.party a).snd.sendHistory :=
    caps.counts.counted.same rfl rfl
  have effect : t.rcv.Tallies ∧ t.rcv.Counted (s.party a).snd.sendHistory ∧
      (t.rcv.lastAvailReaderBytesCap = v ∨ t.rcv.lastAvailReaderBytesCap = t.rcv.bytesCap) := by
    rcases next with ⟨act, sent, acted⟩ | ⟨m, onWire, toB, arrived⟩
    · have moved := (Session.step_moved acted).2
      have receives := caps.link.receives
      obtain ⟨r, largest, cumul, -, controlled⟩ := moved.counters
      refine ⟨?_, ?_, moved.bytesCap⟩
      · exact tallies.step ⟨receives.ring, receives.held, receives.inOrder, receives.next,
          receives.last⟩ stamped pushed (caps.whole.knows b).2.hand moved
      · exact counted.same (controlled.largest.trans largest) (controlled.cumul.trans cumul)
    · obtain ⟨marked, fromHistory⟩ := caps.onWire onWire toB
      exact tallies.arrive counted stamped pushed marked fromHistory arrived
  obtain ⟨tallies', counted', cap⟩ := effect
  rw [← tallies'.bytesCap]
  exact ⟨cap, counted'.highest stamped pushed⟩

/-- The first packet arrives, with nothing consumed. -/
theorem bytes_cap_computed_first : ∃ s,
    runFrom (swp id).step (start (joined 2 2)) [.act .a (.push (bytesOf "xy") 10)] = some s ∧
      ∃ t, Session.Next id s.wire ((s.party .b).setBytesCap 7) t ∧
        t.rcv.lastAvailReaderBytesCap = t.rcv.exactBytesCap ∧
        t.rcv.lastAvailReaderBytesCap = 65534 := by
  refine exists_run_imp (P := fun s => ∃ m ∈ s.wire, m.dest = (s.party .b).rcv.inbox ∧
    (((s.party .b).setBytesCap 7).arrive id m).any (fun t =>
      t.rcv.Untouched ∧ t.rcv.lastAvailReaderBytesCap = 65534) = true) ?_ (by decide)
  rintro s ran ⟨m, onWire, toB, arrives⟩
  obtain ⟨t, arrived, found⟩ := (Option.any_eq_true ..).mp arrives
  obtain ⟨untouched, value⟩ := of_decide_eq_true found
  have next : Session.Next id s.wire ((s.party .b).setBytesCap 7) t :=
    Or.inr ⟨m, onWire, toB, arrived⟩
  have only : ∀ i : End, i ≠ .a → (joined 2 2 i).destInbox ≠ (joined 2 2 .b).localInbox := by
    intro i other
    cases i with
    | a => exact absurd rfl other
    | b => decide
  have windows : ∀ i, 1 ≤ (joined 2 2 i).windowMsgCount := by
    intro i
    cases i <;> decide
  obtain ⟨cap, -⟩ := bytes_cap_computed id (joined 2 2) .a .b only windows _ s ran 7 t next
  refine ⟨t, next, ?_, value⟩
  rcases cap with left | computed
  · rw [value] at left
    cases left
  · rw [computed, if_pos untouched, Int.add_zero]

/-- One byte is received and consumed, and the receiver advertises one byte more than its window. -/
theorem bytes_cap_exceeds_window : ∃ s,
    runFrom (swp id).step (start (joined 2 2))
      [.act .a (.push (bytesOf "x") 10), .arrive .b 0, .act .b .gotPack, .act .b .process,
        .act .b .consume] = some s ∧
      (s.party .b).rcv.recvWindowSizeBytes = 65536 ∧ (s.party .b).rcv.maxCumulBytesTrans = 1 ∧
      (s.party .b).rcv.handed = 1 ∧ (s.party .b).rcv.lastAvailReaderBytesCap = 65537 :=
  exists_run (by decide)

end Link

end Hnatsd.Swp
