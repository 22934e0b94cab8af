import Hnatsd.Swp.Proofs.Delivery

/-!
# The byte stream of `Write` and `Read`

`Write` cuts a payload into slices, one for each packet. `Read` copies from the packets that are
ready, across their borders, and a packet that is read in part stays the first in line. So what has
been read, followed by what is left of the packets that are ready, is at every moment the data of
all the packets that have become ready.
-/

namespace Hnatsd.Swp
open Misc

section Writing

theorem flatMap_slices {α : Type} (l : List α) (sz n : Nat) :
    (List.range n).flatMap (fun i => (l.take (min ((i + 1) * sz) l.length)).drop (i * sz)) =
      l.take (n * sz) := by
  induction n with
  | zero => simp
  | succ n ih =>
    rw [List.range_succ, List.flatMap_append, ih, List.flatMap_singleton, ← List.take_take,
      List.take_length, Nat.succ_mul, List.drop_take, Nat.add_sub_cancel_left, List.take_add]

variable {cfg : SessionConfig}

namespace SessionConfig

section

variable (window : 1 ≤ cfg.windowMsgCount)
include window

theorem sliceSz_pos : 0 < cfg.sliceSz.toNat := by
  have accepted : 0 < cfg.byteSz := by
    unfold byteSz
    split_ifs <;> omega
  have positive : 0 < min cfg.byteSz (1 <<< 19) := Int.lt_min.mpr ⟨accepted, by decide⟩
  simp only [sliceSz]
  rw [if_neg (by omega)]
  omega

/-- `Write` does not panic, and the packets it pushes carry the payload, none of them empty. -/
theorem write_slices (payload : Bytes) :
    ∃ slices, cfg.write payload = some slices ∧ slices.flatten = payload ∧
      ∀ data ∈ slices, data ≠ [] := by
  have positive := sliceSz_pos window
  unfold write
  generalize cfg.sliceSz.toNat = sz at positive
  dsimp only
  by_cases empty : payload.length = 0
  · exact ⟨[], if_pos empty, (List.eq_nil_of_length_eq_zero empty).symm, nofun⟩
  rw [if_neg empty, if_neg (Nat.ne_of_gt positive)]
  generalize count : (if 0 < payload.length - payload.length / sz * sz then
    payload.length / sz + 1 else payload.length / sz) = npack
  have division := Nat.div_add_mod payload.length sz
  have remainder := Nat.mod_lt payload.length positive
  rw [Nat.mul_comm] at division
  -- the last slice ends behind the payload and begins within it
  have whole : payload.length ≤ npack * sz := by
    subst count
    split_ifs
    · rw [Nat.succ_mul]
      omega
    · omega
  have within (i : Nat) (less : i < npack) : i * sz < payload.length := by
    have := Nat.mul_le_mul_right sz (Nat.succ_le_of_lt less)
    subst count
    split_ifs at less with rest
    · have := Nat.mul_le_mul_right sz (Nat.le_of_lt_succ less)
      omega
    · rw [Nat.succ_mul] at this
      rw [if_neg rest] at this
      omega
  refine ⟨_, rfl, ?_, fun data mem => ?_⟩
  · rw [← List.flatMap_def, flatMap_slices, List.take_of_length_le whole]
  · obtain ⟨i, isSlice, rfl⟩ := List.mem_map.mp mem
    have begins := within i (List.mem_range.mp isSlice)
    have ends : i * sz < (i + 1) * sz := Nat.mul_lt_mul_of_pos_right (Nat.lt_succ_self i) positive
    refine List.ne_nil_of_length_pos ?_
    rw [List.length_drop, List.length_take]
    omega

theorem writeAll_slices (payloads : List Bytes) :
    ∃ written, cfg.writeAll payloads = some written ∧ written.flatten = payloads.flatten ∧
      ∀ data ∈ written, data ≠ [] := by
  induction payloads with
  | nil => exact ⟨[], rfl, rfl, nofun⟩
  | cons payload payloads ih =>
    obtain ⟨slices, wrote, isPayload, filled⟩ := write_slices window payload
    obtain ⟨written, wroteAll, same, allFilled⟩ := ih
    obtain ⟨parts, mapped, flat⟩ := Option.map_eq_some_iff.mp wroteAll
    refine ⟨slices ++ written, ?_, ?_, fun data mem => ?_⟩
    · simp [writeAll, List.mapM_cons, wrote, mapped, ← flat]
    · rw [List.flatten_append, isPayload, same, List.flatten_cons]
    · exact (List.mem_append.mp mem).elim (filled data) (allFilled data)

end

end SessionConfig

end Writing

section Reading

/-- What is left to be read of a packet. -/
def Packet.rest (p : Packet) : Bytes := p.data.drop p.dataOffset

/-- At most the first packet has been read in part, and none to its end. -/
def OneOpened : List Packet → Prop
  | [] => True
  | p :: later => (p.dataOffset = 0 ∨ p.dataOffset < p.data.length) ∧ ∀ q ∈ later, q.dataOffset = 0

theorem oneOpened_of_unread {ready : List Packet} (unread : ∀ p ∈ ready, p.dataOffset = 0) :
    OneOpened ready := by
  cases ready with
  | nil => trivial
  | cons p later =>
    exact ⟨Or.inl (unread p List.mem_cons_self), fun q mem => unread q (List.mem_cons_of_mem _ mem)⟩

theorem OneOpened.snoc {ready : List Packet} (opened : OneOpened ready) {pack : Packet}
    (unread : pack.dataOffset = 0) : OneOpened (ready ++ [pack]) := by
  cases ready with
  | nil => exact ⟨Or.inl unread, fun _ mem => absurd mem List.not_mem_nil⟩
  | cons p later =>
    refine ⟨opened.1, fun q mem => ?_⟩
    rcases List.mem_append.mp mem with old | new
    · exact opened.2 q old
    · exact List.mem_singleton.mp new ▸ unread

/-- What has been read and what is ready make up the data of all packets in order. -/
structure RecvState.Reads (r : RecvState) : Prop where
  ring : ∀ p, some p ∈ r.rxq → p.dataOffset = 0
  opened : OneOpened r.readyForDelivery
  bytes : r.bytesRead ++ r.readyForDelivery.flatMap Packet.rest = r.ordered.flatMap Packet.data
  last : ∀ p, r.consumed.getLast? = some p → r.lastFrameClientConsumed = p.seqNum

variable {blake2b : Bytes → Bytes} {r r' : RecvState} {s s' : Session}

namespace RecvState

theorem reads_new (recvSz : Nat) (recvSzBytes : Int) (inbox destInbox nonce : Bytes) :
    (new recvSz recvSzBytes inbox destInbox nonce).Reads where
  ring _ mem := nomatch (List.eq_of_mem_replicate mem)
  opened := trivial
  bytes := rfl
  last _ found := nomatch found

theorem Reads.same (reads : r.Reads) (same : r.SameWindow r') : r'.Reads := by
  refine ⟨?_, ?_, ?_, ?_⟩
  · rw [same.rxq]
    exact reads.ring
  · rw [same.ready]
    exact reads.opened
  · rw [ordered, same.bytes, same.ready, same.consumed]
    exact reads.bytes
  · rw [same.consumed, same.last]
    exact reads.last

theorem Reads.elsewhere (reads : r.Reads) (remote : Bytes) (place : RecvAt) :
    RecvState.Reads { r with remoteInbox := remote, place := place } :=
  ⟨reads.ring, reads.opened, reads.bytes, reads.last⟩

theorem Reads.put (reads : r.Reads) {pack : Packet} (unread : pack.dataOffset = 0)
    (pos : Nat) : RecvState.Reads { r with rxq := r.rxq.set pos (some pack) } := by
  refine ⟨fun p mem => ?_, reads.opened, reads.bytes, reads.last⟩
  rcases List.mem_or_eq_of_mem_set mem with old | new
  · exact reads.ring p old
  · cases new
    exact unread

/-- A packet becomes ready. -/
theorem Reads.deliverReceived (reads : r.Reads) (fuel : Nat) :
    (r.deliverReceived fuel).Reads := by
  induction fuel generalizing r with
  | zero => exact reads
  | succ fuel ih =>
    simp only [RecvState.deliverReceived]
    split
    · exact reads
    · rename_i pack found
      have unread := reads.ring pack (List.mem_of_getElem? (getElem?_of_getD_none found))
      refine ih ⟨fun p mem => ?_, reads.opened.snoc unread, ?_, reads.last⟩
      · rcases List.mem_or_eq_of_mem_set mem with old | new
        · exact reads.ring p old
        · cases new
      · have bytes := reads.bytes
        rw [ordered, List.flatMap_append] at bytes
        simp only [ordered, List.flatMap_append, List.flatMap_singleton]
        rw [← List.append_assoc, bytes, List.append_assoc, Packet.rest, unread]
        rfl

end RecvState

theorem Session.recvData_reads (reads : s.rcv.Reads) {pack : Packet}
    (unread : pack.dataOffset = 0) : (s.recvData pack).rcv.Reads := by
  have held : (s.rcv.hold pack).Reads := reads.same (s.rcv.hold_window pack)
  simp only [Session.recvData]
  split_ifs
  · exact held
  · refine RecvState.Reads.same ?_ (Session.ack_window _ _ pack .dataAck)
    exact held
  · exact (held.put unread _).deliverReceived _
  · exact held.put unread _

namespace RecvState

/-- Reading `m` bytes of the first packet. -/
theorem Reads.readPacket (reads : r.Reads) {pk : Packet} {later : List Packet}
    (first : r.readyForDelivery = pk :: later) {m : Nat} (fits : m ≤ pk.unread) :
    (r.readPacket pk m).Reads ∧
      (r.readPacket pk m).bytesRead = r.bytesRead ++ pk.rest.take m ∧
      (m = pk.unread → (r.readPacket pk m).readyForDelivery = later) := by
  obtain ⟨partly, unread⟩ : OneOpened (pk :: later) := first ▸ reads.opened
  have bytes := reads.bytes
  rw [ordered, first, List.flatMap_append, List.flatMap_cons, List.flatMap_cons] at bytes
  have length : pk.rest.length = pk.unread := List.length_drop
  simp only [RecvState.readPacket]
  rw [show pk.data.drop pk.dataOffset = pk.rest from rfl]
  split_ifs with whole
  · refine ⟨⟨reads.ring, ?_, ?_, fun p found => ?_⟩, rfl, fun _ => ?_⟩
    · rw [first]
      exact oneOpened_of_unread unread
    · simp only [ordered, first, List.drop_one, List.tail_cons, List.flatMap_append,
        List.flatMap_singleton, List.append_assoc]
      rw [← bytes, List.take_of_length_le (show pk.rest.length ≤ m by omega)]
    · rw [List.getLast?_concat] at found
      cases found
      rfl
    · rw [first]
      rfl
  · refine ⟨⟨reads.ring, ?_, ?_, reads.last⟩, rfl, fun all => absurd all whole⟩
    · rw [first]
      refine ⟨Or.inr ?_, unread⟩
      show pk.dataOffset + m < pk.data.length
      unfold Packet.unread at fits whole
      omega
    · have restIs : Packet.rest { pk with dataOffset := pk.dataOffset + m } = pk.rest.drop m :=
        List.drop_drop.symm
      simp only [ordered, first, List.drop_one, List.tail_cons, List.flatMap_append,
        List.flatMap_cons, restIs, List.append_assoc]
      rw [← bytes, ← List.append_assoc (pk.rest.take m), List.take_append_drop]

/-- The loop of `Read` copies what is left of the packets until the buffer is full. -/
theorem Reads.fill (ready : List Packet) (room : Nat) (lastPack : Option Packet)
    (reads : r.Reads) (isReady : r.readyForDelivery = ready) :
    (RecvState.fill ready room lastPack r).1.Reads ∧
      (RecvState.fill ready room lastPack r).1.bytesRead =
        r.bytesRead ++ (ready.flatMap Packet.rest).take room := by
  induction ready generalizing room lastPack r with
  | nil => exact ⟨reads, by simp [RecvState.fill]⟩
  | cons pk ready ih =>
    have length : pk.rest.length = pk.unread := List.length_drop
    obtain ⟨reads', bytes, whole⟩ := reads.readPacket isReady (Nat.min_le_right room pk.unread)
    simp only [RecvState.fill]
    rw [List.flatMap_cons, List.take_append]
    by_cases full : room - min room pk.unread = 0
    · rw [if_pos full]
      refine ⟨reads', ?_⟩
      rw [bytes, show min room pk.unread = room by omega, show room - pk.rest.length = 0 by omega,
        List.take_zero, List.append_nil]
    · rw [if_neg full]
      obtain ⟨filled, bytes'⟩ := ih (room - min room pk.unread)
        (if min room pk.unread = pk.unread then some pk else lastPack) reads' (whole (by omega))
      refine ⟨filled, ?_⟩
      rw [bytes', bytes, List.append_assoc, length, show min room pk.unread = pk.unread by omega,
        List.take_of_length_le (Nat.le_of_eq length),
        List.take_of_length_le (show pk.rest.length ≤ room by omega)]

end RecvState

/-- `Read` with a buffer of `lenp` bytes gets the next `lenp` bytes, or all that are ready. -/
theorem Session.fillAsMuchAsPossible_reads (reads : s.rcv.Reads) (lenp : Nat) :
    (s.fillAsMuchAsPossible lenp).rcv.Reads ∧
      (s.fillAsMuchAsPossible lenp).rcv.bytesRead =
        s.rcv.bytesRead ++ (s.rcv.readyForDelivery.flatMap Packet.rest).take lenp := by
  have filled := reads.fill s.rcv.readyForDelivery lenp none rfl
  simp only [Session.fillAsMuchAsPossible]
  split_ifs with none'
  · rw [none', List.take_zero, List.append_nil]
    exact ⟨reads, rfl⟩
  · split
    · exact filled
    · refine ⟨RecvState.Reads.same ?_ (Session.ack_window _ _ _ .dataAck), filled.2⟩
      exact filled.1

/-- Every step but the consumer's taking a batch. -/
theorem RecvState.Reads.step (reads : s.rcv.Reads)
    (hand : ∀ p, s.rcv.place.pack = some p → p.tcpEvent = .data → p.dataOffset = 0)
    {a : Action} (notConsume : a ≠ .consume) {sent : List Packet}
    (moved : s.Moved blake2b a s' sent) : s'.rcv.Reads := by
  have back : s.backToSelect.rcv.Reads := reads.elsewhere s.rcv.remoteInbox .select
  cases moved with
  | gotPack pack handing free =>
    rw [s.handOver_rcv]
    exact reads.elsewhere s.rcv.remoteInbox _
  | data pack handed isData =>
    exact Session.recvData_reads back (hand pack (by rw [handed]; rfl) isData)
  | info pack handed isInfo =>
    exact back.same (s.backToSelect.recvInfo_answers rfl rfl pack).window
  | consume lastPack last => exact absurd rfl notConsume
  | read lenp => exact (Session.fillAsMuchAsPossible_reads reads lenp).1
  | retryTimer elapsed => exact reads.same (s.retryCheck_answers rfl rfl elapsed).window
  | connect destInbox fails =>
    obtain ⟨remote, -, same, -⟩ := s.connect_window destInbox fails
    exact (reads.elsewhere remote s.rcv.place).same same
  | push | wakeup | resend | sendAck | keepAlive | sendClosing | stopSender | stopReceiver =>
    exact reads

/-- What has been read is a beginning of the data of the packets in order. -/
theorem RecvState.Reads.prefix_of (reads : r.Reads) {written : List Bytes}
    (data : r.ordered.map Packet.data <+: written) : r.bytesRead <+: written.flatten := by
  obtain ⟨later, eq⟩ := data
  refine List.IsPrefix.trans ⟨_, reads.bytes⟩ ⟨later.flatten, ?_⟩
  rw [← eq, List.flatten_append, List.flatMap_def]

theorem RecvState.Reads.takes (reads : r.Reads) {pack : Packet} (takes : r.Takes pack r') :
    r'.Reads := by
  obtain ⟨place, remote, -, -, same⟩ := takes
  exact (reads.elsewhere remote place).same same

/-- The number of bytes read so far reaches the end of the `k`-th packet. -/
def RecvState.WhollyRead (r : RecvState) (k : Nat) : Prop :=
  k < r.ordered.length ∧
    ((r.ordered.take (k + 1)).flatMap Packet.data).length ≤ r.bytesRead.length

instance (r : RecvState) (k : Nat) : Decidable (r.WhollyRead k) :=
  inferInstanceAs (Decidable (_ ∧ _))

namespace RecvState

/-- The bytes read are those of the packets consumed and part of the next one. -/
theorem Reads.length (reads : r.Reads) :
    (r.consumed.flatMap Packet.data).length ≤ r.bytesRead.length ∧
      ∀ pk later, r.readyForDelivery = pk :: later → pk.data ≠ [] →
        r.bytesRead.length < ((r.consumed ++ [pk]).flatMap Packet.data).length := by
  have bytes := congrArg List.length reads.bytes
  have opened := reads.opened
  rw [ordered, List.flatMap_append, List.length_append, List.length_append] at bytes
  cases ready : r.readyForDelivery with
  | nil =>
    rw [ready, List.flatMap_nil, List.flatMap_nil] at bytes
    exact ⟨by simpa using bytes.ge, fun _ _ eq => absurd eq.symm (List.cons_ne_nil _ _)⟩
  | cons pk later =>
    rw [ready] at opened
    have same : later.flatMap Packet.rest = later.flatMap Packet.data := by
      refine List.flatMap_congr fun q mem => ?_
      rw [Packet.rest, opened.2 q mem, List.drop_zero]
    rw [ready, List.flatMap_cons, List.flatMap_cons, same, List.length_append, List.length_append,
      Packet.rest, List.length_drop] at bytes
    refine ⟨by omega, fun pk' later' eq filled => ?_⟩
    obtain ⟨rfl, rfl⟩ := List.cons.inj eq
    have positive := List.length_pos_iff.mpr filled
    have := opened.1
    rw [List.flatMap_append, List.flatMap_singleton, List.length_append]
    omega

theorem Reads.whollyRead_iff (reads : r.Reads) (filled : ∀ p ∈ r.ordered, p.data ≠ [])
    (k : Nat) : r.WhollyRead k ↔ k < r.consumed.length := by
  obtain ⟨atLeast, atMost⟩ := reads.length
  have length : r.ordered.length = r.consumed.length + r.readyForDelivery.length :=
    List.length_append
  constructor
  · rintro ⟨inOrder, read⟩
    by_contra past
    -- the packet that is next in line is among the first `k + 1`
    cases ready : r.readyForDelivery with
    | nil =>
      rw [ready, List.length_nil] at length
      omega
    | cons pk later =>
      have isOrdered : r.ordered = r.consumed ++ [pk] ++ later := by
        rw [ordered, ready, List.append_assoc]
        rfl
      have next := atMost pk later ready (filled pk (by rw [isOrdered]; simp))
      rw [isOrdered, List.take_append, List.take_of_length_le
        (by rw [List.length_append, List.length_singleton]; omega), List.flatMap_append,
        List.length_append] at read
      omega
  · intro consumed
    refine ⟨by omega, ?_⟩
    rw [ordered, List.take_append, show k + 1 - r.consumed.length = 0 by omega,
      List.take_zero, List.append_nil]
    have split := congrArg (fun l => (l.flatMap Packet.data).length)
      (List.take_append_drop (k + 1) r.consumed)
    simp only [List.flatMap_append, List.length_append] at split
    omega

/-- The last packet wholly read is the last one that the reader is recorded to have consumed. -/
theorem Reads.last_read (reads : r.Reads) (filled : ∀ p ∈ r.ordered, p.data ≠ [])
    {k : Nat} {p : Packet} (found : r.ordered[k]? = some p) (read : r.WhollyRead k)
    (unread : ¬ r.WhollyRead (k + 1)) : r.lastFrameClientConsumed = p.seqNum := by
  rw [reads.whollyRead_iff filled] at read unread
  refine reads.last p ?_
  rw [ordered, List.getElem?_append_left read] at found
  rw [List.getLast?_eq_getElem?, show r.consumed.length - 1 = k by omega, found]

end RecvState

end Reading

section Unopened

variable {blake2b : Bytes → Bytes} {dest : Bytes} {s s' : Session}

namespace Session

/-- Data travels with an offset of 0. -/
structure Unopened (s : Session) : Prop where
  slots : ∀ slot ∈ s.snd.txq, slot.pack.dataOffset = 0
  hand : ∀ p, s.rcv.place.pack = some p → p.tcpEvent = .data → p.dataOffset = 0

section

variable (unopened : s.Unopened)
include unopened

theorem Unopened.slotAt (pos : Nat) :
    (s.snd.slotAt pos).pack.dataOffset = 0 := by
  rw [SenderState.slotAt, List.getD_eq_getElem?_getD]
  cases slot : s.snd.txq[pos]? with
  | none => rfl
  | some held => exact unopened.slots held (List.mem_of_getElem? slot)

theorem Unopened.setSlot (pos : Nat) {slot : TxqSlot}
    (unread : slot.pack.dataOffset = 0) :
    ∀ slot' ∈ s.snd.txq.set pos slot, slot'.pack.dataOffset = 0 := by
  intro slot' mem
  rcases List.mem_or_eq_of_mem_set mem with old | rfl
  · exact unopened.slots slot' old
  · exact unread

theorem Unopened.step {a : Action} {sent : List Packet}
    (moved : s.Moved blake2b a s' sent) : s'.Unopened := by
  refine ⟨?_, fun p holds => unopened.hand p (moved.continues.hand p holds)⟩
  generalize after : s'.snd = snd
  have sender := moved.sender
  rw [after] at sender
  cases sender with
  | push data deadline free => exact unopened.setSlot _ rfl
  | resend pos rest deadline waiting =>
    refine unopened.setSlot pos ?_
    exact unopened.slotAt pos
  | wakeup | gotPack | beside => exact unopened.slots

theorem Unopened.sent (sendsTo : s.SendsTo dest) {a : Action}
    {sent : List Packet} (moved : s.Moved blake2b a s' sent) :
    ∀ p ∈ sent, p.tcpEvent = .data → p.dataOffset = 0 := by
  intro p mem isData
  cases moved with
  | push data deadline free =>
    rw [List.mem_singleton] at mem
    subst mem
    rfl
  | resend pos rest deadline waiting =>
    rw [List.mem_singleton] at mem
    subst mem
    exact unopened.slotAt pos
  | sendAck ackPack rest fails runs queued =>
    split_ifs at mem
    · cases mem
    · rw [List.mem_singleton] at mem
      exact absurd isData (sendsTo.queue p (by rw [mem, queued]; exact List.mem_cons_self))
  | connect destInbox fails =>
    obtain ⟨remote, -, -, syn⟩ := s.connect_window destInbox fails
    exact absurd isData (syn p mem).2.1
  | keepAlive due =>
    rw [(s.snd.doKeepAlive_fields mem).1] at isData
    cases isData
  | sendClosing =>
    rw [List.mem_singleton] at mem
    subst mem
    cases isData
  | wakeup | gotPack | data | info | consume | read | retryTimer | stopSender | stopReceiver =>
    cases mem

theorem Unopened.arrive {pack : Packet}
    (unread : pack.tcpEvent = .data → pack.dataOffset = 0)
    (arrived : s.arrive blake2b pack = some s') : s'.Unopened := by
  obtain ⟨flow, acks, counter, kept⟩ := (@Session.arrive_responds blake2b 0 [] s s' pack arrived).kept
  refine ⟨by rw [kept]; exact unopened.slots, fun p holds isData => ?_⟩
  rcases (arrive_takes arrived).arrival.hand p holds with old | rfl
  · exact unopened.hand p old isData
  · exact unread isData

end

end Session

end Unopened

section Stream

variable {ι : Type} {blake2b : Bytes → Bytes} {cfg : ι → SessionConfig} {a b : ι}

theorem whole_start (windows : ∀ i, 1 ≤ (cfg i).windowMsgCount) :
    Vouched (fun i _ p => p.SendsTo (cfg i).destInbox ∧ p.Unopened)
      (fun _ m => m.tcpEvent = .data → m.dataOffset = 0) (start cfg) := by
  refine ⟨fun i => ⟨(@link_start ι cfg i i windows).sendsTo i, ?_, ?_⟩, ?_⟩
  · intro slot mem
    rw [List.eq_of_mem_replicate mem]
  · intro p holds
    cases holds
  · intro m mem
    cases mem

/-- The consumer of `b` reads the stream, and all data on its way to be read is whole. -/
structure Streams (cfg : ι → SessionConfig) (b : ι) (s : Parties ι Session Packet) : Prop where
  whole : Vouched (fun i _ p => p.SendsTo (cfg i).destInbox ∧ p.Unopened)
    (fun _ m => m.tcpEvent = .data → m.dataOffset = 0) s
  reads : (s.party b).rcv.Reads

theorem streams_start (windows : ∀ i, 1 ≤ (cfg i).windowMsgCount) :
    Streams cfg b (start cfg) where
  whole := whole_start windows
  reads := RecvState.reads_new _ _ _ _ _

variable [DecidableEq ι]

/-- Data stays whole on its way, whatever the sessions do. -/
theorem whole_step {s s' : Parties ι Session Packet} {e : PartyAction ι Action}
    (whole : Vouched (fun i _ p => p.SendsTo (cfg i).destInbox ∧ p.Unopened)
      (fun _ m => m.tcpEvent = .data → m.dataOffset = 0) s)
    (stepped : (swp blake2b).step s e = some s') :
    Vouched (fun i _ p => p.SendsTo (cfg i).destInbox ∧ p.Unopened)
      (fun _ m => m.tcpEvent = .data → m.dataOffset = 0) s' := by
  refine whole.step (fun _ _ => True) (fun _ _ _ _ knows => knows) ?_ ?_
    (fun _ _ _ => trivial) stepped
  · intro i wire p a p' sent ⟨sendsTo, unopened⟩ _ acted
    have moved := (Session.step_moved acted).2
    exact ⟨⟨(sendsTo.step moved).sendsTo, unopened.step moved⟩, fun _ => id,
      unopened.sent sendsTo moved⟩
  · intro i wire p q m p' ⟨sendsTo, unopened⟩ _ unread arrived
    exact ⟨⟨(sendsTo.arrive arrived).sendsTo, unopened.arrive unread arrived⟩, fun _ => id⟩

theorem Streams.step {s s' : Parties ι Session Packet} (streams : Streams cfg b s)
    {e : PartyAction ι Action} (notConsume : e ≠ .act b .consume)
    (stepped : (swp blake2b).step s e = some s') : Streams cfg b s' := by
  have hand := (streams.whole.knows b).2.hand
  refine ⟨whole_step streams.whole stepped, ?_⟩
  rcases Protocol.step_cases stepped with
    ⟨i, act, p, sent, rfl, acted, rfl⟩ | ⟨i, k, m, p, rfl, -, -, arrived, rfl⟩
  · by_cases same : b = i
    · subst same
      rw [Parties.update_self]
      exact streams.reads.step hand (fun isConsume => notConsume (isConsume ▸ rfl))
        (Session.step_moved acted).2
    · rw [Parties.update_of_ne s same]
      exact streams.reads
  · by_cases same : b = i
    · subst same
      rw [Parties.update_self]
      exact streams.reads.takes (Session.arrive_takes arrived)
    · rw [Parties.update_of_ne s same]
      exact streams.reads

theorem streams_run (windows : ∀ i, 1 ≤ (cfg i).windowMsgCount) {s : Parties ι Session Packet}
    {actions : List (PartyAction ι Action)} (noConsume : PartyAction.act b .consume ∉ actions)
    (ran : runFrom (swp blake2b).step (start cfg) actions = some s) : Streams cfg b s := by
  refine @invariant_of_along _ _ _ (fun _ e => e ≠ .act b .consume) (Streams cfg b) ?_ _ s actions
    (streams_start windows) (along_of_forall fun e mem _ is => noConsume (is ▸ mem)) ran
  intro s e s' streams notConsume stepped
  exact streams.step notConsume stepped

/-- `Write` at `a` and `Read` at `b` carry one byte stream, if the packets that become ready at `b`
are those pushed at `a`, each once and in the order of their numbers. -/
theorem stream_carried (blake2b : Bytes → Bytes) (cfg : ι → SessionConfig) (a b : ι)
    (windows : ∀ i, 1 ≤ (cfg i).windowMsgCount) (payloads : List Bytes)
    (actions : List (PartyAction ι Action)) (s : Parties ι Session Packet)
    (noConsume : PartyAction.act b .consume ∉ actions)
    (ran : runFrom (swp blake2b).step (start cfg) actions = some s)
    (inOrder : (s.party b).rcv.ordered.map (fun p => (p.seqNum, p.data)) <+:
      (s.party a).snd.sendHistory.map (fun p => (p.seqNum, p.data))) :
    ∃ written, (cfg a).writeAll payloads = some written ∧ (pushesOf a actions <+: written →
      (s.party b).rcv.bytesRead <+: payloads.flatten ∧
      (∀ lenp s', (swp blake2b).step s (.act b (.read lenp)) = some s' → ∃ got,
        (s'.party b).rcv.bytesRead = (s.party b).rcv.bytesRead ++ got ∧
        got.length = min lenp (((s.party b).rcv.ordered.flatMap Packet.data).length -
          (s.party b).rcv.bytesRead.length)) ∧
      ∀ k p, (s.party b).rcv.ordered[k]? = some p → (s.party b).rcv.WhollyRead k →
        ¬ (s.party b).rcv.WhollyRead (k + 1) →
          p.seqNum = k ∧ (s.party b).rcv.lastFrameClientConsumed = p.seqNum) := by
  obtain ⟨written, wrote, same, filled⟩ := SessionConfig.writeAll_slices (windows a) payloads
  refine ⟨written, wrote, fun pushed => ?_⟩
  have streams : Streams cfg b s := streams_run windows noConsume ran
  have history := history_pushes ((@link_start ι cfg a b windows).sendsTo a) ran
  have numbered := (streams.whole.knows a).1.sends.pushed.numbered
  have data : (s.party b).rcv.ordered.map Packet.data <+: written := by
    have := inOrder.map Prod.snd
    rw [List.map_map, List.map_map] at this
    change _ <+: (s.party a).snd.sendHistory.map Packet.data at this
    rw [history] at this
    exact this.trans pushed
  refine ⟨?_, fun lenp s' stepped => ?_, fun k p found read unread => ⟨?_, ?_⟩⟩
  · exact same ▸ streams.reads.prefix_of data
  · obtain ⟨⟨p, sent⟩, acted, rfl⟩ := Option.map_eq_some_iff.mp stepped
    change (s.party b).step blake2b (.read lenp) = some (p, sent) at acted
    cases (Session.step_moved acted).2
    refine ⟨((s.party b).rcv.readyForDelivery.flatMap Packet.rest).take lenp, ?_, ?_⟩
    · rw [Parties.update_self]
      exact (Session.fillAsMuchAsPossible_reads streams.reads lenp).2
    · have length := congrArg List.length streams.reads.bytes
      rw [List.length_append] at length
      rw [List.length_take]
      omega
  · obtain ⟨later, eq⟩ := inOrder
    have inHistory := congrArg (fun l => l[k]?) eq
    rw [List.getElem?_append_left (by simpa using read.1), List.getElem?_map, List.getElem?_map,
      found] at inHistory
    obtain ⟨q, isPushed, pair⟩ := Option.map_eq_some_iff.mp inHistory.symm
    exact (congrArg Prod.fst pair).symm.trans (numbered k q isPushed)
  · refine streams.reads.last_read (fun q mem => ?_) found read unread
    exact filled q.data (data.subset (List.mem_map_of_mem mem))

/-- A payload of three bytes goes out in two packets and is read in two calls, the second across the
border of the packets. -/
theorem stream_carried_two : ∃ s,
    runFrom (swp id).step (start fun i => { joined 2 2 i with windowByteSz := 2 })
      [.act .a (.push (bytesOf "xy") 10), .act .a (.push (bytesOf "z") 20), .arrive .b 0,
        .act .b .gotPack, .act .b .process, .act .b (.read 1), .arrive .b 1, .act .b .gotPack,
        .act .b .process, .act .b (.read 5)] = some s ∧
      (s.party .b).rcv.bytesRead.length = 3 ∧ (s.party .b).rcv.bytesRead <+: bytesOf "xyz" ∧
      (s.party .b).rcv.lastFrameClientConsumed = 1 := by
  refine exists_run_imp (P := fun s => (s.party .b).rcv.bytesRead.length = 3 ∧
    (s.party .b).rcv.ordered.map (fun p => (p.seqNum, p.data)) <+:
      (s.party .a).snd.sendHistory.map (fun p => (p.seqNum, p.data)) ∧
    (s.party .b).rcv.WhollyRead 1 ∧ ¬ (s.party .b).rcv.WhollyRead 2)
    (fun s ran final => ?_) (by decide)
  obtain ⟨length, inOrder, read, unread⟩ := final
  obtain ⟨written, wrote, carried⟩ := stream_carried id
    (fun i => { joined 2 2 i with windowByteSz := 2 }) .a .b (fun i => by cases i <;> decide)
    [bytesOf "xyz"] _ s (by simp) ran inOrder
  have isWritten : SessionConfig.writeAll { joined 2 2 .a with windowByteSz := 2 }
      [bytesOf "xyz"] = some [bytesOf "xy", bytesOf "z"] := by decide
  cases wrote.symm.trans isWritten
  obtain ⟨bytes, -, last⟩ := carried List.prefix_rfl
  obtain ⟨number, isLast⟩ := last 1 _ (List.getElem?_eq_getElem read.1) read unread
  exact ⟨length, by simpa using bytes, isLast.trans number⟩

/-- Over a network that loses, repeats, reorders and delays packets, what has been read at `b` is at
every moment a beginning of what has been written at `a`. -/
theorem stream_over_network (windows : ∀ i, 1 ≤ (cfg i).windowMsgCount)
    (only : ∀ i, i ≠ a → (cfg i).destInbox ≠ (cfg b).localInbox) (payloads written : List Bytes)
    (wrote : (cfg a).writeAll payloads = some written) (actions : List (PartyAction ι Action))
    (pushed : pushesOf a actions <+: written) (noConsume : PartyAction.act b .consume ∉ actions)
    (s : Parties ι Session Packet)
    (ran : runFrom (swp blake2b).step (start cfg) actions = some s) :
    (s.party b).rcv.bytesRead <+: payloads.flatten := by
  obtain ⟨written', wrote', same, -⟩ := SessionConfig.writeAll_slices (windows a) payloads
  rw [wrote, Option.some.injEq] at wrote'
  subst wrote'
  have link : Link cfg a b s := invariant_of_run (fun _ _ _ inv => inv.step only)
    (link_start windows) ran
  have data := link.receives.inOrder.map Packet.data
  rw [List.map_map, List.map_map] at data
  change _ <+: (s.party a).snd.sendHistory.map Packet.data at data
  rw [history_pushes ((@link_start ι cfg a b windows).sendsTo a) ran] at data
  have streams := streams_run windows noConsume ran
  exact same ▸ streams.reads.prefix_of (data.trans pushed)

/-- The first packet is lost and sent again; the second one, which came first, is read with it. -/
theorem stream_over_network_resent : ∃ s,
    runFrom (swp id).step (start fun i => { joined 2 2 i with windowByteSz := 2 })
      [.act .a (.push (bytesOf "xy") 10), .act .a (.push (bytesOf "z") 20), .arrive .b 1,
        .act .b .gotPack, .act .b .process, .act .a (.wakeup 15), .act .a (.resend 30),
        .arrive .b 2, .act .b .gotPack, .act .b .process, .act .b (.read 3)] = some s ∧
      (s.party .b).rcv.bytesRead.length = 3 ∧
      (s.party .b).rcv.bytesRead <+: [bytesOf "xyz"].flatten :=
  exists_run_imp (P := fun s => (s.party .b).rcv.bytesRead.length = 3)
    (fun s ran final => ⟨final, @stream_over_network _ id _ .a .b _ (fun i => by cases i <;> decide)
      (fun i other => by cases i <;> first | exact absurd rfl other | decide) _
      [bytesOf "xy", bytesOf "z"] (by decide) _ (by decide) (by simp) s ran⟩) (by decide)

end Stream

end Hnatsd.Swp
