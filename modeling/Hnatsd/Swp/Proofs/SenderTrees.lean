import Hnatsd.Swp.Proofs.SessionSteps

/-!
# The sender's trees

The packets that have been sent and not acknowledged carry consecutive sequence numbers. As long as
they fit into the ring, no slot that is in the trees is overwritten, both trees are sorted, and they
hold the same slots.
-/

namespace Hnatsd.Swp
open Misc List SenderState

/-- The sequence number that the slot at a position carries at the moment. -/
def SenderState.seqOf (s : SenderState) (pos : Nat) : Int := (s.slotAt pos).pack.seqNum

/-- The key of the tree by deadline: sequence numbers break ties. -/
def SenderState.dueOf (s : SenderState) (pos : Nat) : Int ×ₗ Int :=
  toLex ((s.slotAt pos).retryDeadline, s.seqOf pos)

/-- The deadline is between 1970 and 2262: its `UnixNano` is a 64-bit integer, and so is the
difference of two of them. -/
def IsDated (deadline : Int) : Prop := 0 ≤ deadline ∧ deadline < 2 ^ 63

instance (deadline : Int) : Decidable (IsDated deadline) :=
  inferInstanceAs (Decidable (_ ∧ _))

def SenderState.Dated (s : SenderState) (pos : Nat) : Prop := IsDated (s.slotAt pos).retryDeadline

theorem SenderState.compares_seqNum (s : SenderState) (i j : Nat) :
    Compares s.bySeqNum s.seqOf i j := by
  unfold Compares bySeqNum compareSeqNum seqOf
  constructor <;> constructor <;> intro h <;> omega

theorem SenderState.compares_deadline {s : SenderState} {i j : Nat} (dated : s.Dated i)
    (dated' : s.Dated j) : Compares s.byDeadline s.dueOf i j := by
  obtain ⟨low, high⟩ := dated
  obtain ⟨low', high'⟩ := dated'
  have wrapped : wrap64 (s.slotAt i).retryDeadline = (s.slotAt i).retryDeadline :=
    wrap64_of_bounds (by omega) high
  have wrapped' : wrap64 (s.slotAt j).retryDeadline = (s.slotAt j).retryDeadline :=
    wrap64_of_bounds (by omega) high'
  have difference : wrap64 ((s.slotAt i).retryDeadline - (s.slotAt j).retryDeadline) =
      (s.slotAt i).retryDeadline - (s.slotAt j).retryDeadline :=
    wrap64_of_bounds (by omega) (by omega)
  unfold Compares byDeadline compareRetryDeadline dueOf seqOf
  rw [wrapped, wrapped', Prod.Lex.toLex_lt_toLex, toLex_inj, Prod.mk.injEq]
  dsimp only
  rw [difference]
  split_ifs <;> constructor <;> constructor <;> intro h <;> omega

/-- The two trees are sorted and hold the same slots. -/
structure SenderState.Trees (s : SenderState) : Prop where
  same : s.sentButNotAckedByDeadline.Perm s.sentButNotAckedBySeqNum
  seqSorted : KeySorted s.seqOf s.sentButNotAckedBySeqNum
  dueSorted : KeySorted s.dueOf s.sentButNotAckedByDeadline
  dated : ∀ pos ∈ s.sentButNotAckedByDeadline, s.Dated pos

section Slots

variable {s : SenderState} {pos i : Nat} {slot : TxqSlot}

/-- Overwriting a slot that is in neither tree. -/
theorem SenderState.Trees.setSlot (trees : s.Trees) (slot : TxqSlot)
    (outside : pos ∉ s.sentButNotAckedBySeqNum) : (s.setSlot pos slot).Trees := by
  have sameSlot : ∀ i ∈ s.sentButNotAckedBySeqNum, (s.setSlot pos slot).slotAt i = s.slotAt i :=
    fun i mem => slotAt_setSlot_ne fun eq => outside (eq ▸ mem)
  have sameSlot' : ∀ i ∈ s.sentButNotAckedByDeadline, (s.setSlot pos slot).slotAt i = s.slotAt i :=
    fun i mem => sameSlot i (trees.same.mem_iff.mp mem)
  refine ⟨trees.same, trees.seqSorted.congr fun i mem => ?_, trees.dueSorted.congr fun i mem => ?_,
    fun i mem => ?_⟩
  · rw [seqOf, sameSlot i mem, seqOf]
  · rw [dueOf, seqOf, sameSlot' i mem, dueOf, seqOf]
  · rw [Dated, sameSlot' i mem]
    exact trees.dated i mem

/-- Inserting a slot with a sequence number that is not in the trees. -/
theorem SenderState.Trees.insertSlot (trees : s.Trees) (dated : s.Dated pos)
    (fresh : ∀ i ∈ s.sentButNotAckedBySeqNum, s.seqOf pos ≠ s.seqOf i) :
    (s.insertSlot pos).Trees ∧
      (s.insertSlot pos).sentButNotAckedBySeqNum.Perm (pos :: s.sentButNotAckedBySeqNum) := by
  have bySeq := @treeInsert_perm _ _ _ s.bySeqNum s.seqOf pos s.sentButNotAckedBySeqNum
    (fun i _ => s.compares_seqNum pos i) fresh
  have comparesDue : ∀ i ∈ s.sentButNotAckedByDeadline, Compares s.byDeadline s.dueOf pos i :=
    fun i mem => compares_deadline dated (trees.dated i mem)
  have byDue := treeInsert_perm comparesDue fun i mem eq =>
    fresh i (trees.same.mem_iff.mp mem) (Prod.mk.injEq .. ▸ toLex_inj.mp eq).2
  refine ⟨⟨byDue.trans ((trees.same.cons pos).trans bySeq.symm),
    trees.seqSorted.insert fun i _ => s.compares_seqNum pos i,
    trees.dueSorted.insert comparesDue, fun i mem => ?_⟩, bySeq⟩
  rcases mem_treeInsert mem with rfl | old
  · exact dated
  · exact trees.dated i old

end Slots

/-- Setting a slot that is in neither tree and inserting it. -/
theorem SenderState.Trees.put {s : SenderState} {pos : Nat} {slot : TxqSlot} (trees : s.Trees)
    (inRing : pos < s.txq.length) (outside : pos ∉ s.sentButNotAckedBySeqNum)
    (dated : IsDated slot.retryDeadline)
    (fresh : ∀ i ∈ s.sentButNotAckedBySeqNum, slot.pack.seqNum ≠ s.seqOf i) :
    ((s.setSlot pos slot).insertSlot pos).Trees ∧
      ((s.setSlot pos slot).insertSlot pos).sentButNotAckedBySeqNum.Perm
        (pos :: s.sentButNotAckedBySeqNum) := by
  have here : (s.setSlot pos slot).slotAt pos = slot := slotAt_setSlot_self inRing
  refine (trees.setSlot slot outside).insertSlot ?_ fun i mem => ?_
  · rw [Dated, here]
    exact dated
  · have elsewhere : i ≠ pos := fun eq => outside (eq ▸ mem)
    rw [seqOf, here, seqOf, slotAt_setSlot_ne elsewhere]
    exact fresh i mem

/-- A wakeup takes the same slots out of both trees. -/
theorem SenderState.Trees.wakeup {s : SenderState} (trees : s.Trees) (now : Int) :
    (s.wakeup now).Trees ∧
      s.sentButNotAckedBySeqNum.Perm
        ((s.wakeup now).retrying ++ (s.wakeup now).sentButNotAckedBySeqNum) := by
  have parts := takeWhile_append_dropWhile
    (p := fun pos => decide ((s.slotAt pos).retryDeadline ≤ now)) (l := s.sentButNotAckedByDeadline)
  have distinct := trees.dueSorted.nodup
  rw [← parts] at distinct
  obtain ⟨perm, sorted⟩ := trees.seqSorted.deleteAll
    (fun i _ j _ => s.compares_seqNum i j) distinct.of_append_left
    fun i mem => trees.same.mem_iff.mp (takeWhile_subset _ mem)
  refine ⟨⟨?_, sorted, trees.dueSorted.sublist (dropWhile_sublist _),
    fun i mem => trees.dated i ((dropWhile_sublist _).subset mem)⟩, perm⟩
  have both := (List.Perm.of_eq parts).trans (trees.same.trans perm)
  exact (perm_append_left_iff _).mp both

/-- An ack takes the same slots out of both trees. -/
theorem SenderState.Trees.gotPack {s : SenderState} (trees : s.Trees) (a : Packet) :
    (s.gotPack a).Trees := by
  have parts := takeWhile_append_dropWhile
    (p := fun pos => decide ((s.slotAt pos).pack.seqNum ≤ a.ackNum))
    (l := s.sentButNotAckedBySeqNum)
  have distinct := trees.seqSorted.nodup
  rw [← parts] at distinct
  obtain ⟨perm, sorted⟩ := trees.dueSorted.deleteAll
    (fun i mem j mem' => compares_deadline (trees.dated i mem) (trees.dated j mem'))
    distinct.of_append_left fun i mem => trees.same.mem_iff.mpr (takeWhile_subset _ mem)
  refine ⟨?_, trees.seqSorted.sublist (dropWhile_sublist _), sorted, fun i mem => ?_⟩
  · have both := perm.symm.trans (trees.same.trans (List.Perm.of_eq parts.symm))
    exact (perm_append_left_iff _).mp both
  · exact trees.dated i (perm.mem_iff.mpr (mem_append_right _ mem))

/-- A list holds each number from `low` to `high` once, and no other. -/
structure Covers (seqs : List Int) (low high : Int) : Prop where
  nodup : seqs.Nodup
  mem : ∀ n, n ∈ seqs ↔ low ≤ n ∧ n ≤ high

theorem Covers.perm {seqs seqs' : List Int} {low high : Int} (covers : Covers seqs low high)
    (perm : seqs'.Perm seqs) : Covers seqs' low high :=
  ⟨perm.nodup_iff.mpr covers.nodup, fun n => perm.mem_iff.trans (covers.mem n)⟩

theorem Covers.length {seqs : List Int} {low high : Int} (covers : Covers seqs low high)
    (nonempty : low ≤ high + 1) : (seqs.length : Int) = high + 1 - low := by
  have same : seqs.toFinset = Finset.Icc low high := by
    ext n
    rw [mem_toFinset, Finset.mem_Icc]
    exact covers.mem n
  rw [← toFinset_card_of_nodup covers.nodup, same, Int.card_Icc]
  omega

/-- The next number is added. -/
theorem Covers.snoc {seqs : List Int} {low high : Int} (covers : Covers seqs low high)
    (nonempty : low ≤ high + 1) : Covers ((high + 1) :: seqs) low (high + 1) := by
  refine ⟨nodup_cons.mpr ⟨fun mem => ?_, covers.nodup⟩, fun n => ?_⟩
  · have := (covers.mem _).mp mem
    omega
  · rw [mem_cons, covers.mem]
    omega

/-- The slots of the packets that have not been acknowledged. -/
def SenderState.live (s : SenderState) : List Nat := s.sentButNotAckedBySeqNum ++ s.retrying

/-- Between two rounds of retries they are those in the trees. -/
theorem SenderState.live_of_free {s : SenderState} (free : s.retrying = []) :
    s.live = s.sentButNotAckedBySeqNum := by
  rw [live, free, append_nil]

/-- The packets from `low` on have not been acknowledged since they were sent, and each has its own
slot. -/
structure SenderState.Tracks (s : SenderState) (low : Int) : Prop where
  trees : s.Trees
  window : 1 ≤ s.senderWindowSize
  slots : (s.txq.length : Int) = s.senderWindowSize
  lowest : 0 ≤ low ∧ low ≤ s.lastFrameSent + 1
  covers : Covers (s.live.map s.seqOf) low s.lastFrameSent
  fits : s.lastFrameSent + 1 - low ≤ s.senderWindowSize
  placed : ∀ pos ∈ s.live, (pos : Int) = s.seqOf pos % s.senderWindowSize
  numbered : (s.sendHistory.length : Int) = s.lastFrameSent + 1
  carries : ∀ pos ∈ s.live, ∃ p, s.sendHistory[(s.seqOf pos).toNat]? = some p ∧
    (s.slotAt pos).pack.message = p.message
  acked : ∀ e ∈ s.heard, min e.1 e.2 < low
  lowFrom : low = 0 ∨ ∃ e ∈ s.heard, low = min e.1 e.2 + 1

section Tracks

variable {s : SenderState} {low : Int}

namespace SenderState

theorem tracks_new {sendSz : Nat} (window : 1 ≤ sendSz) (inbox destInbox nonce : Bytes) :
    (new sendSz inbox destInbox nonce).Tracks 0 where
  trees := ⟨.refl _, .nil, .nil, nofun⟩
  window := Int.ofNat_le.mpr window
  slots := by simp [new]
  lowest := by simp [new]
  covers := ⟨nodup_nil, fun n => by simp [new, live]; omega⟩
  fits := by simp [new]
  placed := nofun
  numbered := rfl
  carries := nofun
  acked := nofun
  lowFrom := Or.inl rfl

theorem Tracks.seq_bounds (tracks : s.Tracks low) {pos : Nat} (mem : pos ∈ s.live) :
    low ≤ s.seqOf pos ∧ s.seqOf pos ≤ s.lastFrameSent :=
  (tracks.covers.mem _).mp (mem_map_of_mem mem)

/-- What the trees do not depend on. -/
theorem Tracks.beside (tracks : s.Tracks low) (flow : Flow) (acks : List Packet)
    (counter : Int) (nonce : Bytes) :
    SenderState.Tracks { s with
      flow := flow
      sendAck := acks
      recvLastFrameClientConsumed := counter
      remoteSessNonce := nonce } low :=
  ⟨⟨tracks.trees.same, tracks.trees.seqSorted, tracks.trees.dueSorted, tracks.trees.dated⟩,
    tracks.window, tracks.slots, tracks.lowest, tracks.covers, tracks.fits, tracks.placed,
    tracks.numbered, tracks.carries, tracks.acked, tracks.lowFrom⟩

/-- The next position of the ring is free as long as the window is not full. -/
theorem Tracks.next_free (tracks : s.Tracks low)
    (room : s.lastFrameSent + 1 - low < s.senderWindowSize) {pos : Nat} (mem : pos ∈ s.live) :
    (pos : Int) ≠ (s.lastFrameSent + 1) % s.senderWindowSize := by
  intro eq
  obtain ⟨atLeast, atMost⟩ := tracks.seq_bounds mem
  rw [tracks.placed pos mem] at eq
  have divides := Int.emod_eq_emod_iff_emod_sub_eq_zero.mp eq.symm
  rw [Int.emod_eq_of_lt (by omega) (by omega)] at divides
  omega

/-- A slot is set and inserted. Everything but the packet in it is tracked already. -/
theorem Tracks.put {pos : Nat} {slot : TxqSlot} (trees : s.Trees)
    (window : 1 ≤ s.senderWindowSize) (slots : (s.txq.length : Int) = s.senderWindowSize)
    (lowest : 0 ≤ low ∧ low ≤ s.lastFrameSent + 1)
    (covers : Covers (slot.pack.seqNum :: s.live.map s.seqOf) low s.lastFrameSent)
    (fits : s.lastFrameSent + 1 - low ≤ s.senderWindowSize)
    (placed : ∀ i ∈ s.live, (i : Int) = s.seqOf i % s.senderWindowSize)
    (numbered : (s.sendHistory.length : Int) = s.lastFrameSent + 1)
    (carries : ∀ i ∈ s.live, ∃ p, s.sendHistory[(s.seqOf i).toNat]? = some p ∧
      (s.slotAt i).pack.message = p.message)
    (acked : ∀ e ∈ s.heard, min e.1 e.2 < low)
    (lowFrom : low = 0 ∨ ∃ e ∈ s.heard, low = min e.1 e.2 + 1)
    (outside : pos ∉ s.live) (dated : IsDated slot.retryDeadline)
    (place : (pos : Int) = slot.pack.seqNum % s.senderWindowSize)
    (packet : ∃ p, s.sendHistory[slot.pack.seqNum.toNat]? = some p ∧
      slot.pack.message = p.message) :
    ((s.setSlot pos slot).insertSlot pos).Tracks low := by
  have inRing : pos < s.txq.length := by
    have := Int.emod_lt_of_pos slot.pack.seqNum (show 0 < s.senderWindowSize by omega)
    omega
  have here : ((s.setSlot pos slot).insertSlot pos).slotAt pos = slot :=
    slotAt_setSlot_self inRing
  have elsewhere : ∀ i ∈ s.live, ((s.setSlot pos slot).insertSlot pos).slotAt i = s.slotAt i :=
    fun i mem => slotAt_setSlot_ne fun eq => outside (eq ▸ mem)
  have fresh : ∀ i ∈ s.live, slot.pack.seqNum ≠ s.seqOf i := fun i mem eq =>
    (nodup_cons.mp covers.nodup).1 (eq ▸ mem_map_of_mem mem)
  obtain ⟨trees', perm⟩ := trees.put inRing (fun mem => outside (mem_append_left _ mem)) dated
    fun i mem => fresh i (mem_append_left _ mem)
  have permLive : ((s.setSlot pos slot).insertSlot pos).live.Perm (pos :: s.live) :=
    perm.append_right s.retrying
  have members : ∀ i ∈ ((s.setSlot pos slot).insertSlot pos).live, i = pos ∨ i ∈ s.live :=
    fun i mem => mem_cons.mp (permLive.mem_iff.mp mem)
  refine ⟨trees', window, ?_, lowest, covers.perm ?_, fits, fun i mem => ?_, numbered,
    fun i mem => ?_, acked, lowFrom⟩
  · exact (congrArg _ length_set).trans slots
  · refine (permLive.map _).trans (List.Perm.of_eq ?_)
    rw [map_cons, seqOf, here]
    refine congrArg _ (map_congr_left fun i mem => ?_)
    rw [seqOf, elsewhere i mem, seqOf]
  · rcases members i mem with rfl | old
    · rw [seqOf, here]
      exact place
    · rw [seqOf, elsewhere i old]
      exact placed i old
  · rcases members i mem with rfl | old
    · rw [seqOf, here]
      exact packet
    · rw [seqOf, elsewhere i old]
      exact carries i old

section

variable (tracks : s.Tracks low)
include tracks

/-- Sending a packet for the first time, with room in the window. -/
theorem Tracks.doOrigDataSend (blake2b : Bytes → Bytes)
    (pack : Packet) {deadline : Int} (free : s.retrying = []) (dated : IsDated deadline)
    (room : (s.sentButNotAckedByDeadline.length : Int) < s.senderWindowSize) :
    (s.doOrigDataSend blake2b pack deadline).1.Tracks low := by
  have isLive := live_of_free free
  have lowest := tracks.lowest
  have window := tracks.window
  have numbered := tracks.numbered
  have count := tracks.covers.length lowest.2
  rw [length_map, isLive, ← tracks.trees.same.length_eq] at count
  have nonneg := Int.emod_nonneg (s.lastFrameSent + 1) (show s.senderWindowSize ≠ 0 by omega)
  have toNat : ((((s.lastFrameSent + 1) % s.senderWindowSize).toNat : Nat) : Int) =
      (s.lastFrameSent + 1) % s.senderWindowSize := Int.toNat_of_nonneg nonneg
  refine SenderState.Tracks.put ?_ window tracks.slots ?_ (tracks.covers.snoc lowest.2) ?_
    tracks.placed ?_ (fun i mem => ?_) tracks.acked tracks.lowFrom (fun mem => ?_) dated toNat
    ⟨_, ?_, rfl⟩
  · exact ⟨tracks.trees.same, tracks.trees.seqSorted, tracks.trees.dueSorted, tracks.trees.dated⟩
  · exact ⟨lowest.1, show low ≤ s.lastFrameSent + 1 + 1 by omega⟩
  · show s.lastFrameSent + 1 + 1 - low ≤ s.senderWindowSize
    omega
  · show ((s.sendHistory ++ [s.origPack blake2b pack]).length : Int) = s.lastFrameSent + 1 + 1
    rw [length_append, length_singleton]
    omega
  · obtain ⟨p, found, same⟩ := tracks.carries i mem
    exact ⟨p, getElem?_append_left (List.getElem?_eq_some_iff.mp found).1 ▸ found, same⟩
  · exact tracks.next_free (by omega) mem toNat
  · have index : (s.lastFrameSent + 1).toNat = s.sendHistory.length := by omega
    show (s.sendHistory ++ [_])[(s.lastFrameSent + 1).toNat]? = some _
    rw [index, getElem?_concat_length]

/-- A wakeup. -/
theorem Tracks.wakeup (now : Int) (free : s.retrying = []) :
    (s.wakeup now).Tracks low := by
  obtain ⟨trees, perm⟩ := tracks.trees.wakeup now
  have permLive : (s.wakeup now).live.Perm s.live := by
    rw [live_of_free free]
    exact perm_append_comm.trans perm.symm
  exact ⟨trees, tracks.window, tracks.slots, tracks.lowest,
    tracks.covers.perm (permLive.map s.seqOf), tracks.fits,
    fun i mem => tracks.placed i (permLive.mem_iff.mp mem), tracks.numbered,
    fun i mem => tracks.carries i (permLive.mem_iff.mp mem), tracks.acked, tracks.lowFrom⟩

/-- A round of the retry loop. -/
theorem Tracks.resend {pos : Nat} {rest : List Nat}
    {deadline : Int} (waiting : s.retrying = pos :: rest) (dated : IsDated deadline) :
    SenderState.Tracks { (s.resend pos deadline).1 with retrying := rest } low := by
  have isLive : s.live = s.sentButNotAckedBySeqNum ++ pos :: rest := by
    rw [live, waiting]
  have permLive : s.live.Perm (pos :: (s.sentButNotAckedBySeqNum ++ rest)) := by
    rw [isLive]
    exact perm_middle
  have here : pos ∈ s.live := permLive.mem_iff.mpr mem_cons_self
  have others : ∀ i ∈ s.sentButNotAckedBySeqNum ++ rest, i ∈ s.live :=
    fun i mem => permLive.mem_iff.mpr (mem_cons_of_mem _ mem)
  have distinct : (pos :: (s.sentButNotAckedBySeqNum ++ rest)).Nodup :=
    permLive.nodup_iff.mp (List.Nodup.of_map _ tracks.covers.nodup)
  refine @SenderState.Tracks.put { s with retrying := rest } low pos _ ?_ tracks.window tracks.slots
    tracks.lowest (tracks.covers.perm (permLive.map s.seqOf).symm) tracks.fits
    (fun i mem => tracks.placed i (others i mem)) tracks.numbered
    (fun i mem => tracks.carries i (others i mem)) tracks.acked tracks.lowFrom
    (nodup_cons.mp distinct).1 dated (tracks.placed pos here) (tracks.carries pos here)
  exact ⟨tracks.trees.same, tracks.trees.seqSorted, tracks.trees.dueSorted, tracks.trees.dated⟩

/-- A packet from the receiver: its ack moves the lower end of the window. -/
theorem Tracks.gotPack (a : Packet) (free : s.retrying = []) :
    (s.gotPack a).Tracks (max low (min s.lastFrameSent a.ackNum + 1)) := by
  have isLive := live_of_free free
  have parts := takeWhile_append_dropWhile
    (p := fun pos => decide ((s.slotAt pos).pack.seqNum ≤ a.ackNum))
    (l := s.sentButNotAckedBySeqNum)
  have behind : ∀ pos ∈ s.sentButNotAckedBySeqNum.dropWhile
      (fun pos => decide ((s.slotAt pos).pack.seqNum ≤ a.ackNum)), a.ackNum < s.seqOf pos := by
    intro pos mem
    have above := tracks.trees.seqSorted.dropWhile (fun i j lt below => by
      simp only [decide_eq_true_eq] at below ⊢
      exact Int.le_trans (Int.le_of_lt lt) below) pos mem
    simpa [seqOf] using above
  have newLive : (s.gotPack a).live = s.sentButNotAckedBySeqNum.dropWhile
      (fun pos => decide ((s.slotAt pos).pack.seqNum ≤ a.ackNum)) := by
    rw [live, show (s.gotPack a).retrying = [] from free, append_nil]
    rfl
  have kept : ∀ pos ∈ (s.gotPack a).live, pos ∈ s.live := by
    intro pos mem
    rw [newLive] at mem
    rw [isLive]
    exact (dropWhile_sublist _).subset mem
  have lowest := tracks.lowest
  have fits := tracks.fits
  refine ⟨tracks.trees.gotPack a, tracks.window, tracks.slots, ?_, ?_, ?_,
    fun i mem => tracks.placed i (kept i mem), tracks.numbered,
    fun i mem => tracks.carries i (kept i mem), fun e mem => ?_, ?_⟩
  · show 0 ≤ max low _ ∧ max low _ ≤ s.lastFrameSent + 1
    omega
  · refine ⟨?_, fun n => ⟨fun mem => ?_, fun bounds => ?_⟩⟩
    · have sub : ((s.gotPack a).live.map s.seqOf).Sublist (s.live.map s.seqOf) := by
        rw [newLive, isLive]
        exact (dropWhile_sublist _).map _
      exact tracks.covers.nodup.sublist sub
    · obtain ⟨pos, inLive, rfl⟩ := mem_map.mp mem
      have bounds := tracks.seq_bounds (kept pos inLive)
      have above := behind pos (newLive ▸ inLive)
      show max low _ ≤ s.seqOf pos ∧ s.seqOf pos ≤ s.lastFrameSent
      omega
    · have atMost : n ≤ s.lastFrameSent := bounds.2
      have inOld := (tracks.covers.mem n).mpr ⟨by omega, atMost⟩
      obtain ⟨pos, mem, rfl⟩ := mem_map.mp inOld
      rw [isLive, ← parts, mem_append] at mem
      refine mem_map.mpr ⟨pos, ?_, rfl⟩
      rw [newLive]
      refine mem.resolve_left fun taken => ?_
      have below : s.seqOf pos ≤ a.ackNum := by
        simpa [seqOf] using all_eq_true.mp all_takeWhile pos taken
      omega
  · show s.lastFrameSent + 1 - max low _ ≤ s.senderWindowSize
    omega
  · rcases mem_append.mp mem with old | new
    · have := tracks.acked e old
      omega
    · rw [mem_singleton] at new
      subst new
      show min s.lastFrameSent a.ackNum < _
      omega
  · by_cases moves : low < min s.lastFrameSent a.ackNum + 1
    · exact Or.inr ⟨_, mem_append_right _ mem_cons_self,
        show _ = min s.lastFrameSent a.ackNum + 1 by omega⟩
    · have stays : max low (min s.lastFrameSent a.ackNum + 1) = low := by omega
      rw [stays]
      exact tracks.lowFrom.imp_right fun ⟨e, mem, eq⟩ => ⟨e, mem_append_left _ mem, eq⟩

end

end SenderState

end Tracks

end Hnatsd.Swp
