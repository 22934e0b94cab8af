import Hnatsd.Swp.Proofs.SessionSteps

/-!
# What a session sends

The data packets of a session carry the numbers and the data of its pushes, however often they are
sent and whatever happens to the slots of the ring. Everything a session sends goes to its peer.
-/

namespace Hnatsd.Swp
open Misc List

variable {history : List Packet} {p : Packet}

/-- A packet is one of those pushed, possibly sent again or read in part. -/
def Sent (history : List Packet) (p : Packet) : Prop :=
  ∃ q, history[p.seqNum.toNat]? = some q ∧ p.message = q.message

theorem Sent.mono {history' : List Packet} (sent : Sent history p)
    (grows : history <+: history') : Sent history' p := by
  obtain ⟨q, found, same⟩ := sent
  obtain ⟨later, rfl⟩ := grows
  exact ⟨q, getElem?_append_left (List.getElem?_eq_some_iff.mp found).1 ▸ found, same⟩

/-- The packets pushed so far, numbered from 0. -/
structure PushedTo (peer : Bytes) (history : List Packet) : Prop where
  numbered : ∀ (k : Nat) (q : Packet), history[k]? = some q → q.seqNum = k
  plain : ∀ q ∈ history, q.ackNum = 0 ∧ q.tcpEvent = .data ∧ q.dest = peer

theorem PushedTo.seqNum {peer : Bytes} (pushed : PushedTo peer history) (sent : Sent history p) : 0 ≤ p.seqNum ∧ p.seqNum < history.length := by
  obtain ⟨q, found, same⟩ := sent
  have number := pushed.numbered _ q found
  have seqNum : p.message.seqNum = q.message.seqNum := congrArg Packet.seqNum same
  change p.seqNum = q.seqNum at seqNum
  have bound := (List.getElem?_eq_some_iff.mp found).1
  omega

theorem PushedTo.fields {peer : Bytes} (pushed : PushedTo peer history) (sent : Sent history p) :
    p.ackNum = 0 ∧ p.tcpEvent = .data ∧ p.dest = peer := by
  obtain ⟨q, found, same⟩ := sent
  obtain ⟨ackNum, event, dest⟩ := pushed.plain q (mem_of_getElem? found)
  have sameAck : p.message.ackNum = q.message.ackNum := congrArg Packet.ackNum same
  have sameEvent : p.message.tcpEvent = q.message.tcpEvent := congrArg Packet.tcpEvent same
  have sameDest : p.message.dest = q.message.dest := congrArg Packet.dest same
  exact ⟨sameAck.trans ackNum, sameEvent.trans event, sameDest.trans dest⟩

/-- The slots in the trees hold packets that were pushed. -/
structure SenderState.Sends (peer : Bytes) (s : SenderState) : Prop where
  ring : 1 ≤ s.senderWindowSize ∧ (s.txq.length : Int) = s.senderWindowSize
  dest : s.dest = peer
  count : (s.sendHistory.length : Int) = s.lastFrameSent + 1
  pushed : PushedTo peer s.sendHistory
  slots : ∀ pos, pos ∈ s.sentButNotAckedByDeadline ∨ pos ∈ s.sentButNotAckedBySeqNum ∨
    pos ∈ s.retrying → pos < s.txq.length ∧ Sent s.sendHistory (s.slotAt pos).pack

section Sends

variable {peer : Bytes} {s : SenderState}

namespace SenderState

theorem sends_new {sendSz : Nat} (window : 1 ≤ sendSz) (inbox nonce : Bytes) :
    (new sendSz inbox peer nonce).Sends peer where
  ring := by simp [new]; omega
  dest := rfl
  count := rfl
  pushed := ⟨by simp [new], by simp [new]⟩
  slots pos mem := by simp [new] at mem

section

variable (sends : s.Sends peer)
include sends

/-- A slot is set to a packet that was pushed and inserted into the trees. -/
theorem Sends.put {pos : Nat} {slot : TxqSlot}
    (inRing : pos < s.txq.length) (sent : Sent s.sendHistory slot.pack) :
    ((s.setSlot pos slot).insertSlot pos).Sends peer := by
  refine ⟨⟨sends.ring.1, ?_⟩, sends.dest, sends.count, sends.pushed, fun i mem => ?_⟩
  · exact (congrArg _ length_set).trans sends.ring.2
  · have ring : ((s.setSlot pos slot).insertSlot pos).txq.length = s.txq.length := length_set
    rw [ring]
    by_cases here : i = pos
    · subst here
      have slotAt : ((s.setSlot i slot).insertSlot i).slotAt i = slot :=
        slotAt_setSlot_self inRing
      rw [slotAt]
      exact ⟨inRing, sent⟩
    · have slotAt : ((s.setSlot pos slot).insertSlot pos).slotAt i = s.slotAt i :=
        slotAt_setSlot_ne here
      rw [slotAt]
      refine sends.slots i ?_
      rcases mem with byDeadline | bySeqNum | retrying
      · exact Or.inl ((mem_treeInsert byDeadline).resolve_left here)
      · exact Or.inr (Or.inl ((mem_treeInsert bySeqNum).resolve_left here))
      · exact Or.inr (Or.inr retrying)

theorem Sends.countSend (blake2b : Bytes → Bytes)
    (data : Bytes) : (s.countSend (s.origPack blake2b (s.pushed data))).Sends peer := by
  have count := sends.count
  refine ⟨sends.ring, sends.dest, ?_, ⟨fun k q found => ?_, fun q mem => ?_⟩, fun i mem => ?_⟩
  · show ((s.sendHistory ++ [s.origPack blake2b (s.pushed data)]).length : Int) =
      s.lastFrameSent + 1 + 1
    rw [length_append, length_singleton]
    omega
  · change (s.sendHistory ++ [s.origPack blake2b (s.pushed data)])[k]? = some q at found
    rcases Nat.lt_or_ge k s.sendHistory.length with old | past
    · rw [getElem?_append_left old] at found
      exact sends.pushed.numbered k q found
    · rw [getElem?_append_right past, getElem?_singleton] at found
      split_ifs at found with first
      cases found
      show s.lastFrameSent + 1 = k
      omega
  · rcases mem_append.mp mem with old | new
    · exact sends.pushed.plain q old
    · rw [mem_singleton] at new
      subst new
      exact ⟨rfl, rfl, sends.dest⟩
  · obtain ⟨inRing, sent⟩ := sends.slots i mem
    exact ⟨inRing, sent.mono (prefix_append _ _)⟩

theorem Sends.doOrigDataSend (blake2b : Bytes → Bytes)
    (data : Bytes) (deadline : Int) :
    (s.doOrigDataSend blake2b (s.pushed data) deadline).1.Sends peer ∧
      Sent (s.sendHistory ++ [s.origPack blake2b (s.pushed data)])
        (s.origPack blake2b (s.pushed data)) := by
  have count := sends.count
  obtain ⟨window, slots⟩ := sends.ring
  have index : (s.lastFrameSent + 1).toNat = s.sendHistory.length := by omega
  have sent : Sent (s.sendHistory ++ [s.origPack blake2b (s.pushed data)])
      (s.origPack blake2b (s.pushed data)) := by
    refine ⟨_, ?_, rfl⟩
    show (s.sendHistory ++ [_])[(s.lastFrameSent + 1).toNat]? = some _
    rw [index, getElem?_concat_length]
  refine ⟨(sends.countSend blake2b data).put ?_ sent, sent⟩
  have := Int.emod_lt_of_pos (s.lastFrameSent + 1) (show 0 < s.senderWindowSize by omega)
  show ((s.lastFrameSent + 1) % s.senderWindowSize).toNat < s.txq.length
  omega

theorem Sends.wakeup (now : Int) :
    (s.wakeup now).Sends peer := by
  refine ⟨sends.ring, sends.dest, sends.count, sends.pushed, fun i mem => sends.slots i ?_⟩
  rcases mem with byDeadline | bySeqNum | retrying
  · exact Or.inl ((dropWhile_sublist _).subset byDeadline)
  · exact Or.inr (Or.inl ((foldl_treeDelete_sublist _ _).subset bySeqNum))
  · exact Or.inl (takeWhile_subset _ retrying)

theorem Sends.resend {pos : Nat} {rest : List Nat}
    (waiting : s.retrying = pos :: rest) (deadline : Int) :
    SenderState.Sends peer { (s.resend pos deadline).1 with retrying := rest } ∧
      Sent s.sendHistory (s.resend pos deadline).2 := by
  obtain ⟨inRing, sent⟩ := sends.slots pos (Or.inr (Or.inr (waiting ▸ mem_cons_self)))
  have others : SenderState.Sends peer { s with retrying := rest } := by
    refine ⟨sends.ring, sends.dest, sends.count, sends.pushed, fun i mem => sends.slots i ?_⟩
    exact mem.imp_right (Or.imp_right fun later => waiting ▸ mem_cons_of_mem _ later)
  exact ⟨@SenderState.Sends.put peer { s with retrying := rest } others pos _ inRing sent, sent⟩

/-- The packets that an ack takes out of the trees. -/
theorem Sends.gotPack (a : Packet) :
    (s.gotPack a).Sends peer ∧
      ∀ p ∈ (s.gotPack a).acked, p ∈ s.acked ∨
        Sent s.sendHistory p ∧ p.seqNum ≤ a.ackNum ∧
          p.seqNum ∈ s.sentButNotAckedBySeqNum.map fun pos => (s.slotAt pos).pack.seqNum := by
  refine ⟨⟨sends.ring, sends.dest, sends.count, sends.pushed, fun i mem => sends.slots i ?_⟩,
    fun p mem => ?_⟩
  · rcases mem with byDeadline | bySeqNum | retrying
    · exact Or.inl ((foldl_treeDelete_sublist _ _).subset byDeadline)
    · exact Or.inr (Or.inl ((dropWhile_sublist _).subset bySeqNum))
    · exact Or.inr (Or.inr retrying)
  · rcases mem_append.mp mem with old | new
    · exact Or.inl old
    · obtain ⟨pos, taken, rfl⟩ := mem_map.mp new
      have inTree := takeWhile_subset _ taken
      have below := all_eq_true.mp all_takeWhile pos taken
      exact Or.inr ⟨(sends.slots pos (Or.inr (Or.inl inTree))).2, of_decide_eq_true below,
        mem_map.mpr ⟨pos, inTree, rfl⟩⟩

end

end SenderState

end Sends

end Hnatsd.Swp
