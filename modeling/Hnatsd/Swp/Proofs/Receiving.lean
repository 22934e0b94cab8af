import Hnatsd.Swp.Proofs.Sending

/-!
# What a receiver delivers

The slots of the receiver's ring hold packets of the window only, each at the place of its number.
So what is ready for delivery, behind what has been consumed, is the beginning of what was pushed.
-/

namespace Hnatsd.Swp
open Misc

theorem prefix_snoc {α : Type} {l h : List α} {x : α} (start : l <+: h)
    (next : h[l.length]? = some x) : l ++ [x] <+: h := by
  obtain ⟨rest, rfl⟩ := start
  rw [List.getElem?_append_right (Nat.le_refl _), Nat.sub_self] at next
  cases rest with
  | nil => cases next
  | cons y rest =>
    cases next
    exact ⟨rest, by simp⟩

/-- A slot that is not empty. -/
theorem getElem?_of_getD_none {α : Type} {l : List (Option α)} {pos : Nat} {x : α}
    (found : l.getD pos none = some x) : l[pos]? = some (some x) := by
  rw [List.getD_eq_getElem?_getD] at found
  cases slot : l[pos]? with
  | none => rw [slot] at found; cases found
  | some held => rw [slot] at found; exact congrArg some found

/-- The packets the receiver has put in order so far. -/
def RecvState.ordered (r : RecvState) : List Packet := r.consumed ++ r.readyForDelivery

/-- The receiver delivers what its peer has pushed. -/
structure RecvState.Receives (history : List Packet) (r : RecvState) : Prop where
  ring : 1 ≤ r.recvWindowSize ∧ (r.rxq.length : Int) = r.recvWindowSize
  held : ∀ (pos : Nat) (p : Packet), r.rxq[pos]? = some (some p) → Sent history p ∧
    r.nextFrameExpected ≤ p.seqNum ∧ p.seqNum < r.nextFrameExpected + r.recvWindowSize ∧
    p.seqNum % r.recvWindowSize = pos
  inOrder : r.ordered.map Packet.message <+: history.map Packet.message
  next : r.nextFrameExpected = r.ordered.length
  last : r.lastFrameClientConsumed = (r.consumed.length - 1 : Nat)

section Receives

variable {peer : Bytes} {history : List Packet} {r r' : RecvState}

theorem RecvState.receives_new {recvSz : Nat} (window : 1 ≤ recvSz) (recvSzBytes : Int)
    (inbox destInbox nonce : Bytes) :
    (RecvState.new recvSz recvSzBytes inbox destInbox nonce).Receives [] where
  ring := by simp [RecvState.new]; omega
  held pos p found := by
    rw [RecvState.new, List.getElem?_replicate] at found
    split_ifs at found
    cases found
  inOrder := by simp [RecvState.new, RecvState.ordered]
  next := rfl
  last := rfl

section

variable (receives : r.Receives history)
include receives

theorem RecvState.Receives.mono {history' : List Packet}
    (grows : history <+: history') : r.Receives history' where
  ring := receives.ring
  held pos p found :=
    have ⟨sent, bounds⟩ := receives.held pos p found
    ⟨sent.mono grows, bounds⟩
  inOrder := receives.inOrder.trans (grows.map _)
  next := receives.next
  last := receives.last

/-- What the window does not depend on. -/
theorem RecvState.Receives.same (same : r.SameWindow r') :
    r'.Receives history := by
  have ordered : r'.ordered = r.ordered := by
    rw [RecvState.ordered, same.consumed, same.ready, RecvState.ordered]
  refine ⟨?_, ?_, ordered ▸ receives.inOrder, ?_, ?_⟩
  · rw [same.size, same.rxq]
    exact receives.ring
  · rw [same.size, same.rxq, same.next]
    exact receives.held
  · rw [same.next, ordered]
    exact receives.next
  · rw [same.last, same.consumed]
    exact receives.last

/-- The `k`-th packet in order has the number `k`. -/
theorem RecvState.Receives.numbered (pushed : PushedTo peer history) {k : Nat} {p : Packet}
    (at' : r.ordered[k]? = some p) :
    p.seqNum = k ∧ Sent history p := by
  have inMap : (r.ordered.map Packet.message)[k]? = some p.message := by
    rw [List.getElem?_map, at']
    rfl
  obtain ⟨rest, eq⟩ := receives.inOrder
  have inHistory : (history.map Packet.message)[k]? = some p.message := by
    rw [← eq, List.getElem?_append_left (List.getElem?_eq_some_iff.mp inMap).1]
    exact inMap
  rw [List.getElem?_map, Option.map_eq_some_iff] at inHistory
  obtain ⟨q, found, same⟩ := inHistory
  have seqNum : q.message.seqNum = p.message.seqNum := congrArg Packet.seqNum same
  change q.seqNum = p.seqNum at seqNum
  have number := pushed.numbered k q found
  refine ⟨by omega, q, ?_, same.symm⟩
  have index : p.seqNum.toNat = k := by omega
  rw [index]
  exact found

/-- One round of the delivery loop. -/
theorem RecvState.Receives.deliverOne {pack : Packet}
    (found : r.rxq[(r.nextFrameExpected % r.recvWindowSize).toNat]? = some (some pack)) :
    RecvState.Receives history { r with
      readyForDelivery := r.readyForDelivery ++ [pack]
      rxq := r.rxq.set (r.nextFrameExpected % r.recvWindowSize).toNat none
      nextFrameExpected := r.nextFrameExpected + 1 } := by
  obtain ⟨sent, low, high, place⟩ := receives.held _ pack found
  have window := receives.ring.1
  have next := receives.next
  have nonneg := Int.emod_nonneg r.nextFrameExpected (show r.recvWindowSize ≠ 0 by omega)
  rw [Int.toNat_of_nonneg nonneg] at place
  have divides := Int.emod_eq_emod_iff_emod_sub_eq_zero.mp place
  rw [Int.emod_eq_of_lt (by omega) (by omega)] at divides
  have isNext : pack.seqNum = r.nextFrameExpected := by omega
  refine ⟨⟨window, ?_⟩, fun pos p at' => ?_, ?_, ?_, receives.last⟩
  · exact (congrArg _ List.length_set).trans receives.ring.2
  · change (r.rxq.set _ none)[pos]? = some (some p) at at'
    rw [List.getElem?_set] at at'
    split_ifs at at' with here inRing
    · cases at'
    · obtain ⟨sent, low, high, place⟩ := receives.held pos p at'
      have differs : p.seqNum ≠ r.nextFrameExpected := by
        intro eq
        rw [eq] at place
        omega
      refine ⟨sent, ?_, ?_, place⟩
      · show r.nextFrameExpected + 1 ≤ p.seqNum
        omega
      · show p.seqNum < r.nextFrameExpected + 1 + r.recvWindowSize
        omega
  · obtain ⟨q, inHistory, same⟩ := sent
    show ((r.consumed ++ (r.readyForDelivery ++ [pack])).map Packet.message) <+: _
    rw [← List.append_assoc, List.map_append]
    refine prefix_snoc receives.inOrder ?_
    show (history.map Packet.message)[(r.ordered.map Packet.message).length]? = _
    have index : pack.seqNum.toNat = (r.ordered.map Packet.message).length := by
      rw [List.length_map]
      omega
    rw [← index, List.getElem?_map, inHistory, same]
    rfl
  · show r.nextFrameExpected + 1 = ((r.consumed ++ (r.readyForDelivery ++ [pack])).length : Int)
    rw [← List.append_assoc, List.length_append, List.length_singleton]
    rw [RecvState.ordered] at next
    omega

theorem RecvState.Receives.deliverReceived (fuel : Nat) :
    (r.deliverReceived fuel).Receives history := by
  induction fuel generalizing r with
  | zero => exact receives
  | succ fuel ih =>
    simp only [RecvState.deliverReceived]
    split
    · exact receives
    · rename_i pack found
      exact ih (receives.deliverOne (getElem?_of_getD_none found))

end

/-- What the consumer has taken and who the peer is stay the same. -/
structure RecvState.SameConsumer (r r' : RecvState) : Prop where
  consumed : r'.consumed = r.consumed := by rfl
  batches : r'.batches = r.batches := by rfl
  inbox : r'.inbox = r.inbox := by rfl
  remote : r'.remoteInbox = r.remoteInbox := by rfl
  last : r'.lastFrameClientConsumed = r.lastFrameClientConsumed := by rfl
  place : r'.place = r.place := by rfl

theorem RecvState.SameConsumer.trans {r'' : RecvState} (h : r.SameConsumer r')
    (h' : r'.SameConsumer r'') : r.SameConsumer r'' where
  consumed := h'.consumed.trans h.consumed
  batches := h'.batches.trans h.batches
  inbox := h'.inbox.trans h.inbox
  remote := h'.remote.trans h.remote
  last := h'.last.trans h.last
  place := h'.place.trans h.place

theorem RecvState.SameWindow.sameConsumer (same : r.SameWindow r') : r.SameConsumer r' :=
  ⟨same.consumed, same.batches, same.inbox, same.remote, same.last, same.place⟩

theorem RecvState.deliverReceived_consumer (r : RecvState) (fuel : Nat) :
    r.SameConsumer (r.deliverReceived fuel) := by
  induction fuel generalizing r with
  | zero => exact ⟨rfl, rfl, rfl, rfl, rfl, rfl⟩
  | succ fuel ih =>
    simp only [RecvState.deliverReceived]
    split
    · exact ⟨rfl, rfl, rfl, rfl, rfl, rfl⟩
    · refine RecvState.SameConsumer.trans ?_ (ih _)
      exact ⟨rfl, rfl, rfl, rfl, rfl, rfl⟩

/-- The loop ends because the slot of the next frame is empty, not for want of fuel. -/
theorem RecvState.deliverReceived_done (r : RecvState) (fuel : Nat)
    (enough : r.rxq.countP Option.isSome ≤ fuel) :
    (r.deliverReceived fuel).rxq.getD ((r.deliverReceived fuel).nextFrameExpected %
      (r.deliverReceived fuel).recvWindowSize).toNat none = none := by
  induction fuel generalizing r with
  | zero =>
    have none' := List.countP_eq_zero.mp (Nat.le_zero.mp enough)
    show r.rxq.getD (r.nextFrameExpected % r.recvWindowSize).toNat none = none
    generalize (r.nextFrameExpected % r.recvWindowSize).toNat = pos
    rw [List.getD_eq_getElem?_getD]
    cases slot : r.rxq[pos]? with
    | none => rfl
    | some held => simpa using none' held (List.mem_of_getElem? slot)
  | succ fuel ih =>
    simp only [RecvState.deliverReceived]
    split
    · assumption
    · rename_i pack found
      refine ih _ ?_
      obtain ⟨bound, isSome⟩ := List.getElem?_eq_some_iff.mp (getElem?_of_getD_none found)
      show (r.rxq.set _ none).countP Option.isSome ≤ fuel
      rw [List.countP_set bound, isSome]
      simp only [Option.isSome_some, Option.isSome_none, if_true, Bool.false_eq_true, if_false]
      omega

/-- A packet of the window enters its slot. -/
theorem RecvState.Receives.put (receives : r.Receives history) {pack : Packet}
    (sent : Sent history pack) (low : r.nextFrameExpected ≤ pack.seqNum)
    (high : pack.seqNum < r.nextFrameExpected + r.recvWindowSize) :
    RecvState.Receives history { r with
      rxq := r.rxq.set (pack.seqNum % r.recvWindowSize).toNat (some pack) } := by
  refine ⟨⟨receives.ring.1, ?_⟩, fun pos p at' => ?_, receives.inOrder, receives.next,
    receives.last⟩
  · exact (congrArg _ List.length_set).trans receives.ring.2
  · change (r.rxq.set _ (some pack))[pos]? = some (some p) at at'
    rw [List.getElem?_set] at at'
    split_ifs at at' with here inRing
    · cases at'
      have window := receives.ring.1
      have nonneg := Int.emod_nonneg pack.seqNum (show r.recvWindowSize ≠ 0 by omega)
      exact ⟨sent, low, high, (Int.toNat_of_nonneg nonneg).symm.trans (congrArg _ here)⟩
    · exact receives.held pos p at'

theorem Session.recvData_receives {s : Session} (receives : s.rcv.Receives history)
    (pushed : PushedTo peer history) {pack : Packet} (sent : Sent history pack) :
    (s.recvData pack).rcv.Receives history := by
  have held : (s.rcv.hold pack).Receives history := receives.same (s.rcv.hold_window pack)
  have nonneg := (pushed.seqNum sent).1
  simp only [Session.recvData, Int.tmod_eq_emod_of_nonneg nonneg]
  split_ifs with negative outside isNext
  · exact held
  · refine RecvState.Receives.same ?_ (Session.ack_window _ _ pack .dataAck)
    exact held
  · rw [inWindow, Bool.not_eq_false, decide_eq_true_eq] at outside
    exact (held.put sent outside.1 (by omega)).deliverReceived _
  · rw [inWindow, Bool.not_eq_false, decide_eq_true_eq] at outside
    exact held.put sent outside.1 (by omega)

theorem Session.recvData_consumer (s : Session) (pack : Packet) :
    s.rcv.SameConsumer (s.recvData pack).rcv := by
  have held := (s.rcv.hold_window pack).sameConsumer
  simp only [Session.recvData]
  split_ifs
  · exact held
  · refine held.trans (RecvState.SameWindow.sameConsumer ?_)
    exact Session.ack_window { s with rcv := s.rcv.hold pack } _ pack .dataAck
  · refine held.trans (RecvState.SameConsumer.trans ?_ (RecvState.deliverReceived_consumer _ _))
    exact ⟨rfl, rfl, rfl, rfl, rfl, rfl⟩
  · refine held.trans ?_
    exact ⟨rfl, rfl, rfl, rfl, rfl, rfl⟩

/-- What is ready is consumed. -/
theorem Session.deliverToConsumer_receives {s : Session} (receives : s.rcv.Receives history)
    (pushed : PushedTo peer history) {lastPack : Packet}
    (last : s.rcv.readyForDelivery.getLast? = some lastPack) :
    (s.deliverToConsumer lastPack).rcv.Receives history := by
  have atEnd : s.rcv.ordered[s.rcv.ordered.length - 1]? = some lastPack := by
    rw [← List.getLast?_eq_getElem?, RecvState.ordered, List.getLast?_append, last]
    rfl
  have number := (receives.numbered pushed atEnd).1
  have length : s.rcv.ordered.length = s.rcv.consumed.length + s.rcv.readyForDelivery.length :=
    List.length_append
  have ordered : s.rcv.ordered = (s.rcv.consumed ++ s.rcv.readyForDelivery) ++ [] :=
    (List.append_nil _).symm
  have inOrder := receives.inOrder
  have next := receives.next
  rw [ordered] at inOrder next
  refine RecvState.Receives.same ?_ (Session.ack_window _ _ lastPack .dataAck)
  refine ⟨receives.ring, receives.held, inOrder, next, ?_⟩
  show lastPack.seqNum = ((s.rcv.consumed ++ s.rcv.readyForDelivery).length - 1 : Nat)
  rw [List.length_append, ← length]
  exact number

/-- Only how far the consumer has got changes. -/
theorem RecvState.Receives.moves (receives : r.Receives history) (ring : r.SameRing r')
    (ordered : r'.ordered.map Packet.message = r.ordered.map Packet.message)
    (last : r'.lastFrameClientConsumed = (r'.consumed.length - 1 : Nat)) :
    r'.Receives history := by
  have length : r'.ordered.length = r.ordered.length := by
    simpa only [List.length_map] using congrArg List.length ordered
  refine ⟨?_, ?_, ordered ▸ receives.inOrder, ?_, last⟩
  · rw [ring.size, ring.rxq]
    exact receives.ring
  · rw [ring.size, ring.rxq, ring.next]
    exact receives.held
  · rw [ring.next, length]
    exact receives.next

theorem RecvState.Receives.readPacket (receives : r.Receives history)
    (pushed : PushedTo peer history) {pk : Packet} {ready : List Packet}
    (first : r.readyForDelivery = pk :: ready) (m : Nat) :
    (r.readPacket pk m).Receives history ∧
      (m = pk.unread → (r.readPacket pk m).readyForDelivery = ready) := by
  have ring := r.readPacket_ring pk m
  have ordered : r.ordered = r.consumed ++ pk :: ready := by rw [RecvState.ordered, first]
  have atHead : r.ordered[r.consumed.length]? = some pk := by
    rw [ordered, List.getElem?_append_right (Nat.le_refl _), Nat.sub_self]
    rfl
  have number := (receives.numbered pushed atHead).1
  refine ⟨receives.moves ring ?_ ?_, ?_⟩
  · rw [ordered]
    simp only [RecvState.readPacket, RecvState.ordered, first]
    split_ifs
    · simp [Packet.message]
    · simp [Packet.message]
  · simp only [RecvState.readPacket]
    split_ifs
    · rw [List.length_append, List.length_singleton, Nat.add_sub_cancel]
      exact number
    · exact receives.last
  · simp only [RecvState.readPacket]
    split_ifs with whole
    · exact fun _ => by rw [first]; rfl
    · exact fun eq => absurd eq whole

/-- A packet that is read in part fills the reader's buffer. -/
theorem RecvState.Receives.fill (pushed : PushedTo peer history) (ready : List Packet)
    (room : Nat) (lastPack : Option Packet) (receives : r.Receives history)
    (isReady : r.readyForDelivery = ready) :
    (RecvState.fill ready room lastPack r).1.Receives history := by
  induction ready generalizing room lastPack r with
  | nil => exact receives
  | cons pk ready ih =>
    obtain ⟨receives', whole⟩ := receives.readPacket pushed isReady (min room pk.unread)
    simp only [RecvState.fill]
    by_cases full : room - min room pk.unread = 0
    · rw [if_pos full]
      exact receives'
    · rw [if_neg full]
      exact ih (room - min room pk.unread) _ receives' (whole (by omega))

theorem Session.fillAsMuchAsPossible_receives {s : Session} (receives : s.rcv.Receives history)
    (pushed : PushedTo peer history) (lenp : Nat) :
    (s.fillAsMuchAsPossible lenp).rcv.Receives history := by
  have filled := receives.fill pushed s.rcv.readyForDelivery lenp none rfl
  simp only [Session.fillAsMuchAsPossible]
  split_ifs
  · exact receives
  · split
    · exact filled
    · refine RecvState.Receives.same ?_ (Session.ack_window _ _ _ .dataAck)
      exact filled

end Receives

end Hnatsd.Swp
