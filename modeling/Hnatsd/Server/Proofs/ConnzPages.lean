import Hnatsd.Server.Connz

/-!
# Pages of the connection listing

The bounds of a page are clamped from above only, and after an addition that can wrap. They are in
range exactly for an offset that is not negative, a sum that fits 64 bits, and a limit that is not
negative or ends behind all clients. Where the sums fit, the pages tile the listing.
-/

namespace Hnatsd.Server
open Misc List

/-- What `offset` and `limit` must be for the slice expression not to panic. -/
def PageInRange (offset limit totalClients : Int) : Prop :=
  0 ≤ offset ∧ offset + limit < 2 ^ 63 ∧ (0 ≤ limit ∨ totalClients ≤ offset + limit)

instance (offset limit totalClients : Int) : Decidable (PageInRange offset limit totalClients) :=
  inferInstanceAs (Decidable (_ ∧ _ ∧ _))

theorem pageBounds_inRange_iff {offset limit totalClients : Int} (offsetFits : Fits64 offset)
    (limitFits : Fits64 limit) (total : 0 ≤ totalClients) (totalFits : totalClients < 2 ^ 63) :
    (0 ≤ (pageBounds offset limit totalClients).1 ∧
        (pageBounds offset limit totalClients).1 ≤ (pageBounds offset limit totalClients).2 ∧
        (pageBounds offset limit totalClients).2 ≤ totalClients) ↔
      PageInRange offset limit totalClients := by
  obtain ⟨offsetLow, offsetHigh⟩ := offsetFits
  obtain ⟨limitLow, limitHigh⟩ := limitFits
  unfold PageInRange pageBounds
  dsimp only
  by_cases negative : offset < 0
  · split_ifs <;> omega
  · by_cases overflow : 2 ^ 63 ≤ offset + limit
    · rw [wrap64_of_overflow overflow (by omega)]
      split_ifs <;> omega
    · rw [wrap64_of_bounds (by omega) (by omega)]
      split_ifs <;> omega

section Listing

variable (order : PairsSort) (now : Int) (tlsRequired : Bool) (clients : List ConnClient)

theorem sortedPairs_perm (opt : SortOpt) :
    (sortedPairs order opt now clients).Perm
      (clients.map fun client => ⟨client, opt.value now client⟩) := by
  unfold sortedPairs
  dsimp only
  split_ifs
  · exact order.perm _ _
  · exact .refl _

theorem sortedPairs_length (opt : SortOpt) :
    (sortedPairs order opt now clients).length = clients.length := by
  rw [(sortedPairs_perm order now clients opt).length_eq, length_map]

/-- The listing has each client once. -/
theorem sortedPairs_keys (opt : SortOpt) :
    ((sortedPairs order opt now clients).map Pair.key).Perm clients := by
  have perm := (sortedPairs_perm order now clients opt).map Pair.key
  rw [map_map] at perm
  have keys : clients.map (Pair.key ∘ fun client => ⟨client, opt.value now client⟩) = clients :=
    map_id clients
  rwa [keys] at perm

variable {order now tlsRequired clients}

theorem ConnzQuery.limitOrDefault_fits (q : ConnzQuery) : Fits64 q.limitOrDefault := by
  unfold limitOrDefault
  split_ifs
  · decide
  · exact q.fits.2

/-- Bounds in range select as many as the limit says, from the offset on. -/
theorem slicePairs_inRange {pairs : List Pair} {offset limit : Int}
    (countFits : (pairs.length : Int) < 2 ^ 63) (inRange : PageInRange offset limit pairs.length) :
    slicePairs pairs (pageBounds offset limit pairs.length).1
        (pageBounds offset limit pairs.length).2 =
      some ((pairs.drop offset.toNat).take limit.toNat) := by
  obtain ⟨start, sumFits, within⟩ := inRange
  have lower : (pageBounds offset limit pairs.length).1 = min offset pairs.length := by
    unfold pageBounds
    dsimp only
    split_ifs <;> omega
  have upper : (pageBounds offset limit pairs.length).2 = min (offset + limit) pairs.length := by
    unfold pageBounds
    dsimp only
    rw [wrap64_of_bounds (by omega) sumFits]
    split_ifs <;> omega
  rw [lower, upper, slicePairs, if_pos (by omega)]
  by_cases beyond : (pairs.length : Int) ≤ offset
  · -- an empty page
    rw [drop_eq_nil_of_le (by omega), drop_eq_nil_of_le (by omega), take_nil,
      take_nil]
  · have first : min offset (pairs.length : Int) = offset := by omega
    rw [first]
    by_cases clipped : (pairs.length : Int) ≤ offset + limit
    · rw [take_of_length_le (by rw [length_drop]; omega),
        take_of_length_le (by rw [length_drop]; omega)]
    · have size : (min (offset + limit) (pairs.length : Int) - offset).toNat = limit.toNat := by
        omega
      rw [size]

/-- A request is answered with a page exactly when its bounds are in range. -/
theorem handleConnz_eq {q : ConnzQuery} {opt : SortOpt}
    (valid : SortOpt.ofText q.sort = some opt) (countFits : (clients.length : Int) < 2 ^ 63)
    (inRange : PageInRange q.offset q.limitOrDefault clients.length) :
    ∃ c, handleConnz order now tlsRequired clients q = some (.listed c) ∧
      c.conns = (((sortedPairs order opt now clients).drop q.offset.toNat).take
        q.limitOrDefault.toNat).map (connInfo q opt now tlsRequired) := by
  have length := sortedPairs_length order now clients opt
  have page := @slicePairs_inRange (sortedPairs order opt now clients) q.offset q.limitOrDefault
    (by rw [length]; exact countFits) (by rw [length]; exact inRange)
  rw [length] at page
  simp only [handleConnz, valid, page]
  exact ⟨_, rfl, rfl⟩

theorem handleConnz_panics {q : ConnzQuery} {opt : SortOpt}
    (valid : SortOpt.ofText q.sort = some opt) (countFits : (clients.length : Int) < 2 ^ 63)
    (outOfRange : ¬PageInRange q.offset q.limitOrDefault clients.length) :
    handleConnz order now tlsRequired clients q = none := by
  rw [← pageBounds_inRange_iff q.fits.1 q.limitOrDefault_fits (by omega) countFits] at outOfRange
  have length := sortedPairs_length order now clients opt
  simp only [handleConnz, valid, slicePairs, length]
  rw [if_neg outOfRange]
  rfl

/-- The parts of a list of one length after another. -/
theorem flatten_pages {α : Type} (xs : List α) (L n : Nat) :
    ((range n).map fun k => (xs.drop (k * L)).take L).flatten = xs.take (n * L) := by
  induction n with
  | zero => simp
  | succ n ih =>
    rw [range_succ, map_append, flatten_append, ih, Nat.succ_mul, take_add]
    simp

/-- What is told of a client depends on the request through `auth` and `subs` only. -/
theorem connInfo_congr {q q' : ConnzQuery} (auth : q.auth = q'.auth) (subs : q.subs = q'.subs)
    (opt : SortOpt) : connInfo q opt now tlsRequired = connInfo q' opt now tlsRequired := by
  funext pair
  unfold connInfo
  rw [auth, subs]

variable (order now tlsRequired clients)

end Listing

/-- The clients as they are listed by a stable sort. -/
def stableSort : PairsSort where
  sort reverse pairs := pairs.mergeSort fun p q => if reverse then q.val ≤ p.val else p.val ≤ q.val
  perm := fun reverse pairs => mergeSort_perm pairs _
  ascending := fun pairs => by
    have sorted := @pairwise_mergeSort Pair (fun p q => decide (p.val ≤ q.val))
      (by intro a b c; simp; omega) (by intro a b; simp; omega) pairs
    simpa using sorted
  descending := fun pairs => by
    have sorted := @pairwise_mergeSort Pair (fun p q => decide (q.val ≤ p.val))
      (by intro a b c; simp; omega) (by intro a b; simp; omega) pairs
    simpa using sorted

/-- A client of whom only the number is told. -/
def clientNumbered (cid : Nat) : ConnClient :=
  { cid, start := 0, last := 0, subs := [], pending := 0, inMsgs := 0, outMsgs := 0, inBytes := 0
    outBytes := 0 }

end Hnatsd.Server
