import Hnatsd.Server.Fanout
import Hnatsd.Server.Proofs.RouteReadBack
import Hnatsd.Server.Proofs.SubscriptionTables

/-!
# Sids of queue subscriptions at the other server

A server tells its routes of a queue subscription under `QRSID:cid:sid`, and takes this apart again
when a message for it comes back. The cid passes through a decimal numeral that may wrap and comes
out as it was. The sid is cut out by a regular expression that ends it at white space, and a form
feed is white space there but not where the client's SUB was cut into tokens.
-/

namespace Hnatsd.Server
open Misc List Interest

section Numerals

/-- Every cid is read back from its numeral. -/
theorem parseInt64_decimal {cid : Nat} (small : cid < 2 ^ 64) :
    toUint64 (parseInt64 (decimal cid)) = cid := by
  obtain ⟨nonempty, digits, value⟩ := decimal_spec cid
  have zero : (0 : Int) = wrap64 (0 : Nat) := by decide
  rw [parseInt64, if_neg nonempty, zero, parseDigits_wraps digits, value, toUint64, wrap64]
  have noSign : (cid : Int).bmod (2 ^ 64) % 2 ^ 64 = (cid : Int) % 2 ^ 64 := Int.bmod_emod
  rw [noSign]
  omega

end Numerals

section Regexp

theorem isRegexpSpace_iff (b : UInt8) : isRegexpSpace b = true ↔ isBlank b = true ∨ b = 12 := by
  simp only [isRegexpSpace, isBlank, Bool.or_eq_true, decide_eq_true_eq]
  tauto

/-- Nothing that the second group captures is white space. -/
theorem findQrsid_clean {text digits sid : Bytes} (found : findQrsid text = some (digits, sid)) :
    ∀ b ∈ sid, isRegexpSpace b = false := by
  induction text with
  | nil => cases found
  | cons b rest ih =>
    rcases Option.or_eq_some_iff.mp found with here | ⟨-, later⟩
    · obtain ⟨behind, -, groups⟩ := Option.bind_eq_some_iff.mp here
      dsimp only at groups
      split at groups
      next tail _ =>
        split_ifs at groups
        cases groups
        intro c mem
        simpa using mem_takeWhile_imp mem
      next => cases groups
    · exact ih later

/-- The expression on what `routeSid` writes. -/
theorem qrsidAt_routeSid {sid : Bytes} (cid : Nat) (nonempty : sid ≠ [])
    (clean : ∀ b ∈ sid, isRegexpSpace b = false) :
    qrsidAt (bytesOf "QRSID:" ++ (decimal cid ++ 58 :: sid)) = some (decimal cid, sid) := by
  obtain ⟨someDigits, digits, -⟩ := decimal_spec cid
  have isDigits : ∀ d ∈ decimal cid, isDecimalDigit d = true := fun d mem => by
    simp [isDecimalDigit, digits d mem]
  have colon : isDecimalDigit 58 = false := by decide
  have cut : (bytesOf "QRSID:" ++ (decimal cid ++ 58 :: sid)).dropPrefix? (bytesOf "QRSID:") =
      some (decimal cid ++ 58 :: sid) := dropPrefix?_append_of_beq _ (BEq.refl _)
  have whole : sid.takeWhile (fun b => !isRegexpSpace b) = sid :=
    takeWhile_eq_self_iff.mpr fun b mem => by simp [clean b mem]
  rw [qrsidAt, cut, Option.bind_some]
  simp only [takeWhile_append_of_pos isDigits, dropWhile_append_of_pos isDigits, colon,
    takeWhile_cons_of_neg, dropWhile_cons_of_neg, Bool.false_eq_true, not_false_eq_true,
    append_nil, whole, someDigits, nonempty, or_self, if_false]

end Regexp

/-- Tables hold subscriptions under their sids. -/
def Interest.Keyed (s : Interest) : Prop :=
  ∀ cid sid x, (s.client cid).subs.lookup sid = some x → x.sid = sid

theorem Interest.keyed_of_run {g : Grow} {actions : List InterestAction} {s : Interest}
    (ran : runFrom (step g) {} actions = some s) : s.Keyed := by
  have tables : s.Tables :=
    invariant_of_run (fun _ _ _ inv stepped => inv.step stepped) tables_initial ran
  intro cid sid x found
  exact (tables.entries cid sid x (mem_of_lookup found)).2.1

theorem routeSid_queue {sub : Subscription} (queued : sub.queue.getD [] ≠ []) :
    routeSid sub = bytesOf "QRSID:" ++ (decimal sub.client ++ 58 :: sub.sid) := by
  have mark : bytesOf "Q" ++ bytesOf "RSID:" = bytesOf "QRSID:" := by decide
  have colon : bytesOf ":" = [58] := by decide
  rw [routeSid, if_pos (length_pos_of_ne_nil queued), mark, colon]
  simp only [append_assoc, singleton_append]

section Subscribers

variable {s : Interest} {sub : Subscription}

/-- A sid without a form feed names its subscription. -/
theorem routeSid_names (small : sub.client < 2 ^ 64) (connected : sub.client ∈ s.clients)
    (held : (s.client sub.client).subs.lookup sub.sid = some sub)
    (queued : sub.queue.getD [] ≠ []) (isToken : IsToken sub.sid) (noFeed : 12 ∉ sub.sid) :
    s.routeSidQueueSubscriber (routeSid sub) = (some sub, true) := by
  have clean : ∀ b ∈ sub.sid, isRegexpSpace b = false := by
    intro b mem
    rw [Bool.eq_false_iff, ne_eq, isRegexpSpace_iff, not_or, Bool.not_eq_true]
    exact ⟨isToken.2 b mem, fun feed => noFeed (feed ▸ mem)⟩
  have front : (bytesOf "QRSID").isPrefixOf (routeSid sub) = true := by
    rw [ isPrefixOf_iff_prefix, routeSid_queue queued]
    exact ⟨58 :: (decimal sub.client ++ 58 :: sub.sid), rfl⟩
  have found : findQrsid (routeSid sub) = some (decimal sub.client, sub.sid) := by
    have here := qrsidAt_routeSid sub.client isToken.1 clean
    rw [routeSid_queue queued]
    exact Option.or_eq_some_iff.mpr (Or.inl here)
  simp only [routeSidQueueSubscriber, front, found, parseInt64_decimal small, connected,
    held, Bool.not_true, Bool.false_eq_true, if_false, if_true]

/-- What is found is found under a sid without white space. -/
theorem routeSidQueueSubscriber_clean (keyed : s.Keyed) {rsid : Bytes} {x : Subscription}
    (found : s.routeSidQueueSubscriber rsid = (some x, true)) :
    ∀ b ∈ x.sid, isRegexpSpace b = false := by
  unfold routeSidQueueSubscriber at found
  split_ifs at found
  · cases found
  · split at found
    · cases found
    next digits sid groups =>
      dsimp only at found
      split_ifs at found
      · rw [keyed _ _ _ (congrArg Prod.fst found)]
        exact findQrsid_clean groups
      · cases found

/-- A queue subscription of a connected client is found again under the sid it has at the other
server exactly when its own sid has no form feed; a message that comes back for it then reaches it
and nothing else. -/
theorem queue_sid_decodes_iff (keyed : s.Keyed) (small : sub.client < 2 ^ 64)
    (connected : sub.client ∈ s.clients)
    (held : (s.client sub.client).subs.lookup sub.sid = some sub)
    (queued : sub.queue.getD [] ≠ []) (isToken : IsToken sub.sid) :
    (s.routeSidQueueSubscriber (routeSid sub) = (some sub, true) ↔ 12 ∉ sub.sid) ∧
      (12 ∉ sub.sid → ∀ g env cid r, (s.client cid).typ = .router →
        ∃ f, s.processMsg g env cid (routeSid sub) r = some f ∧ f.calls = [sub]) := by
  have names := routeSid_names small connected held queued isToken
  refine ⟨⟨fun found feed => ?_, names⟩, fun noFeed g env cid r route => ?_⟩
  · have clean := routeSidQueueSubscriber_clean keyed found 12 feed
    exact absurd clean (by decide)
  · refine ⟨Fanout.deliver g env ⟨s, [], []⟩ sub, ?_, rfl⟩
    simp only [processMsg, route, names noFeed, decide_true, if_true]

end Subscribers

/-- A client with cid 1 that has subscribed to `foo` in the queue `q` under a sid. -/
def queueSubscribed (sid : Bytes) : List InterestAction :=
  [.accept .client, .sub 1 (bytesOf "foo") (some (bytesOf "q")) sid true]

def queueSub (sid : Bytes) : Subscription := ⟨0, bytesOf "foo", some (bytesOf "q"), 1, sid⟩

theorem queue_sid_decodes_one : ∃ s, runFrom (step .double) {} (queueSubscribed (bytesOf "7")) =
      some s ∧
    routeSid (queueSub (bytesOf "7")) = bytesOf "QRSID:1:7" ∧
    (s.routeSidQueueSubscriber (routeSid (queueSub (bytesOf "7"))) =
      (some (queueSub (bytesOf "7")), true) ↔ 12 ∉ (queueSub (bytesOf "7")).sid) := by
  refine exists_run_imp (P := fun s => 1 ∈ s.clients ∧
    (s.client 1).subs.lookup (bytesOf "7") = some (queueSub (bytesOf "7"))) (fun s ran holds => ?_)
    (by decide)
  refine ⟨by decide, ?_⟩
  exact (queue_sid_decodes_iff (keyed_of_run ran) (by decide) holds.1 holds.2
    (by decide) (by decide)).1

/-- With a form feed in the sid the subscription is not found, although the sid is a token. -/
theorem queue_sid_form_feed : ∃ s,
    runFrom (step .double) {} (queueSubscribed [97, 12, 98]) = some s ∧
      (s.client 1).subs.lookup [97, 12, 98] = some (queueSub [97, 12, 98]) ∧
      IsToken [97, 12, 98] ∧
      s.routeSidQueueSubscriber (routeSid (queueSub [97, 12, 98])) = (none, true) :=
  exists_run (by decide)

end Hnatsd.Server
