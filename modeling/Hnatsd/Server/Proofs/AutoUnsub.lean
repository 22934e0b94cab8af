import Hnatsd.Server.Proofs.SubscriptionTables

/-!
# The limit of an UNSUB

A subscription counts the deliveries attempted on it in `nm` and is removed once they reach `max`.
The count is an `int64`: as long as it has not wrapped, no message goes past the limit, and with the
limit reached either a thread is about to unsubscribe or the subscription is gone.
-/

namespace Hnatsd.Server
open Misc List Interest Function

variable {p t : Nat} {sub x : Subscription}

/-- What a step does to the counters of the subscriptions. -/
inductive Interest.Counts (s s' : Interest) : Prop where
  | none (nm : s'.nm = s.nm) (max : s'.max = s.max) (attempts : s'.attempts = s.attempts)
      (written : s'.written = s.written) (limits : s'.limits = s.limits)
  | unsub (sub : Subscription) (m : Int) (entry : ∃ cid sid, (sid, sub) ∈ (s.client cid).subs)
      (known : s'.known = s.known) (nm : s'.nm = s.nm)
      (max : s'.max = Function.update s.max sub.ptr m)
      (attempts : s'.attempts = s.attempts) (written : s'.written = s.written)
      (limits : s'.limits = s.limits ++ [(sub.ptr, m, s.written sub.ptr)])
      (pends : s'.Pends (.unsubscribe sub))
  | deliver (sub : Subscription) (isKnown : sub ∈ s.known) (known : s'.known = s.known)
      (nm : s'.nm = Function.update s.nm sub.ptr (wrap64 (s.nm sub.ptr + 1)))
      (max : s'.max = s.max)
      (attempts : s'.attempts = Function.update s.attempts sub.ptr (s.attempts sub.ptr + 1))
      (written : s'.written = s.written ∨
        ¬ (0 < s.max sub.ptr ∧ s.max sub.ptr < wrap64 (s.nm sub.ptr + 1)) ∧
          s'.written = Function.update s.written sub.ptr (s.written sub.ptr + 1))
      (limits : s'.limits = s.limits)
      (pends : 0 < s.max sub.ptr → s.max sub.ptr ≤ wrap64 (s.nm sub.ptr + 1) →
        s'.Pends (.unsubscribe sub))

/-- The subscription is in no table and has left the sublist. -/
def Interest.Gone (s : Interest) (x : Subscription) : Prop :=
  x ∉ s.live ∧ ∀ cid sid, (sid, x) ∉ (s.client cid).subs

section Steps

variable {g : Grow} {s s' : Interest} {a : InterestAction}

namespace Interest

theorem processSub_counts (s : Interest) (cid : Nat) (subject : Bytes)
    (queue : Option Bytes) (sid : Bytes) (permitted : Bool) (t : Nat) (tasks : List Task) :
    s.Counts ((s.processSub g cid subject queue sid permitted).1.setTasks t tasks) := by
  have same : s.Counts (s.setTasks t tasks) := .none rfl rfl rfl rfl rfl
  simp only [processSub]
  split_ifs
  · exact same
  · exact same
  · split
    · exact same
    · split <;> exact .none rfl rfl rfl rfl rfl

theorem processUnsub_counts (idle : s.threads[t]? = some []) (cid : Nat)
    (sid : Bytes) (max : Int) : let p := s.processUnsub cid sid max
    s.Counts (p.1.setTasks t p.2) := by
  simp only [processUnsub]
  split
  · exact .none rfl rfl rfl rfl rfl
  · rename_i sub found
    exact .unsub sub _ ⟨cid, sid, mem_of_lookup found⟩ rfl rfl rfl rfl rfl rfl
      (pends_setTasks idle mem_cons_self)

theorem deliverMsg_counts (idle : s.threads[t]? = some []) (known : sub ∈ s.known) (outcome : WriteOutcome) :
    let p := s.deliverMsg sub outcome
    s.Counts (p.1.setTasks t p.2) := by
  simp only [deliverMsg]
  split
  · exact .deliver sub known rfl rfl rfl rfl (Or.inl rfl) rfl
      fun _ _ => pends_setTasks idle mem_cons_self
  · rename_i within
    have deferred (limit : 0 < s.max sub.ptr) (reached : s.max sub.ptr ≤ wrap64 (s.nm sub.ptr + 1)) :
        0 < s.max sub.ptr ∧ wrap64 (s.nm sub.ptr + 1) = s.max sub.ptr := by omega
    split
    · refine .deliver sub known rfl rfl rfl rfl (Or.inl rfl) rfl
        fun limit reached => pends_setTasks idle ?_
      rw [if_pos (deferred limit reached)]
      exact mem_cons_self
    · split
      · refine .deliver sub known rfl rfl rfl rfl (Or.inr ⟨within, rfl⟩) rfl
          fun limit reached => pends_setTasks idle ?_
        rw [if_pos (deferred limit reached)]
        exact mem_cons_self
      · refine .deliver sub known rfl rfl rfl rfl (Or.inl rfl) rfl
          fun limit reached => pends_setTasks idle ?_
        rw [if_pos (deferred limit reached)]
        exact mem_cons_self
      · refine .deliver sub known rfl rfl rfl rfl (Or.inl rfl) rfl
          fun limit reached => pends_setTasks idle ?_
        rw [if_pos (deferred limit reached)]
        exact mem_cons_of_mem _ mem_cons_self

/-- Tasks leave the counters alone. -/
theorem runTask_counts {task : Task} {p : Interest × List Task}
    (ran : s.runTask g task = some p) (t : Nat) (tasks : List Task) :
    s.Counts (p.1.setTasks t tasks) := by
  cases task with
  | unsubscribe sub =>
    cases ran
    simp only [unsubscribe]
    split_ifs
    · exact .none rfl rfl rfl rfl rfl
    · unfold remove
      split <;> exact .none rfl rfl rfl rfl rfl
  | remove sub =>
    cases ran
    simp only [remove]
    split <;> exact .none rfl rfl rfl rfl rfl
  | closeConnection cid =>
    cases ran
    simp only [closeConnection]
    split_ifs <;> exact .none rfl rfl rfl rfl rfl
  | makeUnsub sub =>
    cases ran
    exact .none rfl rfl rfl rfl rfl
  | broadcastSubscribe sub | broadcastUnSubscribe sub | broadcastInterestToRoutes line =>
    simp only [runTask] at ran
    split_ifs at ran <;> cases ran <;> exact .none rfl rfl rfl rfl rfl
  | removeClient cid =>
    simp only [runTask] at ran
    split_ifs at ran
    cases ran
    simp only [removeClient]
    split_ifs <;> exact .none rfl rfl rfl rfl rfl

theorem Moved.counts (moved : s.Moved g a s') : s.Counts s' := by
  cases moved with
  | start idle starts =>
    cases starts with
    | sub cid subject queue sid permitted => exact s.processSub_counts cid subject queue sid _ _ _
    | unsub cid sid max => exact processUnsub_counts idle cid sid max
    | deliver t sub outcome known => exact deliverMsg_counts idle known outcome
    | close t cid => exact .none rfl rfl rfl rfl rfl
  | run running ran => exact runTask_counts ran _ _
  | accept | spawn | addRoute | collect | collectClient | collected | sendLocalSubs | peer =>
    exact .none rfl rfl rfl rfl rfl

/-- What is gone does not come back. -/
theorem Effect.gone (effect : s.Effect a s') (tables : s.Tables)
    (known : x ∈ s.known) (gone : s.Gone x) : s'.Gone x := by
  obtain ⟨notLive, notIn⟩ := gone
  cases effect with
  | none _ live _ client => exact ⟨live ▸ notLive, client ▸ notIn⟩
  | accept typ _ live _ client _ =>
    refine ⟨live ▸ notLive, fun cid sid mem => ?_⟩
    rw [client, update_apply] at mem
    split_ifs at mem
    · cases mem
    · exact notIn cid sid mem
  | insert sub isOpen ptr free _ live _ client _ =>
    have other : x ≠ sub := by
      rintro rfl
      exact tables.fresh ptr known
    refine ⟨?_, fun cid sid mem => ?_⟩
    · rw [live, mem_cons, or_iff_right other]
      exact notLive
    · rw [client, update_apply] at mem
      split_ifs at mem
      · rcases mem_assocSet mem with eq | ⟨old, -⟩
        · exact other (Prod.mk.inj eq).2
        · exact notIn _ sid old
      · exact notIn cid sid mem
  | delete t sub ran head _ live _ client =>
    refine ⟨live ▸ fun mem => notLive (mem_of_mem_erase mem), fun cid sid mem => ?_⟩
    rw [client, update_apply] at mem
    split_ifs at mem
    · exact notIn _ sid (mem_assocErase mem).1
    · exact notIn cid sid mem
  | close c isOpen _ live _ client _ =>
    refine ⟨live ▸ notLive, fun cid sid mem => ?_⟩
    rw [client, update_apply] at mem
    split_ifs at mem
    · exact notIn _ sid mem
    · exact notIn cid sid mem
  | remove t sub head _ live _ client =>
    exact ⟨live ▸ fun mem => notLive (mem_of_mem_erase mem), client ▸ notIn⟩

/-- A subscription without a limit to wait for is gone when `unsubscribe` has run. -/
theorem Moved.unsubscribed (moved : s.Moved g (.run t) s') (tables : s.Tables) (head : (s.threads[t]?).bind head? = some (.unsubscribe x))
    (reached : ¬ (0 < s.max x.ptr ∧ s.nm x.ptr < s.max x.ptr)) : s'.Gone x := by
  obtain ⟨rest, p, -, ran, rfl⟩ := moved.runs head
  cases ran
  simp only [unsubscribe, if_neg reached]
  obtain ⟨sl, -, eq⟩ := @remove_eq g
    (s.setSubs x.client (assocErase (s.client x.client).subs x.sid)) tables.ledger x
  rw [eq]
  refine ⟨fun mem => (tables.once.mem_erase_iff.mp mem).1 rfl, fun cid sid mem => ?_⟩
  change (sid, x) ∈ (update s.client _ _ cid).subs at mem
  rw [update_apply] at mem
  split_ifs at mem with here
  · obtain ⟨entry, other⟩ := mem_assocErase mem
    exact other (tables.entries _ sid x entry).2.1.symm
  · exact here (tables.entries cid sid x mem).2.2.symm

theorem Moved.leaves (moved : s.Moved g a s') (tables : s.Tables)
    (known : x ∈ s.known) (reached : ¬ (0 < s.max x.ptr ∧ s.nm x.ptr < s.max x.ptr))
    (before : s.Pends (.unsubscribe x) ∨ s.Gone x) : s'.Pends (.unsubscribe x) ∨ s'.Gone x := by
  rcases before with pends | gone
  · rcases moved.pends pends with still | ⟨t, rfl, head⟩
    · exact Or.inl still
    · exact Or.inr (moved.unsubscribed tables head reached)
  · exact Or.inr ((moved.effect tables.ledger).1.gone tables known gone)

/-- The one limit that has been set for the subscription at an address, with the messages written
by then. -/
def LimitedOnce (s : Interest) (p : Nat) (m : Int) (k : Nat) : Prop :=
  s.limits.filter (fun e => e.1 = p) = [(p, m, k)]

/-- `nm` counts the attempts, and a subscription with one limit keeps to it. -/
structure Limited (s : Interest) : Prop where
  count : ∀ p, s.nm p = wrap64 (s.attempts p)
  written : ∀ p, s.written p ≤ s.attempts p
  recorded : ∀ e ∈ s.limits, e.1 < s.known.length
  limit : ∀ x ∈ s.known, ∀ m k, s.LimitedOnce x.ptr m k → 0 < m → s.attempts x.ptr < 2 ^ 63 →
    s.max x.ptr = m ∧ (s.written x.ptr : Int) ≤ Max.max m k ∧
      (m ≤ s.attempts x.ptr → s.Pends (.unsubscribe x) ∨ s.Gone x)

theorem limited_initial : Limited {} where
  count _ := (@wrap64_of_bounds 0 (by decide) (by decide)).symm
  written _ := Nat.le_refl 0
  recorded _ mem := nomatch mem
  limit _ mem := nomatch mem

theorem Limited.reached (limited : s.Limited) {m : Int}
    (small : s.attempts p < 2 ^ 63) (max : s.max p = m) (all : m ≤ s.attempts p) :
    ¬ (0 < s.max p ∧ s.nm p < s.max p) := by
  have count := limited.count p
  rw [wrap64_of_bounds (by omega) (by omega)] at count
  omega

theorem LimitedOnce.mem {m : Int} {k : Nat} (once : s.LimitedOnce p m k) :
    (p, m, k) ∈ s.limits :=
  mem_of_mem_filter (p := fun e => e.1 = p) (once ▸ mem_singleton_self _)

theorem Limited.none (limited : s.Limited) (tables : s.Tables) (moved : s.Moved g a s')
    (nm : s'.nm = s.nm) (max : s'.max = s.max) (attempts : s'.attempts = s.attempts)
    (written : s'.written = s.written) (limits : s'.limits = s.limits) : s'.Limited := by
  obtain ⟨effect, -⟩ := moved.effect tables.ledger
  refine ⟨fun p => ?_, fun p => ?_, fun e mem => ?_, fun x mem m k once pos small => ?_⟩
  · rw [nm, attempts]
    exact limited.count p
  · rw [written, attempts]
    exact limited.written p
  · rw [limits] at mem
    exact Nat.lt_of_lt_of_le (limited.recorded e mem) effect.known.length_le
  · rw [LimitedOnce, limits] at once
    rw [attempts] at small
    have old : x ∈ s.known := by
      have before := limited.recorded _ (LimitedOnce.mem once)
      cases effect with
      | none _ _ known _ | accept _ _ _ known _ _ | delete _ _ _ _ _ _ known _
      | close _ _ _ _ known _ _ | remove _ _ _ _ _ known _ => exact known ▸ mem
      | insert sub isOpen ptr free gcid live known client pends =>
        rw [known] at mem
        rcases mem_append.mp mem with old | new
        · exact old
        · rw [mem_singleton] at new
          subst new
          exact absurd ptr before.ne
    obtain ⟨isMax, bound, leaves⟩ := limited.limit x old m k once pos small
    rw [max, written, attempts]
    exact ⟨isMax, bound, fun all => moved.leaves tables old (limited.reached small isMax all)
      (leaves all)⟩

theorem Limited.unsub (limited : s.Limited) (tables : s.Tables) (moved : s.Moved g a s')
    {sub : Subscription} {m : Int} (entry : ∃ cid sid, (sid, sub) ∈ (s.client cid).subs)
    (known : s'.known = s.known) (nm : s'.nm = s.nm)
    (max : s'.max = update s.max sub.ptr m)
    (attempts : s'.attempts = s.attempts) (written : s'.written = s.written)
    (limits : s'.limits = s.limits ++ [(sub.ptr, m, s.written sub.ptr)])
    (pends : s'.Pends (.unsubscribe sub)) : s'.Limited := by
  obtain ⟨cid, sid, inTable⟩ := entry
  have isKnown := (tables.entries cid sid sub inTable).1
  refine ⟨fun p => ?_, fun p => ?_, fun e mem => ?_, fun x mem m' k once pos small => ?_⟩
  · rw [nm, attempts]
    exact limited.count p
  · rw [written, attempts]
    exact limited.written p
  · rw [known]
    rw [limits] at mem
    rcases mem_append.mp mem with old | new
    · exact limited.recorded e old
    · rw [mem_singleton.mp new]
      exact tables.ptr_lt isKnown
  · rw [known] at mem
    rw [attempts] at small
    rw [LimitedOnce, limits, filter_append, filter_singleton] at once
    by_cases here : sub.ptr = x.ptr
    · obtain rfl := tables.ptr_injective isKnown mem here
      -- the record of this limit is the only one
      rw [decide_eq_true rfl, cond_true] at once
      obtain ⟨-, last⟩ := append_eq_singleton_iff.mp once |>.resolve_right
        (fun both => nomatch both.2)
      cases last
      rw [max, update_self, written]
      exact ⟨rfl, le_max_right _ _, fun _ => Or.inl pends⟩
    · rw [decide_eq_false here, cond_false, append_nil] at once
      obtain ⟨isMax, bound, leaves⟩ := limited.limit x mem m' k once pos small
      rw [max, update_of_ne (Ne.symm here), written, attempts]
      exact ⟨isMax, bound, fun all => moved.leaves tables mem (limited.reached small isMax all)
        (leaves all)⟩

theorem Limited.deliver (limited : s.Limited) (tables : s.Tables) (moved : s.Moved g a s') (isKnown : sub ∈ s.known) (known : s'.known = s.known)
    (nm : s'.nm = update s.nm sub.ptr (wrap64 (s.nm sub.ptr + 1)))
    (max : s'.max = s.max)
    (attempts : s'.attempts = update s.attempts sub.ptr (s.attempts sub.ptr + 1))
    (written : s'.written = s.written ∨
      ¬ (0 < s.max sub.ptr ∧ s.max sub.ptr < wrap64 (s.nm sub.ptr + 1)) ∧
        s'.written = update s.written sub.ptr (s.written sub.ptr + 1))
    (limits : s'.limits = s.limits)
    (pends : 0 < s.max sub.ptr → s.max sub.ptr ≤ wrap64 (s.nm sub.ptr + 1) →
      s'.Pends (.unsubscribe sub)) : s'.Limited := by
  have counted : wrap64 (s.nm sub.ptr + 1) = wrap64 ((s.attempts sub.ptr + 1 : Nat) : Int) := by
    rw [limited.count, wrap64_add_left]
    rfl
  have grows (p : Nat) : s'.written p = s.written p ∨
      p = sub.ptr ∧ s'.written p = s.written p + 1 := by
    rcases written with same | ⟨-, more⟩
    · exact Or.inl (congrFun same p)
    · rw [more, update_apply]
      split_ifs with here
      · exact Or.inr ⟨here, by rw [here]⟩
      · exact Or.inl rfl
  refine ⟨fun p => ?_, fun p => ?_, fun e mem => ?_, fun x mem m k once pos small => ?_⟩
  · rw [nm, attempts, update_apply, update_apply]
    split_ifs
    · exact counted
    · exact limited.count p
  · have before := limited.written p
    rw [attempts, update_apply]
    rcases grows p with same | ⟨here, more⟩
    · split_ifs with here
      · subst here
        omega
      · omega
    · subst here
      rw [if_pos rfl]
      omega
  · rw [known]
    exact limited.recorded e (limits ▸ mem)
  · rw [known] at mem
    rw [LimitedOnce, limits] at once
    rw [attempts, update_apply] at small ⊢
    rw [max]
    split_ifs at small ⊢ with here
    · obtain rfl := tables.ptr_injective mem isKnown here
      obtain ⟨isMax, bound, -⟩ := limited.limit x mem m k once pos (by omega)
      have below := limited.written x.ptr
      have count := counted.trans (wrap64_of_bounds (by omega) (by omega))
      refine ⟨isMax, ?_, fun all => Or.inl (pends (by omega) (by omega))⟩
      rcases written with same | ⟨within, more⟩
      · rw [same]
        exact bound
      · rw [more, update_self]
        have room : ((s.written x.ptr + 1 : Nat) : Int) ≤ m := by omega
        exact room.trans (le_max_left _ _)
    · obtain ⟨isMax, bound, leaves⟩ := limited.limit x mem m k once pos small
      have same := (grows x.ptr).resolve_right fun more => here more.1
      rw [same]
      exact ⟨isMax, bound, fun all => moved.leaves tables mem (limited.reached small isMax all)
        (leaves all)⟩

theorem Limited.step (limited : s.Limited) (tables : s.Tables)
    (stepped : s.step g a = some s') : s'.Limited := by
  have moved := step_moved stepped
  cases moved.counts with
  | none nm max attempts written limits =>
    exact limited.none tables moved nm max attempts written limits
  | unsub sub m entry known nm max attempts written limits pends =>
    exact limited.unsub tables moved entry known nm max attempts written limits pends
  | deliver sub isKnown known nm max attempts written limits pends =>
    exact limited.deliver tables moved isKnown known nm max attempts written limits pends

end Interest

end Steps

/-- A subscription whose client has sent one UNSUB for it, with a limit of `m` messages, when `k` had
been written: at most `m` or `k` messages are ever written, and when `m` deliveries have been
attempted and no thread has anything left to do, the subscription is in no table and not in the
sublist. Fewer than `2 ^ 63` deliveries have been attempted on it. -/
theorem auto_unsubscribe (g : Grow) (actions : List InterestAction) (s : Interest)
    (ran : runFrom (step g) {} actions = some s) (x : Subscription) (known : x ∈ s.known)
    (m : Int) (k : Nat) (once : s.LimitedOnce x.ptr m k) (pos : 0 < m)
    (small : s.attempts x.ptr < 2 ^ 63) :
    (s.written x.ptr : Int) ≤ max m k ∧
      (m ≤ s.attempts x.ptr → (∀ tasks ∈ s.threads, tasks = []) →
        (∀ cid sid, (sid, x) ∉ (s.client cid).subs) ∧ ∃ live, Inv s.sl live ∧ x ∉ live) := by
  obtain ⟨tables, limited⟩ : s.Tables ∧ s.Limited :=
    @invariant_of_run _ _ _ (fun s => s.Tables ∧ s.Limited)
      (fun _ _ _ inv stepped => ⟨inv.1.step stepped, inv.2.step inv.1 stepped⟩) _ _ _
      ⟨tables_initial, limited_initial⟩ ran
  obtain ⟨-, bound, leaves⟩ := limited.limit x known m k once pos small
  refine ⟨bound, fun all idle => ?_⟩
  rcases leaves all with ⟨tasks, mem, isTask⟩ | ⟨notLive, notIn⟩
  · rw [idle tasks mem] at isTask
    cases isTask
  · exact ⟨notIn, s.live, tables.ledger, notLive⟩

/-- The first subscription of the first client. -/
def firstSub : Subscription := ⟨0, bytesOf "foo", none, 1, bytesOf "1"⟩

theorem auto_unsubscribe_one : ∃ s,
    runFrom (step Grow.double) {} resubscribed = some s ∧
      s.written 0 = 1 ∧ (s.written 0 : Int) ≤ max 1 (0 : Nat) ∧
      (∀ cid sid, (sid, firstSub) ∉ (s.client cid).subs) ∧ ∃ live, Inv s.sl live ∧ firstSub ∉ live := by
  refine exists_run_imp (P := fun s => s.written 0 = 1 ∧ firstSub ∈ s.known ∧
    s.limits.filter (fun e => e.1 = 0) = [(0, 1, 0)] ∧ s.attempts 0 = 1 ∧
      ∀ tasks ∈ s.threads, tasks = []) (fun s ran ⟨written, known, once, attempts, idle⟩ => ?_)
    (by decide +kernel)
  have small : s.attempts 0 < 2 ^ 63 := by omega
  have all : 1 ≤ (s.attempts 0 : Int) := by omega
  obtain ⟨bound, gone⟩ :=
    auto_unsubscribe Grow.double resubscribed s ran firstSub known 1 0 once (by decide) small
  exact ⟨written, bound, gone all idle⟩

section Wraps

variable {s : Interest}

namespace Interest

/-- The server after `n` messages for the subscription at address `p`. -/
def delivered (s : Interest) (p n : Nat) : Interest :=
  { s with
    nm := update s.nm p (wrap64 n)
    attempts := update s.attempts p n
    written := update s.written p n }

/-- A message for a subscription without a limit. -/
theorem delivered_step (g : Grow) (idle : s.threads[t]? = some []) (known : sub ∈ s.known) (isOpen : (s.client sub.client).nc = true)
    (unlimited : s.max sub.ptr = 0) (n : Nat) :
    (s.delivered sub.ptr n).step g (.deliver t sub .ok) = some (s.delivered sub.ptr (n + 1)) := by
  have wraps : wrap64 (wrap64 n + 1) = wrap64 ((n + 1 : Nat) : Int) := wrap64_add_left n 1
  have threads : s.threads.set t [] = s.threads := by
    obtain ⟨bound, eq⟩ := List.getElem?_eq_some_iff.mp idle
    rw [← eq, set_getElem_self]
  simp [step, delivered, startOn, deliverMsg, setTasks,
    known, idle, isOpen, unlimited, wraps, threads]

theorem delivered_run (g : Grow) {t : Nat} (idle : s.threads[t]? = some [])
    {sub : Subscription} (known : sub ∈ s.known) (isOpen : (s.client sub.client).nc = true)
    (unlimited : s.max sub.ptr = 0) (n k : Nat) :
    runFrom (step g) (s.delivered sub.ptr k) (replicate n (.deliver t sub .ok)) =
      some (s.delivered sub.ptr (k + n)) := by
  induction n generalizing k with
  | zero => rfl
  | succ n ih =>
    rw [replicate_succ, runFrom, delivered_step g idle known isOpen unlimited]
    show runFrom (step g) (s.delivered sub.ptr (k + 1)) _ = _
    rw [ih (k + 1), Nat.add_right_comm, Nat.add_assoc]

theorem delivered_self {n : Nat} (nm : s.nm p = wrap64 n) (attempts : s.attempts p = n)
    (written : s.written p = n) : s.delivered p n = s := by
  have sameNm : update s.nm p (wrap64 n) = s.nm := by
    rw [← nm, update_eq_self]
  have sameAttempts : update s.attempts p n = s.attempts := by
    rw [← attempts, update_eq_self]
  have sameWritten : update s.written p n = s.written := by
    rw [← written, update_eq_self]
  unfold delivered
  rw [sameNm, sameAttempts, sameWritten]

end Interest

end Wraps

/-- A client has subscribed. -/
def subscribed : List InterestAction :=
  [.accept .client, .spawn, .sub 1 (bytesOf "foo") none (bytesOf "1") true, .run 0]

theorem subscribed_isSome :
    (runFrom (step Grow.double) {} subscribed).isSome = true := by
  decide

/-- After `2 ^ 63` messages the count is negative: the limit of 1 set then is not reached for a long
time, and the next message is written. -/
theorem auto_unsubscribe_wraps : ∃ s,
    runFrom (step Grow.double) {} (subscribed ++
      (replicate (2 ^ 63) (.deliver 1 firstSub .ok) ++
        [.unsub 1 (bytesOf "1") 1, .run 0, .run 0, .deliver 1 firstSub .ok])) = some s ∧
      s.limits = [(0, 1, 2 ^ 63)] ∧ s.written 0 = 2 ^ 63 + 1 ∧ s.threads = [[], []] ∧
      (s.client 1).subs = [(bytesOf "1", firstSub)] := by
  have found : runFrom (step Grow.double) {} subscribed =
      some ((runFrom (step Grow.double) {} subscribed).get subscribed_isSome) :=
    (Option.some_get _).symm
  have delivered := @delivered_run
    ((runFrom (step Grow.double) {} subscribed).get subscribed_isSome)
    Grow.double 1 (by decide) firstSub (by decide) (by decide)
    (by decide) (2 ^ 63) 0
  rw [delivered_self (by decide) (by decide) (by decide),
    Nat.zero_add] at delivered
  rw [runFrom_append, found, Option.bind_some, runFrom_append]
  simp only [show firstSub.ptr = 0 from rfl] at delivered
  rw [delivered, Option.bind_some]
  exact exists_run (by decide)

end Hnatsd.Server
