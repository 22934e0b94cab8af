import Hnatsd.Server.ResultCache
import Hnatsd.Server.Proofs.SublistRun

/-!
# The result cache is not stale

Every change of the sublist moves its generation on, so as long as the generations have not gone
round, the entries of a cache whose generation is the sublist's are what the sublist answers now. A
result computed after the sublist changed under the cache's generation is used once, by the call that
computed it, and is dropped with the cache by the next.
-/

namespace Hnatsd.Server
open Misc

variable {g : Grow} {s s' : ResultCache}

/-- A refused `Insert` leaves empty nodes, which no lookup sees. -/
theorem answer_insert_refused {sl : Sublist} {sub : Subscription}
    (refused : (sl.insert g sub).2 ≠ none) :
    (sl.insert g sub).1.genid = sl.genid ∧ (sl.insert g sub).1.answer g = sl.answer g := by
  cases accepted : insertable (tokens sub.subject) false with
  | true =>
    obtain ⟨l', ran, -⟩ := insertAt_accepted g sub (tokens sub.subject) false sl.heap sl.root
      (tokens_ne_nil _) accepted
    simp [Sublist.insert, ran] at refused
  | false =>
    obtain ⟨l', ran, same⟩ := insertAt_refused g sub (tokens sub.subject) false sl.heap sl.root
      accepted
    simp only [Sublist.insert, ran, true_and]
    funext subject
    have psubs : psubsAt (some l') = psubsAt (some sl.root) := funext fun p => (same p).1
    have qsubs : qsubsAt (some l') = qsubsAt (some sl.root) := funext fun p => (same p).2
    simp only [Sublist.answer, Sublist.lookup, matchLevel_eq, psubs, qsubs]

/-- Calls that return no error move the generation on, the others change no answer. -/
structure Changes (g : Grow) (sl : Sublist) (call : Sublist × Option SublistError) : Prop where
  changed : call.2 = none → call.1.genid = sl.genid + 1
  same : call.2 ≠ none → call.1.genid = sl.genid ∧ call.1.answer g = sl.answer g

theorem changes_insert (g : Grow) (sl : Sublist) (sub : Subscription) :
    Changes g sl (sl.insert g sub) where
  changed accepted := by
    unfold Sublist.insert at accepted ⊢
    split at accepted
    · cases accepted
    · rename_i h root ran
      rfl
  same := answer_insert_refused

theorem changes_remove (g : Grow) (sl : Sublist) (sub : Subscription) :
    Changes g sl (sl.remove g sub) := by
  unfold Sublist.remove
  split
  · exact ⟨nofun, fun _ => ⟨rfl, rfl⟩⟩
  · exact ⟨fun _ => rfl, fun failed => absurd rfl failed⟩

/-- The result was the sublist's answer at one of the instants. -/
def AnsweredIn (g : Grow) (since : List Sublist) (subject : Bytes) (r : Answer) : Prop :=
  ∃ sl ∈ since, r = sl.answer g subject

/-- What `processMsg` holds between its steps. -/
def MsgStage.Fresh (g : Grow) (sl : Sublist) : MsgStage → Prop
  | .idle => True
  | .missed _ since => sl ∈ since
  | .found subject r since => AnsweredIn g since subject r

/-- With fewer than `2 ^ 64` changes, `genid` counts them, and the entries of a cache of the
sublist's generation are its answers. -/
structure ResultCache.Fresh (g : Grow) (s : ResultCache) : Prop where
  counts : s.sl.genid.toNat = s.changes
  loaded : s.genid.toNat ≤ s.changes
  entries : s.sl.genid = s.genid → ∀ e ∈ s.results.getD [], e.2 = s.sl.answer g e.1
  stage : s.stage.Fresh g s.sl
  used : ∀ u ∈ s.used, AnsweredIn g u.since u.subject u.r

theorem ResultCache.fresh_initial : ResultCache.Fresh g {} where
  counts := rfl
  loaded := Nat.le_refl 0
  entries _ _ mem := nomatch mem
  stage := trivial
  used _ mem := nomatch mem

theorem AnsweredIn.append {since : List Sublist} {subject : Bytes} {r : Answer}
    (answered : AnsweredIn g since subject r) (sl : Sublist) :
    AnsweredIn g (since ++ [sl]) subject r := by
  obtain ⟨sl', mem, eq⟩ := answered
  exact ⟨sl', List.mem_append_left _ mem, eq⟩

namespace ResultCache

theorem Fresh.setSublist (fresh : s.Fresh g) {call : Sublist × Option SublistError}
    (changes : Changes g s.sl call) (small : (s.setSublist call).changes < 2 ^ 64) :
    (s.setSublist call).Fresh g := by
  have stage : (s.setSublist call).stage.Fresh g call.1 := by
    have before := fresh.stage
    unfold ResultCache.setSublist
    cases at' : s.stage with
    | idle => trivial
    | missed subject since => exact List.mem_append_right _ (List.mem_singleton_self _)
    | found subject r since =>
      rw [at'] at before
      exact AnsweredIn.append before call.1
  by_cases changed : call.2 = none
  · have more : (s.setSublist call).changes = s.changes + 1 := if_pos changed
    have genid : call.1.genid.toNat = s.changes + 1 := by
      rw [changes.changed changed, UInt64.toNat_add, fresh.counts]
      exact Nat.mod_eq_of_lt (more ▸ small)
    refine ⟨genid.trans more.symm, ?_, fun same => ?_, stage, fresh.used⟩
    · exact more ▸ Nat.le_succ_of_le fresh.loaded
    · have equal : call.1.genid.toNat = s.genid.toNat := congrArg UInt64.toNat same
      have loaded := fresh.loaded
      omega
  · obtain ⟨genid, answer⟩ := changes.same changed
    have same : (s.setSublist call).changes = s.changes := if_neg changed
    refine ⟨?_, same ▸ fresh.loaded, fun isGen e mem => ?_, stage, fresh.used⟩
    · rw [same, ← fresh.counts, ← genid]
      rfl
    · show e.2 = call.1.answer g e.1
      rw [answer]
      exact fresh.entries (genid.symm.trans isGen) e mem

theorem Fresh.load (fresh : s.Fresh g) (subject : Bytes) :
    (s.load subject).Fresh g := by
  have reset : ResultCache.Fresh g { s with
      results := some [], genid := s.sl.genid, stage := .missed subject [s.sl] } :=
    ⟨fresh.counts, fresh.counts.le, fun _ _ mem => (nomatch mem), List.mem_singleton_self _,
      fresh.used⟩
  unfold ResultCache.load
  split
  · rename_i results isResults
    split_ifs with current
    · split
      · rename_i r cached
        refine ⟨fresh.counts, fresh.loaded, fresh.entries, ?_, fresh.used⟩
        have entry : (subject, r) ∈ s.results.getD [] := by
          rw [isResults]
          exact mem_of_lookup cached
        exact ⟨s.sl, List.mem_singleton_self _, fresh.entries current _ entry⟩
      · exact ⟨fresh.counts, fresh.loaded, fresh.entries, List.mem_singleton_self _, fresh.used⟩
    · exact reset
  · exact reset

end ResultCache

theorem mem_foldl_assocErase {results : List (Bytes × Answer)} {keys : List Bytes}
    {e : Bytes × Answer} (mem : e ∈ keys.foldl assocErase results) : e ∈ results := by
  induction keys generalizing results with
  | nil => exact mem
  | cons key rest ih => exact (mem_assocErase (ih mem)).1

theorem mem_prune {results : List (Bytes × Answer)} {order : List Bytes} {e : Bytes × Answer}
    (mem : e ∈ ResultCache.prune results order) : e ∈ results := by
  unfold ResultCache.prune at mem
  split_ifs at mem
  · exact mem_foldl_assocErase mem
  · exact mem

namespace ResultCache

theorem changes_le {a : CacheAction} (stepped : s.step g a = some s') :
    s.changes ≤ s'.changes := by
  have calls (call : Sublist × Option SublistError) : s.changes ≤ (s.setSublist call).changes := by
    show s.changes ≤ if call.2 = none then s.changes + 1 else s.changes
    split_ifs <;> omega
  cases a with
  | insert sub | remove sub =>
    cases stepped
    exact calls _
  | load subject =>
    simp only [step] at stepped
    split at stepped <;> cases stepped
    unfold load
    dsimp only
    split
    · split_ifs
      · split <;> exact Nat.le_refl _
      · exact Nat.le_refl _
    · exact Nat.le_refl _
  | evict subject | use =>
    simp only [step] at stepped
    split at stepped <;> cases stepped
    exact Nat.le_refl _
  | matchSubject order =>
    simp only [step] at stepped
    split at stepped
    · split_ifs at stepped
      cases stepped
      exact Nat.le_refl _
    · cases stepped

theorem Fresh.step (fresh : s.Fresh g) {a : CacheAction}
    (stepped : s.step g a = some s') (small : s'.changes < 2 ^ 64) : s'.Fresh g := by
  cases a with
  | insert sub =>
    cases stepped
    exact fresh.setSublist (changes_insert g s.sl sub) small
  | remove sub =>
    cases stepped
    exact fresh.setSublist (changes_remove g s.sl sub) small
  | evict subject =>
    simp only [ResultCache.step] at stepped
    split at stepped <;> cases stepped
    refine ⟨fresh.counts, fresh.loaded, fun current e mem => ?_, fresh.stage, fresh.used⟩
    refine fresh.entries current e ?_
    cases isResults : s.results with
    | none => simp [isResults] at mem
    | some results =>
      simp only [isResults, Option.map_some, Option.getD_some] at mem
      exact (mem_assocErase mem).1
  | load subject =>
    simp only [ResultCache.step] at stepped
    split at stepped <;> cases stepped
    exact fresh.load subject
  | matchSubject order =>
    simp only [ResultCache.step] at stepped
    split at stepped
    · rename_i subject since missed
      split_ifs at stepped
      cases stepped
      have inSince : s.sl ∈ since := by
        have stage := fresh.stage
        rw [missed] at stage
        exact stage
      refine ⟨fresh.counts, fresh.loaded, fun current e mem => ?_, ⟨s.sl, inSince, rfl⟩, fresh.used⟩
      rcases mem_assocSet (mem_prune mem) with rfl | ⟨old, -⟩
      · rfl
      · exact fresh.entries current e old
    · cases stepped
  | use =>
    simp only [ResultCache.step] at stepped
    split at stepped
    · rename_i subject r since found
      cases stepped
      refine ⟨fresh.counts, fresh.loaded, fresh.entries, trivial, fun u mem => ?_⟩
      rcases List.mem_append.mp mem with old | new
      · exact fresh.used u old
      · rw [List.mem_singleton.mp new]
        have stage := fresh.stage
        rw [found] at stage
        exact stage
    · cases stepped

end ResultCache

/-- The sublist after `n` insertions of a subscription. -/
def insertedTimes (sub : Subscription) : Nat → Sublist
  | 0 => .newSublist
  | n + 1 => ((insertedTimes sub n).insert Grow.double sub).1

theorem insertedTimes_spec {sub : Subscription}
    (ok : insertable (tokens sub.subject) false = true) (n : Nat) :
    Inv (insertedTimes sub n) (List.replicate n sub) ∧
      (insertedTimes sub n).genid = UInt64.ofNat n := by
  induction n with
  | zero => exact ⟨inv_newSublist, rfl⟩
  | succ n ih =>
    obtain ⟨returned, inv⟩ := insert_accepted Grow.double ih.1 ok
    refine ⟨inv, ?_⟩
    rw [insertedTimes, (changes_insert Grow.double _ sub).changed returned, ih.2, UInt64.ofNat_add]
    rfl

/-- Insertions between two calls of `processMsg`. -/
theorem run_insertedTimes {sub : Subscription} (ok : insertable (tokens sub.subject) false = true)
    (idle : s.stage = .idle) (m n : Nat) :
    runFrom (ResultCache.step Grow.double)
        { s with sl := insertedTimes sub m, changes := m } (List.replicate n (.insert sub)) =
      some { s with sl := insertedTimes sub (m + n), changes := m + n } := by
  induction n generalizing m with
  | zero => rfl
  | succ n ih =>
    have returned := (insert_accepted Grow.double (insertedTimes_spec ok m).1 ok).1
    have stepped : ResultCache.step Grow.double { s with sl := insertedTimes sub m, changes := m }
        (.insert sub) = some { s with sl := insertedTimes sub (m + 1), changes := m + 1 } := by
      simp [ResultCache.step, ResultCache.setSublist, returned, insertedTimes, idle]
    rw [List.replicate_succ, runFrom, stepped]
    show runFrom (ResultCache.step Grow.double)
      { s with sl := insertedTimes sub (m + 1), changes := m + 1 } _ = _
    rw [ih (m + 1), Nat.add_right_comm, Nat.add_assoc]

/-- After a message that nobody was interested in. -/
def afterUnheard : ResultCache where
  results := some [(bytesOf "foo", ([], []))]
  used := [⟨bytesOf "foo", ([], []), [.newSublist]⟩]

/-- After insertions that bring the generation back to that of the cache, the result used is one the
sublist has not had since before them. -/
theorem stale_of_wrap {sub : Subscription} (subject : sub.subject = bytesOf "foo")
    (plainSub : sub.queue = none) {n : Nat} (pos : n ≠ 0) (wraps : UInt64.ofNat n = 0) : ∃ s u,
    runFrom (ResultCache.step Grow.double) {}
      ([.load (bytesOf "foo"), .matchSubject [bytesOf "foo"], .use] ++
        (List.replicate n (.insert sub) ++ [.load (bytesOf "foo"), .use])) = some s ∧
      u ∈ s.used ∧ ∀ sl ∈ u.since, u.r ≠ sl.answer Grow.double u.subject := by
  have ok : insertable (tokens sub.subject) false = true := by
    rw [subject]
    decide
  have first : runFrom (ResultCache.step Grow.double) {}
      [.load (bytesOf "foo"), .matchSubject [bytesOf "foo"], .use] =
        some { afterUnheard with sl := insertedTimes sub 0, changes := 0 } := rfl
  obtain ⟨inv, genid⟩ := insertedTimes_spec ok n
  refine ⟨{ afterUnheard with
      sl := insertedTimes sub n
      changes := n
      used := afterUnheard.used ++ [⟨bytesOf "foo", ([], []), [insertedTimes sub n]⟩] },
    ⟨bytesOf "foo", ([], []), [insertedTimes sub n]⟩, ?_,
    List.mem_append_right _ (List.mem_singleton_self _), ?_⟩
  · rw [runFrom_append, first, Option.bind_some, runFrom_append,
      @run_insertedTimes afterUnheard sub ok rfl 0 n, Nat.zero_add]
    have current : (insertedTimes sub n).genid = 0 := genid.trans wraps
    simp [runFrom, ResultCache.step, ResultCache.load, afterUnheard, current]
  · intro sl mem eq
    rw [List.mem_singleton.mp mem] at eq
    -- the plain subscriptions of the answer are all those inserted
    obtain ⟨gs, -, -, -, plain⟩ := lookup_spec Grow.double inv.holds (bytesOf "foo")
    have psubs : [] = (matchLevel Grow.double (some (insertedTimes sub n).root)
        (tokens (bytesOf "foo")) ((insertedTimes sub n).heap, {})).2.psubs := congrArg Prod.fst eq
    rw [← psubs] at plain
    have mem : sub ∈ matching (List.replicate n sub) false (bytesOf "foo") := by
      refine List.mem_filter.mpr ⟨List.mem_replicate.mpr ⟨pos, rfl⟩, ?_⟩
      rw [subject, plainSub]
      decide
    rw [plain.symm.eq_nil] at mem
    cases mem

end Hnatsd.Server
