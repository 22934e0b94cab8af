import Hnatsd.Server.Fanout
import Hnatsd.Server.Proofs.InterestSteps
import Hnatsd.Server.Proofs.MatchGroups

/-!
# Who gets a message

The calls of `deliverMsg` that one message leads to. A call may close the connection it writes to
and take subscriptions out of the sublist, but it closes no other connection: a route that has not
been written to is still as it was when the delivery began. What a call takes out of the sublist may
leave a nil in a queue group whose turn is still to come, and a group that is unlucky enough to draw
the nil gets nothing.
-/

namespace Hnatsd.Server
open Misc List Interest

section Frames

variable {g : Grow} {s s' : Interest}

namespace Interest

/-- No connection but `cid` has been opened or closed. -/
structure OnlyCloses (cid : Nat) (s s' : Interest) : Prop where
  typ : ∀ c, (s'.client c).typ = (s.client c).typ
  nc : ∀ c, c ≠ cid → (s'.client c).nc = (s.client c).nc

theorem OnlyCloses.refl (cid : Nat) (s : Interest) : s.OnlyCloses cid s :=
  ⟨fun _ => rfl, fun _ _ => rfl⟩

theorem OnlyCloses.of_client {cid : Nat} (same : s'.client = s.client) :
    s.OnlyCloses cid s' :=
  ⟨fun c => by rw [same], fun c _ => by rw [same]⟩

theorem OnlyCloses.trans {cid : Nat} {s'' : Interest} (first : s.OnlyCloses cid s')
    (second : s'.OnlyCloses cid s'') : s.OnlyCloses cid s'' :=
  ⟨fun c => (second.typ c).trans (first.typ c),
    fun c other => (second.nc c other).trans (first.nc c other)⟩

theorem remove_client (s : Interest) (sub : Subscription) :
    (s.remove g sub).client = s.client := by
  unfold remove
  split <;> rfl

theorem setSubs_onlyCloses (s : Interest) (owner cid : Nat)
    (subs : List (Bytes × Subscription)) : s.OnlyCloses cid (s.setSubs owner subs) := by
  have fields : ∀ c, ((s.setSubs owner subs).client c).typ = (s.client c).typ ∧
      ((s.setSubs owner subs).client c).nc = (s.client c).nc := by
    intro c
    by_cases same : c = owner
    · subst same
      simp [setSubs]
    · simp [setSubs, same]
  exact ⟨fun c => (fields c).1, fun c _ => (fields c).2⟩

/-- A task closes no connection but the one it is there to close. -/
theorem runTask_closes {task : Task} {p : Interest × List Task} {cid : Nat}
    (only : ∀ c, task = .closeConnection c → c = cid) (ran : s.runTask g task = some p) :
    s.OnlyCloses cid p.1 := by
  cases task with
  | unsubscribe sub =>
    cases ran
    show s.OnlyCloses cid (s.unsubscribe g sub)
    unfold unsubscribe
    split_ifs
    · exact .refl cid s
    · exact (s.setSubs_onlyCloses _ cid _).trans (.of_client (remove_client _ _))
  | remove sub =>
    cases ran
    exact .of_client (s.remove_client sub)
  | closeConnection c =>
    cases ran
    obtain rfl := only c rfl
    show s.OnlyCloses c (s.closeConnection c).1
    unfold closeConnection
    dsimp only
    split_ifs
    · exact .refl c s
    · refine ⟨fun d => ?_, fun d other => by simp [other]⟩
      by_cases same : d = c
      · subst same
        simp
      · simp [same]
  | removeClient c =>
    simp only [runTask] at ran
    split_ifs at ran
    cases ran
    show s.OnlyCloses cid (s.removeClient c)
    unfold removeClient
    split_ifs
    · exact .of_client rfl
    · exact .refl cid s
  | broadcastSubscribe sub | broadcastUnSubscribe sub | broadcastInterestToRoutes line =>
    simp only [runTask] at ran
    split_ifs at ran <;> cases ran <;> exact .of_client rfl
  | makeUnsub sub =>
    cases ran
    exact .refl cid s

theorem finish_closes {cid depth : Nat} {tasks : List Task}
    (only : ∀ task ∈ tasks, ∀ c, task = .closeConnection c → c = cid) :
    s.OnlyCloses cid (s.finish g depth tasks) := by
  induction depth generalizing s tasks with
  | zero => exact .refl cid s
  | succ depth ih =>
    unfold finish
    induction tasks generalizing s with
    | nil => exact .refl cid s
    | cons task tasks ihTasks =>
      rw [foldl_cons]
      refine OnlyCloses.trans ?_ (ihTasks fun t mem => only t (mem_cons_of_mem _ mem))
      split
      next mid more ran =>
        refine (runTask_closes (only task mem_cons_self) ran).trans (ih ?_)
        intro later mem c close
        have follows := runTask_follows ran mem
        rw [close] at follows
        cases follows
      next => exact .refl cid s

/-- What a delivery leaves to do. -/
theorem deliverMsg_tasks {sub : Subscription} {outcome : WriteOutcome} {task : Task}
    (mem : task ∈ (s.deliverMsg sub outcome).2) :
    task = .closeConnection sub.client ∨ task = .unsubscribe sub ∨
      task = .broadcastUnSubscribe sub := by
  have unsub : ∀ {s : Interest}, task ∈ Task.unsubscribe sub ::
      s.forward sub.client [.broadcastUnSubscribe sub] →
        task = .unsubscribe sub ∨ task = .broadcastUnSubscribe sub := by
    intro s mem
    exact (mem_cons.mp mem).imp_right fun later =>
      mem_singleton.mp (mem_forward later).2
  have deferred {s : Interest} {now : Prop} [Decidable now] (mem : task ∈
      if now then Task.unsubscribe sub :: s.forward sub.client [.broadcastUnSubscribe sub]
      else []) : task = .unsubscribe sub ∨ task = .broadcastUnSubscribe sub := by
    split_ifs at mem
    · exact unsub mem
    · cases mem
  simp only [deliverMsg] at mem
  split at mem
  · exact Or.inr (unsub mem)
  · split at mem
    · exact Or.inr (deferred mem)
    · split at mem
      · exact Or.inr (deferred mem)
      · exact Or.inr (deferred mem)
      · exact (mem_cons.mp mem).imp_right deferred

end Interest

end Frames

namespace Fanout

variable {g : Grow} {env : FanoutEnv}

@[simp] theorem deliver_calls (f : Fanout) (sub : Subscription) :
    (deliver g env f sub).calls = f.calls ++ [sub] := rfl

@[simp] theorem deliver_rmap (f : Fanout) (sub : Subscription) :
    (deliver g env f sub).rmap = f.rmap := rfl

theorem deliver_closes (f : Fanout) (sub : Subscription) :
    f.srv.OnlyCloses sub.client (deliver g env f sub).srv := by
  obtain ⟨nm, attempts, written, fields⟩ :=
    f.srv.deliverMsg_fields sub (env.outcome f.calls.length)
  have same : (f.srv.deliverMsg sub (env.outcome f.calls.length)).1.client = f.srv.client := by
    rw [fields]
  refine (OnlyCloses.of_client same).trans (finish_closes ?_)
  intro task mem c close
  rcases deliverMsg_tasks mem with here | other | other
  · exact Task.closeConnection.inj (close.symm.trans here)
  · rw [close] at other
    cases other
  · rw [close] at other
    cases other

/-- The calls for the plain subscriptions of a result: each subscription of a client that is not a
route once, in order; from a route no other; from a client one for each `remoteID` among the open
routes that have subscriptions in the result. -/
structure FansOut (s : Interest) (env : FanoutEnv) (isRoute : Bool)
    (psubs calls : List Subscription) : Prop where
  subset : calls.Sublist psubs
  locals : calls.filter (fun sub => (s.client sub.client).typ ≠ .router) =
    psubs.filter fun sub => (s.client sub.client).typ ≠ .router
  oneHop : isRoute = true → ∀ sub ∈ calls, (s.client sub.client).typ ≠ .router
  routes : isRoute = false → ∃ ids : List Bytes, ids.Nodup ∧
    (calls.filter fun sub => (s.client sub.client).typ = .router).map
      (fun sub => env.remoteID sub.client) = ids.map some ∧
    ∀ id, id ∈ ids ↔ id ≠ [] ∧ ∃ sub ∈ psubs, (s.client sub.client).typ = .router ∧
      (s.client sub.client).nc = true ∧ env.remoteID sub.client = some id

/-- The delivery of the plain subscriptions after some of them: `rmap` has the routes that got the
message, and every other route is as it was at the start. -/
structure Plain (s : Interest) (isRoute : Bool) (env : FanoutEnv) (seen : List Subscription)
    (f : Fanout) : Prop where
  typ : ∀ c, (f.srv.client c).typ = (s.client c).typ
  untouched : ∀ c, (s.client c).typ = .router → (∀ id ∈ env.remoteID c, id ∉ f.rmap) →
    (f.srv.client c).nc = (s.client c).nc
  subset : f.calls.Sublist seen
  locals : f.calls.filter (fun sub => (s.client sub.client).typ ≠ .router) =
    seen.filter fun sub => (s.client sub.client).typ ≠ .router
  oneHop : isRoute = true → ∀ sub ∈ f.calls, (s.client sub.client).typ ≠ .router
  once : f.rmap.Nodup
  routes : (f.calls.filter fun sub => (s.client sub.client).typ = .router).map
    (fun sub => env.remoteID sub.client) = f.rmap.map some
  reached : isRoute = false → ∀ id, id ∈ f.rmap ↔ id ≠ [] ∧ ∃ sub ∈ seen,
    (s.client sub.client).typ = .router ∧ (s.client sub.client).nc = true ∧
      env.remoteID sub.client = some id

theorem plain_start (s : Interest) (isRoute : Bool) : Plain s isRoute env [] ⟨s, [], []⟩ where
  typ _ := rfl
  untouched _ _ _ := rfl
  subset := .slnil
  locals := rfl
  oneHop _ _ mem := absurd mem not_mem_nil
  once := nodup_nil
  routes := rfl
  reached _ _ := by simp

section Loop

variable {s : Interest} {isRoute : Bool} {seen : List Subscription} {f : Fanout}
  {sub : Subscription}

/-- A subscription of a route that gets no call: the message comes from a route, or the route is
closed, has no identity, or has got the message already. -/
theorem Plain.skip (inv : Plain s isRoute env seen f) (router : (s.client sub.client).typ = .router)
    (why : isRoute = true ∨ ∀ id, id ≠ [] → (s.client sub.client).nc = true →
      env.remoteID sub.client = some id → id ∈ f.rmap) :
    Plain s isRoute env (seen ++ [sub]) f where
  typ := inv.typ
  untouched := inv.untouched
  subset := inv.subset.trans (sublist_append_left seen [sub])
  locals := by
    rw [inv.locals, filter_append]
    simp [router]
  oneHop := inv.oneHop
  once := inv.once
  routes := inv.routes
  reached := by
    intro client id
    rw [inv.reached client]
    constructor
    · rintro ⟨named, x, mem, rest⟩
      exact ⟨named, x, mem_append_left _ mem, rest⟩
    · rintro ⟨named, x, mem, isRouter, isOpen, has⟩
      rcases mem_append.mp mem with old | new
      · exact ⟨named, x, old, isRouter, isOpen, has⟩
      · obtain rfl := mem_singleton.mp new
        have known := (why.resolve_left (by simp [client])) id named isOpen has
        exact (inv.reached client id).mp known

/-- A subscription of a client that is not a route. -/
theorem Plain.local (inv : Plain s isRoute env seen f)
    (notRouter : (s.client sub.client).typ ≠ .router) :
    Plain s isRoute env (seen ++ [sub]) (deliver g env f sub) where
  typ c := ((deliver_closes f sub).typ c).trans (inv.typ c)
  untouched c router fresh := by
    have other : c ≠ sub.client := fun same => notRouter (same ▸ router)
    rw [(deliver_closes f sub).nc c other]
    exact inv.untouched c router fresh
  subset := inv.subset.append (List.Sublist.refl [sub])
  locals := by
    rw [deliver_calls, filter_append, filter_append, inv.locals]
  oneHop := by
    intro fromRoute x mem
    rcases mem_append.mp mem with old | new
    · exact inv.oneHop fromRoute x old
    · obtain rfl := mem_singleton.mp new
      exact notRouter
  once := inv.once
  routes := by
    rw [deliver_calls, deliver_rmap, filter_append, ← inv.routes]
    simp [notRouter]
  reached := by
    intro client id
    rw [deliver_rmap, inv.reached client]
    constructor
    · rintro ⟨named, x, mem, rest⟩
      exact ⟨named, x, mem_append_left _ mem, rest⟩
    · rintro ⟨named, x, mem, isRouter, rest⟩
      rcases mem_append.mp mem with old | new
      · exact ⟨named, x, old, isRouter, rest⟩
      · obtain rfl := mem_singleton.mp new
        exact absurd isRouter notRouter

/-- An open route that has not got the message yet. -/
theorem Plain.route (inv : Plain s false env seen f)
    (router : (s.client sub.client).typ = .router) {id : Bytes}
    (has : env.remoteID sub.client = some id) (named : id ≠ [])
    (isOpen : (f.srv.client sub.client).nc = true) (new : id ∉ f.rmap) :
    Plain s false env (seen ++ [sub])
      (deliver g env { f with rmap := f.rmap ++ [id] } sub) where
  typ c := ((deliver_closes { f with rmap := f.rmap ++ [id] } sub).typ c).trans (inv.typ c)
  untouched c isRouter fresh := by
    have other : c ≠ sub.client := by
      rintro rfl
      exact fresh id has (mem_append_right _ (mem_singleton_self id))
    rw [(deliver_closes { f with rmap := f.rmap ++ [id] } sub).nc c other]
    exact inv.untouched c isRouter fun id' is mem => fresh id' is (mem_append_left _ mem)
  subset := inv.subset.append (List.Sublist.refl [sub])
  locals := by
    rw [deliver_calls, filter_append, filter_append, inv.locals]
  oneHop := by simp
  once := by
    rw [deliver_rmap]
    refine nodup_append.mpr ⟨inv.once, nodup_singleton id, ?_⟩
    rintro a mem b single rfl
    exact new (mem_singleton.mp single ▸ mem)
  routes := by
    rw [deliver_calls, deliver_rmap, filter_append, map_append, map_append,
      inv.routes]
    simp [router, has]
  reached := by
    intro client id'
    have wasOpen : (s.client sub.client).nc = true := by
      rw [← inv.untouched sub.client router fun id'' is => by
        rw [has] at is
        cases is
        exact new]
      exact isOpen
    rw [deliver_rmap, mem_append, inv.reached client, mem_singleton]
    constructor
    · rintro (⟨named', x, mem, rest⟩ | rfl)
      · exact ⟨named', x, mem_append_left _ mem, rest⟩
      · exact ⟨named, sub, mem_append_right _ (mem_singleton_self sub), router, wasOpen,
          has⟩
    · rintro ⟨named', x, mem, isRouter, isOpen', has'⟩
      rcases mem_append.mp mem with old | here
      · exact Or.inl ⟨named', x, old, isRouter, isOpen', has'⟩
      · obtain rfl := mem_singleton.mp here
        rw [has] at has'
        exact Or.inr (Option.some.inj has').symm

theorem Plain.step (inv : Plain s isRoute env seen f) (sub : Subscription) :
    Plain s isRoute env (seen ++ [sub]) (plain g env isRoute f sub) := by
  have typ := inv.typ sub.client
  unfold plain
  dsimp only
  rw [typ]
  split_ifs with router fromRoute
  · exact inv.skip router (Or.inl fromRoute)
  · obtain rfl : isRoute = false := Bool.eq_false_iff.mpr fromRoute
    split
    next none =>
      exact inv.skip router (Or.inr fun id _ _ has => by rw [none] at has; cases has)
    next id has =>
      split_ifs with bad known
      · refine inv.skip router (Or.inr fun id' named wasOpen has' => ?_)
        rw [has] at has'
        cases has'
        have closed := bad.resolve_right named
        by_contra new
        rw [inv.untouched sub.client router fun id'' is => by
          rw [has] at is
          cases is
          exact new, wasOpen] at closed
        cases closed
      · refine inv.skip router (Or.inr fun id' _ _ has' => ?_)
        rw [has] at has'
        cases has'
        exact known
      · rw [not_or, Bool.not_eq_false] at bad
        exact inv.route router has bad.2 bad.1 known
  · exact inv.local router

theorem plain_loop (s : Interest) (isRoute : Bool) (psubs : List Subscription) :
    Plain s isRoute env psubs (psubs.foldl (plain g env isRoute) ⟨s, [], []⟩) := by
  have run : ∀ (todo seen : List Subscription) (f : Fanout), Plain s isRoute env seen f →
      Plain s isRoute env (seen ++ todo) (todo.foldl (plain g env isRoute) f) := by
    intro todo
    induction todo with
    | nil =>
      intro seen f inv
      rw [append_nil]
      exact inv
    | cons sub todo ih =>
      intro seen f inv
      have after := ih (seen ++ [sub]) (plain g env isRoute f sub) (inv.step sub)
      rw [append_assoc] at after
      exact after
  exact run psubs [] _ (plain_start s isRoute)

theorem Plain.fansOut (inv : Plain s isRoute env seen f) :
    FansOut s env isRoute seen f.calls where
  subset := inv.subset
  locals := inv.locals
  oneHop := inv.oneHop
  routes client := ⟨f.rmap, inv.once, inv.routes, inv.reached client⟩

end Loop

section Queues

/-- The subscription that the `i`-th group draws, if the cell is not nil. -/
def drawn (env : FanoutEnv) (i : Nat) (f : Fanout) (qsubs : Slice) : Option Subscription :=
  (f.srv.sl.heap.read qsubs)[env.random i % qsubs.len]?.join

/-- At its turn every group draws a subscription that was in it at the start. -/
def DrawsMembers (g : Grow) (env : FanoutEnv) (start : SubHeap) : Nat → Fanout → List Slice → Prop
  | _, _, [] => True
  | i, f, qsubs :: rest => ∃ sub, drawn env i f qsubs = some sub ∧ some sub ∈ start.read qsubs ∧
      DrawsMembers g env start (i + 1) (deliver g env f sub) rest

theorem queued_eq {i : Nat} {f : Fanout} {qsubs : Slice} (filled : 0 < qsubs.len) :
    queued g env i f qsubs =
      some (match drawn env i f qsubs with
        | some sub => deliver g env f sub
        | none => f) := by
  unfold queued drawn
  rw [if_neg filled.ne']
  generalize (f.srv.sl.heap.read qsubs)[env.random i % qsubs.len]? = cell
  rcases cell with - | - | sub <;> rfl

/-- The loop over the groups calls at most once for each, and once for each on a member exactly when
each draws a member. -/
theorem queues_spec (start : SubHeap) {qs : List Slice} (filled : ∀ qr ∈ qs, 0 < qr.len) (i : Nat)
    (f : Fanout) : ∃ f' queue, queues g env i f qs = some f' ∧ f'.calls = f.calls ++ queue ∧
      queue.length ≤ qs.length ∧
      (List.Forall₂ (fun qr sub => some sub ∈ start.read qr) qs queue ↔
        DrawsMembers g env start i f qs) := by
  induction qs generalizing i f with
  | nil => exact ⟨f, [], rfl, (append_nil _).symm, Nat.le_refl 0, by simp [DrawsMembers]⟩
  | cons qr qs ih =>
    have step : ∀ f₁, queued g env i f qr = some f₁ →
        queues g env i f (qr :: qs) = queues g env (i + 1) f₁ qs := by
      intro f₁ stepped
      rw [queues, stepped, Option.bind_some]
    have first := @queued_eq g env i f qr (filled qr mem_cons_self)
    have rest := fun f₁ => ih (fun qr' mem => filled qr' (mem_cons_of_mem _ mem)) (i + 1) f₁
    cases draw : drawn env i f qr with
    | some sub =>
      rw [draw] at first
      obtain ⟨f', queue, ran, calls, few, members⟩ := rest (deliver g env f sub)
      refine ⟨f', sub :: queue, (step _ first).trans ran, ?_, Nat.succ_le_succ few, ?_⟩
      · rw [calls, deliver_calls, append_assoc, singleton_append]
      · rw [forall₂_cons, members, DrawsMembers]
        constructor
        · rintro ⟨member, later⟩
          exact ⟨sub, draw, member, later⟩
        · rintro ⟨sub', again, member, later⟩
          obtain rfl := Option.some.inj (draw.symm.trans again)
          exact ⟨member, later⟩
    | none =>
      rw [draw] at first
      obtain ⟨f', queue, ran, calls, few, -⟩ := rest f
      refine ⟨f', queue, (step _ first).trans ran, calls, Nat.le_succ_of_le few, ?_⟩
      constructor
      · intro all
        have same := all.length_eq
        rw [length_cons] at same
        omega
      · rintro ⟨sub, again, -⟩
        rw [draw] at again
        cases again

/-- A call that does not time out, for a subscription without a limit, changes neither the sublist
nor the limits. -/
theorem deliver_quiet {f : Fanout} {sub : Subscription} (inTime : ∀ n, env.outcome n ≠ .timedOut)
    (noLimit : f.srv.max sub.ptr ≤ 0) :
    (deliver g env f sub).srv.sl = f.srv.sl ∧ (deliver g env f sub).srv.max = f.srv.max := by
  obtain ⟨nm, attempts, written, fields⟩ :=
    f.srv.deliverMsg_fields sub (env.outcome f.calls.length)
  have done : (f.srv.deliverMsg sub (env.outcome f.calls.length)).2 = [] := by
    have never : ¬0 < f.srv.max sub.ptr := by omega
    have ends := inTime f.calls.length
    simp only [deliverMsg, never, false_and, if_false]
    split
    · rfl
    · split
      · rfl
      · rfl
      next timedOut => exact absurd timedOut ends
  simp only [deliver, done, finish, foldl_nil, fields, and_self]

/-- When no write times out and no subscription has a limit, groups without a nil draw members. -/
theorem drawsMembers_of_quiet {start : SubHeap} {qs : List Slice} {i : Nat} {f : Fanout}
    (same : f.srv.sl.heap = start) (inTime : ∀ n, env.outcome n ≠ .timedOut)
    (noLimit : ∀ ptr, f.srv.max ptr ≤ 0) (valid : ∀ qr ∈ qs, start.Valid qr ∧ 0 < qr.len)
    (full : ∀ qr ∈ qs, ∀ cell ∈ start.read qr, cell ≠ none) : DrawsMembers g env start i f qs := by
  induction qs generalizing i f with
  | nil => trivial
  | cons qr qs ih =>
    obtain ⟨inside, filled⟩ := valid qr mem_cons_self
    have bound : env.random i % qr.len < (start.read qr).length := by
      rw [Heap.read_length inside]
      exact Nat.mod_lt _ filled
    obtain ⟨sub, cell⟩ := Option.ne_none_iff_exists'.mp
      (full qr mem_cons_self _ (getElem_mem bound))
    obtain ⟨sl, max⟩ := @deliver_quiet g env f sub inTime (noLimit sub.ptr)
    refine ⟨sub, ?_, cell ▸ getElem_mem bound, ?_⟩
    · rw [drawn, same, getElem?_eq_getElem bound, cell]
      rfl
    · refine ih (by rw [sl, same]) (by rwa [max])
        (fun qr' mem => valid qr' (mem_cons_of_mem _ mem))
        fun qr' mem => full qr' (mem_cons_of_mem _ mem)

theorem plain_quiet {isRoute : Bool} {f : Fanout} (psubs : List Subscription)
    (inTime : ∀ n, env.outcome n ≠ .timedOut) (noLimit : ∀ ptr, f.srv.max ptr ≤ 0) :
    (psubs.foldl (plain g env isRoute) f).srv.sl = f.srv.sl ∧
      (psubs.foldl (plain g env isRoute) f).srv.max = f.srv.max := by
  induction psubs generalizing f with
  | nil => exact ⟨rfl, rfl⟩
  | cons sub psubs ih =>
    have here : (plain g env isRoute f sub).srv.sl = f.srv.sl ∧
        (plain g env isRoute f sub).srv.max = f.srv.max := by
      unfold plain
      dsimp only
      split_ifs
      · exact ⟨rfl, rfl⟩
      · split
        · exact ⟨rfl, rfl⟩
        · split_ifs
          · exact ⟨rfl, rfl⟩
          · exact ⟨rfl, rfl⟩
          · exact deliver_quiet inTime (noLimit sub.ptr)
      · exact deliver_quiet inTime (noLimit sub.ptr)
    rw [foldl_cons]
    obtain ⟨sl, max⟩ := ih (by rwa [here.2])
    exact ⟨sl.trans here.1, max.trans here.2⟩

end Queues

end Fanout

section Message

variable {g : Grow} {env : FanoutEnv}

/-- How many calls there are is settled by the result. -/
theorem Fanout.FansOut.length_eq {s : Interest} {psubs calls calls' : List Subscription}
    (one : FansOut s env false psubs calls) (two : FansOut s env false psubs calls') :
    calls.length = calls'.length := by
  obtain ⟨ids, once, routes, reached⟩ := one.routes rfl
  obtain ⟨ids', once', routes', reached'⟩ := two.routes rfl
  have same : ids.length = ids'.length := by
    refine List.Perm.length_eq ((perm_ext_iff_of_nodup once once').mpr fun id => ?_)
    rw [reached, reached']
  have split : ∀ calls : List Subscription, calls.length =
      (calls.filter fun sub => (s.client sub.client).typ = .router).length +
        (calls.filter fun sub => (s.client sub.client).typ ≠ .router).length := by
    intro calls
    have sum := length_eq_length_filter_add (l := calls)
      fun sub => decide ((s.client sub.client).typ = .router)
    simpa using sum
  have count := congrArg length routes
  have count' := congrArg length routes'
  rw [length_map, length_map] at count count'
  rw [split calls, split calls', one.locals, two.locals, count, count', same]

/-- A message is fanned out as it should be. From a route: to the subscription its sid names if it
is that of a queue subscription, else to the local plain subscriptions. From a client: to the plain
subscriptions and then to one member of each group. -/
def Interest.FannedOut (s : Interest) (env : FanoutEnv) (cid : Nat) (sid : Bytes)
    (r : SublistResult) (calls : List Subscription) : Prop :=
  if (s.client cid).typ = .router then
    match s.routeSidQueueSubscriber sid with
    | (named, true) => calls = named.toList
    | (_, false) => Fanout.FansOut s env true r.psubs calls
  else
    ∃ plain queue, calls = plain ++ queue ∧ Fanout.FansOut s env false r.psubs plain ∧
      List.Forall₂ (fun qr sub => some sub ∈ s.sl.heap.read qr) r.qsubs queue

/-- A client with a plain subscription and a member of a group, and another with the other member. -/
def sharedGroup : List InterestAction :=
  [.accept .client, .accept .client, .accept .client,
    .sub 1 (bytesOf "foo") none (bytesOf "1") true, .run 0,
    .sub 1 (bytesOf "foo") (some (bytesOf "q")) (bytesOf "2") true, .run 0,
    .sub 2 (bytesOf "foo") (some (bytesOf "q")) (bytesOf "1") true, .run 1]

end Message

end Hnatsd.Server
