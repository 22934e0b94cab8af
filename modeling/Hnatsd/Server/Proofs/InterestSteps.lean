import Hnatsd.Server.Interest
import Hnatsd.Server.Proofs.SublistRun

/-!
# What the steps of a server with subscriptions can do

The steps by kind: a new client or thread, an idle thread that starts on a command, a delivery or a
close, a thread that goes on with its next task, and the steps of the route. What the functions
behind them leave alone is stated once here.
-/

namespace Hnatsd.Server
open Misc List Interest

variable {p : Interest × List Task} {a : InterestAction} {tasks : List Task} {cid t : Nat}
  {task : Task}

namespace Interest

/-- What an idle thread may start on: the state after the first lock region and what is left to
do. -/
inductive Starts (g : Grow) (s : Interest) :
    InterestAction → Nat → Interest × List Task → Prop where
  | sub (cid : Nat) (subject : Bytes) (queue : Option Bytes) (sid : Bytes) (permitted : Bool) :
      Interest.Starts g s (.sub cid subject queue sid permitted) (s.client cid).reader
        (s.processSub g cid subject queue sid permitted)
  | unsub (cid : Nat) (sid : Bytes) (max : Int) :
      Interest.Starts g s (.unsub cid sid max) (s.client cid).reader (s.processUnsub cid sid max)
  | deliver (t : Nat) (sub : Subscription) (outcome : WriteOutcome) (known : sub ∈ s.known) :
      Interest.Starts g s (.deliver t sub outcome) t (s.deliverMsg sub outcome)
  | close (t cid : Nat) : Interest.Starts g s (.close t cid) t (s, [.closeConnection cid])

/-- The steps of the server. -/
inductive Moved (g : Grow) (s : Interest) : InterestAction → Interest → Prop where
  | accept (typ : ClientKind) :
      Interest.Moved g s (.accept typ) { s with
        gcid := s.gcid + 1
        client := Function.update s.client (s.gcid + 1) ⟨typ, true, [], s.threads.length⟩
        threads := s.threads ++ [[]]
        clients := if typ = .router then s.clients else s.clients ++ [s.gcid + 1] }
  | spawn : Interest.Moved g s .spawn { s with threads := s.threads ++ [[]] }
  | start {a : InterestAction} {t : Nat} {p : Interest × List Task}
      (idle : s.threads[t]? = some []) (starts : s.Starts g a t p) :
      Interest.Moved g s a (p.1.setTasks t p.2)
  | run {t : Nat} {task : Task} {rest : List Task} {p : Interest × List Task}
      (running : s.threads[t]? = some (task :: rest)) (ran : s.runTask g task = some p) :
      Interest.Moved g s (.run t) (p.1.setTasks t (p.2 ++ rest))
  | addRoute (absent : s.route = .absent) :
      Interest.Moved g s .addRoute { s with route := .added }
  | collect (order : List Nat) (added : s.route = .added) (all : order.Perm s.clients) :
      Interest.Moved g s (.collect order) { s with route := .collecting order [] }
  | collectClient {cid : Nat} {left : List Nat} {buf : List RouteLine}
      (collecting : s.route = .collecting (cid :: left) buf) :
      Interest.Moved g s .collectClient { s with
        route := .collecting left (buf ++ (s.client cid).subs.map fun e => subLine e.2) }
  | collected {buf : List RouteLine} (collecting : s.route = .collecting [] buf) :
      Interest.Moved g s .collected { s with route := .collected buf }
  | sendLocalSubs {buf : List RouteLine} (collected : s.route = .collected buf) :
      Interest.Moved g s .sendLocalSubs { s with route := .ready, wire := s.wire ++ buf }
  | peer {line : RouteLine} {wire : List RouteLine} (next : s.wire = line :: wire) :
      Interest.Moved g s .peer
        { s with wire := wire, peer := peerReads s.peer line }

end Interest

variable {g : Grow} {s s' : Interest}

namespace Interest

theorem startOn_some {s' : Interest}
    (started : s.startOn t p = some s') :
    s.threads[t]? = some [] ∧ s' = p.1.setTasks t p.2 := by
  unfold startOn at started
  split_ifs at started with idle
  exact ⟨idle, (Option.some.inj started).symm⟩

theorem step_moved (stepped : s.step g a = some s') :
    s.Moved g a s' := by
  cases a with
  | accept typ =>
    cases stepped
    exact .accept typ
  | spawn =>
    cases stepped
    exact .spawn
  | sub cid subject queue sid permitted =>
    obtain ⟨idle, rfl⟩ := startOn_some stepped
    exact .start idle (.sub cid subject queue sid permitted)
  | unsub cid sid max =>
    obtain ⟨idle, rfl⟩ := startOn_some stepped
    exact .start idle (.unsub cid sid max)
  | deliver t sub outcome =>
    simp only [step] at stepped
    split_ifs at stepped with known
    obtain ⟨idle, rfl⟩ := startOn_some stepped
    exact .start idle (.deliver t sub outcome known)
  | close t cid =>
    obtain ⟨idle, rfl⟩ := startOn_some stepped
    exact .start idle (.close t cid)
  | run t =>
    simp only [step] at stepped
    split at stepped
    · rename_i task rest running
      obtain ⟨⟨s', tasks⟩, ran, rfl⟩ := Option.map_eq_some_iff.mp stepped
      exact .run running ran
    · cases stepped
  | addRoute =>
    simp only [step] at stepped
    split_ifs at stepped with absent
    cases stepped
    exact .addRoute absent
  | collect order =>
    simp only [step] at stepped
    split_ifs at stepped with can
    cases stepped
    exact .collect order can.1 can.2
  | collectClient =>
    simp only [step] at stepped
    split at stepped
    · rename_i cid left buf collecting
      cases stepped
      exact .collectClient collecting
    · cases stepped
  | collected =>
    simp only [step] at stepped
    split at stepped
    · rename_i buf collecting
      cases stepped
      exact .collected collecting
    · cases stepped
  | sendLocalSubs =>
    simp only [step] at stepped
    split at stepped
    · rename_i buf collected
      cases stepped
      exact .sendLocalSubs collected
    · cases stepped
  | peer =>
    simp only [step] at stepped
    split at stepped
    · rename_i line wire next
      cases stepped
      exact .peer next
    · cases stepped

/-- `sl.Remove` keeps the ledger. -/
theorem remove_eq (inv : Inv s.sl s.live) (sub : Subscription) :
    ∃ sl, Inv sl (s.live.erase sub) ∧
      s.remove g sub = { s with sl := sl, live := s.live.erase sub } := by
  unfold remove
  by_cases mem : sub ∈ s.live
  · obtain ⟨returned, after⟩ := remove_live g inv mem
    refine ⟨(s.sl.remove g sub).1, after, ?_⟩
    split
    · rename_i sl removed
      rw [removed]
    · rename_i sl err removed
      rw [removed] at returned
      cases returned
  · obtain ⟨same, returned⟩ := remove_not_live g inv mem
    rw [erase_of_not_mem mem]
    refine ⟨s.sl, inv, ?_⟩
    split
    · rename_i sl removed
      rw [removed] at returned
      exact absurd rfl returned
    · rename_i sl err removed
      rw [removed] at same
      rw [← same]

theorem remove_threads (s : Interest) (sub : Subscription) :
    (s.remove g sub).threads = s.threads := by
  unfold remove
  split <;> rfl

/-- A task does not look at the threads. -/
theorem runTask_threads
    (ran : s.runTask g task = some p) : p.1.threads = s.threads := by
  cases task with
  | unsubscribe sub =>
    cases ran
    show (s.unsubscribe g sub).threads = s.threads
    unfold unsubscribe
    split_ifs
    · rfl
    · exact remove_threads _ _
  | remove sub =>
    cases ran
    exact s.remove_threads sub
  | closeConnection cid =>
    cases ran
    show (s.closeConnection cid).1.threads = s.threads
    unfold closeConnection
    dsimp only
    split_ifs <;> rfl
  | removeClient cid =>
    simp only [runTask] at ran
    split_ifs at ran
    cases ran
    show (s.removeClient cid).threads = s.threads
    unfold removeClient
    split_ifs <;> rfl
  | broadcastSubscribe sub | broadcastUnSubscribe sub | broadcastInterestToRoutes line =>
    simp only [runTask] at ran
    split_ifs at ran <;> cases ran <;> rfl
  | makeUnsub sub =>
    cases ran
    rfl

/-- Some thread still has `task` to do. -/
def Pends (s : Interest) (task : Task) : Prop := ∃ tasks ∈ s.threads, task ∈ tasks

theorem pends_setTasks {old : List Task}
    (thread : s.threads[t]? = some old) (mem : task ∈ tasks) : (s.setTasks t tasks).Pends task :=
  ⟨tasks, mem_set (List.getElem?_eq_some_iff.mp thread).1 tasks, mem⟩

/-- What a step does to the tables and to the ledger of the sublist. -/
inductive Effect (s : Interest) (a : InterestAction) (s' : Interest) : Prop where
  | none (gcid : s'.gcid = s.gcid) (live : s'.live = s.live) (known : s'.known = s.known)
      (client : s'.client = s.client)
  | accept (typ : ClientKind) (gcid : s'.gcid = s.gcid + 1) (live : s'.live = s.live)
      (known : s'.known = s.known)
      (client : s'.client =
        Function.update s.client (s.gcid + 1) ⟨typ, true, [], s.threads.length⟩)
      (clients : s'.clients = if typ = .router then s.clients else s.clients ++ [s.gcid + 1])
  | insert (sub : Subscription) (isOpen : (s.client sub.client).nc = true)
      (ptr : sub.ptr = s.known.length)
      (free : (s.client sub.client).subs.lookup sub.sid = Option.none)
      (gcid : s'.gcid = s.gcid) (live : s'.live = sub :: s.live)
      (known : s'.known = s.known ++ [sub])
      (client : s'.client = Function.update s.client sub.client { s.client sub.client with
        subs := assocSet (s.client sub.client).subs sub.sid sub })
      (pends : (s.client sub.client).typ ≠ .router → s'.Pends (.broadcastSubscribe sub))
  | delete (t : Nat) (sub : Subscription) (ran : a = .run t)
      (head : (s.threads[t]?).bind List.head? = some (.unsubscribe sub))
      (gcid : s'.gcid = s.gcid) (live : s'.live = s.live.erase sub) (known : s'.known = s.known)
      (client : s'.client = Function.update s.client sub.client { s.client sub.client with
        subs := assocErase (s.client sub.client).subs sub.sid })
  | close (cid : Nat) (isOpen : (s.client cid).nc = true) (gcid : s'.gcid = s.gcid)
      (live : s'.live = s.live) (known : s'.known = s.known)
      (client : s'.client = Function.update s.client cid { s.client cid with nc := false })
      (pends : (s.client cid).typ ≠ .router → ∀ e ∈ (s.client cid).subs,
        s'.Pends (.broadcastUnSubscribe e.2))
  | remove (t : Nat) (sub : Subscription)
      (head : (s.threads[t]?).bind List.head? = some (.remove sub)) (gcid : s'.gcid = s.gcid)
      (live : s'.live = s.live.erase sub) (known : s'.known = s.known)
      (client : s'.client = s.client)

theorem processSub_effect (ledger : Inv s.sl s.live) (a : InterestAction) (cid : Nat)
    (subject : Bytes) (queue : Option Bytes) (sid : Bytes) (permitted : Bool)
    (idle : s.threads[t]? = some []) :
    let p := s.processSub g cid subject queue sid permitted
    s.Effect a (p.1.setTasks t p.2) ∧ Inv p.1.sl p.1.live := by
  have same : s.Effect a (s.setTasks t []) := .none rfl rfl rfl rfl
  simp only [processSub]
  split_ifs with closed refused
  · exact ⟨same, ledger⟩
  · exact ⟨same, ledger⟩
  rw [Bool.not_eq_false] at closed
  split
  · exact ⟨same, ledger⟩
  · rename_i free
    cases accepted : insertable (tokens subject) false with
    | false =>
      have refused := @insert_refused g s.sl s.live ⟨s.known.length, subject, queue, cid, sid⟩
        ledger accepted
      split
      · rename_i sl err inserted
        rw [inserted] at refused
        exact ⟨.none rfl rfl rfl rfl, refused.2⟩
      · rename_i sl inserted
        rw [inserted] at refused
        cases refused.1
    | true =>
      have inserts := @insert_accepted g s.sl s.live ⟨s.known.length, subject, queue, cid, sid⟩
        ledger accepted
      split
      · rename_i sl err inserted
        rw [inserted] at inserts
        cases inserts.1
      · rename_i sl inserted
        rw [inserted] at inserts
        refine ⟨.insert ⟨s.known.length, subject, queue, cid, sid⟩ closed rfl free rfl rfl rfl rfl
          fun localClient => pends_setTasks (s := setSubs _ _ _) idle ?_, inserts.2⟩
        simp only [forward, if_neg localClient]
        exact mem_singleton_self _

theorem processUnsub_fields (s : Interest) (cid : Nat) (sid : Bytes) (max : Int) :
    ∃ max' limits, (s.processUnsub cid sid max).1 = { s with max := max', limits := limits } := by
  unfold processUnsub
  split
  · exact ⟨_, _, rfl⟩
  · exact ⟨_, _, rfl⟩

theorem deliverMsg_fields (s : Interest) (sub : Subscription) (outcome : WriteOutcome) :
    ∃ nm attempts written, (s.deliverMsg sub outcome).1 =
      { s with nm := nm, attempts := attempts, written := written } := by
  unfold deliverMsg
  dsimp only
  split
  · exact ⟨_, _, _, rfl⟩
  · split
    · exact ⟨_, _, _, rfl⟩
    · split
      · exact ⟨_, _, _, rfl⟩
      · exact ⟨_, _, _, rfl⟩
      · exact ⟨_, _, _, rfl⟩

theorem runTask_effect (ledger : Inv s.sl s.live)
    {rest : List Task} (running : s.threads[t]? = some (task :: rest))
    (ran : s.runTask g task = some p) :
    s.Effect (.run t) (p.1.setTasks t (p.2 ++ rest)) ∧ Inv p.1.sl p.1.live := by
  have head : (s.threads[t]?).bind head? = some task := by rw [running]; rfl
  cases task with
  | unsubscribe sub =>
    cases ran
    simp only [unsubscribe]
    split_ifs
    · exact ⟨.none rfl rfl rfl rfl, ledger⟩
    · obtain ⟨sl, after, eq⟩ := @remove_eq g
        (s.setSubs sub.client (assocErase (s.client sub.client).subs sub.sid)) ledger sub
      rw [eq]
      exact ⟨.delete t sub rfl head rfl rfl rfl rfl, after⟩
  | broadcastSubscribe sub | broadcastUnSubscribe sub | broadcastInterestToRoutes line =>
    simp only [runTask] at ran
    split_ifs at ran <;> cases ran <;> exact ⟨.none rfl rfl rfl rfl, ledger⟩
  | makeUnsub sub =>
    cases ran
    exact ⟨.none rfl rfl rfl rfl, ledger⟩
  | closeConnection cid =>
    cases ran
    simp only [closeConnection]
    split_ifs with closed
    · exact ⟨.none rfl rfl rfl rfl, ledger⟩
    · refine ⟨.close cid (Bool.not_eq_false _ ▸ closed) rfl rfl rfl rfl fun localClient e mem =>
        pends_setTasks running (mem_append_left _ (mem_cons_of_mem _
          (mem_flatMap.mpr ⟨e, mem, ?_⟩))), ledger⟩
      simp [forward, localClient]
  | removeClient cid =>
    simp only [runTask] at ran
    split_ifs at ran
    cases ran
    simp only [removeClient]
    split_ifs
    · exact ⟨.none rfl rfl rfl rfl, ledger⟩
    · exact ⟨.none rfl rfl rfl rfl, ledger⟩
  | remove sub =>
    cases ran
    obtain ⟨sl, after, eq⟩ := @remove_eq g s ledger sub
    rw [eq]
    exact ⟨.remove t sub head rfl rfl rfl rfl, after⟩

/-- Every step has one of the effects, and the trie goes on holding the ledger. -/
theorem Moved.effect (moved : s.Moved g a s')
    (ledger : Inv s.sl s.live) : s.Effect a s' ∧ Inv s'.sl s'.live := by
  cases moved with
  | accept typ => exact ⟨.accept typ rfl rfl rfl rfl rfl, ledger⟩
  | start idle starts =>
    cases starts with
    | sub cid subject queue sid permitted =>
      exact processSub_effect ledger _ cid subject queue sid permitted idle
    | unsub cid sid max =>
      obtain ⟨max', limits, eq⟩ := s.processUnsub_fields cid sid max
      rw [eq]
      exact ⟨.none rfl rfl rfl rfl, ledger⟩
    | deliver t sub outcome known =>
      obtain ⟨nm, attempts, written, eq⟩ := s.deliverMsg_fields sub outcome
      rw [eq]
      exact ⟨.none rfl rfl rfl rfl, ledger⟩
    | close t cid => exact ⟨.none rfl rfl rfl rfl, ledger⟩
  | run running ran =>
    exact runTask_effect ledger running ran
  | spawn | addRoute | collect | collectClient | collected | sendLocalSubs | peer =>
    exact ⟨.none rfl rfl rfl rfl, ledger⟩

theorem mem_forward
    (mem : task ∈ s.forward cid tasks) : (s.client cid).typ ≠ .router ∧ task ∈ tasks := by
  unfold forward at mem
  split_ifs at mem with router
  · cases mem
  · exact ⟨router, mem⟩

end Interest

/-- What commands, deliveries and closes leave to do. -/
def Task.Starting : Task → Prop
  | .unsubscribe _ | .broadcastSubscribe _ | .broadcastUnSubscribe _ | .closeConnection _ => True
  | .makeUnsub _ | .broadcastInterestToRoutes _ | .removeClient _ | .remove _ => False

namespace Interest

theorem unsubTasks_starting {sub : Subscription}
    (mem : task ∈ Task.unsubscribe sub :: s.forward cid [.broadcastUnSubscribe sub]) :
    task.Starting := by
  rcases mem_cons.mp mem with rfl | later
  · trivial
  · rw [mem_singleton.mp (mem_forward later).2]
    trivial

theorem Starts.starting
    (starts : s.Starts g a t p) (mem : task ∈ p.2) : task.Starting := by
  cases starts with
  | sub cid subject queue sid permitted =>
    simp only [processSub] at mem
    split_ifs at mem
    · cases mem
    · cases mem
    · split at mem
      · cases mem
      · split at mem
        · cases mem
        · rw [mem_singleton.mp (mem_forward mem).2]
          trivial
  | unsub cid sid max =>
    simp only [processUnsub] at mem
    split at mem
    · cases mem
    · exact unsubTasks_starting mem
  | deliver t sub outcome known =>
    have deferred {s : Interest} {now : Prop} [Decidable now] (mem : task ∈
        if now then Task.unsubscribe sub :: s.forward sub.client [.broadcastUnSubscribe sub]
        else []) : task.Starting := by
      split_ifs at mem
      · exact unsubTasks_starting mem
      · cases mem
    simp only [deliverMsg] at mem
    split at mem
    · exact unsubTasks_starting mem
    · split at mem
      · exact deferred mem
      · split at mem
        · exact deferred mem
        · exact deferred mem
        · rcases mem_cons.mp mem with rfl | later
          · trivial
          · exact deferred later
  | close t cid =>
    rw [mem_singleton.mp mem]
    trivial

/-- What a task leaves to do. -/
inductive Follows (s : Interest) : Task → Task → Prop where
  | subscribe (x : Subscription) :
      Interest.Follows s (.broadcastSubscribe x) (.broadcastInterestToRoutes (subLine x))
  | unSubscribe (x : Subscription) : Interest.Follows s (.broadcastUnSubscribe x) (.makeUnsub x)
  | makeUnsub (x : Subscription) : Interest.Follows s (.makeUnsub x)
      (.broadcastInterestToRoutes (unsubLine x (s.nm x.ptr) (s.max x.ptr)))
  | removeClient (cid : Nat) (isOpen : (s.client cid).nc = true) :
      Interest.Follows s (.closeConnection cid) (.removeClient cid)
  | remove (cid : Nat) (isOpen : (s.client cid).nc = true) (e : Bytes × Subscription)
      (entry : e ∈ (s.client cid).subs) :
      Interest.Follows s (.closeConnection cid) (.remove e.2)
  | broadcast (cid : Nat) (x : Subscription) :
      Interest.Follows s (.closeConnection cid) (.broadcastUnSubscribe x)

theorem runTask_follows {later : Task}
    (ran : s.runTask g task = some p) (mem : later ∈ p.2) : s.Follows task later := by
  cases task with
  | closeConnection cid =>
    cases ran
    simp only [closeConnection] at mem
    split_ifs at mem with closed
    · cases mem
    rw [Bool.not_eq_false] at closed
    rcases mem_cons.mp mem with rfl | later
    · exact .removeClient cid closed
    obtain ⟨⟨sid, y⟩, entry, isTask⟩ := mem_flatMap.mp later
    rcases mem_cons.mp isTask with rfl | forwarded
    · exact .remove cid closed (sid, y) entry
    · rw [mem_singleton.mp (mem_forward forwarded).2]
      exact .broadcast cid y
  | unsubscribe sub | remove sub =>
    cases ran
    cases mem
  | makeUnsub sub =>
    cases ran
    rw [mem_singleton.mp mem]
    exact .makeUnsub sub
  | broadcastSubscribe sub =>
    simp only [runTask] at ran
    split_ifs at ran <;> cases ran
    · cases mem
    · rw [mem_singleton.mp mem]
      exact .subscribe sub
  | broadcastUnSubscribe sub =>
    simp only [runTask] at ran
    split_ifs at ran <;> cases ran
    · cases mem
    · rw [mem_singleton.mp mem]
      exact .unSubscribe sub
  | broadcastInterestToRoutes line | removeClient cid =>
    simp only [runTask] at ran
    split_ifs at ran <;> cases ran <;> cases mem

theorem runTask_closed
    (ran : s.runTask g (.closeConnection cid) = some p) : (p.1.client cid).nc = false := by
  cases ran
  simp only [closeConnection]
  split_ifs with closed
  · exact closed
  · simp only [Function.update_self]

/-- The tasks of a thread after a step: its tasks before, without the one it has done, or those that
follow a lock region. -/
inductive TasksFrom (g : Grow) (s : Interest) (a : InterestAction) (s' : Interest)
    (tasks : List Task) : Prop where
  | old (mem : tasks ∈ s.threads)
  | idle (none' : tasks = [])
  | start (t : Nat) (p : Interest × List Task) (starts : s.Starts g a t p) (eq : tasks = p.2)
  | run (task : Task) (rest : List Task) (p : Interest × List Task)
      (running : task :: rest ∈ s.threads) (ran : s.runTask g task = some p)
      (client : s'.client = p.1.client) (eq : tasks = p.2 ++ rest)

theorem Starts.threads
    (starts : s.Starts g a t p) : p.1.threads = s.threads := by
  cases starts with
  | sub cid subject queue sid permitted =>
    simp only [processSub]
    split_ifs
    · rfl
    · rfl
    · split
      · rfl
      · split <;> rfl
  | unsub cid sid max =>
    obtain ⟨max', limits, eq⟩ := s.processUnsub_fields cid sid max
    rw [eq]
  | deliver t sub outcome known =>
    obtain ⟨nm, attempts, written, eq⟩ := s.deliverMsg_fields sub outcome
    rw [eq]
  | close t cid => rfl

theorem Moved.pending (moved : s.Moved g a s')
    (mem : tasks ∈ s'.threads) : s.TasksFrom g a s' tasks := by
  cases moved with
  | accept typ =>
    rcases mem_append.mp mem with old | new
    · exact .old old
    · exact .idle (mem_singleton.mp new)
  | spawn =>
    rcases mem_append.mp mem with old | new
    · exact .old old
    · exact .idle (mem_singleton.mp new)
  | start idle starts =>
    rcases mem_or_eq_of_mem_set mem with old | rfl
    · exact .old (starts.threads ▸ old)
    · exact .start _ _ starts rfl
  | run running ran =>
    rcases mem_or_eq_of_mem_set mem with old | rfl
    · exact .old (runTask_threads ran ▸ old)
    · exact .run _ _ _ (mem_of_getElem? running) ran rfl rfl
  | addRoute | collect | collectClient | collected | sendLocalSubs | peer => exact .old mem

/-- A task is pending until its thread does it. -/
theorem Moved.pends (moved : s.Moved g a s')
    (pends : s.Pends task) :
    s'.Pends task ∨ ∃ t, a = .run t ∧ (s.threads[t]?).bind head? = some task := by
  obtain ⟨tasks, mem, isTask⟩ := pends
  obtain ⟨i, at'⟩ := getElem?_of_mem mem
  -- a thread that is not the one the step is about keeps its tasks
  have other {p : Interest} (threads : p.threads = s.threads) {t : Nat} (ne : i ≠ t)
      (new : List Task) : (p.setTasks t new).Pends task := by
    refine ⟨tasks, mem_of_getElem? (i := i) ?_, isTask⟩
    show (p.threads.set t new)[i]? = some tasks
    rw [threads, getElem?_set_ne ne.symm]
    exact at'
  cases moved with
  | accept typ => exact Or.inl ⟨tasks, mem_append_left _ mem, isTask⟩
  | spawn => exact Or.inl ⟨tasks, mem_append_left _ mem, isTask⟩
  | start idle starts =>
    refine Or.inl (other starts.threads ?_ _)
    rintro rfl
    rw [idle] at at'
    cases at'
    cases isTask
  | @run t first rest p running ran =>
    by_cases here : i = t
    · subst here
      rw [running] at at'
      cases at'
      rcases mem_cons.mp isTask with rfl | later
      · exact Or.inr ⟨i, rfl, by rw [running]; rfl⟩
      · refine Or.inl ⟨_, mem_set ?_ _, mem_append_right _ later⟩
        rw [runTask_threads ran]
        exact (List.getElem?_eq_some_iff.mp running).1
    · exact Or.inl (other (runTask_threads ran) here _)
  | addRoute | collect | collectClient | collected | sendLocalSubs | peer =>
    exact Or.inl ⟨tasks, mem, isTask⟩

/-- A thread goes on with its next task. -/
theorem Moved.runs (moved : s.Moved g (.run t) s')
    (head : (s.threads[t]?).bind head? = some task) :
    ∃ rest p, s.threads[t]? = some (task :: rest) ∧ s.runTask g task = some p ∧
      s' = p.1.setTasks t (p.2 ++ rest) := by
  cases moved with
  | start idle starts => cases starts
  | run running ran =>
    rw [running] at head
    cases head
    exact ⟨_, _, running, ran, rfl⟩

/-- The tasks behind the one that is done stay, and those it leaves to do come before them. -/
theorem pends_run {later : Task} {rest : List Task} (running : s.threads[t]? = some (task :: rest))
    (ran : s.runTask g task = some p) (mem : later ∈ p.2 ++ rest) :
    (p.1.setTasks t (p.2 ++ rest)).Pends later :=
  pends_setTasks ((congrArg (·[t]?) (runTask_threads ran)).trans running) mem

end Interest

end Hnatsd.Server
