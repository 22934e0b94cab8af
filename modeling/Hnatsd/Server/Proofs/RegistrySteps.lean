import Hnatsd.Server.Registry

/-!
# What the goroutines of a server do to its connections

Most regions leave alone what the registry is about: the kind of a connection, whether it is open,
its options, its route object and the maps. `Registry.Effect` says what the others do. From it, the
course of a connection: at most one goroutine removes it and, until its read loop is started, at most
one goroutine is about to start it.
-/

namespace Hnatsd.Server
open Misc

variable {c : Connection} {bag : Multiset RegistryTask} {task : RegistryTask}

/-- What the registry goes by in a connection. -/
def Connection.core (c : Connection) : ClientKind × Bool × ConnectOpts × Option Nat × Bool :=
  (c.typ, c.nc, c.opts, c.route, c.readLoop = .unstarted)

namespace RegistryTask

/-- The task removes the connection. -/
def removes (cid : Nat) : RegistryTask → Bool
  | .removeClient c => c = cid
  | .unregister c _ _ => c = cid
  | _ => false

/-- The task leads to the start of the connection's read loop. -/
def starts (cid : Nat) : RegistryTask → Bool
  | .register c => c = cid
  | .startReadLoop c => c = cid
  | .handshaken c => c = cid
  | _ => false

/-- The task neither counts nor removes. -/
def Loose : RegistryTask → Prop
  | .countProto | .removeClient _ | .unregister .. => False
  | _ => True

/-- The task is loose and starts no read loop. -/
def Free : RegistryTask → Prop
  | .register _ | .startReadLoop _ | .handshaken _ => False
  | task => task.Loose

attribute [simp] Loose Free Doing.taken

theorem Free.loose (free : task.Free) : task.Loose := by
  cases task <;> first | exact free.elim | exact free

end RegistryTask

/-- The registry goes by the same data in both states. -/
structure Registry.Alike (r r' : Registry) : Prop where
  gcid : r'.gcid = r.gcid
  clients : r'.clients = r.clients
  grTmpClients : r'.grTmpClients = r.grTmpClients
  routes : r'.routes = r.routes
  remotes : r'.remotes = r.remotes
  cproto : r'.cproto = r.cproto
  conn : ∀ cid, (r'.conn cid).core = (r.conn cid).core

/-- What a region does to the registry. -/
inductive Registry.Effect (r : Registry) (d : Doing RegistryOp RegistryTask) (r' : Registry)
    (tasks : List RegistryTask) : Prop where
  | quiet (alike : r.Alike r') (ids : ∀ i, (r'.route i).remoteID = (r.route i).remoteID)
      (takes : ∀ task ∈ d.taken, task.Loose) (leaves : ∀ task ∈ tasks, task.Free)
  | create (c : Connection) (takes : ∀ task ∈ d.taken, task.Free) (nc : c.nc = true)
      (opts : c.opts = {})
      (own : ∀ i, c.route = some i → i = r.gcid + 1 ∧ c.typ = .router)
      (gcid : r'.gcid = r.gcid + 1) (conn : r'.conn = Function.update r.conn (r.gcid + 1) c)
      (route : ∀ i, i ≠ r.gcid + 1 → r'.route i = r.route i) (clients : r'.clients = r.clients)
      (routes : r'.routes = r.routes) (remotes : r'.remotes = r.remotes)
      (cproto : r'.cproto = r.cproto)
      (kept : (r'.grTmpClients = r.grTmpClients ∧ c.readLoop = .unstarted ∧
          (c.typ ≠ .router ∧ tasks = [.register (r.gcid + 1)] ∨
            c.typ = .router ∧ tasks = [.handshaken (r.gcid + 1)])) ∨
        (r'.grTmpClients = r.grTmpClients.insert (r.gcid + 1) ∧ c.typ = .router ∧ tasks = []))
  | connect (cid : Nat) (opts : ConnectOpts) (decoded authorized : Bool)
      (is : d = .start (.connect cid opts decoded authorized)) (c : Connection)
      (eq : r' = r.setConn cid c) (typ : c.typ = (r.conn cid).typ) (nc : c.nc = (r.conn cid).nc)
      (isOpts : c.opts = opts) (route : c.route = (r.conn cid).route)
      (started : (r.conn cid).readLoop ≠ .unstarted) (still : c.readLoop ≠ .unstarted)
      (count : tasks.count .countProto = if decoded ∧ opts.wantsInfo then 1 else 0)
      (leaves : ∀ task ∈ tasks, task = .countProto ∨ task.Free)
  | insert (cid : Nat) (is : d = .run (.register cid))
      (eq : r' = { r with clients := r.clients.insert cid }) (leaves : tasks = [.startReadLoop cid])
  | begins (cid : Nat) (takes : ∃ task ∈ d.taken, task = .startReadLoop cid ∨ task = .handshaken cid)
      (nc : (r.conn cid).nc = true) (tmp : List Nat)
      (eq : r' = { r.setConn cid { r.conn cid with readLoop := .started } with grTmpClients := tmp })
      (kept : d = .run (.startReadLoop cid) ∧ tmp = r.grTmpClients ∨
        d = .run (.handshaken cid) ∧ tmp = r.grTmpClients.insert cid)
      (leaves : tasks = [])
  | count (is : d = .run .countProto) (eq : r' = { r with cproto := r.cproto + 1 })
      (leaves : tasks = [])
  | assign (cid i : Nat) (id : Bytes)
      (is : d = .run (.setRemoteID cid) ∧ id = (r.conn cid).opts.name ∨
        (∃ parses urls, d = .start (.info cid id parses urls)) ∧
          ((r.route i).remoteID = [] ∨ (r.route i).remoteID = id))
      (object : (r.conn cid).route = some i) (alike : r.Alike r')
      (ids : ∀ j, (r'.route j).remoteID = if j = i then id else (r.route j).remoteID)
      (leaves : ∀ task ∈ tasks, task.Free)
  | upgrade (remote cid i : Nat) (is : d = .run (.upgrade remote cid))
      (object : (r.conn cid).route = some i) (routed : (r.conn remote).route ≠ none)
      (eq : r' = r.setConn remote { r.conn remote with route := some i }) (leaves : tasks = [])
  | enlist (cid : Nat) (id : Bytes) (urls : List Bytes) (is : d = .run (.registerRoute cid id urls))
      (absent : r.remotes.lookup id = none)
      (eq : r' = { r with
        grTmpClients := r.grTmpClients.erase cid
        routes := r.routes.insert cid
        remotes := assocSet r.remotes id cid }) (leaves : tasks = [.updateServerINFO urls])
  | close (cid : Nat) (is : d = .run (.closeConnection cid)) (nc : (r.conn cid).nc = true)
      (eq : r' = r.setConn cid { r.conn cid with nc := false }) (leaves : tasks = [.removeClient cid])
  | remove (cid : Nat) (is : d = .run (.removeClient cid)) (eq : r' = r)
      (leaves : tasks = r.removeClient cid)
  | unregister (cid : Nat) (updateProtoInfoCount : Bool) (rID : Option Bytes)
      (is : d = .run (.unregister cid updateProtoInfoCount rID))
      (eq : r' = r.unregister cid updateProtoInfoCount rID) (leaves : tasks = [])

namespace Registry

variable {cfg : RegistryConfig} {r r' : Registry} {tasks : List RegistryTask}

theorem setConn_conn (r : Registry) (cid x : Nat) (c : Connection) :
    (r.setConn cid c).conn x = if x = cid then c else r.conn x :=
  Function.update_apply ..

/-- A relation between the connections before and after one of them is written. -/
theorem setConn_rel {R : Connection → Connection → Prop} (same : ∀ c, R c c) {cid : Nat}
    {c : Connection} (here : R c (r.conn cid)) (x : Nat) :
    R ((r.setConn cid c).conn x) (r.conn x) := by
  rw [setConn_conn]
  split_ifs with is
  · rw [is]
    exact here
  · exact same _

theorem remoteID_setConn {cid : Nat} {c : Connection} (route : c.route = (r.conn cid).route)
    (x : Nat) : (r.setConn cid c).remoteID x = r.remoteID x :=
  congrArg (Option.map fun i => (r.route i).remoteID)
    (@setConn_rel r (fun c c' => c.route = c'.route) (fun _ => rfl) cid c route x)

theorem Alike.refl (r : Registry) : r.Alike r := ⟨rfl, rfl, rfl, rfl, rfl, rfl, fun _ => rfl⟩

/-- The maps and the connections are the same. -/
theorem alike_of_eq (gcid : r'.gcid = r.gcid) (clients : r'.clients = r.clients)
    (grTmpClients : r'.grTmpClients = r.grTmpClients) (routes : r'.routes = r.routes)
    (remotes : r'.remotes = r.remotes) (cproto : r'.cproto = r.cproto) (conn : r'.conn = r.conn) :
    r.Alike r' :=
  ⟨gcid, clients, grTmpClients, routes, remotes, cproto, fun _ => by rw [conn]⟩

theorem alike_setConn {cid : Nat} (core : c.core = (r.conn cid).core) :
    r.Alike (r.setConn cid c) := by
  exact ⟨rfl, rfl, rfl, rfl, rfl, rfl,
    @setConn_rel r (fun c c' => c.core = c'.core) (fun _ => rfl) cid c core⟩

/-- A quiet region that changes one connection or nothing. -/
theorem Effect.private' {d : Doing RegistryOp RegistryTask} {cid : Nat}
    (core : c.core = (r.conn cid).core) (takes : ∀ task ∈ d.taken, task.Loose)
    (leaves : ∀ task ∈ tasks, task.Free) : r.Effect d (r.setConn cid c) tasks :=
  .quiet (alike_setConn core) (fun _ => rfl) takes leaves

theorem Effect.same {d : Doing RegistryOp RegistryTask} (takes : ∀ task ∈ d.taken, task.Loose)
    (leaves : ∀ task ∈ tasks, task.Free) : r.Effect d r tasks :=
  .quiet (.refl r) (fun _ => rfl) takes leaves

theorem mem_taken {d : Doing RegistryOp RegistryTask} (is : d = .run task)
    (others : Multiset RegistryTask) : task ∈ (d.taken + others : Multiset RegistryTask) := by
  subst is
  exact Multiset.mem_add.mpr (Or.inl (Multiset.mem_singleton_self _))

theorem Effect.of_eq {d : Doing RegistryOp RegistryTask} {p : Registry × List RegistryTask}
    (effect : r.Effect d p.1 p.2) (eq : some p = some (r', tasks)) : r.Effect d r' tasks := by
  cases eq
  exact effect

theorem setRoute_some {cid i : Nat} (object : (r.conn cid).route = some i)
    (f : RouteObject → RouteObject) :
    r.setRoute cid f = { r with route := Function.update r.route i (f (r.route i)) } := by
  rw [setRoute, object]

theorem createRoute_effect (didSolicit tls : Bool) :
    r.Effect (.start (.createRoute didSolicit tls)) (r.createRoute didSolicit tls).1
      (r.createRoute didSolicit tls).2 := by
  have other (i : Nat) (ne : i ≠ r.gcid + 1) (o : RouteObject) :
      Function.update r.route (r.gcid + 1) o i = r.route i := Function.update_of_ne ne ..
  have own (i : Nat) (is : some (r.gcid + 1) = some i) :
      i = r.gcid + 1 ∧ ClientKind.router = .router := ⟨(Option.some.inj is).symm, rfl⟩
  cases tls with
  | true =>
    exact .create { typ := .router, nc := true, route := some (r.gcid + 1) } nofun rfl rfl own rfl rfl
      (fun i ne => other i ne _) rfl rfl rfl rfl (Or.inl ⟨rfl, rfl, Or.inr ⟨rfl, rfl⟩⟩)
  | false =>
    exact .create { typ := .router, nc := true, route := some (r.gcid + 1), readLoop := .started }
      nofun rfl rfl own rfl rfl (fun i ne => other i ne _) rfl rfl rfl rfl (Or.inr ⟨rfl, rfl, rfl⟩)

theorem connected_tasks (c : Connection) (cid : Nat) (authorized : Bool) :
    (connected c cid authorized).2.count .countProto = (if c.opts.wantsInfo then 1 else 0) ∧
      ∀ task ∈ (connected c cid authorized).2, task = .countProto ∨ task.Free := by
  unfold connected
  by_cases counts : c.opts.wantsInfo
  all_goals
    simp only [counts, if_true, if_false]
    split_ifs <;> simp

theorem processConnect_effect {t cid : Nat} (opts : ConnectOpts) (decoded authorized : Bool)
    (reading : (r.conn cid).readLoop = .reading t) :
    r.Effect (.start (.connect cid opts decoded authorized))
      (r.processConnect cid opts decoded authorized).1
      (r.processConnect cid opts decoded authorized).2 := by
  have started : (r.conn cid).readLoop ≠ .unstarted := by simp [reading]
  cases decoded with
  | false =>
    exact .connect cid opts false authorized rfl _ rfl rfl rfl rfl rfl started nofun
      (by simp [processConnect]) (by simp [processConnect])
  | true =>
    have tasksOf := connected_tasks { r.conn cid with opts := opts, connectReceived := true } cid
      authorized
    simp only [processConnect, if_true]
    rcases stops : connected { r.conn cid with opts := opts, connectReceived := true } cid
      authorized with ⟨_ | _, tasks⟩
    all_goals
      rw [stops] at tasksOf
      refine .connect cid opts true authorized rfl _ rfl rfl rfl rfl rfl started ?_ ?_ tasksOf.2
    · exact started
    · simpa using tasksOf.1
    · exact nofun
    · simpa using tasksOf.1

theorem processPing_effect (cid : Nat) :
    r.Effect (.start (.ping cid)) (r.processPing cid).1 (r.processPing cid).2 := by
  simp only [processPing]
  split_ifs
  · exact .same nofun nofun
  · exact .private' rfl nofun nofun
  · exact .private' rfl nofun (by simp)
  · exact .private' rfl nofun nofun

theorem processRouteInfo_effect (cid : Nat) (id : Bytes) (parses : Bool) (urls : List Bytes) :
    r.Effect (.start (.info cid id parses urls)) (r.processRouteInfo cfg cid id parses urls).1
      (r.processRouteInfo cfg cid id parses urls).2 := by
  simp only [processRouteInfo]
  rcases object : (r.conn cid).route with _ | i
  · exact .same nofun nofun
  · simp only []
    have written (r' : Registry) (about : (r.route i).remoteID = [] ∨ (r.route i).remoteID = id)
        (alike : r.Alike r')
        (route : ∃ o : RouteObject, o.remoteID = id ∧ r'.route = Function.update r.route i o)
        (tasks : List RegistryTask) (leaves : ∀ task ∈ tasks, task.Free) :
        r.Effect (.start (.info cid id parses urls)) r' tasks := by
      obtain ⟨o, isId, route⟩ := route
      refine .assign cid i id (Or.inr ⟨⟨parses, urls, rfl⟩, about⟩) object alike (fun j => ?_) leaves
      rw [route, Function.update_apply]
      split_ifs
      · exact isId
      · rfl
    have own (about : ¬ ((r.route i).remoteID ≠ [] ∧ (r.route i).remoteID ≠ id)) :
        (r.route i).remoteID = [] ∨ (r.route i).remoteID = id := by
      rwa [not_and_or, not_not, not_not] at about
    have alike (route : Nat → RouteObject) : r.Alike { r with route := route } :=
      alike_of_eq rfl rfl rfl rfl rfl rfl rfl
    rw [setRoute_some object]
    split_ifs with closed about self unparsed
    · exact .same nofun nofun
    · exact .same nofun nofun
    · exact written _ (own about) (alike _) ⟨_, rfl, rfl⟩ _ (by simp)
    · exact written _ (own about) (alike _) ⟨_, rfl, rfl⟩ _ (by simp)
    · have again (o : RouteObject) (f : RouteObject → RouteObject) :
          setRoute { r with route := Function.update r.route i o } cid f =
            { r with route := Function.update r.route i (f o) } := by
        rw [@setRoute_some { r with route := Function.update r.route i o } cid i object]
        simp
      rw [again]
      exact written _ (own about) (alike _) ⟨_, rfl, rfl⟩ _ (by simp)

theorem start_effect {t : Nat} {op : RegistryOp} (started : r.start cfg t op = some (r', tasks)) :
    r.Effect (.start op) r' tasks := by
  cases op with
  | createClient internal =>
    cases started
    exact .same nofun (by simp)
  | createRoute didSolicit tls =>
    exact (createRoute_effect didSolicit tls).of_eq started
  | readLoop cid =>
    simp only [start] at started
    split_ifs at started with loop
    cases started
    refine .private' ?_ nofun nofun
    simp only [Connection.core, loop]
    split <;> rfl
  | connect cid opts decoded authorized =>
    simp only [start] at started
    split_ifs at started with reading
    exact (processConnect_effect opts decoded authorized reading).of_eq started
  | ping cid =>
    simp only [start] at started
    split_ifs at started
    exact (processPing_effect cid).of_eq started
  | info cid id parses urls =>
    simp only [start] at started
    split_ifs at started
    exact (processRouteInfo_effect cid id parses urls).of_eq started
  | close cid =>
    cases started
    exact .same nofun (by simp)

theorem greet_effect (internal : Bool) (info : List Bytes) :
    r.Effect (.run (.greet internal info)) (r.greet internal info).1 (r.greet internal info).2 := by
  refine .create { typ := if internal then .internalCli else .client, nc := true, out := [.info info] }
    (by simp) rfl rfl nofun rfl rfl
    (fun _ _ => rfl) rfl rfl rfl rfl (Or.inl ⟨rfl, rfl, Or.inl ⟨?_, rfl⟩⟩)
  cases internal <;> exact nofun

theorem sendInfo_alike (cid : Nat) (info : List Bytes) :
    r.Alike (r.sendInfo cid info) ∧ (r.sendInfo cid info).route = r.route := by
  simp only [sendInfo]
  split_ifs
  · exact ⟨alike_setConn rfl, rfl⟩
  · exact ⟨.refl r, rfl⟩

theorem asyncInfo_alike (cid : Nat) (info : List Bytes) :
    r.Alike (r.asyncInfo cid info) ∧ (r.asyncInfo cid info).route = r.route := by
  simp only [asyncInfo]
  split_ifs
  · exact ⟨alike_setConn rfl, rfl⟩
  · exact sendInfo_alike cid info
  · exact ⟨alike_setConn rfl, rfl⟩
  · exact ⟨.refl r, rfl⟩

theorem run_effect {order : List Nat}
    (ran : r.run cfg order task = some (r', tasks)) : r.Effect (.run task) r' tasks := by
  cases task with
  | greet internal info =>
    cases ran
    exact greet_effect internal info
  | register cid =>
    simp only [run, register] at ran
    split_ifs at ran <;> cases ran
    · exact .same (by simp) (by simp)
    · exact .insert cid rfl rfl rfl
  | startReadLoop cid =>
    simp only [run, startReadLoop] at ran
    split_ifs at ran with nc <;> cases ran
    · exact .begins cid ⟨_, List.mem_singleton_self _, Or.inl rfl⟩ nc _ rfl (Or.inl ⟨rfl, rfl⟩) rfl
    · exact .same (by simp) nofun
  | handshaken cid =>
    simp only [run, handshaken] at ran
    split_ifs at ran with nc <;> cases ran
    · exact .begins cid ⟨_, List.mem_singleton_self _, Or.inr rfl⟩ nc _ rfl (Or.inr ⟨rfl, rfl⟩) rfl
    · exact .same (by simp) nofun
  | countProto =>
    cases ran
    exact .count rfl rfl rfl
  | setRemoteID cid =>
    simp only [run, Option.some.injEq, Prod.mk.injEq] at ran
    obtain ⟨rfl, rfl⟩ := ran
    rcases object : (r.conn cid).route with _ | i
    · rw [setRoute, object]
      exact .same (by simp) nofun
    · rw [setRoute_some object]
      refine .assign cid i _ (Or.inl ⟨rfl, rfl⟩) object
        (alike_of_eq rfl rfl rfl rfl rfl rfl rfl) (fun j => ?_) nofun
      simp only [Function.update_apply]
      split_ifs <;> rfl
  | fetchInfo cid =>
    cases ran
    exact .same (by simp) (by simp)
  | sendInfo cid info =>
    cases ran
    obtain ⟨alike, route⟩ := sendInfo_alike cid info
    exact .quiet alike (fun i => by rw [route]) (by simp) nofun
  | updateServerINFO urls =>
    simp only [run, updateServerINFO] at ran
    split_ifs at ran <;> cases ran
    · exact .same (by simp) nofun
    · exact .same (by simp) nofun
    · exact .quiet (alike_of_eq rfl rfl rfl rfl rfl rfl rfl) (fun _ => rfl) (by simp) (by simp)
  | sendAsyncInfoToClients =>
    simp only [run] at ran
    split_ifs at ran <;> cases ran
    · exact .same (by simp) nofun
    · exact .same (by simp) (by simp)
  | asyncInfo cid info =>
    cases ran
    obtain ⟨alike, route⟩ := asyncInfo_alike cid info
    exact .quiet alike (fun i => by rw [route]) (by simp) nofun
  | addRoute cid urls =>
    cases ran
    exact .same (by simp) (by simp)
  | registerRoute cid id urls =>
    simp only [run, registerRoute] at ran
    split at ran
    · rename_i absent
      cases ran
      exact .enlist cid id urls rfl absent rfl rfl
    · cases ran
      exact .same (by simp) (by simp)
  | upgrade remote cid =>
    simp only [run, upgrade] at ran
    split at ran
    · rename_i i j object routed
      split_ifs at ran <;> cases ran
      · exact .upgrade remote cid i rfl object (by simp [routed]) rfl rfl
      · exact .same (by simp) nofun
    · cases ran
      exact .same (by simp) nofun
  | closeConnection cid =>
    simp only [run, closeConnection] at ran
    split_ifs at ran with nc <;> cases ran
    · exact .close cid rfl nc rfl rfl
    · exact .same (by simp) nofun
  | removeClient cid =>
    cases ran
    exact .remove cid rfl rfl rfl
  | unregister cid updateProtoInfoCount rID =>
    cases ran
    exact .unregister cid updateProtoInfoCount rID rfl rfl rfl

/-- Every region has one of the effects. -/
theorem region_effect {d : Doing RegistryOp RegistryTask}
    (region : (program cfg).Region r d r' tasks) : r.Effect d r' tasks := by
  cases region with
  | start started => exact start_effect started
  | run ran => exact run_effect ran

end Registry

namespace RegistryTask

variable {tasks : List RegistryTask} {cid : Nat}

theorem Loose.not_removes (loose : task.Loose) : task.removes cid = false := by
  cases task <;> first | rfl | exact loose.elim

theorem Free.not_starts (free : task.Free) : task.starts cid = false := by
  cases task <;> first | rfl | exact free.elim

theorem countP_removes (loose : ∀ task ∈ tasks, task.Loose) : tasks.countP (removes cid) = 0 :=
  List.countP_eq_zero.mpr fun task mem => by simp [(loose task mem).not_removes]

theorem countP_starts (free : ∀ task ∈ tasks, task.Free) : tasks.countP (starts cid) = 0 :=
  List.countP_eq_zero.mpr fun task mem => by simp [(free task mem).not_starts]

end RegistryTask

/-- One if the connection exists. -/
def Registry.issued (r : Registry) (cid : Nat) : Nat := if cid ≤ r.gcid then 1 else 0

def Connection.hasStarted (c : Connection) : Bool := c.readLoop ≠ .unstarted

/-- The course of the connections: each is removed by at most one goroutine and has its read loop
started by at most one, and those are connections that exist. -/
structure Registry.Life (r : Registry) (bag : Multiset RegistryTask) : Prop where
  removal : ∀ cid, bag.countP (fun task => task.removes cid) + (r.conn cid).nc.toNat ≤ r.issued cid
  starting : ∀ cid, bag.countP (fun task => task.starts cid) + (r.conn cid).hasStarted.toNat ≤
    r.issued cid
  unstarted : ∀ cid, (r.conn cid).hasStarted = false → (r.conn cid).opts = {}
  listed : ∀ cid ∈ r.clients, cid ≤ r.gcid

namespace Registry

section Life

variable {cfg : RegistryConfig} {r r' : Registry} {d : Doing RegistryOp RegistryTask}
  {tasks : List RegistryTask} {others : Multiset RegistryTask}

/-- The removals and starts in the tasks a region takes and leaves. -/
theorem Life.of_counts (life : r.Life (d.taken + others))
    (removal : ∀ cid, tasks.countP (RegistryTask.removes cid) + (r'.conn cid).nc.toNat +
        r.issued cid ≤
      d.taken.countP (RegistryTask.removes cid) + (r.conn cid).nc.toNat + r'.issued cid)
    (starting : ∀ cid, tasks.countP (RegistryTask.starts cid) + (r'.conn cid).hasStarted.toNat +
        r.issued cid ≤
      d.taken.countP (RegistryTask.starts cid) + (r.conn cid).hasStarted.toNat + r'.issued cid)
    (unstarted : ∀ cid, (r'.conn cid).hasStarted = false → (r'.conn cid).opts = {})
    (listed : ∀ cid ∈ r'.clients, cid ≤ r'.gcid) : r'.Life (tasks + others) := by
  refine ⟨fun cid => ?_, fun cid => ?_, unstarted, listed⟩
  · have before := life.removal cid
    have change := removal cid
    rw [countP_coe_add] at before ⊢
    omega
  · have before := life.starting cid
    have change := starting cid
    rw [countP_coe_add] at before ⊢
    omega

section

variable (alike : r.Alike r')
include alike

theorem Alike.issued (cid : Nat) : r'.issued cid = r.issued cid := by
  rw [Registry.issued, Registry.issued, alike.gcid]

theorem Alike.nc (cid : Nat) : (r'.conn cid).nc = (r.conn cid).nc :=
  congrArg (fun core => core.2.1) (alike.conn cid)

theorem Alike.typ (cid : Nat) : (r'.conn cid).typ = (r.conn cid).typ :=
  congrArg (fun core => core.1) (alike.conn cid)

theorem Alike.opts (cid : Nat) : (r'.conn cid).opts = (r.conn cid).opts :=
  congrArg (fun core => core.2.2.1) (alike.conn cid)

theorem Alike.object (cid : Nat) : (r'.conn cid).route = (r.conn cid).route :=
  congrArg (fun core => core.2.2.2.1) (alike.conn cid)

theorem Alike.hasStarted (cid : Nat) :
    (r'.conn cid).hasStarted = (r.conn cid).hasStarted := by
  have same := congrArg (fun core => core.2.2.2.2) (alike.conn cid)
  simpa [Connection.core, Connection.hasStarted] using same

end

theorem Life.alike (life : r.Life (d.taken + others)) (alike : r.Alike r')
    (leaves : ∀ task ∈ tasks, task.Free) : r'.Life (tasks + others) := by
  refine life.of_counts (fun cid => ?_) (fun cid => ?_) (fun cid unstarted => ?_) ?_
  · rw [RegistryTask.countP_removes fun task mem => (leaves task mem).loose, alike.nc, alike.issued]
    omega
  · rw [RegistryTask.countP_starts leaves, alike.hasStarted, alike.issued]
    omega
  · rw [alike.hasStarted] at unstarted
    rw [alike.opts]
    exact life.unstarted cid unstarted
  · rw [alike.clients, alike.gcid]
    exact life.listed

theorem unregister_fields (r : Registry) (cid : Nat) (upd : Bool) (rID : Option Bytes) :
    (r.unregister cid upd rID).gcid = r.gcid ∧ (r.unregister cid upd rID).conn = r.conn ∧
      (r.unregister cid upd rID).route = r.route ∧
      (r.unregister cid upd rID).grTmpClients = r.grTmpClients ∧
      (r.unregister cid upd rID).clients ⊆ r.clients := by
  simp only [Registry.unregister]
  split
  · exact ⟨rfl, rfl, rfl, rfl, List.erase_subset⟩
  · split
    · exact ⟨rfl, rfl, rfl, rfl, List.Subset.refl _⟩
    · split_ifs <;> exact ⟨rfl, rfl, rfl, rfl, List.Subset.refl _⟩
  · exact ⟨rfl, rfl, rfl, rfl, List.Subset.refl _⟩

/-- Only clients are taken out of `s.clients`. -/
theorem unregister_of_ne_client {cid : Nat} (typ : (r.conn cid).typ ≠ .client) (upd : Bool)
    (rID : Option Bytes) : (r.unregister cid upd rID).clients = r.clients ∧
      (r.unregister cid upd rID).cproto = r.cproto := by
  simp only [Registry.unregister]
  split
  · contradiction
  · split
    · exact ⟨rfl, rfl⟩
    · split_ifs <;> exact ⟨rfl, rfl⟩
  · exact ⟨rfl, rfl⟩

namespace Life

/-- A region that writes to one connection. -/
theorem write (life : r.Life (d.taken + others)) {cid : Nat}
    (conn : r'.conn = Function.update r.conn cid c) (gcid : r'.gcid = r.gcid)
    (clients : r'.clients = r.clients)
    (removes : ∀ x, tasks.countP (RegistryTask.removes x) + (if x = cid then c.nc.toNat else 0) ≤
      d.taken.countP (RegistryTask.removes x) + if x = cid then (r.conn cid).nc.toNat else 0)
    (starts : ∀ x, tasks.countP (RegistryTask.starts x) +
        (if x = cid then c.hasStarted.toNat else 0) ≤
      d.taken.countP (RegistryTask.starts x) + if x = cid then (r.conn cid).hasStarted.toNat else 0)
    (opts : c.hasStarted = false → c.opts = {}) : r'.Life (tasks + others) := by
  refine life.of_counts (fun x => ?_) (fun x => ?_) (fun x unstarted => ?_) ?_
  · have bound := removes x
    rw [conn, Function.update_apply, Registry.issued, Registry.issued, gcid]
    split_ifs at bound ⊢ with here
    all_goals first | subst here; omega | omega
  · have bound := starts x
    rw [conn, Function.update_apply, Registry.issued, Registry.issued, gcid]
    split_ifs at bound ⊢ with here
    all_goals first | subst here; omega | omega
  · rw [conn, Function.update_apply] at unstarted ⊢
    split_ifs at unstarted ⊢
    · exact opts unstarted
    · exact life.unstarted x unstarted
  · rw [clients, gcid]
    exact life.listed

theorem create (life : r.Life (d.taken + others)) (opts : c.opts = {})
    (gcid : r'.gcid = r.gcid + 1) (conn : r'.conn = Function.update r.conn (r.gcid + 1) c)
    (clients : r'.clients = r.clients)
    (removes : ∀ cid, tasks.countP (RegistryTask.removes cid) = 0)
    (starts : ∀ cid, tasks.countP (RegistryTask.starts cid) + c.hasStarted.toNat ≤
      if cid = r.gcid + 1 then 1 else c.hasStarted.toNat) : r'.Life (tasks + others) := by
  refine life.of_counts (fun cid => ?_) (fun cid => ?_) (fun cid unstarted => ?_) fun cid mem => ?_
  · rw [removes cid, conn, Function.update_apply, Registry.issued, Registry.issued, gcid]
    have bool := c.nc.toNat_le
    split_ifs <;> omega
  · have bound := starts cid
    rw [conn, Function.update_apply, Registry.issued, Registry.issued, gcid]
    split_ifs at bound ⊢ <;> omega
  · rw [conn, Function.update_apply] at unstarted ⊢
    split_ifs at unstarted ⊢
    · exact opts
    · exact life.unstarted cid unstarted
  · rw [clients] at mem
    have := life.listed cid mem
    omega

/-- What starts a read loop is about a connection that exists and has sent nothing yet. -/
theorem starts (life : r.Life bag) (mem : task ∈ bag) {cid : Nat}
    (starts : task.starts cid = true) : cid ≤ r.gcid ∧ (r.conn cid).hasStarted = false := by
  have pos : 0 < bag.countP (fun task => task.starts cid) := Multiset.countP_pos.mpr ⟨task, mem, starts⟩
  have bound := life.starting cid
  rw [issued] at bound
  split_ifs at bound with exists'
  · refine ⟨exists', ?_⟩
    by_contra started
    rw [Bool.not_eq_false] at started
    rw [started, Bool.toNat_true] at bound
    omega
  · omega

/-- What is being removed is a connection that exists and is closed. -/
theorem removes (life : r.Life bag) (mem : task ∈ bag) {cid : Nat}
    (removes : task.removes cid = true) : cid ≤ r.gcid ∧ (r.conn cid).nc = false := by
  have pos : 0 < bag.countP (fun task => task.removes cid) :=
    Multiset.countP_pos.mpr ⟨task, mem, removes⟩
  have bound := life.removal cid
  rw [issued] at bound
  split_ifs at bound with exists'
  · refine ⟨exists', ?_⟩
    by_contra nc
    rw [Bool.not_eq_false] at nc
    rw [nc, Bool.toNat_true] at bound
    omega
  · omega

theorem not_removed (life : r.Life bag) {cid : Nat} (nc : (r.conn cid).nc = true)
    (mem : task ∈ bag) : task.removes cid = false := by
  by_contra removes
  rw [(life.removes mem (Bool.eq_true_of_not_eq_false removes)).2] at nc
  cases nc

theorem not_removed_new (life : r.Life bag) {cid : Nat}
    (new : r.gcid < cid) (mem : task ∈ bag) : task.removes cid = false := by
  by_contra removes
  exact Nat.not_le.mpr new (life.removes mem (Bool.eq_true_of_not_eq_false removes)).1

/-- What is being removed is closed, and nobody else removes it. -/
theorem removed (life : r.Life (d.taken + others))
    (takes : task ∈ d.taken) {cid : Nat} (removes : task.removes cid = true) :
    (r.conn cid).nc = false ∧ ∀ other ∈ others, other.removes cid = false := by
  have closed := (life.removes (Multiset.mem_add.mpr (Or.inl takes)) removes).2
  refine ⟨closed, fun other mem => ?_⟩
  have bound := life.removal cid
  have here : 0 < d.taken.countP (RegistryTask.removes cid) :=
    List.countP_pos_iff.mpr ⟨task, takes, removes⟩
  have one : r.issued cid ≤ 1 := by
    rw [issued]
    split_ifs <;> omega
  rw [countP_coe_add] at bound
  by_contra also
  have pos : 0 < others.countP (fun task => task.removes cid) :=
    Multiset.countP_pos.mpr ⟨other, mem, by simpa using also⟩
  omega

theorem region (life : r.Life (d.taken + others)) (effect : r.Effect d r' tasks) :
    r'.Life (tasks + others) := by
  cases effect with
  | quiet alike ids takes leaves => exact life.alike alike leaves
  | create c takes nc opts own gcid conn route clients routes remotes cproto kept =>
    refine life.create opts gcid conn clients (fun cid => ?_) fun cid => ?_
    · rcases kept with ⟨-, -, ⟨-, rfl⟩ | ⟨-, rfl⟩⟩ | ⟨-, -, rfl⟩ <;> rfl
    · rcases kept with ⟨-, unstarted, ⟨-, rfl⟩ | ⟨-, rfl⟩⟩ | ⟨-, -, rfl⟩
      · simp only [Connection.hasStarted, unstarted, RegistryTask.starts, List.countP_singleton]
        grind
      · simp only [Connection.hasStarted, unstarted, RegistryTask.starts, List.countP_singleton]
        grind
      · have bool := c.hasStarted.toNat_le
        simp only [List.countP_nil]
        split_ifs <;> omega
  | connect cid opts decoded authorized is c eq typ nc isOpts route started still count leaves =>
    subst is eq
    have loose (task : RegistryTask) (mem : task ∈ tasks) (x : Nat) :
        task.removes x = false ∧ task.starts x = false := by
      rcases leaves task mem with rfl | free
      · exact ⟨rfl, rfl⟩
      · exact ⟨free.loose.not_removes, free.not_starts⟩
    refine life.write rfl rfl rfl (fun x => ?_) (fun x => ?_) fun unstarted => ?_
    · rw [List.countP_eq_zero.mpr fun task mem => by simp [(loose task mem x).1], nc]
      exact Nat.le_refl _
    · rw [List.countP_eq_zero.mpr fun task mem => by simp [(loose task mem x).2]]
      simp [Connection.hasStarted, started, still, Doing.taken]
    · simp [Connection.hasStarted, still] at unstarted
  | insert cid is eq leaves =>
    subst is eq leaves
    refine life.of_counts (fun x => ?_) (fun x => ?_) life.unstarted fun x mem => ?_
    · exact Nat.le_refl _
    · exact Nat.le_refl _
    · rcases List.mem_insert_iff.mp mem with rfl | old
      · exact (life.starts (mem_taken rfl others) (decide_eq_true rfl)).1
      · exact life.listed x old
  | begins cid takes nc tmp eq kept leaves =>
    subst eq leaves
    refine life.write rfl rfl rfl (fun x => Nat.add_le_add_right (Nat.zero_le _) _)
      (fun x => ?_) nofun
    rcases kept with ⟨rfl, -⟩ | ⟨rfl, -⟩
    all_goals
      simp only [List.countP_nil, Doing.taken, List.countP_singleton, RegistryTask.starts,
        decide_eq_true_eq, eq_comm (a := cid)]
      split_ifs
      · simp [Connection.hasStarted]
      · simp
  | count is eq leaves =>
    subst is eq leaves
    exact life.of_counts (fun _ => Nat.le_refl _) (fun _ => Nat.le_refl _) life.unstarted life.listed
  | assign cid i id is object alike ids leaves => exact life.alike alike leaves
  | upgrade remote cid i is object routed eq leaves =>
    subst is eq leaves
    exact life.write rfl rfl rfl (fun _ => Nat.le_refl _) (fun _ => Nat.le_refl _)
      (life.unstarted remote)
  | enlist cid id urls is absent eq leaves =>
    subst is eq leaves
    exact life.of_counts (fun _ => Nat.le_refl _) (fun _ => Nat.le_refl _) life.unstarted life.listed
  | close cid is nc eq leaves =>
    subst is eq leaves
    refine life.write rfl rfl rfl (fun x => ?_) (fun _ => Nat.le_refl _) (life.unstarted cid)
    simp [Doing.taken, List.countP_singleton, RegistryTask.removes, nc, eq_comm (a := cid)]
  | remove cid is eq leaves =>
    subst is eq leaves
    exact life.of_counts (fun _ => Nat.le_refl _) (fun _ => Nat.le_refl _) life.unstarted life.listed
  | unregister cid updateProtoInfoCount rID is eq leaves =>
    subst is eq leaves
    obtain ⟨gcid, conn, -, -, clients⟩ := unregister_fields r cid updateProtoInfoCount rID
    refine life.of_counts (fun x => ?_) (fun x => ?_) ?_ fun x mem => ?_
    · rw [conn, Registry.issued, Registry.issued, gcid]
      simp
    · rw [conn, Registry.issued, Registry.issued, gcid]
      simp
    · rw [conn]
      exact life.unstarted
    · rw [gcid]
      exact life.listed x (clients mem)

theorem initial (urls : List Bytes) :
    (RegistryState.initial urls).shared.Life (RegistryState.initial urls).bag :=
  ⟨fun _ => Nat.zero_le _, fun _ => Nat.zero_le _, fun _ _ => rfl, nofun⟩

end Life

/-- An invariant that every guarded region keeps, next to the course of the connections. -/
theorem invariant_of_effects {Inv : Registry → Multiset RegistryTask → Prop}
    {Guard : Registry → Multiset RegistryTask → Doing RegistryOp RegistryTask → Prop}
    (keeps : ∀ {r r' : Registry} {d : Doing RegistryOp RegistryTask} {tasks : List RegistryTask}
      {others : Multiset RegistryTask}, r.Life (d.taken + others) → Inv r (d.taken + others) →
      Guard r (d.taken + others) d → r.Effect d r' tasks → Inv r' (tasks + others))
    {urls : List Bytes} (init : Inv (RegistryState.initial urls).shared 0)
    {as : List RegistryAction} {s : RegistryState}
    (along : Along (RegistryState.step cfg) (Threaded.Guarded Guard) (.initial urls) as)
    (ran : runFrom (RegistryState.step cfg) (.initial urls) as = some s) :
    Inv s.shared s.bag := by
  have both : s.shared.Life s.bag ∧ Inv s.shared s.bag := by
    refine @Threaded.invariant_of_regions _ _ _ _ _ (fun r bag => r.Life bag ∧ Inv r bag)
      _ _ _ _ (fun r others d r' tasks guard region inv => ?_) ⟨.initial urls, init⟩ along ran
    have effect := region_effect region
    exact ⟨inv.1.region effect, keeps inv.1 inv.2 guard effect⟩
  exact both.2

end Life

end Registry

end Hnatsd.Server
