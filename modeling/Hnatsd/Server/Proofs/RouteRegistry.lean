import Hnatsd.Server.Proofs.RegistrySteps

/-!
# The registered routes

`s.routes` and `s.remotes` list the same open connections, each under the ID in its route object, as
long as `addRoute` registers only open connections under the ID they still have, and nothing gives a
registered connection another ID.
-/

namespace Hnatsd.Server
open Misc List

variable {upd : Bool} {cid : Nat}

/-- A registered connection keeps its ID, and only an open one is registered, under its own ID. -/
def KeepsIDs (r : Registry) (_ : Multiset RegistryTask) : Doing RegistryOp RegistryTask → Prop
  | .run (.registerRoute cid id _) =>
      r.remotes.lookup id = none → (r.conn cid).nc = true ∧ r.remoteID cid = some id
  | .run (.setRemoteID cid) =>
      ∀ c ∈ r.routes, (r.conn c).route = (r.conn cid).route →
        r.remoteID c = some (r.conn cid).opts.name
  | .start (.info cid id _ _) =>
      ∀ c ∈ r.routes, (r.conn c).route = (r.conn cid).route → r.remoteID c = some [] → id = []
  | .run (.upgrade remote cid) => remote ∈ r.routes → r.remoteID cid = r.remoteID remote
  | _ => True

instance (r : Registry) (bag : Multiset RegistryTask) (d : Doing RegistryOp RegistryTask) :
    Decidable (KeepsIDs r bag d) := by
  unfold KeepsIDs
  induction d using Doing.casesOn with
  | start op => induction op using RegistryOp.casesOn <;> infer_instance
  | run task => induction task using RegistryTask.casesOn <;> infer_instance

/-- The two maps list the same connections, each under its ID, and those that are closed are being
removed under it. -/
structure Registry.RoutesAgree (r : Registry) (bag : Multiset RegistryTask) : Prop where
  keys : UniqueKeys r.remotes
  nodup : r.routes.Nodup
  agree : ∀ cid id, (id, cid) ∈ r.remotes ↔ cid ∈ r.routes ∧ r.remoteID cid = some id
  routed : ∀ cid ∈ r.routes, cid ≤ r.gcid ∧ (r.conn cid).route ≠ none
  objects : ∀ cid i, (r.conn cid).route = some i → i ≤ r.gcid ∧ (r.conn cid).typ = .router
  live : ∀ cid ∈ r.routes, (r.conn cid).nc = true ∨ ∃ task ∈ bag, task.removes cid = true
  pending : ∀ cid upd rID, .unregister cid upd rID ∈ bag → cid ∈ r.routes → rID = r.remoteID cid

namespace Registry

variable {cfg : RegistryConfig} {r r' : Registry} {d : Doing RegistryOp RegistryTask}
  {tasks : List RegistryTask} {others : Multiset RegistryTask}

/-- A region that registers and removes nothing and leaves the IDs of registered connections. -/
theorem RoutesAgree.carry (agrees : r.RoutesAgree (d.taken + others)) (gcid : r.gcid ≤ r'.gcid)
    (routes : r'.routes = r.routes) (remotes : r'.remotes = r.remotes)
    (ids : ∀ cid ∈ r.routes, r'.remoteID cid = r.remoteID cid)
    (routed : ∀ cid ∈ r.routes, (r'.conn cid).route ≠ none)
    (objects : ∀ cid i, (r'.conn cid).route = some i → i ≤ r'.gcid ∧ (r'.conn cid).typ = .router)
    (live : ∀ cid ∈ r.routes, (r.conn cid).nc = true ∨ (∃ task ∈ d.taken, task.removes cid = true) →
      (r'.conn cid).nc = true ∨ ∃ task ∈ tasks, task.removes cid = true)
    (pending : ∀ cid upd rID, .unregister cid upd rID ∈ tasks → rID = r'.remoteID cid) :
    r'.RoutesAgree (tasks + others) := by
  refine ⟨?_, ?_, fun cid id => ?_, fun cid mem => ?_, objects, fun cid mem => ?_,
    fun cid upd rID mem inRoutes => ?_⟩
  · rw [remotes]
    exact agrees.keys
  · rw [routes]
    exact agrees.nodup
  · rw [remotes, routes, agrees.agree]
    exact and_congr_right fun mem => by rw [ids cid mem]
  · rw [routes] at mem
    exact ⟨(agrees.routed cid mem).1.trans gcid, routed cid mem⟩
  · rw [routes] at mem
    have added (now : (r'.conn cid).nc = true ∨ ∃ task ∈ tasks, task.removes cid = true) :
        (r'.conn cid).nc = true ∨
          ∃ task ∈ (tasks + others : Multiset RegistryTask), task.removes cid = true :=
      now.imp id fun ⟨task, new, removes⟩ => ⟨task, Multiset.mem_add.mpr (Or.inl new), removes⟩
    rcases agrees.live cid mem with nc | ⟨task, pends, removes⟩
    · exact added (live cid mem (Or.inl nc))
    · rcases Multiset.mem_add.mp pends with taken | other
      · exact added (live cid mem (Or.inr ⟨task, taken, removes⟩))
      · exact Or.inr ⟨task, Multiset.mem_add.mpr (Or.inr other), removes⟩
  · rw [routes] at inRoutes
    rcases Multiset.mem_add.mp mem with new | old
    · exact pending cid upd rID new
    · rw [ids cid inRoutes]
      exact agrees.pending cid upd rID (Multiset.mem_add.mpr (Or.inr old)) inRoutes

theorem unregister_not_mem (leaves : ∀ task ∈ tasks, ∀ x, task.removes x = false) {rID : Option Bytes} : .unregister cid upd rID ∉ tasks := fun mem => by
  have := leaves _ mem cid
  simp [RegistryTask.removes] at this

namespace RoutesAgree

/-- A region that has nothing to do with removals and leaves the route objects of connections. -/
theorem keep (agrees : r.RoutesAgree (d.taken + others)) (gcid : r'.gcid = r.gcid)
    (routes : r'.routes = r.routes) (remotes : r'.remotes = r.remotes)
    (ids : ∀ cid ∈ r.routes, r'.remoteID cid = r.remoteID cid)
    (conn : ∀ cid, (r'.conn cid).typ = (r.conn cid).typ ∧ (r'.conn cid).nc = (r.conn cid).nc ∧
      (r'.conn cid).route = (r.conn cid).route)
    (takes : ∀ task ∈ d.taken, ∀ x, task.removes x = false) (leaves : ∀ task ∈ tasks, ∀ x, task.removes x = false) :
    r'.RoutesAgree (tasks + others) := by
  refine agrees.carry gcid.ge routes remotes ids (fun cid mem => ?_) (fun cid i => ?_)
    (fun cid mem removal => ?_) fun cid upd rID mem => ?_
  · rw [(conn cid).2.2]
    exact (agrees.routed cid mem).2
  · rw [(conn cid).2.2, (conn cid).1, gcid]
    exact agrees.objects cid i
  · rcases removal with nc | ⟨task, taken, removes⟩
    · rw [(conn cid).2.1]
      exact Or.inl nc
    · rw [takes task taken] at removes
      cases removes
  · exact (unregister_not_mem leaves mem).elim

theorem create (agrees : r.RoutesAgree (d.taken + others)) {c : Connection}
    (own : ∀ i, c.route = some i → i = r.gcid + 1 ∧ c.typ = .router) (gcid : r'.gcid = r.gcid + 1)
    (conn : r'.conn = Function.update r.conn (r.gcid + 1) c)
    (route : ∀ i, i ≠ r.gcid + 1 → r'.route i = r.route i) (routes : r'.routes = r.routes)
    (remotes : r'.remotes = r.remotes) (takes : ∀ task ∈ d.taken, ∀ x, task.removes x = false)
    (leaves : ∀ task ∈ tasks, ∀ x, task.removes x = false) : r'.RoutesAgree (tasks + others) := by
  have old {cid : Nat} (mem : cid ∈ r.routes) : r'.conn cid = r.conn cid := by
    have := (agrees.routed cid mem).1
    rw [conn, Function.update_of_ne (by omega)]
  refine agrees.carry (by omega) routes remotes (fun cid mem => ?_) (fun cid mem => ?_)
    (fun cid i => ?_) (fun cid mem removal => ?_) fun cid upd rID mem => ?_
  · rw [remoteID, remoteID, old mem]
    rcases object : (r.conn cid).route with _ | i
    · rfl
    · have := (agrees.objects cid i object).1
      rw [Option.map_some, Option.map_some, route i (by omega)]
  · rw [old mem]
    exact (agrees.routed cid mem).2
  · rw [conn, Function.update_apply, gcid]
    split_ifs
    · intro object
      exact ⟨(own i object).1.le, (own i object).2⟩
    · intro object
      have := agrees.objects cid i object
      exact ⟨by omega, this.2⟩
  · rcases removal with nc | ⟨task, taken, removes⟩
    · rw [old mem]
      exact Or.inl nc
    · rw [takes task taken] at removes
      cases removes
  · exact (unregister_not_mem leaves mem).elim

/-- `addRoute` registers an open connection under its ID. -/
theorem enlist (life : r.Life (d.taken + others))
    (agrees : r.RoutesAgree (d.taken + others)) {id : Bytes} (tmp : List Nat)
    (absent : r.remotes.lookup id = none) (nc : (r.conn cid).nc = true)
    (own : r.remoteID cid = some id) (leaves : ∀ task ∈ tasks, ∀ x, task.removes x = false)
    (takes : ∀ task ∈ d.taken, ∀ x, task.removes x = false) :
    RoutesAgree { r with
      grTmpClients := tmp
      routes := r.routes.insert cid
      remotes := assocSet r.remotes id cid } (tasks + others) := by
  have fresh (x : Nat) : (id, x) ∉ r.remotes := fun mem => by
    rw [agrees.keys.lookup_of_mem mem] at absent
    cases absent
  have issued : cid ≤ r.gcid := by
    have bound := life.removal cid
    rw [nc, Registry.issued, Bool.toNat_true] at bound
    split_ifs at bound
    · assumption
    · omega
  refine ⟨agrees.keys.set id cid, agrees.nodup.insert, fun x id' => ?_, fun x mem => ?_,
    agrees.objects, fun x mem => ?_, fun x upd rID mem inRoutes => ?_⟩
  · change (id', x) ∈ assocSet r.remotes id cid ↔ x ∈ r.routes.insert cid ∧ r.remoteID x = some id'
    constructor
    · intro mem
      rcases mem_assocSet mem with here | ⟨old, -⟩
      · cases here
        exact ⟨mem_insert_self, own⟩
      · have := (agrees.agree x id').mp old
        exact ⟨mem_insert_of_mem this.1, this.2⟩
    · rintro ⟨mem, named⟩
      rcases mem_insert_iff.mp mem with rfl | old
      · rw [own] at named
        cases named
        exact mem_cons_self
      · have listed := (agrees.agree x id').mpr ⟨old, named⟩
        refine mem_assocSet_of_ne listed ?_
        rintro rfl
        exact fresh x listed
  · rcases mem_insert_iff.mp mem with rfl | old
    · refine ⟨issued, fun none => ?_⟩
      rw [remoteID, none] at own
      cases own
    · exact agrees.routed x old
  · rcases mem_insert_iff.mp mem with rfl | old
    · exact Or.inl nc
    · refine (agrees.live x old).imp (fun h => h) ?_
      rintro ⟨task, pends, removes⟩
      refine ⟨task, ?_, removes⟩
      rcases Multiset.mem_add.mp pends with taken | other
      · rw [takes task taken] at removes
        cases removes
      · exact Multiset.mem_add.mpr (Or.inr other)
  · have pends : .unregister x upd rID ∈ (d.taken + others : Multiset RegistryTask) := by
      rcases Multiset.mem_add.mp mem with new | old
      · exact (unregister_not_mem leaves new).elim
      · exact Multiset.mem_add.mpr (Or.inr old)
    rcases mem_insert_iff.mp inRoutes with rfl | old
    · have := life.not_removed nc pends
      simp [RegistryTask.removes] at this
    · exact agrees.pending x upd rID pends old

/-- A connection that is not registered has no entry. -/
theorem lookup_ne {bag : Multiset RegistryTask} (agrees : r.RoutesAgree bag)
    (absent : cid ∉ r.routes) (id : Bytes) : r.remotes.lookup id ≠ some cid :=
  fun found => absent ((agrees.agree cid id).mp (mem_of_lookup found)).1

/-- The entry of a registered connection. -/
theorem lookup_eq {bag : Multiset RegistryTask} (agrees : r.RoutesAgree bag)
    (mem : cid ∈ r.routes) : ∃ id, r.remoteID cid = some id ∧ r.remotes.lookup id = some cid := by
  obtain ⟨i, object⟩ := Option.ne_none_iff_exists'.mp (agrees.routed cid mem).2
  have named : r.remoteID cid = some (r.route i).remoteID := by rw [remoteID, object, Option.map_some]
  exact ⟨_, named, agrees.keys.lookup_of_mem ((agrees.agree cid _).mpr ⟨mem, named⟩)⟩

end RoutesAgree

/-- `removeClient` takes a registered connection out of both maps. -/
theorem unregister_router {id : Bytes} (typ : (r.conn cid).typ = .router)
    (found : r.remotes.lookup id = some cid) :
    r.unregister cid upd (some id) =
      { r with routes := r.routes.erase cid, remotes := assocErase r.remotes id } := by
  simp [unregister, typ, found]

/-- A connection without an entry is in neither map. -/
theorem unregister_unlisted (upd : Bool) (rID : Option Bytes) (absent : cid ∉ r.routes)
    (unlisted : ∀ id, r.remotes.lookup id ≠ some cid) :
    (r.unregister cid upd rID).routes = r.routes ∧
      (r.unregister cid upd rID).remotes = r.remotes := by
  simp only [unregister]
  split
  · exact ⟨rfl, rfl⟩
  · split
    · exact ⟨erase_of_not_mem absent, rfl⟩
    · rw [if_neg (unlisted _)]
      exact ⟨erase_of_not_mem absent, rfl⟩
  · exact ⟨rfl, rfl⟩

theorem RoutesAgree.remove (agrees : r.RoutesAgree (d.taken + others))
    {rID : Option Bytes} (is : d = .run (.unregister cid upd rID)) :
    (r.unregister cid upd rID).RoutesAgree others := by
  have here := mem_taken is others
  have kept {task : RegistryTask} {x : Nat} (ne : x ≠ cid) (removes : task.removes x = true)
      (pends : task ∈ (d.taken + others : Multiset RegistryTask)) : task ∈ others := by
    subst is
    rcases Multiset.mem_add.mp pends with taken | other
    · rw [mem_singleton.mp taken] at removes
      exact absurd (of_decide_eq_true removes) (Ne.symm ne)
    · exact other
  have live (x : Nat) (ne : x ≠ cid) (mem : x ∈ r.routes) :
      (r.conn x).nc = true ∨ ∃ task ∈ others, task.removes x = true :=
    (agrees.live x mem).imp id fun ⟨task, pends, removes⟩ =>
      ⟨task, kept ne removes pends, removes⟩
  have pending (x : Nat) (u : Bool) (id : Option Bytes) (mem : .unregister x u id ∈ others)
      (listed : x ∈ r.routes) : id = r.remoteID x :=
    agrees.pending x u id (Multiset.mem_add.mpr (Or.inr mem)) listed
  by_cases mem : cid ∈ r.routes
  · obtain ⟨id, named, found⟩ := agrees.lookup_eq mem
    obtain ⟨i, object⟩ := Option.ne_none_iff_exists'.mp (agrees.routed cid mem).2
    rw [agrees.pending cid upd rID here mem, named,
      unregister_router (agrees.objects cid i object).2 found]
    have other {x : Nat} (erased : x ∈ r.routes.erase cid) : x ≠ cid ∧ x ∈ r.routes :=
      (List.Nodup.mem_erase_iff agrees.nodup).mp erased
    refine ⟨agrees.keys.erase id, agrees.nodup.erase cid, fun x id' => ?_, fun x erased => ?_,
      agrees.objects, fun x erased => ?_, fun x u rid pends erased => ?_⟩
    · change (id', x) ∈ assocErase r.remotes id ↔ x ∈ r.routes.erase cid ∧ r.remoteID x = some id'
      constructor
      · intro entry
        obtain ⟨old, ne⟩ := mem_assocErase entry
        obtain ⟨listed, isId⟩ := (agrees.agree x id').mp old
        refine ⟨(mem_erase_of_ne ?_).mpr listed, isId⟩
        rintro rfl
        rw [named] at isId
        exact ne (Option.some.inj isId).symm
      · rintro ⟨erased, isId⟩
        obtain ⟨ne, listed⟩ := other erased
        have entry := (agrees.agree x id').mpr ⟨listed, isId⟩
        refine mem_assocErase_of_ne entry ?_
        rintro rfl
        rw [agrees.keys.lookup_of_mem entry] at found
        exact ne (Option.some.inj found)
    · exact agrees.routed x (other erased).2
    · exact live x (other erased).1 (other erased).2
    · exact pending x u rid pends (other erased).2
  · obtain ⟨routes, remotes⟩ := unregister_unlisted upd rID mem (agrees.lookup_ne mem)
    obtain ⟨gcid, conn, route, -, -⟩ := unregister_fields r cid upd rID
    have ids (x : Nat) : (r.unregister cid upd rID).remoteID x = r.remoteID x := by
      rw [remoteID, remoteID, conn, route]
    refine ⟨remotes ▸ agrees.keys, routes ▸ agrees.nodup, fun x id' => ?_, fun x listed => ?_,
      fun x i => ?_, fun x listed => ?_, fun x u rid pends listed => ?_⟩
    · rw [remotes, routes, ids]
      exact agrees.agree x id'
    · rw [gcid, conn]
      exact agrees.routed x (routes ▸ listed)
    · rw [gcid, conn]
      exact agrees.objects x i
    · rw [conn]
      rw [routes] at listed
      exact live x (fun same => mem (same ▸ listed)) listed
    · rw [ids]
      exact pending x u rid pends (routes ▸ listed)

theorem RoutesAgree.region (life : r.Life (d.taken + others))
    (agrees : r.RoutesAgree (d.taken + others)) (guard : KeepsIDs r (d.taken + others) d)
    (effect : r.Effect d r' tasks) : r'.RoutesAgree (tasks + others) := by
  cases effect with
  | quiet alike ids takes leaves =>
    refine agrees.keep alike.gcid alike.routes alike.remotes (fun cid _ => ?_)
      (fun cid => ⟨alike.typ cid, alike.nc cid, alike.object cid⟩)
      (fun task mem _ => (takes task mem).not_removes)
      fun task mem _ => (leaves task mem).loose.not_removes
    rw [remoteID, remoteID, alike.object]
    exact congrArg (Option.map · _) (funext ids)
  | create c takes nc opts own gcid conn route clients routes remotes cproto kept =>
    refine agrees.create own gcid conn route routes remotes
      (fun task mem _ => (takes task mem).loose.not_removes) ?_
    rcases kept with ⟨-, -, ⟨-, rfl⟩ | ⟨-, rfl⟩⟩ | ⟨-, -, rfl⟩ <;> simp [RegistryTask.removes]
  | connect cid opts decoded authorized is c eq typ nc isOpts route started still count leaves =>
    subst is eq
    refine agrees.keep rfl rfl rfl (fun x _ => remoteID_setConn route x) ?_ (by rintro _ ⟨⟩) fun task mem x => ?_
    · exact @setConn_rel r (fun c c' => c.typ = c'.typ ∧ c.nc = c'.nc ∧ c.route = c'.route)
        (fun _ => ⟨rfl, rfl, rfl⟩) cid c ⟨typ, nc, route⟩
    · rcases leaves task mem with rfl | free
      · rfl
      · exact free.loose.not_removes
  | insert cid is eq leaves =>
    subst is eq leaves
    exact agrees.keep rfl rfl rfl (fun _ _ => rfl) (fun _ => ⟨rfl, rfl, rfl⟩)
      (by simp [Doing.taken, RegistryTask.removes]) (by simp [RegistryTask.removes])
  | begins cid takes nc tmp eq kept leaves =>
    subst eq leaves
    refine agrees.keep rfl rfl rfl
      (fun x _ => @remoteID_setConn r cid { r.conn cid with readLoop := .started } rfl x) ?_ ?_ (by rintro _ ⟨⟩)
    · exact @setConn_rel r (fun c c' => c.typ = c'.typ ∧ c.nc = c'.nc ∧ c.route = c'.route)
        (fun _ => ⟨rfl, rfl, rfl⟩) cid _ ⟨rfl, rfl, rfl⟩
    · rcases kept with ⟨rfl, -⟩ | ⟨rfl, -⟩ <;> simp [Doing.taken, RegistryTask.removes]
  | count is eq leaves =>
    subst is eq leaves
    exact agrees.keep rfl rfl rfl (fun _ _ => rfl) (fun _ => ⟨rfl, rfl, rfl⟩)
      (by simp [Doing.taken, RegistryTask.removes]) (by rintro _ ⟨⟩)
  | assign cid i id is object alike ids leaves =>
    refine agrees.keep alike.gcid alike.routes alike.remotes (fun c mem => ?_)
      (fun c => ⟨alike.typ c, alike.nc c, alike.object c⟩) ?_
      fun task mem _ => (leaves task mem).loose.not_removes
    · -- the guard says that a registered connection with this route object has the ID already
      obtain ⟨j, shared⟩ := Option.ne_none_iff_exists'.mp (agrees.routed c mem).2
      rw [remoteID, remoteID, alike.object, shared, Option.map_some, Option.map_some, ids]
      split_ifs with same
      · subst same
        have has : r.remoteID c = some (r.route j).remoteID := by
          rw [remoteID, shared, Option.map_some]
        rcases is with ⟨rfl, rfl⟩ | ⟨⟨parses, urls, rfl⟩, empty | own⟩
        · rw [← guard c mem (shared.trans object.symm), has]
        · rw [empty] at has ⊢
          rw [guard c mem (shared.trans object.symm) has]
        · rw [own]
      · rfl
    · rcases is with ⟨rfl, -⟩ | ⟨⟨parses, urls, rfl⟩, -⟩ <;> simp [Doing.taken, RegistryTask.removes]
  | upgrade remote cid i is object routed eq leaves =>
    subst is eq leaves
    refine agrees.carry (Nat.le_refl _) rfl rfl (fun c mem => ?_) (fun c mem => ?_) (fun c j => ?_)
      (fun c mem removal => Or.inl ?_) (by simp)
    · rw [remoteID, setConn_conn]
      split_ifs with here
      · subst here
        rw [← guard mem, remoteID, object]
        rfl
      · rfl
    · rw [setConn_conn]
      split_ifs
      · rintro ⟨⟩
      · exact (agrees.routed c mem).2
    · rw [setConn_conn]
      split_ifs with here
      · intro isObject
        obtain ⟨k, had⟩ := Option.ne_none_iff_exists'.mp routed
        cases isObject
        exact ⟨(agrees.objects cid i object).1, (agrees.objects remote k had).2⟩
      · exact agrees.objects c j
    · have nc := removal.resolve_right (by simp [Doing.taken, RegistryTask.removes])
      exact (@setConn_rel r (fun c c' => c.nc = c'.nc) (fun _ => rfl) remote
        { r.conn remote with route := some i } rfl c).trans nc
  | enlist cid id urls is absent eq leaves =>
    subst is eq leaves
    obtain ⟨nc, own⟩ := guard absent
    exact agrees.enlist life _ absent nc own (by simp [RegistryTask.removes])
      (by simp [Doing.taken, RegistryTask.removes])
  | close cid is nc eq leaves =>
    subst is eq leaves
    refine agrees.carry (Nat.le_refl _) rfl rfl
      (fun x _ => @remoteID_setConn r cid { r.conn cid with nc := false } rfl x)
      (fun c mem => ?_) (fun c j => ?_) (fun c mem removal => ?_) (by simp)
    · exact fun none => (agrees.routed c mem).2
        ((@setConn_rel r (fun c c' => c.route = c'.route) (fun _ => rfl) cid
          { r.conn cid with nc := false } rfl c).symm.trans none)
    · rw [setConn_conn]
      split_ifs with here
      · subst here
        exact agrees.objects c j
      · exact agrees.objects c j
    · have nc := removal.resolve_right (by simp [Doing.taken, RegistryTask.removes])
      rw [setConn_conn]
      split_ifs with here
      · exact Or.inr ⟨_, mem_singleton_self _, decide_eq_true here.symm⟩
      · exact Or.inl nc
  | remove cid is eq leaves =>
    subst is eq leaves
    refine agrees.carry (Nat.le_refl _) rfl rfl (fun _ _ => rfl) (fun c mem => (agrees.routed c mem).2)
      agrees.objects (fun c mem removal => removal.imp id ?_) fun c upd rID mem => ?_
    · simp [removeClient, Doing.taken, RegistryTask.removes]
    · simp only [removeClient, mem_singleton] at mem
      cases mem
      rfl
  | unregister cid updateProtoInfoCount rID is eq leaves =>
    subst eq leaves
    rw [Multiset.coe_nil, zero_add]
    exact agrees.remove is

end Registry

section Runs

variable {cfg : RegistryConfig} {urls : List Bytes} {as : List RegistryAction} {s : RegistryState}

theorem Registry.RoutesAgree.run
    (along : Along (RegistryState.step cfg) (Threaded.Guarded KeepsIDs) (.initial urls) as)
    (ran : runFrom (RegistryState.step cfg) (.initial urls) as = some s) :
    s.shared.RoutesAgree s.bag :=
  invariant_of_effects (fun life inv guard effect => inv.region life guard effect)
    ⟨nodup_nil, nodup_nil, fun _ _ => ⟨nofun, nofun⟩, nofun, nofun, nofun, nofun⟩ along ran

/-- With no step half done, `s.routes` and `s.remotes` list the same connections, no two of them with
the same remote ID, each under the ID in its route object, and all of them open. -/
theorem route_registry_consistent
    (along : Along (RegistryState.step cfg) (Threaded.Guarded KeepsIDs) (.initial urls) as)
    (ran : runFrom (RegistryState.step cfg) (.initial urls) as = some s) (quiescent : s.Quiescent) :
    (∀ cid, cid ∈ s.shared.routes ↔ ∃ id, s.shared.remotes.lookup id = some cid) ∧
      (∀ cid ∈ s.shared.routes, ∀ cid' ∈ s.shared.routes,
        s.shared.remoteID cid = s.shared.remoteID cid' → cid = cid') ∧
      (∀ cid id, s.shared.remotes.lookup id = some cid → s.shared.remoteID cid = some id) ∧
      ∀ cid ∈ s.shared.routes, (s.shared.conn cid).nc = true := by
  have agrees := Registry.RoutesAgree.run along ran
  refine ⟨fun cid => ⟨fun mem => ?_, fun ⟨id, found⟩ => ?_⟩, fun cid mem cid' mem' same => ?_,
    fun cid id found => ?_, fun cid mem => ?_⟩
  · obtain ⟨id, -, found⟩ := agrees.lookup_eq mem
    exact ⟨id, found⟩
  · exact ((agrees.agree cid id).mp (mem_of_lookup found)).1
  · obtain ⟨id, named, found⟩ := agrees.lookup_eq mem
    obtain ⟨id', named', found'⟩ := agrees.lookup_eq mem'
    rw [named, named'] at same
    cases same
    rw [found] at found'
    exact Option.some.inj found'
  · exact ((agrees.agree cid id).mp (mem_of_lookup found)).2
  · refine (agrees.live cid mem).resolve_right ?_
    rw [quiescent.bag_eq]
    simp

end Runs

/-- A route that a peer has opened, read on thread 1, whose INFO has been checked. -/
def checkedRoute : List RegistryAction :=
  [.spawn, .spawn, .spawn, .start 0 (.createRoute false false), .start 1 (.readLoop 1),
    .start 1 (.connect 1 { name := [66] } true true), .run 1 [], .start 1 (.info 1 [66] true [])]

theorem route_registry_consistent_one :
    ∃ s, runFrom (RegistryState.step ⟨[65], 0, false⟩) (.initial [])
        (checkedRoute ++ [.run 1 [], .run 1 [], .run 1 []]) = some s ∧ s.Quiescent ∧
      1 ∈ s.shared.routes ∧ (∀ cid ∈ s.shared.routes, (s.shared.conn cid).nc = true) :=
  exists_run_imp (P := fun s => s.Quiescent ∧ 1 ∈ s.shared.routes)
    (fun _ ran final => ⟨final.1, final.2,
      (route_registry_consistent (by decide) ran final.1).2.2.2⟩)
    (by decide)

/-- A close between the check of `processRouteInfo` and `addRoute`: the closed connection stays
registered. -/
theorem route_registry_keeps_closed :
    ∃ s, runFrom (RegistryState.step ⟨[65], 0, false⟩) (.initial [])
        (checkedRoute ++ [.start 2 (.close 1), .run 2 [], .run 2 [], .run 2 [],
          .run 1 [], .run 1 [], .run 1 []]) = some s ∧
      s.Quiescent ∧ s.shared.routes = [1] ∧ s.shared.remotes.lookup [66] = some 1 ∧
      (s.shared.conn 1).nc = false :=
  exists_run (by decide)

end Hnatsd.Server
