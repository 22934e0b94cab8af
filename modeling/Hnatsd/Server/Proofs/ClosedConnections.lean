import Hnatsd.Server.Proofs.RegistrySteps

/-!
# Closed connections leave the server's maps

`removeClient` takes clients out of `s.clients` and routes out of `s.routes`; nothing takes an
internal client out of `s.clients`, and only `addRoute` takes a route out of `s.grTmpClients`. A
closed connection is in neither map if it was a registered client, or in neither map already, when it
was closed.
-/

namespace Hnatsd.Server
open Misc

/-- A connection is closed only when `createClient` is done with its registration, and then it is a
client or in neither map. -/
def ClosesListed (r : Registry) (bag : Multiset RegistryTask) : Doing RegistryOp RegistryTask → Prop
  | .run (.closeConnection cid) =>
      (r.conn cid).nc = true → .register cid ∉ bag ∧
        ((r.conn cid).typ = .client ∨ cid ∉ r.clients ∧ cid ∉ r.grTmpClients)
  | _ => True

instance (r : Registry) (bag : Multiset RegistryTask) (d : Doing RegistryOp RegistryTask) :
    Decidable (ClosesListed r bag d) := by
  unfold ClosesListed
  induction d using Doing.casesOn with
  | start op => induction op using RegistryOp.casesOn <;> infer_instance
  | run task => induction task using RegistryTask.casesOn <;> infer_instance

/-- A closed connection is in neither map, or is a client that is being removed. -/
structure Registry.Departed (r : Registry) (bag : Multiset RegistryTask) : Prop where
  nodup : r.clients.Nodup
  registering : ∀ cid, .register cid ∈ bag → (r.conn cid).nc = true
  handshaking : ∀ cid, .handshaken cid ∈ bag → (r.conn cid).typ = .router
  temporary : ∀ cid ∈ r.grTmpClients, cid ≤ r.gcid ∧ (r.conn cid).typ = .router
  gone : ∀ cid, (r.conn cid).nc = false → (cid ∉ r.clients ∧ cid ∉ r.grTmpClients) ∨
    (r.conn cid).typ = .client ∧ ∃ task ∈ bag, task.removes cid = true

namespace Registry

variable {cfg : RegistryConfig} {r r' : Registry} {d : Doing RegistryOp RegistryTask}
  {tasks : List RegistryTask} {others : Multiset RegistryTask}

namespace Departed

section

variable (departed : r.Departed (d.taken + others))
include departed

/-- A region that puts nothing into the maps and neither closes nor removes a connection. -/
theorem carry (gcid : r'.gcid = r.gcid)
    (clients : r'.clients = r.clients) (tmp : r'.grTmpClients ⊆ r.grTmpClients)
    (conn : ∀ cid, (r'.conn cid).typ = (r.conn cid).typ ∧ (r'.conn cid).nc = (r.conn cid).nc)
    (registers : ∀ cid, .register cid ∉ tasks) (handshakes : ∀ cid, .handshaken cid ∉ tasks)
    (removes : ∀ cid, (∃ task ∈ d.taken, task.removes cid = true) →
      ∃ task ∈ tasks, task.removes cid = true) :
    r'.Departed (tasks + others) := by
  have old {task : RegistryTask} (mem : task ∈ (tasks + others : Multiset RegistryTask))
      (new : task ∉ tasks) : task ∈ (d.taken + others : Multiset RegistryTask) :=
    Multiset.mem_add.mpr (Or.inr ((Multiset.mem_add.mp mem).resolve_left new))
  refine ⟨?_, fun cid mem => ?_, fun cid mem => ?_, fun cid mem => ?_, fun cid closed => ?_⟩
  · rw [clients]
    exact departed.nodup
  · rw [(conn cid).2]
    exact departed.registering cid (old mem (registers cid))
  · rw [(conn cid).1]
    exact departed.handshaking cid (old mem (handshakes cid))
  · rw [gcid, (conn cid).1]
    exact departed.temporary cid (tmp mem)
  · rw [(conn cid).2] at closed
    rw [clients, (conn cid).1]
    refine (departed.gone cid closed).imp (fun out => ⟨out.1, fun mem => out.2 (tmp mem)⟩) ?_
    rintro ⟨typ, task, pends, removal⟩
    refine ⟨typ, ?_⟩
    rcases Multiset.mem_add.mp pends with taken | other
    · obtain ⟨next, new, goes⟩ := removes cid ⟨task, taken, removal⟩
      exact ⟨next, Multiset.mem_add.mpr (Or.inl new), goes⟩
    · exact ⟨task, Multiset.mem_add.mpr (Or.inr other), removal⟩

/-- A region that neither takes nor leaves a removal or a registration. -/
theorem keep (gcid : r'.gcid = r.gcid)
    (clients : r'.clients = r.clients) (tmp : r'.grTmpClients ⊆ r.grTmpClients)
    (conn : ∀ cid, (r'.conn cid).typ = (r.conn cid).typ ∧ (r'.conn cid).nc = (r.conn cid).nc)
    (takes : ∀ task ∈ d.taken, ∀ cid, task.removes cid = false)
    (leaves : ∀ task ∈ tasks, task = .countProto ∨ task.Free) : r'.Departed (tasks + others) := by
  refine departed.carry gcid clients tmp conn (fun cid mem => ?_) (fun cid mem => ?_) ?_
  · exact (leaves _ mem).elim nofun id
  · exact (leaves _ mem).elim nofun id
  · rintro cid ⟨task, mem, removal⟩
    rw [takes task mem cid] at removal
    cases removal

/-- An open connection is put into a map. -/
theorem put {cid : Nat}
    (nc : (r.conn cid).nc = true) (gcid : r'.gcid = r.gcid)
    (clients : r'.clients = r.clients ∨ r'.clients = r.clients.insert cid)
    (tmp : r'.grTmpClients = r.grTmpClients ∨ r'.grTmpClients = r.grTmpClients.insert cid ∧
      cid ≤ r.gcid ∧ (r.conn cid).typ = .router)
    (conn : ∀ x, (r'.conn x).typ = (r.conn x).typ ∧ (r'.conn x).nc = (r.conn x).nc)
    (takes : ∀ task ∈ d.taken, ∀ x, task.removes x = false)
    (leaves : ∀ x, .register x ∉ tasks ∧ .handshaken x ∉ tasks) : r'.Departed (tasks + others) := by
  have old {task : RegistryTask} (mem : task ∈ (tasks + others : Multiset RegistryTask))
      (new : task ∉ tasks) : task ∈ (d.taken + others : Multiset RegistryTask) :=
    Multiset.mem_add.mpr (Or.inr ((Multiset.mem_add.mp mem).resolve_left new))
  refine ⟨?_, fun x mem => ?_, fun x mem => ?_, fun x mem => ?_, fun x closed => ?_⟩
  · rcases clients with same | inserted
    · rw [same]
      exact departed.nodup
    · rw [inserted]
      exact departed.nodup.insert
  · rw [(conn x).2]
    exact departed.registering x (old mem (leaves x).1)
  · rw [(conn x).1]
    exact departed.handshaking x (old mem (leaves x).2)
  · rw [gcid, (conn x).1]
    rcases tmp with same | ⟨inserted, issued, typ⟩
    · exact departed.temporary x (same ▸ mem)
    · rw [inserted] at mem
      rcases List.mem_insert_iff.mp mem with rfl | before
      · exact ⟨issued, typ⟩
      · exact departed.temporary x before
  · rw [(conn x).2] at closed
    have ne : x ≠ cid := by
      rintro rfl
      rw [nc] at closed
      cases closed
    rw [(conn x).1]
    refine (departed.gone x closed).imp (fun out => ⟨fun mem => ?_, fun mem => ?_⟩) ?_
    · rcases clients with same | inserted
      · exact out.1 (same ▸ mem)
      · rw [inserted] at mem
        exact (List.mem_insert_iff.mp mem).elim ne out.1
    · rcases tmp with same | ⟨inserted, -, -⟩
      · exact out.2 (same ▸ mem)
      · rw [inserted] at mem
        exact (List.mem_insert_iff.mp mem).elim ne out.2
    · rintro ⟨typ, task, pends, removal⟩
      refine ⟨typ, task, ?_, removal⟩
      rcases Multiset.mem_add.mp pends with taken | before
      · rw [takes task taken x] at removal
        cases removal
      · exact Multiset.mem_add.mpr (Or.inr before)

end

theorem create (life : r.Life (d.taken + others))
    (departed : r.Departed (d.taken + others)) {c : Connection} (nc : c.nc = true)
    (gcid : r'.gcid = r.gcid + 1) (conn : r'.conn = Function.update r.conn (r.gcid + 1) c)
    (clients : r'.clients = r.clients) (takes : ∀ task ∈ d.taken, ∀ cid, task.removes cid = false)
    (kept : (r'.grTmpClients = r.grTmpClients ∧ c.readLoop = .unstarted ∧
        (c.typ ≠ .router ∧ tasks = [.register (r.gcid + 1)] ∨
          c.typ = .router ∧ tasks = [.handshaken (r.gcid + 1)])) ∨
      (r'.grTmpClients = r.grTmpClients.insert (r.gcid + 1) ∧ c.typ = .router ∧ tasks = [])) :
    r'.Departed (tasks + others) := by
  have other {cid : Nat} (ne : cid ≠ r.gcid + 1) : r'.conn cid = r.conn cid := by
    rw [conn, Function.update_of_ne ne]
  have new : r'.conn (r.gcid + 1) = c := by rw [conn, Function.update_self]
  have old {task : RegistryTask} {cid : Nat} (mem : task ∈ others) (starts : task.starts cid = true) :
      r'.conn cid = r.conn cid := by
    have := (life.starts (Multiset.mem_add.mpr (Or.inr mem)) starts).1
    exact other (by omega)
  have inTasks {task : RegistryTask} (mem : task ∈ tasks) :
      task = .register (r.gcid + 1) ∨ task = .handshaken (r.gcid + 1) ∧ c.typ = .router := by
    rcases kept with ⟨-, -, ⟨-, rfl⟩ | ⟨typ, rfl⟩⟩ | ⟨-, -, rfl⟩
    · exact Or.inl (List.mem_singleton.mp mem)
    · exact Or.inr ⟨List.mem_singleton.mp mem, typ⟩
    · cases mem
  have tmp {cid : Nat} (mem : cid ∈ r'.grTmpClients) :
      cid ∈ r.grTmpClients ∨ cid = r.gcid + 1 ∧ c.typ = .router := by
    rcases kept with ⟨same, -, -⟩ | ⟨inserted, typ, -⟩
    · exact Or.inl (same ▸ mem)
    · rw [inserted] at mem
      exact (List.mem_insert_iff.mp mem).symm.imp id fun is => ⟨is, typ⟩
  refine ⟨?_, fun cid mem => ?_, fun cid mem => ?_, fun cid mem => ?_, fun cid closed => ?_⟩
  · rw [clients]
    exact departed.nodup
  · rcases Multiset.mem_add.mp mem with added | before
    · rcases inTasks added with is | ⟨is, -⟩
      · cases is
        rw [new]
        exact nc
      · cases is
    · rw [old before (decide_eq_true rfl)]
      exact departed.registering cid (Multiset.mem_add.mpr (Or.inr before))
  · rcases Multiset.mem_add.mp mem with added | before
    · rcases inTasks added with is | ⟨is, typ⟩
      · cases is
      · cases is
        rw [new]
        exact typ
    · rw [old before (decide_eq_true rfl)]
      exact departed.handshaking cid (Multiset.mem_add.mpr (Or.inr before))
  · rcases tmp mem with before | ⟨rfl, typ⟩
    · have := departed.temporary cid before
      rw [gcid, other (by omega)]
      exact ⟨by omega, this.2⟩
    · rw [gcid, new]
      exact ⟨Nat.le_refl _, typ⟩
  · have ne : cid ≠ r.gcid + 1 := by
      rintro rfl
      rw [new, nc] at closed
      cases closed
    rw [other ne] at closed ⊢
    rw [clients]
    refine (departed.gone cid closed).imp (fun out => ⟨out.1, fun mem => ?_⟩) ?_
    · exact (tmp mem).elim out.2 fun is => ne is.1
    · rintro ⟨typ, task, pends, removal⟩
      refine ⟨typ, task, ?_, removal⟩
      rcases Multiset.mem_add.mp pends with taken | before
      · rw [takes task taken cid] at removal
        cases removal
      · exact Multiset.mem_add.mpr (Or.inr before)

/-- A connection is closed that is a registered client or in neither map. -/
theorem close (departed : r.Departed (d.taken + others)) {cid : Nat}
    (is : d = .run (.closeConnection cid)) (registered : .register cid ∉ others)
    (listed : (r.conn cid).typ = .client ∨ cid ∉ r.clients ∧ cid ∉ r.grTmpClients) :
    (r.setConn cid { r.conn cid with nc := false }).Departed
      (([.removeClient cid] : List RegistryTask) + others) := by
  have before {task : RegistryTask} (mem : task ∈ others) :
      task ∈ (d.taken + others : Multiset RegistryTask) := Multiset.mem_add.mpr (Or.inr mem)
  have typ (x : Nat) :
      ((r.setConn cid { r.conn cid with nc := false }).conn x).typ = (r.conn x).typ :=
    @setConn_rel r (fun c c' => c.typ = c'.typ) (fun _ => rfl) cid { r.conn cid with nc := false } rfl x
  refine ⟨departed.nodup, fun x mem => ?_, fun x mem => ?_, fun x mem => ?_, fun x closed => ?_⟩
  · have pends : .register x ∈ others := by simpa using mem
    have ne : x ≠ cid := fun same => registered (same ▸ pends)
    rw [setConn_conn, if_neg ne]
    exact departed.registering x (before pends)
  · rw [typ]
    exact departed.handshaking x (before (by simpa using mem))
  · rw [typ]
    exact departed.temporary x mem
  · rw [typ]
    by_cases here : x = cid
    · subst here
      exact listed.symm.imp (fun out => out)
        fun isClient => ⟨isClient, .removeClient x, by simp, decide_eq_true rfl⟩
    · rw [setConn_conn, if_neg here] at closed
      refine (departed.gone x closed).imp (fun out => out) ?_
      rintro ⟨isClient, task, pends, removal⟩
      refine ⟨isClient, task, Multiset.mem_add.mpr (Or.inr ?_), removal⟩
      subst is
      rcases Multiset.mem_add.mp pends with taken | other
      · rw [List.mem_singleton.mp taken] at removal
        cases removal
      · exact other

/-- `removeClient` takes a closed client out of `s.clients`. -/
theorem remove (departed : r.Departed (d.taken + others)) {cid : Nat} {upd : Bool}
    {rID : Option Bytes} (is : d = .run (.unregister cid upd rID)) :
    (r.unregister cid upd rID).Departed others := by
  have before {task : RegistryTask} (mem : task ∈ others) :
      task ∈ (d.taken + others : Multiset RegistryTask) := Multiset.mem_add.mpr (Or.inr mem)
  obtain ⟨gcid, conn, -, tmp, clients⟩ := unregister_fields r cid upd rID
  have erased (isClient : (r.conn cid).typ = .client) :
      (r.unregister cid upd rID).clients = r.clients.erase cid := by
    rw [unregister, isClient]
  refine ⟨?_, fun x mem => ?_, fun x mem => ?_, fun x mem => ?_, fun x closed => ?_⟩
  · by_cases isClient : (r.conn cid).typ = .client
    · rw [erased isClient]
      exact departed.nodup.erase cid
    · rw [(unregister_of_ne_client isClient upd rID).1]
      exact departed.nodup
  · rw [conn]
    exact departed.registering x (before mem)
  · rw [conn]
    exact departed.handshaking x (before mem)
  · rw [conn, gcid]
    exact departed.temporary x (tmp ▸ mem)
  · rw [conn] at closed ⊢
    rw [tmp]
    rcases departed.gone x closed with out | ⟨isClient, task, pends, removal⟩
    · exact Or.inl ⟨fun mem => out.1 (clients mem), out.2⟩
    · by_cases here : x = cid
      · subst here
        refine Or.inl ⟨fun mem => ?_, fun mem => ?_⟩
        · rw [erased isClient] at mem
          exact ((List.Nodup.mem_erase_iff departed.nodup).mp mem).1 rfl
        · rw [(departed.temporary x mem).2] at isClient
          cases isClient
      · refine Or.inr ⟨isClient, task, ?_, removal⟩
        subst is
        rcases Multiset.mem_add.mp pends with taken | other
        · rw [List.mem_singleton.mp taken] at removal
          exact absurd (of_decide_eq_true removal) (Ne.symm here)
        · exact other

theorem region (life : r.Life (d.taken + others))
    (departed : r.Departed (d.taken + others)) (guard : ClosesListed r (d.taken + others) d)
    (effect : r.Effect d r' tasks) : r'.Departed (tasks + others) := by
  cases effect with
  | quiet alike ids takes leaves =>
    exact departed.keep alike.gcid alike.clients (fun _ mem => alike.grTmpClients ▸ mem)
      (fun cid => ⟨alike.typ cid, alike.nc cid⟩) (fun task mem _ => (takes task mem).not_removes)
      fun task mem => Or.inr (leaves task mem)
  | create c takes nc opts own gcid conn route clients routes remotes cproto kept =>
    exact departed.create life nc gcid conn clients
      (fun task mem _ => (takes task mem).loose.not_removes) kept
  | connect cid opts decoded authorized is c eq typ nc isOpts route started still count leaves =>
    subst is eq
    exact departed.keep rfl rfl (List.Subset.refl _)
      (@setConn_rel r (fun c c' => c.typ = c'.typ ∧ c.nc = c'.nc) (fun _ => ⟨rfl, rfl⟩) cid c ⟨typ, nc⟩)
      (by rintro _ ⟨⟩) leaves
  | insert cid is eq leaves =>
    have isOpen := departed.registering cid (mem_taken is others)
    subst is eq leaves
    exact departed.put isOpen rfl (Or.inr rfl) (Or.inl rfl) (fun _ => ⟨rfl, rfl⟩)
      (by simp [Doing.taken, RegistryTask.removes]) (by simp)
  | begins cid takes nc tmp eq kept leaves =>
    have conn := @setConn_rel r (fun c c' => c.typ = c'.typ ∧ c.nc = c'.nc) (fun _ => ⟨rfl, rfl⟩) cid
      { r.conn cid with readLoop := .started } ⟨rfl, rfl⟩
    rcases kept with ⟨is, rfl⟩ | ⟨is, rfl⟩
    · subst is eq leaves
      exact departed.put nc rfl (Or.inl rfl) (Or.inl rfl) conn
        (by simp [Doing.taken, RegistryTask.removes]) (by simp)
    · have typ := departed.handshaking cid (mem_taken is others)
      have issued := (life.starts (mem_taken is others) (decide_eq_true (Eq.refl cid))).1
      subst is eq leaves
      exact departed.put nc rfl (Or.inl rfl) (Or.inr ⟨rfl, issued, typ⟩) conn
        (by simp [Doing.taken, RegistryTask.removes]) (by simp)
  | count is eq leaves =>
    subst is eq leaves
    exact departed.keep rfl rfl (List.Subset.refl _) (fun _ => ⟨rfl, rfl⟩)
      (by simp [Doing.taken, RegistryTask.removes]) (by rintro _ ⟨⟩)
  | assign cid i id is object alike ids leaves =>
    refine departed.keep alike.gcid alike.clients (fun _ mem => alike.grTmpClients ▸ mem)
      (fun cid => ⟨alike.typ cid, alike.nc cid⟩) ?_ fun task mem => Or.inr (leaves task mem)
    rcases is with ⟨rfl, -⟩ | ⟨⟨parses, urls, rfl⟩, -⟩ <;> simp [Doing.taken, RegistryTask.removes]
  | upgrade remote cid i is object routed eq leaves =>
    subst is eq leaves
    exact departed.keep rfl rfl (List.Subset.refl _)
      (@setConn_rel r (fun c c' => c.typ = c'.typ ∧ c.nc = c'.nc) (fun _ => ⟨rfl, rfl⟩) remote
        { r.conn remote with route := some i } ⟨rfl, rfl⟩)
      (by simp [Doing.taken, RegistryTask.removes]) (by rintro _ ⟨⟩)
  | enlist cid id urls is absent eq leaves =>
    subst is eq leaves
    exact departed.keep rfl rfl List.erase_subset (fun _ => ⟨rfl, rfl⟩)
      (by simp [Doing.taken, RegistryTask.removes])
      (by simp [RegistryTask.Free, RegistryTask.Loose])
  | close cid is nc eq leaves =>
    subst eq leaves
    have allowed : .register cid ∉ (d.taken + others : Multiset RegistryTask) ∧
        ((r.conn cid).typ = .client ∨ cid ∉ r.clients ∧ cid ∉ r.grTmpClients) := by
      subst is
      exact guard nc
    exact departed.close is (fun mem => allowed.1 (Multiset.mem_add.mpr (Or.inr mem))) allowed.2
  | remove cid is eq leaves =>
    subst is eq leaves
    refine departed.carry rfl rfl (List.Subset.refl _) (fun _ => ⟨rfl, rfl⟩)
      (by simp [removeClient]) (by simp [removeClient]) fun x => ?_
    simp [removeClient, Doing.taken, RegistryTask.removes]
  | unregister cid updateProtoInfoCount rID is eq leaves =>
    subst eq leaves
    rw [Multiset.coe_nil, zero_add]
    exact departed.remove is

end Departed

end Registry

section Runs

variable {cfg : RegistryConfig} {urls : List Bytes} {as : List RegistryAction} {s : RegistryState}

theorem Registry.Departed.run
    (along : Along (RegistryState.step cfg) (Threaded.Guarded ClosesListed) (.initial urls) as)
    (ran : runFrom (RegistryState.step cfg) (.initial urls) as = some s) :
    s.shared.Departed s.bag :=
  invariant_of_effects (fun life inv guard effect => inv.region life guard effect)
    ⟨List.nodup_nil, nofun, nofun, nofun, fun _ _ => Or.inl ⟨nofun, nofun⟩⟩ along ran

/-- A connection whose `closeConnection` has run to completion is in neither map, and with no step
half done `s.clients` holds open connections only. -/
theorem closed_connections_leave
    (along : Along (RegistryState.step cfg) (Threaded.Guarded ClosesListed) (.initial urls) as)
    (ran : runFrom (RegistryState.step cfg) (.initial urls) as = some s) :
    (∀ cid, (s.shared.conn cid).nc = false → (∀ task, s.Pends task → task.removes cid = false) →
        cid ∉ s.shared.clients ∧ cid ∉ s.shared.grTmpClients) ∧
      (s.Quiescent → ∀ cid ∈ s.shared.clients, (s.shared.conn cid).nc = true) := by
  have departed := Registry.Departed.run along ran
  have leaves (cid : Nat) (closed : (s.shared.conn cid).nc = false)
      (removed : ∀ task, s.Pends task → task.removes cid = false) :
      cid ∉ s.shared.clients ∧ cid ∉ s.shared.grTmpClients := by
    refine (departed.gone cid closed).resolve_right ?_
    rintro ⟨-, task, pends, removes⟩
    rw [removed task (Threaded.mem_bag.mp pends)] at removes
    cases removes
  refine ⟨leaves, fun quiescent cid mem => ?_⟩
  by_contra closed
  have none (task : RegistryTask) (pends : s.Pends task) : task.removes cid = false := by
    have inBag := Threaded.mem_bag.mpr pends
    rw [quiescent.bag_eq] at inBag
    cases inBag
  exact (leaves cid (Bool.eq_false_iff.mpr closed) none).1 mem

end Runs

/-- A client is created, read and closed. -/
theorem closed_connections_leave_one :
    ∃ s, runFrom (RegistryState.step ⟨[65], 0, false⟩) (.initial [])
        [.spawn, .spawn, .start 0 (.createClient false), .run 0 [], .run 0 [], .run 0 [],
          .start 1 (.readLoop 1), .start 0 (.close 1), .run 0 [], .run 0 [], .run 0 []] = some s ∧
      (s.shared.conn 1).nc = false ∧ 1 ∉ s.shared.clients ∧ 1 ∉ s.shared.grTmpClients :=
  exists_run_imp (P := fun s => (s.shared.conn 1).nc = false ∧ s.Quiescent)
    (fun s ran final => ⟨final.1,
      (closed_connections_leave (by decide) ran).1 1 final.1 fun task pends => by
        rw [Threaded.Pends, final.2] at pends
        cases pends⟩)
    (by decide)

/-- A route that is closed before its INFO stays in `s.grTmpClients`, an internal client in
`s.clients`. -/
theorem closed_connections_stay :
    ∃ s, runFrom (RegistryState.step ⟨[65], 0, false⟩) (.initial [])
        [.spawn, .start 0 (.createRoute false false), .start 0 (.close 1), .run 0 [], .run 0 [],
          .run 0 [], .start 0 (.createClient true), .run 0 [], .run 0 [], .run 0 [],
          .start 0 (.close 2), .run 0 [], .run 0 [], .run 0 []] = some s ∧
      s.Quiescent ∧ (s.shared.conn 1).nc = false ∧ 1 ∈ s.shared.grTmpClients ∧
      (s.shared.conn 2).nc = false ∧ 2 ∈ s.shared.clients :=
  exists_run (by decide)

end Hnatsd.Server
