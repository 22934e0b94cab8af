import Hnatsd.Server.Proofs.RegistrySteps

/-!
# The number of clients that want INFO updates

`s.cproto` is raised by every CONNECT that asks for updates and lowered when a client that asked for
them is removed. As long as no connection asks twice, takes its wish back, or asks without being an
open client, it is the number of registered clients that want updates, up to the CONNECTs that have
yet to count themselves.
-/

namespace Hnatsd.Server
open Misc List RegistryTask

variable {cid : Nat}

/-- The registered connections that want INFO updates. -/
def Registry.wanting (r : Registry) : Nat :=
  r.clients.countP fun cid => (r.conn cid).opts.wantsInfo

/-- A CONNECT that counts itself comes from a registered open connection that did not want updates
before; any other leaves unchanged whether its connection wants them. -/
def CountsOnce (r : Registry) (_ : Multiset RegistryTask) : Doing RegistryOp RegistryTask → Prop
  | .start (.connect cid opts decoded _) =>
      if decoded = true ∧ opts.wantsInfo then
        cid ∈ r.clients ∧ (r.conn cid).nc = true ∧ ¬ (r.conn cid).opts.wantsInfo
      else opts.wantsInfo ↔ (r.conn cid).opts.wantsInfo
  | _ => True

instance (r : Registry) (bag : Multiset RegistryTask) (d : Doing RegistryOp RegistryTask) :
    Decidable (CountsOnce r bag d) := by
  unfold CountsOnce
  induction d using Doing.casesOn with
  | start op => induction op using RegistryOp.casesOn <;> infer_instance
  | run task => induction task using RegistryTask.casesOn <;> infer_instance

/-- The counter and the CONNECTs that have yet to count themselves are the clients that want
updates. -/
structure Registry.Counted (r : Registry) (bag : Multiset RegistryTask) : Prop where
  nodup : r.clients.Nodup
  count : r.cproto + bag.count .countProto = r.wanting
  pending : ∀ cid upd rID, .unregister cid upd rID ∈ bag →
    (upd = true ↔ (r.conn cid).typ = .client ∧ (r.conn cid).opts.wantsInfo)
  held : ∀ cid, (r.conn cid).typ = .client → (r.conn cid).opts.wantsInfo →
    ((r.conn cid).nc = true ∨ ∃ task ∈ bag, task.removes cid = true) → cid ∈ r.clients

namespace Registry

variable {cfg : RegistryConfig} {r r' : Registry} {d : Doing RegistryOp RegistryTask}
  {tasks : List RegistryTask} {others : Multiset RegistryTask}

theorem wanting_congr (clients : r'.clients = r.clients)
    (opts : ∀ cid ∈ r.clients, ((r'.conn cid).opts.wantsInfo ↔ (r.conn cid).opts.wantsInfo)) :
    r'.wanting = r.wanting := by
  rw [wanting, wanting, clients]
  refine countP_congr fun cid mem => ?_
  simp [opts cid mem]

/-- One client more wants updates. -/
theorem wanting_raise (nodup : r.clients.Nodup) (mem : cid ∈ r.clients)
    (clients : r'.clients = r.clients) (before : ¬ (r.conn cid).opts.wantsInfo)
    (after : (r'.conn cid).opts.wantsInfo) (rest : ∀ x ≠ cid, r'.conn x = r.conn x) :
    r'.wanting = r.wanting + 1 := by
  have split := perm_cons_erase mem
  have others : (r.clients.erase cid).countP (fun x => (r'.conn x).opts.wantsInfo) =
      (r.clients.erase cid).countP (fun x => (r.conn x).opts.wantsInfo) := by
    refine countP_congr fun x kept => ?_
    rw [rest x]
    exact ((List.Nodup.mem_erase_iff nodup).mp kept).1
  rw [wanting, wanting, clients, split.countP_eq, split.countP_eq, countP_cons_of_pos,
    countP_cons_of_neg, others]
  · simpa using before
  · simpa using after

theorem wanting_insert (unasked : ¬ (r.conn cid).opts.wantsInfo) :
    wanting { r with clients := r.clients.insert cid } = r.wanting := by
  unfold wanting
  by_cases mem : cid ∈ r.clients
  · simp only [insert_of_mem mem]
  · simp only [insert_of_not_mem mem]
    exact countP_cons_of_neg (by simpa using unasked)

theorem wanting_erase (wants : (r.conn cid).opts.wantsInfo → cid ∈ r.clients)
    (cproto : Int) :
    wanting { r with clients := r.clients.erase cid, cproto := cproto } +
      (if (r.conn cid).opts.wantsInfo then 1 else 0) = r.wanting := by
  unfold wanting
  by_cases mem : cid ∈ r.clients
  · rw [(perm_cons_erase mem).countP_eq, countP_cons]
    simp
  · have unwanted : ¬ (r.conn cid).opts.wantsInfo := fun w => mem (wants w)
    simp only [erase_of_not_mem mem, if_neg unwanted]
    rfl

theorem count_coe_add (task : RegistryTask) :
    (tasks + others : Multiset RegistryTask).count task = tasks.count task + others.count task := by
  rw [Multiset.count_add, Multiset.coe_count]

theorem count_countProto (loose : ∀ task ∈ tasks, task.Loose) : tasks.count .countProto = 0 :=
  count_eq_zero.mpr fun mem => loose _ mem

/-- A task that a region leaves and that is not loose. -/
theorem mem_others {task : RegistryTask} (mem : task ∈ (tasks + others : Multiset RegistryTask))
    (not : task ∉ tasks) : task ∈ (d.taken + others : Multiset RegistryTask) := by
  rcases Multiset.mem_add.mp mem with new | old
  · exact absurd new not
  · exact Multiset.mem_add.mpr (Or.inr old)

/-- A region that keeps the counter and the clients with what they want. A connection that it changes
otherwise is no client, wants nothing and is not being removed. -/
theorem Counted.carry (counted : r.Counted (d.taken + others)) (clients : r'.clients = r.clients)
    (cproto : r'.cproto = r.cproto)
    (conn : ∀ cid, ((r'.conn cid).typ = (r.conn cid).typ ∧
        ((r'.conn cid).opts.wantsInfo ↔ (r.conn cid).opts.wantsInfo) ∧
        ((r'.conn cid).nc = true ∨ (∃ task ∈ tasks, task.removes cid = true) →
          (r.conn cid).nc = true ∨ ∃ task ∈ d.taken, task.removes cid = true)) ∨
      cid ∉ r.clients ∧ ¬ (r'.conn cid).opts.wantsInfo ∧
        ∀ task ∈ (d.taken + others : Multiset RegistryTask), task.removes cid = false)
    (count : tasks.count .countProto = d.taken.count .countProto)
    (pending : ∀ cid upd rID, .unregister cid upd rID ∈ tasks →
      (upd = true ↔ (r'.conn cid).typ = .client ∧ (r'.conn cid).opts.wantsInfo)) :
    r'.Counted (tasks + others) := by
  refine ⟨?_, ?_, fun cid upd rID mem => ?_, fun cid typ wants removal => ?_⟩
  · rw [clients]
    exact counted.nodup
  · have before := counted.count
    have same : r'.wanting = r.wanting := wanting_congr clients fun cid mem => by
      rcases conn cid with ⟨-, wants, -⟩ | ⟨absent, -⟩
      · exact wants
      · exact absurd mem absent
    rw [count_coe_add] at before ⊢
    rw [count, cproto, same]
    exact before
  · rcases Multiset.mem_add.mp mem with new | old
    · exact pending cid upd rID new
    · have pends : .unregister cid upd rID ∈ (d.taken + others : Multiset RegistryTask) :=
        Multiset.mem_add.mpr (Or.inr old)
      rcases conn cid with ⟨typ, wants, -⟩ | ⟨-, -, kept⟩
      · rw [typ, wants]
        exact counted.pending cid upd rID pends
      · have := kept _ pends
        simp [RegistryTask.removes] at this
  · rcases conn cid with ⟨sameTyp, sameWants, kept⟩ | ⟨-, unwanted, -⟩
    · rw [clients]
      refine counted.held cid (sameTyp ▸ typ) (sameWants.mp wants) ?_
      -- a removal that is under way was so before, or the region goes on with one
      have fromTaken (before : (r.conn cid).nc = true ∨ ∃ task ∈ d.taken, task.removes cid = true) :
          (r.conn cid).nc = true ∨
            ∃ task ∈ (d.taken + others : Multiset RegistryTask), task.removes cid = true :=
        before.imp id (Exists.imp fun task => And.imp_left fun mem => Multiset.mem_add.mpr (Or.inl mem))
      rcases removal with nc | ⟨task, mem, removes⟩
      · exact fromTaken (kept (Or.inl nc))
      · rcases Multiset.mem_add.mp mem with new | old
        · exact fromTaken (kept (Or.inr ⟨task, new, removes⟩))
        · exact Or.inr ⟨task, Multiset.mem_add.mpr (Or.inr old), removes⟩
    · exact absurd wants unwanted

/-- A region that neither takes nor leaves anything that counts or removes. -/
theorem Counted.keep (counted : r.Counted (d.taken + others)) (clients : r'.clients = r.clients)
    (cproto : r'.cproto = r.cproto)
    (conn : ∀ cid, ((r'.conn cid).typ = (r.conn cid).typ ∧ (r'.conn cid).nc = (r.conn cid).nc ∧
        ((r'.conn cid).opts.wantsInfo ↔ (r.conn cid).opts.wantsInfo)) ∨
      cid ∉ r.clients ∧ ¬ (r'.conn cid).opts.wantsInfo ∧
        ∀ task ∈ (d.taken + others : Multiset RegistryTask), task.removes cid = false)
    (takes : ∀ task ∈ d.taken, task.Loose) (leaves : ∀ task ∈ tasks, task.Loose) :
    r'.Counted (tasks + others) := by
  refine counted.carry clients cproto (fun cid => (conn cid).imp_left ?_) ?_
    fun cid upd rID mem => (leaves _ mem).elim
  · rintro ⟨typ, nc, wants⟩
    refine ⟨typ, wants, fun removal => ?_⟩
    rcases removal with isOpen | ⟨task, mem, removes⟩
    · exact Or.inl (nc ▸ isOpen)
    · rw [(leaves task mem).not_removes] at removes
      cases removes
  · rw [count_countProto takes, count_countProto leaves]

/-- An open client that did not want updates asks for them. -/
theorem Counted.raise (life : r.Life (d.taken + others)) (counted : r.Counted (d.taken + others)) {c : Connection} (mem : cid ∈ r.clients) (isOpen : (r.conn cid).nc = true)
    (unwanted : ¬ (r.conn cid).opts.wantsInfo) (wants : c.opts.wantsInfo)
    (takes : d.taken = []) (count : tasks.count .countProto = 1)
    (leaves : ∀ task ∈ tasks, task = .countProto ∨ task.Free) :
    (r.setConn cid c).Counted (tasks + others) := by
  have here : (r.setConn cid c).conn cid = c := by rw [setConn_conn, if_pos rfl]
  have other {x : Nat} (ne : x ≠ cid) : (r.setConn cid c).conn x = r.conn x := by
    rw [setConn_conn, if_neg ne]
  have kept (task : RegistryTask) (x : Nat) (removes : task.removes x = true)
      (mem : task ∈ (tasks + others : Multiset RegistryTask)) :
      task ∈ (d.taken + others : Multiset RegistryTask) := by
    refine mem_others mem fun new => ?_
    rcases leaves task new with rfl | free
    · cases removes
    · rw [free.loose.not_removes] at removes
      cases removes
  refine ⟨counted.nodup, ?_, fun x upd rID pends => ?_, fun x typ wants removal => ?_⟩
  · have before := counted.count
    have raised : (r.setConn cid c).wanting = r.wanting + 1 :=
      wanting_raise counted.nodup mem rfl unwanted (here.symm ▸ wants) fun x ne => other ne
    rw [count_coe_add, takes, count_nil] at before
    rw [count_coe_add, count, raised]
    push_cast at before ⊢
    change r.cproto + _ = _
    omega
  · have pends := kept _ x (by simp [RegistryTask.removes]) pends
    have ne : x ≠ cid := by
      rintro rfl
      have := life.not_removed isOpen pends
      simp [RegistryTask.removes] at this
    rw [other ne]
    exact counted.pending x upd rID pends
  · by_cases same : x = cid
    · subst same
      exact mem
    · rw [other same] at typ wants removal
      exact counted.held x typ wants
        (removal.imp id (Exists.imp fun task both => ⟨kept task x both.2 both.1, both.2⟩))

/-- A client is removed. -/
theorem Counted.remove {upd : Bool} {rID : Option Bytes}
    (is : d = .run (.unregister cid upd rID)) (life : r.Life (d.taken + others))
    (counted : r.Counted (d.taken + others)) (typ : (r.conn cid).typ = .client) :
    Counted { r with
      clients := r.clients.erase cid
      cproto := if upd then r.cproto - 1 else r.cproto } others := by
  have takes : .unregister cid upd rID ∈ d.taken := by
    rw [is]
    exact mem_singleton_self _
  have removes : RegistryTask.removes cid (.unregister cid upd rID) = true := decide_eq_true rfl
  have here := mem_taken is others
  have old {task : RegistryTask} (mem : task ∈ others) :
      task ∈ (d.taken + others : Multiset RegistryTask) := Multiset.mem_add.mpr (Or.inr mem)
  obtain ⟨closed, nobody⟩ := life.removed takes removes
  refine ⟨counted.nodup.erase cid, ?_, fun x u id mem => counted.pending x u id (old mem),
    fun x isClient wants removal => ?_⟩
  · have before := counted.count
    have counts := counted.pending cid upd rID here
    have taken : d.taken.count .countProto = 0 := by
      rw [is]
      rfl
    have erased := wanting_erase (fun wants => counted.held cid typ wants (Or.inr ⟨_, here, removes⟩))
      (if upd then r.cproto - 1 else r.cproto)
    rw [count_coe_add, taken, ← erased] at before
    dsimp only
    by_cases wants : (r.conn cid).opts.wantsInfo
    · rw [counts.mpr ⟨typ, wants⟩] at before ⊢
      simp only [wants, if_true] at before ⊢
      push_cast at before
      omega
    · rw [Bool.eq_false_iff.mpr fun is => wants (counts.mp is).2] at before ⊢
      simp only [wants, if_false] at before ⊢
      push_cast at before
      simpa using before
  · have ne : x ≠ cid := by
      rintro rfl
      rcases removal with nc | ⟨task, mem, removes⟩
      · rw [closed] at nc
        cases nc
      · rw [nobody task mem] at removes
        cases removes
    refine (mem_erase_of_ne ne).mpr (counted.held x isClient wants ?_)
    exact removal.imp id fun ⟨task, mem, removes⟩ => ⟨task, old mem, removes⟩

theorem Counted.region (life : r.Life (d.taken + others)) (counted : r.Counted (d.taken + others))
    (guard : CountsOnce r (d.taken + others) d) (effect : r.Effect d r' tasks) :
    r'.Counted (tasks + others) := by
  cases effect with
  | quiet alike ids takes leaves =>
    refine counted.keep alike.clients alike.cproto (fun cid => Or.inl ?_) takes
      fun task mem => (leaves task mem).loose
    exact ⟨alike.typ cid, alike.nc cid, by rw [alike.opts]⟩
  | create c takes nc opts own gcid conn route clients routes remotes cproto kept =>
    refine counted.keep clients cproto (fun cid => ?_) (fun task mem => (takes task mem).loose) ?_
    · rw [conn, Function.update_apply]
      split_ifs with new
      · refine Or.inr ⟨fun mem => ?_, ?_, fun task mem => ?_⟩
        · have := life.listed cid mem
          omega
        · rw [opts]
          decide
        · exact life.not_removed_new (by omega) mem
      · exact Or.inl ⟨rfl, rfl, Iff.rfl⟩
    · rcases kept with ⟨-, -, ⟨-, rfl⟩ | ⟨-, rfl⟩⟩ | ⟨-, -, rfl⟩ <;> simp [Loose]
  | connect cid opts decoded authorized is c eq typ nc isOpts route started still count leaves =>
    subst is eq
    simp only [CountsOnce] at guard
    split_ifs at guard count with counts
    · obtain ⟨mem, isOpen, unwanted⟩ := guard
      exact counted.raise life mem isOpen unwanted (isOpts ▸ counts.2) rfl count leaves
    · refine counted.keep rfl rfl (fun x => Or.inl ?_) (by rintro _ ⟨⟩) fun task mem => ?_
      · rw [setConn_conn]
        split_ifs with here
        · rw [here, isOpts]
          exact ⟨typ, nc, guard⟩
        · exact ⟨rfl, rfl, Iff.rfl⟩
      · rcases leaves task mem with rfl | free
        · exact absurd mem (count_eq_zero.mp count)
        · exact free.loose
  | insert cid is eq leaves =>
    have unstarted := (life.starts (mem_taken is others) (decide_eq_true rfl)).2
    have unwanted : ¬ (r.conn cid).opts.wantsInfo := by
      rw [life.unstarted cid unstarted]
      decide
    subst is eq leaves
    refine ⟨counted.nodup.insert, ?_, fun x upd rID mem => ?_, fun x typ wants removal => ?_⟩
    · have before := counted.count
      rw [count_coe_add] at before ⊢
      rw [wanting_insert unwanted]
      exact before
    · exact counted.pending x upd rID (mem_others mem (by simp))
    · refine mem_insert_of_mem (counted.held x typ wants ?_)
      refine removal.imp id ?_
      rintro ⟨task, mem, removes⟩
      refine ⟨task, mem_others mem ?_, removes⟩
      simp only [mem_singleton]
      rintro rfl
      cases removes
  | begins cid takes nc tmp eq kept leaves =>
    subst eq leaves
    refine counted.keep rfl rfl (fun x => Or.inl ?_) ?_ (by rintro _ ⟨⟩)
    · rw [setConn_conn]
      split_ifs with here
      · rw [here]
        exact ⟨rfl, rfl, Iff.rfl⟩
      · exact ⟨rfl, rfl, Iff.rfl⟩
    · rcases kept with ⟨rfl, -⟩ | ⟨rfl, -⟩ <;> simp [Doing.taken, Loose]
  | count is eq leaves =>
    subst is eq leaves
    have before := counted.count
    rw [count_coe_add] at before
    refine ⟨counted.nodup, ?_, fun x upd rID mem => ?_, fun x typ wants removal => ?_⟩
    · rw [count_coe_add]
      simp only [Doing.taken, count_singleton_self, count_nil] at before ⊢
      push_cast at before ⊢
      change r.cproto + 1 + (0 + _) = (r.wanting : Int)
      omega
    · exact counted.pending x upd rID (mem_others mem (by rintro ⟨⟩))
    · exact counted.held x typ wants
        (removal.imp id (Exists.imp fun task => And.imp_left fun mem => mem_others mem (by rintro ⟨⟩)))
  | assign cid i id is object alike ids leaves =>
    refine counted.keep alike.clients alike.cproto (fun cid => Or.inl ?_) ?_
      fun task mem => (leaves task mem).loose
    · exact ⟨alike.typ cid, alike.nc cid, by rw [alike.opts]⟩
    · rcases is with ⟨rfl, -⟩ | ⟨⟨parses, urls, rfl⟩, -⟩ <;> simp [Doing.taken, Loose]
  | upgrade remote cid i is object routed eq leaves =>
    subst is eq leaves
    refine counted.keep rfl rfl (fun x => Or.inl ?_) (by simp [Doing.taken, Loose]) (by rintro _ ⟨⟩)
    rw [setConn_conn]
    split_ifs with here
    · rw [here]
      exact ⟨rfl, rfl, Iff.rfl⟩
    · exact ⟨rfl, rfl, Iff.rfl⟩
  | enlist cid id urls is absent eq leaves =>
    subst is eq leaves
    exact counted.keep rfl rfl (fun x => Or.inl ⟨rfl, rfl, Iff.rfl⟩)
      (by simp [Doing.taken, Loose]) (by simp [Loose])
  | close cid is nc eq leaves =>
    subst is eq leaves
    refine counted.carry rfl rfl (fun x => Or.inl ?_) rfl (by simp)
    rw [setConn_conn]
    split_ifs with here
    · subst here
      exact ⟨rfl, Iff.rfl, fun _ => Or.inl nc⟩
    · refine ⟨rfl, Iff.rfl, fun removal => Or.inl (removal.resolve_right ?_)⟩
      simpa [RegistryTask.removes] using Ne.symm here
  | remove cid is eq leaves =>
    subst is eq leaves
    refine counted.carry rfl rfl (fun x => Or.inl ⟨rfl, Iff.rfl, ?_⟩) rfl ?_
    · simp [removeClient, Doing.taken, RegistryTask.removes]
    · intro x upd rID mem
      simp only [removeClient, mem_singleton] at mem
      cases mem
      simp
  | unregister cid updateProtoInfoCount rID is eq leaves =>
    subst eq leaves
    by_cases typ : (r.conn cid).typ = .client
    · have removed := counted.remove is life typ
      rw [unregister, typ, Multiset.coe_nil, zero_add]
      exact removed
    · obtain ⟨clients, cproto⟩ := unregister_of_ne_client typ updateProtoInfoCount rID
      have conn := (unregister_fields r cid updateProtoInfoCount rID).2.1
      subst is
      refine counted.carry clients cproto (fun x => Or.inl ?_) rfl (by simp)
      rw [conn]
      exact ⟨rfl, Iff.rfl, fun removal => Or.inl (removal.resolve_right (by simp))⟩

end Registry

section Runs

variable {cfg : RegistryConfig} {urls : List Bytes} {as : List RegistryAction} {s : RegistryState}

theorem Registry.Counted.run
    (along : Along (RegistryState.step cfg) (Threaded.Guarded CountsOnce) (.initial urls) as)
    (ran : runFrom (RegistryState.step cfg) (.initial urls) as = some s) :
    s.shared.Counted s.bag :=
  invariant_of_effects (fun life inv guard effect => inv.region life guard effect)
    ⟨nodup_nil, rfl, nofun, nofun⟩ along ran

/-- While no CONNECT has yet to count itself, `s.cproto` is the number of registered connections that
want INFO updates, and `sendAsyncInfoToClients` goes through all of them. -/
theorem cproto_exact
    (along : Along (RegistryState.step cfg) (Threaded.Guarded CountsOnce) (.initial urls) as)
    (ran : runFrom (RegistryState.step cfg) (.initial urls) as = some s)
    (counted : ¬ s.Pends .countProto) :
    s.shared.cproto = s.shared.clients.countP (fun cid => (s.shared.conn cid).opts.wantsInfo) ∧
      ∀ cid ∈ s.shared.clients, (s.shared.conn cid).opts.wantsInfo →
        ∀ order r tasks, s.shared.run cfg order .sendAsyncInfoToClients = some (r, tasks) →
          .asyncInfo cid s.shared.urls ∈ tasks := by
  have exact' := (Registry.Counted.run along ran).count
  have none : s.bag.count .countProto = 0 :=
    Multiset.count_eq_zero.mpr fun mem => counted (Threaded.mem_bag.mp mem)
  rw [none, Int.natCast_zero, Int.add_zero] at exact'
  refine ⟨exact', fun cid mem wants order r tasks ran => ?_⟩
  have pos : 0 < s.shared.wanting := countP_pos_iff.mpr ⟨cid, mem, decide_eq_true wants⟩
  simp only [Registry.run] at ran
  rw [if_neg (by omega)] at ran
  split_ifs at ran with perm
  cases ran
  exact mem_map.mpr ⟨cid, perm.mem_iff.mpr mem, rfl⟩

end Runs

/-- A client that is created and started on thread 0 and read on thread 1. -/
def oneClient : List RegistryAction :=
  [.spawn, .spawn, .start 0 (.createClient false), .run 0 [], .run 0 [], .run 0 [],
    .start 1 (.readLoop 1)]

def plainConfig : RegistryConfig := ⟨[65], 0, false⟩

theorem cproto_exact_one :
    ∃ s, runFrom (RegistryState.step plainConfig) (.initial [])
        (oneClient ++ [.start 1 (.connect 1 { protocol := 1 } true true), .run 1 []]) = some s ∧
      s.shared.cproto = s.shared.clients.countP (fun cid => (s.shared.conn cid).opts.wantsInfo) ∧
      s.shared.cproto = 1 :=
  exists_run_imp (P := fun s => ¬ s.Pends .countProto ∧ s.shared.cproto = 1)
    (fun _ ran final => ⟨(cproto_exact (by decide) ran final.1).1, final.2⟩)
    (by decide)

/-- A client that sends its CONNECT twice is counted twice. -/
theorem cproto_counts_twice :
    ∃ s, runFrom (RegistryState.step plainConfig) (.initial [])
        (oneClient ++ [.start 1 (.connect 1 { protocol := 1 } true true), .run 1 [],
          .start 1 (.connect 1 { protocol := 1 } true true), .run 1 []]) = some s ∧
      s.Quiescent ∧ s.shared.cproto = 2 ∧
      s.shared.clients.countP (fun cid => (s.shared.conn cid).opts.wantsInfo) = 1 :=
  exists_run (by decide)

end Hnatsd.Server
