import Hnatsd.Server.Proofs.SubscriptionTables

/-!
# Interest at the other end of a route

The other server's table after all lines on their way, `final`, is compared with the tables of the
open local clients. An entry too many is on its way out as long as an UNSUB of its rsid is still to
be written, an entry that is missing is on its way in as long as its SUB is. Nothing orders the lines
of different goroutines, so this is kept only by runs that write no line whose correction has already
been written.
-/

namespace Hnatsd.Server
open Misc List Interest Function

variable {r : Bytes} {e : Bytes × Option Bytes} {p : Interest × List Task} {cid t : Nat}
  {x : Subscription}

/-- The lines collected for the route and not written yet. -/
def RouteAt.buffer : RouteAt → List RouteLine
  | .collecting _ buf | .collected buf => buf
  | .absent | .added | .ready => []

/-- The client's table is still to be collected for the route. -/
def RouteAt.Awaits (cid : Nat) : RouteAt → Prop
  | .absent | .added => True
  | .collecting left _ => cid ∈ left
  | .collected _ | .ready => False

instance (cid : Nat) : (route : RouteAt) → Decidable (route.Awaits cid)
  | .absent | .added => isTrue trivial
  | .collecting left _ => inferInstanceAs (Decidable (cid ∈ left))
  | .collected _ | .ready => isFalse id

namespace Interest

/-- A subscription in the table of its client, which is open and local. -/
def Interested (s : Interest) (x : Subscription) : Prop :=
  (s.client x.client).nc = true ∧ (s.client x.client).typ ≠ .router ∧
    (x.sid, x) ∈ (s.client x.client).subs

instance (s : Interest) (x : Subscription) : Decidable (s.Interested x) :=
  inferInstanceAs (Decidable (_ ∧ _ ∧ _))

/-- The entry of the route table is that of an interested subscription. -/
def Held (s : Interest) (r : Bytes) (e : Bytes × Option Bytes) : Prop :=
  ∃ x ∈ s.known, s.Interested x ∧ routeSid x = r ∧ (x.subject, x.queue) = e

instance (s : Interest) (r : Bytes) (e : Bytes × Option Bytes) : Decidable (s.Held r e) :=
  inferInstanceAs (Decidable (∃ x ∈ s.known, _))

instance (s : Interest) (task : Task) : Decidable (s.Pends task) :=
  inferInstanceAs (Decidable (∃ tasks ∈ s.threads, _))

/-- An UNSUB line for the rsid is still to be written, for a subscription that is no longer
interested. -/
def Unsubs (s : Interest) (r : Bytes) : Prop :=
  (∃ y ∈ s.known, ¬ s.Interested y ∧ routeSid y = r ∧
    (s.Pends (.broadcastUnSubscribe y) ∨ s.Pends (.makeUnsub y))) ∨
  s.Pends (.broadcastInterestToRoutes (.unsub r none))

instance (s : Interest) (r : Bytes) : Decidable (s.Unsubs r) :=
  inferInstanceAs (Decidable ((∃ y ∈ s.known, _) ∨ _))

/-- The SUB line of a subscription is still to be written. -/
def Announces (s : Interest) (x : Subscription) : Prop :=
  s.Pends (.broadcastSubscribe x) ∨ s.Pends (.broadcastInterestToRoutes (subLine x)) ∨
    subLine x ∈ s.route.buffer ∨ s.route.Awaits x.client

instance (s : Interest) (x : Subscription) : Decidable (s.Announces x) :=
  inferInstanceAs (Decidable (_ ∨ _ ∨ _ ∨ _))

/-- A line that does not leave the other server with a wrong entry, or none, for good: a SUB for a
subscription that is in the table of its open client, or whose UNSUB is still to come, and an UNSUB
that keeps the entry, or whose rsid has been given to a subscription whose SUB is still to come. -/
def LineInOrder (s : Interest) : RouteLine → Prop
  | .sub subject queue rsid => s.Held rsid (subject, queue) ∨ s.Unsubs rsid
  | .unsub rsid max =>
      0 < max.getD 0 ∨ ∀ y ∈ s.known, s.Interested y → routeSid y = rsid → s.Announces y

instance (s : Interest) : (line : RouteLine) → Decidable (s.LineInOrder line)
  | .sub subject queue rsid => inferInstanceAs (Decidable (s.Held rsid (subject, queue) ∨ _))
  | .unsub _ _ => inferInstanceAs (Decidable (_ ∨ ∀ y ∈ s.known, _))

/-- The same for the next task of a thread. An UNSUB with a `max`, which the other server keeps the
entry for, is made up for a subscription that is in the table of its open client. -/
def TaskInOrder (s : Interest) : Task → Prop
  | .makeUnsub x => 0 < s.max x.ptr ∧ s.nm x.ptr < s.max x.ptr → s.Interested x
  | .broadcastInterestToRoutes line => s.LineInOrder line
  | _ => True

instance (s : Interest) : (task : Task) → Decidable (s.TaskInOrder task)
  | .makeUnsub _ => inferInstanceAs (Decidable (_ → _))
  | .broadcastInterestToRoutes line => inferInstanceAs (Decidable (s.LineInOrder line))
  | .unsubscribe _ | .broadcastSubscribe _ | .broadcastUnSubscribe _ | .closeConnection _
  | .removeClient _ | .remove _ => isTrue trivial

/-- The lines written by a step are in order. -/
def WritesInOrder (s : Interest) : InterestAction → Prop
  | .run t => ∀ task ∈ (s.threads[t]?).bind head?, s.TaskInOrder task
  | .sendLocalSubs => ∀ line ∈ s.route.buffer, s.LineInOrder line
  | _ => True

instance (s : Interest) : (a : InterestAction) → Decidable (s.WritesInOrder a)
  | .run t => inferInstanceAs (Decidable (∀ task ∈ (s.threads[t]?).bind head?, _))
  | .sendLocalSubs => inferInstanceAs (Decidable (∀ line ∈ s.route.buffer, _))
  | .accept _ | .spawn | .sub _ _ _ _ _ | .unsub _ _ _ | .deliver _ _ _ | .close _ _ | .addRoute
  | .collect _ | .collectClient | .collected | .peer => isTrue trivial

/-- The other server's table when it has read every line that has been written. -/
def final (s : Interest) : List (Bytes × Bytes × Option Bytes) := s.wire.foldl peerReads s.peer

end Interest

/-! ## The other server's table -/

section Peer

variable (peer : List (Bytes × Bytes × Option Bytes))

theorem peerReads_sub (subject : Bytes) (queue : Option Bytes) (r r' : Bytes) :
    (Interest.peerReads peer (.sub subject queue r)).lookup r' =
      if r' = r then some ((peer.lookup r).getD (subject, queue)) else peer.lookup r' := by
  simp only [Interest.peerReads]
  split
  · rename_i e found
    split_ifs with here
    · rw [here, found, Option.getD_some]
    · rfl
  · rename_i free
    rw [lookup_assocSet, free, Option.getD_none]

theorem peerReads_keeps (r : Bytes) (max : Option Nat) (keeps : 0 < max.getD 0) :
    Interest.peerReads peer (.unsub r max) = peer :=
  if_pos keeps

theorem peerReads_removes (r r' : Bytes) (max : Option Nat) (removes : ¬ 0 < max.getD 0) :
    (Interest.peerReads peer (.unsub r max)).lookup r' = if r' = r then none else peer.lookup r' := by
  simp only [Interest.peerReads, if_neg removes]
  exact lookup_assocErase peer r r'

theorem peerReads_keys (unique : UniqueKeys peer) (line : RouteLine) :
    UniqueKeys (Interest.peerReads peer line) := by
  cases line with
  | sub subject queue r =>
    simp only [Interest.peerReads]
    split
    · exact unique
    · exact unique.set r _
  | unsub r max =>
    simp only [Interest.peerReads]
    split_ifs
    · exact unique
    · exact unique.erase r

variable {peer}

/-- An entry was there before the line, or is the line's. -/
theorem peerReads_some {line : RouteLine}
    (found : (Interest.peerReads peer line).lookup r = some e) :
    peer.lookup r = some e ∨ line = .sub e.1 e.2 r := by
  cases line with
  | sub subject queue r' =>
    rw [peerReads_sub] at found
    split_ifs at found with here
    · subst here
      cases old : peer.lookup r with
      | none =>
        rw [old, Option.getD_none] at found
        cases found
        exact Or.inr rfl
      | some e' =>
        rw [old, Option.getD_some] at found
        exact Or.inl found
    · exact Or.inl found
  | unsub r' max =>
    by_cases keeps : 0 < max.getD 0
    · rw [peerReads_keeps peer r' max keeps] at found
      exact Or.inl found
    · rw [peerReads_removes peer r' r max keeps] at found
      split_ifs at found
      exact Or.inl found

theorem foldl_peerReads_some {lines : List RouteLine}
    (found : (lines.foldl Interest.peerReads peer).lookup r = some e) :
    peer.lookup r = some e ∨ RouteLine.sub e.1 e.2 r ∈ lines := by
  induction lines generalizing peer with
  | nil => exact Or.inl found
  | cons line rest ih =>
    rcases ih found with before | later
    · rcases peerReads_some before with old | rfl
      · exact Or.inl old
      · exact Or.inr mem_cons_self
    · exact Or.inr (mem_cons_of_mem _ later)

/-- SUB lines add entries. -/
theorem foldl_peerReads_sub {lines : List RouteLine} (subs : ∀ line ∈ lines, ∃ x, line = subLine x) (absent : (lines.foldl Interest.peerReads peer).lookup r = none) :
    peer.lookup r = none ∧ ∀ x, routeSid x = r → subLine x ∉ lines := by
  induction lines generalizing peer with
  | nil => exact ⟨absent, fun _ _ => not_mem_nil⟩
  | cons line rest ih =>
    obtain ⟨x, rfl⟩ := subs line mem_cons_self
    obtain ⟨before, later⟩ := ih (fun line mem => subs line (mem_cons_of_mem _ mem)) absent
    rw [subLine, peerReads_sub] at before
    split_ifs at before with here
    refine ⟨before, fun y isRsid mem => ?_⟩
    rcases mem_cons.mp mem with same | inRest
    · injection same with _ _ rsid
      exact here (isRsid.symm.trans rsid)
    · exact later y isRsid inRest

end Peer

/-! ## Threads, clients and the route -/

/-- Behind an `unsubscribe` for a local client stands its broadcast. -/
def Interest.Paired (s : Interest) : List Task → Prop
  | [] => True
  | task :: rest =>
      (∀ y, task = .unsubscribe y → (s.client y.client).typ ≠ .router →
        Task.broadcastUnSubscribe y ∈ rest) ∧ Paired s rest

/-- What holds of threads, clients and the route whatever lines are written. -/
structure Interest.Routing (s : Interest) : Prop where
  fresh : ∀ cid, s.gcid < cid → (s.client cid).typ ≠ .router
  paired : ∀ tasks ∈ s.threads, s.Paired tasks
  registered : ∀ cid, (s.client cid).nc = true → (s.client cid).typ ≠ .router → cid ∈ s.clients
  removed : ∀ cid, s.Pends (.removeClient cid) → cid ≤ s.gcid ∧ (s.client cid).nc = false
  absent : s.route = .absent → s.final = []
  buffered : ∀ line ∈ s.route.buffer, ∃ x, line = subLine x
  keys : UniqueKeys s.final

section Routing

variable {g : Grow} {s s' : Interest} {a : InterestAction}

namespace Interest

theorem Paired.append {front rest : List Task} (none' : ∀ y, Task.unsubscribe y ∉ front)
    (paired : s.Paired rest) : s.Paired (front ++ rest) := by
  induction front with
  | nil => exact paired
  | cons task front ih =>
    refine ⟨fun y eq => ?_, ih fun y mem => none' y (mem_cons_of_mem _ mem)⟩
    exact absurd (eq ▸ mem_cons_self) (none' y)

theorem paired_unsub (s₀ : Interest) (sub : Subscription) (client : s₀.client = s.client) :
    s.Paired (.unsubscribe sub :: s₀.forward sub.client [.broadcastUnSubscribe sub]) := by
  refine ⟨fun y eq localClient => ?_, ?_⟩
  · cases eq
    rw [forward, client, if_neg localClient]
    exact mem_singleton_self _
  · unfold forward
    split_ifs
    · trivial
    · exact ⟨(by rintro _ ⟨⟩), trivial⟩

theorem Starts.paired (tables : s.Tables)
    (starts : s.Starts g a t p) : s.Paired p.2 := by
  cases starts with
  | sub cid subject queue sid permitted =>
    simp only [processSub]
    split_ifs
    · trivial
    · trivial
    · split
      · trivial
      · split
        · trivial
        · unfold forward
          split_ifs
          · trivial
          · exact ⟨(by rintro _ ⟨⟩), trivial⟩
  | unsub cid sid max =>
    simp only [processUnsub]
    split
    · trivial
    · rename_i sub found
      obtain ⟨-, -, of⟩ := tables.entries cid sid sub (mem_of_lookup found)
      rw [← of]
      exact paired_unsub s sub rfl
  | deliver t sub outcome known =>
    have deferred {s₀ : Interest} (client : s₀.client = s.client) {now : Prop} [Decidable now] :
        s.Paired (if now then .unsubscribe sub :: s₀.forward sub.client [.broadcastUnSubscribe sub]
          else []) := by
      split_ifs
      · exact paired_unsub s₀ sub client
      · trivial
    simp only [deliverMsg]
    split
    · exact paired_unsub _ sub rfl
    · split
      · exact deferred rfl
      · split
        · exact deferred rfl
        · exact deferred rfl
        · exact ⟨(by rintro _ ⟨⟩), deferred rfl⟩
  | close t cid => exact ⟨(by rintro _ ⟨⟩), trivial⟩

/-- Clients keep their kind. -/
theorem Effect.typ (effect : s.Effect a s')
    (fresh : ∀ cid, s.gcid < cid → (s.client cid).typ ≠ .router)
    (localClient : (s'.client cid).typ ≠ .router) : (s.client cid).typ ≠ .router := by
  cases effect with
  | none _ _ _ client | remove _ _ _ _ _ _ client => exact client ▸ localClient
  | accept typ _ _ _ client _ =>
    rw [client, update_apply] at localClient
    split_ifs at localClient with here
    · exact fresh cid (by omega)
    · exact localClient
  | insert _ _ _ _ _ _ _ client _ | delete _ _ _ _ _ _ _ client | close _ _ _ _ _ client _ =>
    rw [client, update_apply] at localClient
    split_ifs at localClient with here
    · exact here ▸ localClient
    · exact localClient

theorem Effect.fresh (effect : s.Effect a s')
    (fresh : ∀ cid, s.gcid < cid → (s.client cid).typ ≠ .router) (cid : Nat)
    (later : s'.gcid < cid) : (s'.client cid).typ ≠ .router := by
  cases effect with
  | none gcid _ _ client | remove _ _ _ gcid _ _ client =>
    rw [client]
    exact fresh cid (gcid ▸ later)
  | accept typ gcid _ _ client _ =>
    have other : cid ≠ s.gcid + 1 := by omega
    rw [client, update_of_ne other]
    exact fresh cid (by omega)
  | insert _ _ _ _ gcid _ _ client _ | delete _ _ _ _ gcid _ _ client | close _ _ gcid _ _ client _ =>
    have before := fresh cid (gcid ▸ later)
    rw [client, update_apply]
    split_ifs with here
    · exact here ▸ before
    · exact before

theorem Paired.mono {tasks : List Task} (paired : s.Paired tasks)
    (typ : ∀ cid, (s'.client cid).typ ≠ .router → (s.client cid).typ ≠ .router) :
    s'.Paired tasks := by
  induction tasks with
  | nil => trivial
  | cons task rest ih =>
    exact ⟨fun y eq localClient => paired.1 y eq (typ _ localClient), ih paired.2⟩

theorem Moved.paired (moved : s.Moved g a s') (tables : s.Tables)
    (routing : s.Routing) (tasks : List Task) (mem : tasks ∈ s'.threads) : s'.Paired tasks := by
  refine Paired.mono ?_ fun _ => (moved.effect tables.ledger).1.typ routing.fresh
  cases moved.pending mem with
  | old mem => exact routing.paired tasks mem
  | idle none' => exact none' ▸ trivial
  | start t p starts eq => exact eq ▸ starts.paired tables
  | run task rest p running ran client eq =>
    rw [eq]
    exact Paired.append (fun y mem => nomatch runTask_follows ran mem)
      (routing.paired _ running).2

theorem Effect.gcid (effect : s.Effect a s') : s.gcid ≤ s'.gcid := by
  cases effect with
  | accept typ gcid _ _ _ _ => omega
  | none gcid _ _ _ | insert _ _ _ _ gcid _ _ _ _ | delete _ _ _ _ gcid _ _ _
  | close _ _ gcid _ _ _ _ | remove _ _ _ gcid _ _ _ => exact gcid.ge

theorem Moved.removed (moved : s.Moved g a s') (tables : s.Tables)
    (routing : s.Routing) (cid : Nat) (pends : s'.Pends (.removeClient cid)) :
    cid ≤ s'.gcid ∧ (s'.client cid).nc = false := by
  obtain ⟨tasks, mem, isTask⟩ := pends
  obtain ⟨effect, -⟩ := moved.effect tables.ledger
  have old {tasks : List Task} (mem : tasks ∈ s.threads) (isTask : .removeClient cid ∈ tasks) :
      cid ≤ s'.gcid ∧ (s'.client cid).nc = false := by
    obtain ⟨issued, closed⟩ := routing.removed cid ⟨tasks, mem, isTask⟩
    exact ⟨issued.trans effect.gcid, effect.closed issued closed⟩
  cases moved.pending mem with
  | old mem => exact old mem isTask
  | idle none' =>
    subst none'
    cases isTask
  | start t p starts eq =>
    subst eq
    exact False.elim (starts.starting isTask)
  | run task rest p running ran client eq =>
    rcases mem_append.mp (eq ▸ isTask) with new | later
    · cases runTask_follows ran new with
      | removeClient cid isOpen =>
        exact ⟨(tables.opened cid isOpen).trans effect.gcid, client ▸ runTask_closed ran⟩
    · exact old running (mem_cons_of_mem _ later)

theorem runTask_clients {task : Task}
    (ran : s.runTask g task = some p) (mem : cid ∈ s.clients) :
    cid ∈ p.1.clients ∨ task = .removeClient cid := by
  cases task with
  | unsubscribe sub =>
    cases ran
    simp only [unsubscribe]
    split_ifs
    · exact Or.inl mem
    · simp only [remove]
      split <;> exact Or.inl mem
  | remove sub =>
    cases ran
    simp only [remove]
    split <;> exact Or.inl mem
  | closeConnection c =>
    cases ran
    simp only [closeConnection]
    split_ifs <;> exact Or.inl mem
  | removeClient c =>
    simp only [runTask] at ran
    split_ifs at ran
    cases ran
    by_cases same : cid = c
    · exact Or.inr (same ▸ rfl)
    · simp only [removeClient]
      split_ifs
      · exact Or.inl (mem_filter.mpr ⟨mem, decide_eq_true same⟩)
      · exact Or.inl mem
  | makeUnsub sub =>
    cases ran
    exact Or.inl mem
  | broadcastSubscribe sub | broadcastUnSubscribe sub | broadcastInterestToRoutes line =>
    simp only [runTask] at ran
    split_ifs at ran <;> cases ran <;> exact Or.inl mem

theorem Starts.clients (starts : s.Starts g a t p) :
    p.1.clients = s.clients ∧ p.1.route = s.route ∧ p.1.wire = s.wire ∧ p.1.peer = s.peer := by
  cases starts with
  | sub cid subject queue sid permitted =>
    simp only [processSub]
    split_ifs
    · exact ⟨rfl, rfl, rfl, rfl⟩
    · exact ⟨rfl, rfl, rfl, rfl⟩
    · split
      · exact ⟨rfl, rfl, rfl, rfl⟩
      · split <;> exact ⟨rfl, rfl, rfl, rfl⟩
  | unsub cid sid max =>
    obtain ⟨max', limits, eq⟩ := s.processUnsub_fields cid sid max
    rw [eq]
    exact ⟨rfl, rfl, rfl, rfl⟩
  | deliver t sub outcome known =>
    obtain ⟨nm, attempts, written, eq⟩ := s.deliverMsg_fields sub outcome
    rw [eq]
    exact ⟨rfl, rfl, rfl, rfl⟩
  | close t cid => exact ⟨rfl, rfl, rfl, rfl⟩

/-- A client stays registered until `removeClient`. -/
theorem Moved.clients (moved : s.Moved g a s') (mem : cid ∈ s.clients) :
    cid ∈ s'.clients ∨ s.Pends (.removeClient cid) := by
  cases moved with
  | accept typ =>
    refine Or.inl ?_
    dsimp only
    split_ifs
    · exact mem
    · exact mem_append_left _ mem
  | start idle starts => exact Or.inl (starts.clients.1 ▸ mem)
  | run running ran =>
    rcases runTask_clients ran mem with stays | rfl
    · exact Or.inl stays
    · exact Or.inr ⟨_, mem_of_getElem? running, mem_cons_self⟩
  | spawn | addRoute | collect | collectClient | collected | sendLocalSubs | peer => exact Or.inl mem

theorem Moved.registered (moved : s.Moved g a s') (tables : s.Tables)
    (routing : s.Routing) (cid : Nat) (isOpen : (s'.client cid).nc = true)
    (localClient : (s'.client cid).typ ≠ .router) : cid ∈ s'.clients := by
  obtain ⟨effect, -⟩ := moved.effect tables.ledger
  have stillOpen (issued : cid ≤ s.gcid) : ¬ (s.client cid).nc = false := fun closed => by
    rw [effect.closed issued closed] at isOpen
    cases isOpen
  by_cases issued : cid ≤ s.gcid
  · have before := routing.registered cid (Bool.not_eq_false _ ▸ stillOpen issued)
      (effect.typ routing.fresh localClient)
    refine (moved.clients before).resolve_right fun pends => ?_
    exact stillOpen issued (routing.removed cid pends).2
  · have issued' := (effect.subTables tables.toSubTables).opened cid isOpen
    cases effect with
    | accept typ gcid _ _ client clients =>
      obtain rfl : cid = s.gcid + 1 := by omega
      rw [client, update_self] at localClient
      rw [clients, if_neg localClient]
      exact mem_append_right _ (mem_singleton_self _)
    | none gcid _ _ _ | insert _ _ _ _ gcid _ _ _ _ | delete _ _ _ _ gcid _ _ _
    | close _ _ gcid _ _ _ _ | remove _ _ _ gcid _ _ _ => omega

/-- What a step does to the route and to the lines written. -/
inductive Lines (s : Interest) (a : InterestAction) (s' : Interest) : Prop where
  | none (route : s'.route = s.route) (final : s'.final = s.final)
  | write (t : Nat) (line : RouteLine) (ran : a = .run t)
      (head : (s.threads[t]?).bind List.head? = some (.broadcastInterestToRoutes line))
      (present : s.route ≠ .absent) (route : s'.route = s.route)
      (final : s'.final = peerReads s.final line)
  | addRoute (absent : s.route = .absent) (route : s'.route = .added) (final : s'.final = s.final)
  | collect (order : List Nat) (added : s.route = .added) (all : order.Perm s.clients)
      (route : s'.route = .collecting order []) (final : s'.final = s.final)
  | collectClient (cid : Nat) (left : List Nat) (buf : List RouteLine)
      (collecting : s.route = .collecting (cid :: left) buf)
      (route : s'.route =
        .collecting left (buf ++ (s.client cid).subs.map fun e => subLine e.2))
      (client : s'.client = s.client) (final : s'.final = s.final)
  | collected (buf : List RouteLine) (collecting : s.route = .collecting [] buf)
      (route : s'.route = .collected buf) (final : s'.final = s.final)
  | sendLocalSubs (buf : List RouteLine) (ran : a = .sendLocalSubs)
      (collected : s.route = .collected buf) (route : s'.route = .ready)
      (final : s'.final = buf.foldl peerReads s.final)

theorem runTask_lines {task : Task}
    (head : (s.threads[t]?).bind head? = some task)
    (ran : s.runTask g task = some p) (tasks : List Task) :
    s.Lines (.run t) (p.1.setTasks t tasks) := by
  cases task with
  | unsubscribe sub =>
    cases ran
    simp only [unsubscribe]
    split_ifs
    · exact .none rfl rfl
    · simp only [remove]
      split <;> exact .none rfl rfl
  | remove sub =>
    cases ran
    simp only [remove]
    split <;> exact .none rfl rfl
  | closeConnection c =>
    cases ran
    simp only [closeConnection]
    split_ifs <;> exact .none rfl rfl
  | removeClient c =>
    simp only [runTask] at ran
    split_ifs at ran
    cases ran
    simp only [removeClient]
    split_ifs <;> exact .none rfl rfl
  | makeUnsub sub =>
    cases ran
    exact .none rfl rfl
  | broadcastSubscribe sub | broadcastUnSubscribe sub =>
    simp only [runTask] at ran
    split_ifs at ran <;> cases ran <;> exact .none rfl rfl
  | broadcastInterestToRoutes line =>
    simp only [runTask] at ran
    split_ifs at ran with unlocked absent <;> cases ran
    · exact .none rfl rfl
    · refine .write t line rfl head (fun none' => absent (decide_eq_true none')) rfl ?_
      exact foldl_concat ..

theorem Moved.lines (moved : s.Moved g a s') : s.Lines a s' := by
  cases moved with
  | accept typ => exact .none rfl rfl
  | spawn => exact .none rfl rfl
  | start idle starts =>
    obtain ⟨-, route, wire, peer⟩ := starts.clients
    exact .none route (congrArg₂ (foldl peerReads) peer wire)
  | run running ran => exact runTask_lines (by rw [running]; rfl) ran _
  | addRoute absent => exact .addRoute absent rfl rfl
  | collect order added all => exact .collect order added all rfl rfl
  | collectClient collecting => exact .collectClient _ _ _ collecting rfl rfl rfl
  | collected collecting => exact .collected _ collecting rfl rfl
  | sendLocalSubs collected => exact .sendLocalSubs _ rfl collected rfl foldl_append
  | peer next =>
    refine .none rfl ?_
    show _ = s.wire.foldl peerReads s.peer
    rw [next]
    rfl

theorem routing_initial : Interest.Routing {} where
  fresh _ _ := nofun
  paired _ mem := nomatch mem
  registered _ isOpen := nomatch isOpen
  removed _ pends := by
    obtain ⟨tasks, mem, -⟩ := pends
    cases mem
  absent _ := rfl
  buffered _ mem := nomatch mem
  keys := nodup_nil

theorem Lines.absent (lines : s.Lines a s') (routing : s.Routing)
    (absent : s'.route = .absent) : s'.final = [] := by
  cases lines with
  | none route final => exact final.trans (routing.absent (route ▸ absent))
  | write t line ran head present route final => exact absurd (route ▸ absent) present
  | addRoute _ route _ | collect _ _ _ route _ | collectClient _ _ _ _ route _ _
  | collected _ _ route _ | sendLocalSubs _ _ _ route _ =>
    rw [route] at absent
    cases absent

theorem Lines.buffered (lines : s.Lines a s') (routing : s.Routing) (line : RouteLine)
    (mem : line ∈ s'.route.buffer) : ∃ x, line = subLine x := by
  cases lines with
  | none route final | write _ _ _ _ _ route final => exact routing.buffered line (route ▸ mem)
  | addRoute absent route final | collect order added all route final
  | sendLocalSubs buf ran collected route final =>
    rw [route] at mem
    cases mem
  | collectClient cid left buf collecting route client final =>
    rw [route] at mem
    rcases mem_append.mp mem with old | new
    · exact routing.buffered line (collecting ▸ old)
    · obtain ⟨e, -, eq⟩ := mem_map.mp new
      exact ⟨e.2, eq.symm⟩
  | collected buf collecting route final =>
    rw [route] at mem
    exact routing.buffered line (collecting ▸ mem)

end Interest

theorem foldl_peerReads_keys {peer : List (Bytes × Bytes × Option Bytes)}
    (unique : UniqueKeys peer) (lines : List RouteLine) :
    UniqueKeys (lines.foldl Interest.peerReads peer) := by
  induction lines generalizing peer with
  | nil => exact unique
  | cons line rest ih => exact ih (peerReads_keys peer unique line)

theorem Interest.Lines.keys (lines : s.Lines a s') (routing : s.Routing) : UniqueKeys s'.final := by
  cases lines with
  | none _ final | addRoute _ _ final | collect _ _ _ _ final | collectClient _ _ _ _ _ _ final
  | collected _ _ _ final => exact final ▸ routing.keys
  | write _ line _ _ _ _ final => exact final ▸ peerReads_keys _ routing.keys line
  | sendLocalSubs buf _ _ _ final => exact final ▸ foldl_peerReads_keys routing.keys buf

theorem Interest.Routing.step (routing : s.Routing) (tables : s.Tables)
    (stepped : s.step g a = some s') : s'.Routing := by
  have moved := step_moved stepped
  exact {
    fresh := (moved.effect tables.ledger).1.fresh routing.fresh
    paired := moved.paired tables routing
    registered := moved.registered tables routing
    removed := moved.removed tables routing
    absent := moved.lines.absent routing
    buffered := moved.lines.buffered routing
    keys := moved.lines.keys routing }

end Routing

/-! ## Entries too many and entries missing -/

section Converging

variable {g : Grow} {s s' : Interest} {a : InterestAction}

namespace Interest

/-- A subscription becomes interested when it is new, with its SUB line to be written. -/
theorem Effect.interested (effect : s.Effect a s') (tables : s.Tables)
    (interested : s'.Interested x) :
    s.Interested x ∨ (x ∉ s.known ∧ s'.Pends (.broadcastSubscribe x)) := by
  obtain ⟨isOpen, localClient, entry⟩ := interested
  cases effect with
  | none _ _ _ client | remove _ _ _ _ _ _ client =>
    rw [client] at isOpen localClient entry
    exact Or.inl ⟨isOpen, localClient, entry⟩
  | accept typ _ _ _ client _ =>
    rw [client, update_apply] at isOpen localClient entry
    split_ifs at isOpen localClient entry
    · cases entry
    · exact Or.inl ⟨isOpen, localClient, entry⟩
  | insert sub _ ptr _ _ _ _ client pends =>
    rw [client, update_apply] at isOpen localClient entry
    split_ifs at isOpen localClient entry with here
    · rcases mem_assocSet entry with eq | ⟨old, -⟩
      · obtain rfl := (Prod.mk.inj eq).2
        exact Or.inr ⟨tables.fresh ptr, pends localClient⟩
      · rw [← here] at isOpen localClient old
        exact Or.inl ⟨isOpen, localClient, old⟩
    · exact Or.inl ⟨isOpen, localClient, entry⟩
  | delete _ sub _ _ _ _ _ client =>
    rw [client, update_apply] at isOpen localClient entry
    split_ifs at isOpen localClient entry with here
    · have old := (mem_assocErase entry).1
      rw [← here] at isOpen localClient old
      exact Or.inl ⟨isOpen, localClient, old⟩
    · exact Or.inl ⟨isOpen, localClient, entry⟩
  | close cid _ _ _ _ client _ =>
    rw [client, update_apply] at isOpen localClient entry
    split_ifs at isOpen localClient entry
    exact Or.inl ⟨isOpen, localClient, entry⟩

/-- A subscription stays interested until a step that leaves its UNSUB line to be written. -/
theorem Moved.loses (moved : s.Moved g a s') (tables : s.Tables) (routing : s.Routing)
    (own : s.OwnEntry a) (interested : s.Interested x) :
    s'.Interested x ∨ s'.Pends (.broadcastUnSubscribe x) := by
  obtain ⟨isOpen, localClient, entry⟩ := interested
  obtain ⟨effect, -⟩ := moved.effect tables.ledger
  unfold Interest.Interested
  cases effect with
  | none _ _ _ client | remove _ _ _ _ _ _ client =>
    rw [client]
    exact Or.inl ⟨isOpen, localClient, entry⟩
  | accept typ _ _ _ client _ =>
    have issued := tables.opened _ isOpen
    have other : x.client ≠ s.gcid + 1 := by omega
    rw [client, update_of_ne other]
    exact Or.inl ⟨isOpen, localClient, entry⟩
  | insert sub _ _ free _ _ _ client _ =>
    rw [client, update_apply]
    split_ifs with here
    · rw [here] at isOpen localClient entry
      refine Or.inl ⟨isOpen, localClient, mem_assocSet_of_ne entry fun sid => ?_⟩
      rw [← sid, (tables.keys _).lookup_of_mem entry] at free
      cases free
    · exact Or.inl ⟨isOpen, localClient, entry⟩
  | delete t sub ran head _ _ _ client =>
    subst ran
    by_cases same : x = sub
    · subst same
      obtain ⟨rest, p, running, ran, rfl⟩ := moved.runs head
      have behind := (routing.paired _ (mem_of_getElem? running)).1 x rfl localClient
      exact Or.inr (pends_run running ran (mem_append_right _ behind))
    · rw [client, update_apply]
      split_ifs with here
      · rw [here] at isOpen localClient entry
        refine Or.inl ⟨isOpen, localClient, mem_assocErase_of_ne entry fun sid => same ?_⟩
        exact own sub head isOpen x (sid ▸ (tables.keys _).lookup_of_mem entry)
      · exact Or.inl ⟨isOpen, localClient, entry⟩
  | close cid _ _ _ _ client pends =>
    by_cases here : x.client = cid
    · subst here
      exact Or.inr (pends localClient _ entry)
    · rw [client, update_of_ne here]
      exact Or.inl ⟨isOpen, localClient, entry⟩

theorem Moved.held (moved : s.Moved g a s') (tables : s.Tables) (routing : s.Routing)
    (own : s.OwnEntry a) (held : s.Held r e) :
    s'.Held r e ∨ s'.Unsubs r := by
  obtain ⟨x, isKnown, interested, rsid, fields⟩ := held
  have isKnown' := (moved.effect tables.ledger).1.known.subset isKnown
  by_cases still : s'.Interested x
  · exact Or.inl ⟨x, isKnown', still, rsid, fields⟩
  · have pends := (moved.loses tables routing own interested).resolve_left still
    exact Or.inr (Or.inl ⟨x, isKnown', still, rsid, Or.inl pends⟩)

/-- The route was not there when the thread looked. -/
theorem noRoutes_absent (noRoutes : s.noRoutes = true) : s.route = .absent :=
  of_decide_eq_true noRoutes

/-- The UNSUB line of a subscription that is not interested is on its way until it is written. -/
theorem Moved.unsubs (moved : s.Moved g a s') (tables : s.Tables) (routing : s.Routing)
    (inOrder : s.WritesInOrder a) (unsubs : s.Unsubs r) :
    s'.Unsubs r ∨ s'.final.lookup r = none := by
  obtain ⟨effect, -⟩ := moved.effect tables.ledger
  rcases unsubs with ⟨y, isKnown, notInterested, rsid, pends⟩ | pends
  · have isKnown' := effect.known.subset isKnown
    have notInterested' : ¬ s'.Interested y := fun interested =>
      (effect.interested tables interested).elim notInterested fun new => new.1 isKnown
    rcases pends with broadcasts | makes
    · rcases moved.pends broadcasts with still | ⟨t, rfl, head⟩
      · exact Or.inl (Or.inl ⟨y, isKnown', notInterested', rsid, Or.inl still⟩)
      · obtain ⟨rest, p, running, ran, rfl⟩ := moved.runs head
        have ran' := ran
        simp only [runTask] at ran
        split_ifs at ran with unlocked absent
        · cases ran
          refine Or.inr ?_
          show s.final.lookup r = none
          rw [routing.absent (noRoutes_absent absent)]
          rfl
        · cases ran
          exact Or.inl (Or.inl ⟨y, isKnown', notInterested', rsid, Or.inr
            (pends_run running ran' mem_cons_self)⟩)
    · rcases moved.pends makes with still | ⟨t, rfl, head⟩
      · exact Or.inl (Or.inl ⟨y, isKnown', notInterested', rsid, Or.inr still⟩)
      · obtain ⟨rest, p, running, ran, rfl⟩ := moved.runs head
        have limit : ¬ (0 < s.max y.ptr ∧ s.nm y.ptr < s.max y.ptr) := fun limited =>
          notInterested (inOrder (.makeUnsub y) head limited)
        refine Or.inl (Or.inr (pends_run running ran ?_))
        cases ran
        rw [unsubLine, if_neg limit, rsid]
        exact mem_cons_self
  · rcases moved.pends pends with still | ⟨t, rfl, head⟩
    · exact Or.inl (Or.inr still)
    · obtain ⟨rest, p, running, ran, rfl⟩ := moved.runs head
      simp only [runTask] at ran
      split_ifs at ran with unlocked absent <;> cases ran <;> refine Or.inr ?_
      · show s.final.lookup r = none
        rw [routing.absent (noRoutes_absent absent)]
        rfl
      · show ((s.wire ++ _).foldl peerReads s.peer).lookup r = none
        rw [foldl_concat, peerReads_removes _ _ _ _ (by simp), if_pos rfl]

/-- A new entry comes from a SUB line in order. -/
theorem Lines.found (lines : s.Lines a s') (inOrder : s.WritesInOrder a) (found : s'.final.lookup r = some e) :
    s.final.lookup r = some e ∨ s.Held r e ∨ s.Unsubs r := by
  cases lines with
  | none _ final | addRoute _ _ final | collect _ _ _ _ final | collectClient _ _ _ _ _ _ final
  | collected _ _ _ final => exact Or.inl (final ▸ found)
  | write t line ran head present route final =>
    subst ran
    rw [final] at found
    rcases peerReads_some found with old | rfl
    · exact Or.inl old
    · exact Or.inr (inOrder _ head)
  | sendLocalSubs buf ran collected route final =>
    subst ran
    rw [final] at found
    rcases foldl_peerReads_some found with old | new
    · exact Or.inl old
    · exact Or.inr (inOrder (.sub e.1 e.2 r) (by rw [collected]; exact new))

/-- An entry is removed by an UNSUB line in order. -/
theorem Lines.lost (lines : s.Lines a s') (tables : s.Tables) (routing : s.Routing)
    (inOrder : s.WritesInOrder a) (lost : s'.final.lookup r = Option.none) :
    s.final.lookup r = Option.none ∨ ∀ x, s.Interested x → routeSid x = r → s.Announces x := by
  cases lines with
  | none _ final | addRoute _ _ final | collect _ _ _ _ final | collectClient _ _ _ _ _ _ final
  | collected _ _ _ final => exact Or.inl (final ▸ lost)
  | write t line ran head present route final =>
    subst ran
    rw [final] at lost
    cases line with
    | sub subject queue rsid =>
      rw [peerReads_sub] at lost
      split_ifs at lost
      exact Or.inl lost
    | unsub rsid max =>
      rcases inOrder _ head with keeps | announced
      · rw [peerReads_keeps _ _ _ keeps] at lost
        exact Or.inl lost
      · by_cases keeps : 0 < max.getD 0
        · rw [peerReads_keeps _ _ _ keeps] at lost
          exact Or.inl lost
        · rw [peerReads_removes _ _ _ _ keeps] at lost
          split_ifs at lost with here
          · refine Or.inr fun x interested isRsid => ?_
            exact announced x (tables.entries _ _ x interested.2.2).1 interested (isRsid.trans here)
          · exact Or.inl lost
  | sendLocalSubs buf ran collected route final =>
    rw [final] at lost
    have subs := routing.buffered
    rw [collected] at subs
    exact Or.inl (foldl_peerReads_sub subs lost).1

/-- The SUB line of an interested subscription is on its way until it is written. -/
theorem Moved.announces (moved : s.Moved g a s') (routing : s.Routing)
    (interested : s.Interested x) (announces : s.Announces x) :
    s'.Announces x ∨ s'.final.lookup (routeSid x) ≠ none := by
  have lines := moved.lines
  rcases announces with broadcasts | sends | buffered | awaits
  · rcases moved.pends broadcasts with still | ⟨t, rfl, head⟩
    · exact Or.inl (Or.inl still)
    · obtain ⟨rest, p, running, ran, rfl⟩ := moved.runs head
      have ran' := ran
      simp only [runTask] at ran
      split_ifs at ran with unlocked absent
      · cases ran
        refine Or.inl (Or.inr (Or.inr (Or.inr ?_)))
        show s.route.Awaits x.client
        rw [noRoutes_absent absent]
        trivial
      · cases ran
        exact Or.inl (Or.inr (Or.inl (pends_run running ran' mem_cons_self)))
  · rcases moved.pends sends with still | ⟨t, rfl, head⟩
    · exact Or.inl (Or.inr (Or.inl still))
    · obtain ⟨rest, p, running, ran, rfl⟩ := moved.runs head
      simp only [runTask] at ran
      split_ifs at ran with unlocked absent <;> cases ran
      · refine Or.inl (Or.inr (Or.inr (Or.inr ?_)))
        show s.route.Awaits x.client
        rw [noRoutes_absent absent]
        trivial
      · refine Or.inr ?_
        show ((s.wire ++ _).foldl peerReads s.peer).lookup (routeSid x) ≠ none
        rw [foldl_concat, subLine, peerReads_sub, if_pos rfl]
        rintro ⟨⟩
  · cases lines with
    | none route _ | write _ _ _ _ _ route _ =>
      exact Or.inl (Or.inr (Or.inr (Or.inl (route ▸ buffered))))
    | addRoute before route _ | collect _ before _ route _ =>
      rw [before] at buffered
      cases buffered
    | collectClient cid left buf collecting route _ _ =>
      rw [collecting] at buffered
      refine Or.inl (Or.inr (Or.inr (Or.inl ?_)))
      rw [route]
      exact mem_append_left _ buffered
    | collected buf collecting route _ =>
      rw [collecting] at buffered
      exact Or.inl (Or.inr (Or.inr (Or.inl (route ▸ buffered))))
    | sendLocalSubs buf _ collected route final =>
      have subs := routing.buffered
      rw [collected] at subs buffered
      rw [final]
      exact Or.inr fun lost => (foldl_peerReads_sub subs lost).2 x rfl buffered
  · refine Or.inl (Or.inr (Or.inr ?_))
    cases lines with
    | none route _ | write _ _ _ _ _ route _ => exact Or.inr (route ▸ awaits)
    | addRoute _ route _ => exact Or.inr (route ▸ trivial)
    | collect order _ all route _ =>
      rw [route]
      exact Or.inr (all.mem_iff.mpr (routing.registered _ interested.1 interested.2.1))
    | collectClient cid left buf collecting route _ _ =>
      rw [collecting] at awaits
      rw [route]
      rcases mem_cons.mp awaits with here | later
      · refine Or.inl (mem_append_right _ (mem_map.mpr ⟨(x.sid, x), ?_, rfl⟩))
        exact here ▸ interested.2.2
      · exact Or.inr later
    | collected buf before _ _ | sendLocalSubs buf _ before _ _ =>
      rw [before] at awaits
      cases awaits

/-- Every wrong entry and every missing entry at the other server has its correction on the way. -/
structure Converging (s : Interest) : Prop where
  tables : s.Tables
  routing : s.Routing
  ghost : ∀ r e, s.final.lookup r = some e → s.Held r e ∨ s.Unsubs r
  missing : ∀ x, s.Interested x → s.final.lookup (routeSid x) = none → s.Announces x

theorem Converging.step (inv : s.Converging) (inOrder : s.OwnEntry a ∧ s.WritesInOrder a)
    (stepped : s.step g a = some s') : s'.Converging := by
  have moved := step_moved stepped
  obtain ⟨tables, routing, ghost, missing⟩ := inv
  refine ⟨tables.step stepped, routing.step tables stepped, fun r e found => ?_,
    fun x interested lost => ?_⟩
  · have before : s.Held r e ∨ s.Unsubs r :=
      (moved.lines.found inOrder.2 found).elim (ghost r e) id
    rcases before with held | unsubs
    · exact moved.held tables routing inOrder.1 held
    · refine Or.inr ((moved.unsubs tables routing inOrder.2 unsubs).resolve_right fun none' => ?_)
      rw [found] at none'
      cases none'
  · rcases (moved.effect tables.ledger).1.interested tables interested with before | ⟨-, new⟩
    · have announces : s.Announces x :=
        (moved.lines.lost tables routing inOrder.2 lost).elim (missing x before)
          fun announced => announced x before rfl
      exact (moved.announces routing before announces).resolve_right (not_not.mpr lost)
    · exact Or.inl new

end Interest

end Converging

/-- The rsid has the cid and the sid in it. -/
theorem routeSid_injective {y : Subscription} (same : routeSid x = routeSid y) :
    x.client = y.client ∧ x.sid = y.sid := by
  have text (sub : Subscription) : routeSid sub =
      (if 0 < (sub.queue.getD []).length then [81] else []) ++
        82 :: 83 :: 73 :: 68 :: 58 :: (decimal sub.client ++ 58 :: sub.sid) := by
    have q : bytesOf "Q" = [81] := by decide
    have rsid : bytesOf "RSID:" = [82, 83, 73, 68, 58] := by decide
    have colon : bytesOf ":" = [58] := by decide
    simp [routeSid, q, rsid, colon]
  rw [text, text] at same
  have rest : decimal x.client ++ 58 :: x.sid = decimal y.client ++ 58 :: y.sid := by
    split_ifs at same
    · simpa using same
    · simp at same
    · simp at same
    · simpa using same
  exact decimal_append_inj (by decide) rest

theorem Interest.converging_initial : Interest.Converging {} where
  tables := tables_initial
  routing := routing_initial
  ghost _ _ found := nomatch found
  missing _ interested := nomatch interested.1

/-- No thread has anything left to do, every line has been read and the route is set up. -/
def Interest.Quiescent (s : Interest) : Prop :=
  (∀ tasks ∈ s.threads, tasks = []) ∧ s.wire = [] ∧ s.route = .ready

theorem Interest.Quiescent.not_pends {s : Interest} (quiescent : s.Quiescent) (task : Task) :
    ¬ s.Pends task := by
  rintro ⟨tasks, mem, isTask⟩
  rw [quiescent.1 tasks mem] at isTask
  cases isTask

/-- With nothing left to do the other server holds the interest of the open local clients, if every
line was written in order. -/
theorem route_interest_converges (g : Grow) (actions : List InterestAction) (s : Interest)
    (along : Along (step g) (fun s a => s.OwnEntry a ∧ s.WritesInOrder a) {} actions)
    (ran : runFrom (step g) {} actions = some s) (quiescent : s.Quiescent)
    (r subject : Bytes) (queue : Option Bytes) :
    (r, subject, queue) ∈ s.peer ↔
      ∃ cid sid x, (s.client cid).nc = true ∧ (s.client cid).typ ≠ .router ∧
        (sid, x) ∈ (s.client cid).subs ∧ routeSid x = r ∧ x.subject = subject ∧ x.queue = queue := by
  obtain ⟨tables, routing, ghost, missing⟩ : s.Converging :=
    invariant_of_along (fun _ _ _ inv inOrder => inv.step inOrder)
      converging_initial along ran
  have final : s.final = s.peer := by
    unfold Interest.final
    rw [quiescent.2.1]
    rfl
  rw [final] at ghost missing
  have unique := final ▸ routing.keys
  have held {r : Bytes} {e : Bytes × Option Bytes} (found : s.peer.lookup r = some e) : s.Held r e := by
    refine (ghost r e found).resolve_right ?_
    rintro (⟨y, -, -, -, pends | pends⟩ | pends)
    · exact quiescent.not_pends _ pends
    · exact quiescent.not_pends _ pends
    · exact quiescent.not_pends _ pends
  constructor
  · intro mem
    obtain ⟨x, -, ⟨isOpen, localClient, entry⟩, rsid, fields⟩ := held (unique.lookup_of_mem mem)
    exact ⟨x.client, x.sid, x, isOpen, localClient, entry, rsid, (Prod.mk.inj fields).1,
      (Prod.mk.inj fields).2⟩
  · rintro ⟨cid, sid, x, isOpen, localClient, entry, rfl, rfl, rfl⟩
    obtain ⟨-, rfl, rfl⟩ := tables.entries cid sid x entry
    have interested : s.Interested x := ⟨isOpen, localClient, entry⟩
    cases found : s.peer.lookup (routeSid x) with
    | none =>
      rcases missing x interested found with pends | pends | buffered | awaits
      · exact absurd pends (quiescent.not_pends _)
      · exact absurd pends (quiescent.not_pends _)
      · rw [quiescent.2.2] at buffered
        cases buffered
      · rw [quiescent.2.2] at awaits
        cases awaits
    | some e =>
      obtain ⟨y, -, other, rsid, rfl⟩ := held found
      obtain ⟨client, isSid⟩ := routeSid_injective rsid
      -- the entry of the same rsid is that of the same table entry
      have inTable := other.2.2
      rw [client, isSid] at inTable
      have same := (tables.keys x.client).lookup_of_mem inTable
      rw [(tables.keys x.client).lookup_of_mem entry] at same
      cases same
      exact mem_of_lookup found

/-- A route is set up with a client, which subscribes twice, the second time in a queue group, and
takes the first one back after one message. -/
def routedRun : List InterestAction :=
  [.accept .client, .spawn, .addRoute, .collect [1], .collectClient, .collected, .sendLocalSubs,
    .sub 1 (bytesOf "foo") none (bytesOf "1") true, .run 0, .run 0, .peer,
    .sub 1 (bytesOf "bar") (some (bytesOf "q")) (bytesOf "2") true, .run 0, .run 0,
    .unsub 1 (bytesOf "1") 1, .run 0, .run 0, .run 0, .run 0, .peer, .peer,
    .deliver 1 ⟨0, bytesOf "foo", none, 1, bytesOf "1"⟩ .ok, .run 1, .run 1, .run 1, .run 1, .peer]

theorem route_interest_converges_run : ∃ s,
    runFrom (step Grow.double) {} routedRun = some s ∧
      s.peer = [(bytesOf "QRSID:1:2", bytesOf "bar", some (bytesOf "q"))] ∧
      ∀ r subject queue, (r, subject, queue) ∈ s.peer ↔
        ∃ cid sid x, (s.client cid).nc = true ∧ (s.client cid).typ ≠ .router ∧
          (sid, x) ∈ (s.client cid).subs ∧ routeSid x = r ∧ x.subject = subject ∧
          x.queue = queue := by
  refine exists_run_imp (P := fun s =>
    ((∀ tasks ∈ s.threads, tasks = []) ∧ s.wire = [] ∧ s.route = .ready) ∧
      s.peer = [(bytesOf "QRSID:1:2", bytesOf "bar", some (bytesOf "q"))])
    (fun s ran final => ⟨final.2, ?_⟩) (by decide +kernel)
  exact route_interest_converges Grow.double routedRun s (by decide +kernel) ran final.1

/-- A client limits its subscription to five messages and closes: the UNSUB of the close has the
limit in it, and the other server keeps the entry. -/
theorem route_interest_kept : ∃ s,
    runFrom (step Grow.double) {}
      [.accept .client, .addRoute, .collect [1], .collectClient, .collected, .sendLocalSubs,
        .sub 1 (bytesOf "foo") none (bytesOf "1") true, .run 0, .run 0, .peer,
        .unsub 1 (bytesOf "1") 5, .run 0, .run 0, .run 0, .run 0, .peer,
        .close 0 1, .run 0, .run 0, .run 0, .run 0, .run 0, .run 0, .peer] = some s ∧
      s.threads = [[]] ∧ s.wire = [] ∧ s.route = .ready ∧ s.gcid = 1 ∧
      (s.client 1).nc = false ∧ s.peer = [(bytesOf "RSID:1:1", bytesOf "foo", none)] :=
  exists_run (by decide +kernel)

end Hnatsd.Server
