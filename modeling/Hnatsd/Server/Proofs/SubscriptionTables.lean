import Hnatsd.Server.Proofs.InterestSteps

/-!
# The subscription tables and the sublist

`unsubscribe` deletes from the client's table by sid and from the sublist by identity. As long as
the entry it finds under the sid is its own, the sublist holds what the tables of the open clients
hold. A late `unsubscribe`, for a subscription whose sid has been given to a new one, takes the new
one out of the table and leaves it in the sublist.
-/

namespace Hnatsd.Server
open Misc List Interest Function

variable {sub x : Subscription}

/-- Subscriptions have addresses of their own, and tables hold what has been inserted, under its
sid. -/
structure SubTables (known live : List Subscription) (gcid : Nat) (client : Nat → Subscriber) :
    Prop where
  numbered : ∀ (i : Nat) (x : Subscription), known[i]? = some x → x.ptr = i
  issued : ∀ x ∈ known, x.client ≤ gcid
  opened : ∀ cid, (client cid).nc = true → cid ≤ gcid
  inserted : ∀ x ∈ live, x ∈ known
  once : live.Nodup
  keys : ∀ cid, UniqueKeys (client cid).subs
  entries : ∀ cid sid x, (sid, x) ∈ (client cid).subs → x ∈ known ∧ x.sid = sid ∧ x.client = cid

/-- The sublist holds the subscriptions of open clients that are in their tables. -/
def TablesAgree (live : List Subscription) (client : Nat → Subscriber) : Prop :=
  ∀ cid, (client cid).nc = true → ∀ x, x.client = cid → (x ∈ live ↔ (x.sid, x) ∈ (client cid).subs)

section Tables

variable {known live : List Subscription} {gcid : Nat} {client : Nat → Subscriber}

namespace SubTables

section

variable (tables : SubTables known live gcid client)
include tables

theorem ptr_lt (mem : x ∈ known) : x.ptr < known.length := by
  obtain ⟨i, found⟩ := getElem?_of_mem mem
  rw [tables.numbered i x found]
  exact (List.getElem?_eq_some_iff.mp found).1

/-- The subscription at an address that has not been given away is new. -/
theorem fresh (ptr : x.ptr = known.length) : x ∉ known :=
  fun mem => (tables.ptr_lt mem).ne ptr

/-- An address belongs to one subscription. -/
theorem ptr_injective {y : Subscription}
    (inX : x ∈ known) (inY : y ∈ known) (ptr : x.ptr = y.ptr) : x = y := by
  obtain ⟨i, foundX⟩ := getElem?_of_mem inX
  obtain ⟨j, foundY⟩ := getElem?_of_mem inY
  have isX := tables.numbered i x foundX
  have isY := tables.numbered j y foundY
  have same : i = j := by omega
  rw [same, foundY] at foundX
  exact (Option.some.inj foundX).symm

theorem accept (typ : ClientKind)
    (reader : Nat) : SubTables known live (gcid + 1)
      (update client (gcid + 1) ⟨typ, true, [], reader⟩) where
  numbered := tables.numbered
  issued x mem := Nat.le_succ_of_le (tables.issued x mem)
  opened c isOpen := by
    rw [update_apply] at isOpen
    split_ifs at isOpen with here
    · exact here.le
    · exact Nat.le_succ_of_le (tables.opened c isOpen)
  inserted := tables.inserted
  once := tables.once
  keys c := by
    rw [update_apply]
    split_ifs
    · exact nodup_nil
    · exact tables.keys c
  entries c sid x mem := by
    rw [update_apply] at mem
    split_ifs at mem
    · cases mem
    · exact tables.entries c sid x mem

theorem insert (isOpen : (client sub.client).nc = true) (ptr : sub.ptr = known.length) :
    SubTables (known ++ [sub]) (sub :: live) gcid (update client sub.client
      { client sub.client with subs := assocSet (client sub.client).subs sub.sid sub }) where
  numbered i x found := by
    rcases Nat.lt_or_ge i known.length with old | past
    · rw [getElem?_append_left old] at found
      exact tables.numbered i x found
    · rw [getElem?_append_right past, getElem?_singleton] at found
      split_ifs at found with first
      cases found
      omega
  issued x mem := by
    rcases mem_append.mp mem with old | added
    · exact tables.issued x old
    · rw [mem_singleton.mp added]
      exact tables.opened _ isOpen
  opened c isOpen' := by
    rw [update_apply] at isOpen'
    split_ifs at isOpen' with here
    · exact here ▸ tables.opened _ isOpen
    · exact tables.opened c isOpen'
  inserted x mem := by
    rcases mem_cons.mp mem with rfl | old
    · exact mem_append_right _ (mem_singleton_self _)
    · exact mem_append_left _ (tables.inserted x old)
  once := nodup_cons.mpr ⟨fun mem => tables.fresh ptr (tables.inserted sub mem), tables.once⟩
  keys c := by
    rw [update_apply]
    split_ifs
    · exact (tables.keys _).set sub.sid sub
    · exact tables.keys c
  entries c sid x mem := by
    rw [update_apply] at mem
    split_ifs at mem with here
    · rcases mem_assocSet mem with eq | ⟨old, -⟩
      · cases eq
        exact ⟨mem_append_right _ (mem_singleton_self _), rfl, here.symm⟩
      · obtain ⟨isKnown, isSid, isClient⟩ := tables.entries _ sid x old
        exact ⟨mem_append_left _ isKnown, isSid, isClient.trans here.symm⟩
    · obtain ⟨isKnown, isSid, isClient⟩ := tables.entries c sid x mem
      exact ⟨mem_append_left _ isKnown, isSid, isClient⟩

theorem remove (sub : Subscription) :
    SubTables known (live.erase sub) gcid client :=
  { tables with
    inserted := fun x mem => tables.inserted x (mem_of_mem_erase mem)
    once := tables.once.erase sub }

/-- A client whose table has lost entries, or which has been closed. -/
theorem update {cid : Nat} {c : Subscriber}
    (nc : c.nc = true → (client cid).nc = true) (subs : c.subs.Sublist (client cid).subs) :
    SubTables known live gcid (update client cid c) :=
  { tables with
    opened := fun cid' isOpen => by
      rw [update_apply] at isOpen
      split_ifs at isOpen with here
      · exact here ▸ tables.opened cid (nc isOpen)
      · exact tables.opened cid' isOpen
    keys := fun cid' => by
      rw [update_apply]
      split_ifs
      · exact List.Nodup.sublist (subs.map Prod.fst) (tables.keys cid)
      · exact tables.keys cid'
    entries := fun cid' sid x mem => by
      rw [update_apply] at mem
      split_ifs at mem with here
      · exact here ▸ tables.entries cid sid x (subs.subset mem)
      · exact tables.entries cid' sid x mem }

end

end SubTables

namespace TablesAgree

section

variable (agrees : TablesAgree live client)
include agrees

theorem accept (tables : SubTables known live gcid client) (typ : ClientKind) (reader : Nat) :
    TablesAgree live (update client (gcid + 1) ⟨typ, true, [], reader⟩) := by
  intro c isOpen x of
  rw [update_apply] at isOpen ⊢
  split_ifs at isOpen ⊢ with here
  · refine ⟨fun mem => ?_, fun mem => nomatch mem⟩
    have issued := tables.issued x (tables.inserted x mem)
    omega
  · exact agrees c isOpen x of

theorem insert (tables : SubTables known live gcid client)
    (free : (client sub.client).subs.lookup sub.sid = none) :
    TablesAgree (sub :: live) (update client sub.client
      { client sub.client with subs := assocSet (client sub.client).subs sub.sid sub }) := by
  intro c isOpen x of
  rw [update_apply] at isOpen ⊢
  split_ifs at isOpen ⊢ with here
  · subst here
    have agree := agrees _ isOpen x of
    by_cases same : x = sub
    · subst same
      exact ⟨fun _ => mem_cons_self, fun _ => mem_cons_self⟩
    · constructor
      · intro mem
        have old := agree.mp ((mem_cons.mp mem).resolve_left same)
        refine mem_assocSet_of_ne old fun sid => ?_
        rw [← sid, (tables.keys _).lookup_of_mem old] at free
        cases free
      · intro mem
        rcases mem_assocSet mem with eq | ⟨old, -⟩
        · exact absurd (Prod.mk.inj eq).2 same
        · exact mem_cons_of_mem _ (agree.mpr old)
  · have other : x ≠ sub := by
      rintro rfl
      exact here of.symm
    rw [mem_cons, or_iff_right other]
    exact agrees c isOpen x of

/-- The entry that `unsubscribe` finds under the sid is its own. -/
theorem delete (tables : SubTables known live gcid client)
    (own : (client sub.client).nc = true → ∀ y,
      (client sub.client).subs.lookup sub.sid = some y → y = sub) :
    TablesAgree (live.erase sub) (update client sub.client
      { client sub.client with subs := assocErase (client sub.client).subs sub.sid }) := by
  intro c isOpen x of
  rw [update_apply] at isOpen ⊢
  split_ifs at isOpen ⊢ with here
  · subst here
    have agree := agrees _ isOpen x of
    constructor
    · intro mem
      obtain ⟨other, inLive⟩ := tables.once.mem_erase_iff.mp mem
      have entry := agree.mp inLive
      refine mem_assocErase_of_ne entry fun sid => other ?_
      exact own isOpen x (sid ▸ (tables.keys _).lookup_of_mem entry)
    · intro mem
      obtain ⟨entry, otherSid⟩ := mem_assocErase mem
      refine tables.once.mem_erase_iff.mpr ⟨?_, agree.mpr entry⟩
      rintro rfl
      exact otherSid rfl
  · have other : x ≠ sub := by
      rintro rfl
      exact here of.symm
    rw [tables.once.mem_erase_iff, and_iff_right other]
    exact agrees c isOpen x of

theorem close (cid : Nat) :
    TablesAgree live (update client cid { client cid with nc := false }) := by
  intro c isOpen x of
  rw [update_apply] at isOpen ⊢
  split_ifs at isOpen ⊢
  exact agrees c isOpen x of

theorem remove (tables : SubTables known live gcid client)
    (closed : (client sub.client).nc = false) : TablesAgree (live.erase sub) client := by
  intro c isOpen x of
  have other : x ≠ sub := by
    rintro rfl
    rw [of, isOpen] at closed
    cases closed
  rw [tables.once.mem_erase_iff, and_iff_right other]
  exact agrees c isOpen x of

end

end TablesAgree

end Tables

/-- The trie holds the ledger, the tables are in order, and the subscriptions that `closeConnection`
still has to remove are of closed clients. -/
structure Interest.Tables (s : Interest) : Prop
    extends SubTables s.known s.live s.gcid s.client where
  ledger : Inv s.sl s.live
  removing : ∀ tasks ∈ s.threads, ∀ x, Task.remove x ∈ tasks →
    x ∈ s.known ∧ (s.client x.client).nc = false

section Steps

variable {g : Grow} {s s' : Interest} {a : InterestAction}

namespace Interest

theorem tables_initial : Interest.Tables {} where
  numbered _ _ found := by simp at found
  issued _ mem := nomatch mem
  opened _ isOpen := nomatch isOpen
  inserted _ mem := nomatch mem
  once := nodup_nil
  keys _ := nodup_nil
  entries _ _ _ mem := nomatch mem
  ledger := inv_newSublist
  removing _ mem := nomatch mem

theorem Effect.subTables (effect : s.Effect a s')
    (tables : SubTables s.known s.live s.gcid s.client) :
    SubTables s'.known s'.live s'.gcid s'.client := by
  cases effect with
  | none gcid live known client =>
    rw [gcid, live, known, client]
    exact tables
  | accept typ gcid live known client clients =>
    rw [gcid, live, known, client]
    exact tables.accept typ _
  | insert sub isOpen ptr free gcid live known client pends =>
    rw [gcid, live, known, client]
    exact tables.insert isOpen ptr
  | delete t sub ran head gcid live known client =>
    rw [gcid, live, known, client]
    exact (tables.remove sub).update id filter_sublist
  | close cid isOpen gcid live known client pends =>
    rw [gcid, live, known, client]
    exact tables.update nofun (List.Sublist.refl _)
  | remove t sub head gcid live known client =>
    rw [gcid, live, known, client]
    exact tables.remove sub

/-- Clients that have been closed stay so. -/
theorem Effect.closed (effect : s.Effect a s') {cid : Nat} (issued : cid ≤ s.gcid)
    (closed : (s.client cid).nc = false) : (s'.client cid).nc = false := by
  cases effect with
  | none gcid live known client =>
    rw [client]
    exact closed
  | accept typ gcid live known client clients =>
    have other : cid ≠ s.gcid + 1 := by omega
    rw [client, update_of_ne other]
    exact closed
  | insert sub isOpen ptr free gcid live known client pends =>
    rw [client, update_apply]
    split_ifs with here
    · exact here ▸ closed
    · exact closed
  | delete t sub ran head gcid live known client =>
    rw [client, update_apply]
    split_ifs with here
    · exact here ▸ closed
    · exact closed
  | close c isOpen gcid live known client pends =>
    rw [client, update_apply]
    split_ifs
    · rfl
    · exact closed
  | remove t sub head gcid live known client =>
    rw [client]
    exact closed

theorem Effect.known (effect : s.Effect a s') : s.known.Sublist s'.known := by
  cases effect with
  | none _ _ known _ | accept _ _ _ known _ _ | delete _ _ _ _ _ _ known _ | close _ _ _ _ known _ _
  | remove _ _ _ _ _ known _ => exact known ▸ List.Sublist.refl _
  | insert _ _ _ _ _ _ known _ _ => exact known ▸ sublist_append_left _ _

theorem Tables.step (tables : s.Tables) (stepped : s.step g a = some s') : s'.Tables := by
  have moved := step_moved stepped
  obtain ⟨effect, ledger⟩ := moved.effect tables.ledger
  refine ⟨effect.subTables tables.toSubTables, ledger, fun tasks mem x isTask => ?_⟩
  have old {tasks : List Task} (mem : tasks ∈ s.threads) (isTask : Task.remove x ∈ tasks) :
      x ∈ s'.known ∧ (s'.client x.client).nc = false := by
    obtain ⟨known, closed⟩ := tables.removing tasks mem x isTask
    exact ⟨effect.known.subset known, effect.closed (tables.issued x known) closed⟩
  cases moved.pending mem with
  | old mem => exact old mem isTask
  | idle none' =>
    subst none'
    cases isTask
  | start t p starts eq =>
    subst eq
    exact False.elim (starts.starting isTask)
  | run task rest p running ran client eq =>
    rcases mem_append.mp (eq ▸ isTask) with new | later
    · cases runTask_follows ran new with
      | remove cid isOpen e entry =>
        obtain ⟨known, -, of⟩ := tables.entries cid e.1 e.2 entry
        exact ⟨effect.known.subset known, client ▸ of ▸ runTask_closed ran⟩
    · exact old running (mem_cons_of_mem _ later)

end Interest

end Steps

/-- When `unsubscribe` runs for a subscription of an open client, the table has no other
subscription under its sid. -/
def Interest.OwnEntry (s : Interest) : InterestAction → Prop
  | .run t => ∀ sub, (s.threads[t]?).bind head? = some (.unsubscribe sub) →
      (s.client sub.client).nc = true →
        ∀ y, (s.client sub.client).subs.lookup sub.sid = some y → y = sub
  | _ => True

instance (s : Interest) : (a : InterestAction) → Decidable (s.OwnEntry a)
  | .run t =>
      match found : (s.threads[t]?).bind head? with
      | some (.unsubscribe sub) =>
          decidable_of_iff ((s.client sub.client).nc = true →
            ∀ y ∈ (s.client sub.client).subs.lookup sub.sid, y = sub)
            ⟨fun own sub' is => by
                rw [found] at is
                cases is
                exact own,
              fun own => own sub found⟩
      | some (.broadcastSubscribe _) | some (.broadcastUnSubscribe _) | some (.makeUnsub _)
      | some (.broadcastInterestToRoutes _) | some (.closeConnection _) | some (.removeClient _)
      | some (.remove _) | none => isTrue fun sub is => by rw [found] at is; cases is
  | .accept _ | .spawn | .sub _ _ _ _ _ | .unsub _ _ _ | .deliver _ _ _ | .close _ _ | .addRoute
  | .collect _ | .collectClient | .collected | .sendLocalSubs | .peer => isTrue trivial

/-- The tables are in order and the sublist agrees with them. -/
structure Interest.Agree (s : Interest) : Prop where
  tables : s.Tables
  agrees : TablesAgree s.live s.client

theorem Interest.Agree.step {g : Grow} {s s' : Interest} {a : InterestAction} (inv : s.Agree)
    (own : s.OwnEntry a) (stepped : s.step g a = some s') : s'.Agree := by
  obtain ⟨tables, agrees⟩ := inv
  refine ⟨tables.step stepped, ?_⟩
  cases ((step_moved stepped).effect tables.ledger).1 with
  | none gcid live known client =>
    rw [live, client]
    exact agrees
  | accept typ gcid live known client clients =>
    rw [live, client]
    exact agrees.accept tables.toSubTables typ _
  | insert sub isOpen ptr free gcid live known client pends =>
    rw [live, client]
    exact agrees.insert tables.toSubTables free
  | delete t sub ran head gcid live known client =>
    subst ran
    rw [live, client]
    exact agrees.delete tables.toSubTables (own sub head)
  | close cid isOpen gcid live known client pends =>
    rw [live, client]
    exact agrees.close cid
  | remove t sub head gcid live known client =>
    obtain ⟨tasks, thread, first⟩ := Option.bind_eq_some_iff.mp head
    rw [live, client]
    exact agrees.remove tables.toSubTables
      (tables.removing tasks (mem_of_getElem? thread) sub (mem_of_head? first)).2

/-- For every open client the sublist holds exactly the subscriptions of its table, each once, and
each is found under its sid, provided that `unsubscribe` never found another subscription under the
sid of its own. -/
theorem tables_agree (g : Grow) (actions : List InterestAction) (s : Interest)
    (along : Along (step g) OwnEntry {} actions)
    (ran : runFrom (step g) {} actions = some s) (cid : Nat)
    (isOpen : (s.client cid).nc = true) :
    ∃ live, Inv s.sl live ∧
      (live.filter fun x => x.client = cid).Perm ((s.client cid).subs.map Prod.snd) ∧
      ∀ x ∈ live, x.client = cid → (s.client cid).subs.lookup x.sid = some x := by
  obtain ⟨tables, agrees⟩ : s.Agree := invariant_of_along (fun _ _ _ inv own => inv.step own)
    ⟨tables_initial, fun _ isOpen => nomatch isOpen⟩ along ran
  have agree := agrees cid isOpen
  refine ⟨s.live, tables.ledger, ?_, fun x mem of => ?_⟩
  · have once : ((s.client cid).subs.map Prod.snd).Nodup := by
      refine List.Nodup.of_map Subscription.sid ?_
      rw [map_map]
      refine (map_congr_left fun e mem => ?_).symm ▸ tables.keys cid
      exact (tables.entries cid e.1 e.2 mem).2.1
    refine (perm_ext_iff_of_nodup (tables.once.filter _) once).mpr fun x => ?_
    rw [mem_filter, decide_eq_true_eq, mem_map]
    constructor
    · rintro ⟨inLive, of⟩
      exact ⟨(x.sid, x), (agree x of).mp inLive, rfl⟩
    · rintro ⟨⟨sid, y⟩, entry, rfl⟩
      obtain ⟨-, isSid, of⟩ := tables.entries cid sid y entry
      exact ⟨(agree y of).mpr (isSid ▸ entry), of⟩
  · exact (tables.keys cid).lookup_of_mem ((agree x of).mp mem)

/-- A client subscribes, limits the subscription to one message, gets it, and subscribes again under
the same sid. -/
def resubscribed : List InterestAction :=
  [.accept .client, .spawn, .spawn,
    .sub 1 (bytesOf "foo") none (bytesOf "1") true, .run 0,
    .unsub 1 (bytesOf "1") 1, .run 0, .run 0,
    .deliver 1 ⟨0, bytesOf "foo", none, 1, bytesOf "1"⟩ .ok, .run 1, .run 1,
    .sub 1 (bytesOf "foo") none (bytesOf "1") true, .run 0]

theorem tables_agree_resubscribed : ∃ s,
    runFrom (step Grow.double) {} resubscribed = some s ∧
      (s.client 1).subs = [(bytesOf "1", ⟨1, bytesOf "foo", none, 1, bytesOf "1"⟩)] ∧
      ∃ live, Inv s.sl live ∧
        (live.filter fun x => x.client = 1).Perm ((s.client 1).subs.map Prod.snd) ∧
        ∀ x ∈ live, x.client = 1 → (s.client 1).subs.lookup x.sid = some x := by
  refine exists_run_imp (P := fun s => (s.client 1).nc = true ∧
    (s.client 1).subs = [(bytesOf "1", ⟨1, bytesOf "foo", none, 1, bytesOf "1"⟩)])
    (fun s ran final => ⟨final.2, ?_⟩) (by decide +kernel)
  exact tables_agree Grow.double resubscribed s (by decide +kernel) ran 1 final.1

/-- A second publisher that has looked the first subscription up before it was removed takes the
second one out of the table: it stays in the sublist, where no UNSUB and no close can find it. -/
theorem tables_differ_late_delivery : ∃ s,
    runFrom (step Grow.double) {} (resubscribed ++
      [.deliver 2 ⟨0, bytesOf "foo", none, 1, bytesOf "1"⟩ .ok, .run 2, .run 2]) = some s ∧
      (s.client 1).nc = true ∧ s.threads = [[], [], []] ∧ (s.client 1).subs = [] ∧
      (s.sl.lookup Grow.double (bytesOf "foo")).2.psubs =
        [⟨1, bytesOf "foo", none, 1, bytesOf "1"⟩] :=
  exists_run (by decide +kernel)

end Hnatsd.Server
