import Hnatsd.Server.Proofs.RegistrySteps

/-!
# What the goroutines of a server do to the INFO its clients have

`Registry.News` says which regions change the URLs of the server, the flags of a connection or what
it has been sent. In every run, nothing but the INFO of its creation is sent to a connection before
its first PONG.
-/

namespace Hnatsd.Server
open Misc

variable {c : Connection} {cid t : Nat}

/-- The URLs of an INFO. -/
def ClientLine.urls : ClientLine → Option (List Bytes)
  | .info urls => some urls
  | .pong => none

/-- The last INFO that has been sent. -/
def Connection.lastInfo (c : Connection) : Option (List Bytes) :=
  (c.out.filterMap ClientLine.urls).getLast?

/-- What decides which INFO a connection has and will get. -/
def Connection.news (c : Connection) : Bool × ConnectOpts × Bool × Bool × List ClientLine :=
  (c.connectReceived, c.opts, c.firstPongSent, c.infoUpdated, c.out)

/-- The task may lead to an INFO for the connection, or to its end. -/
def RegistryTask.tells (cid : Nat) : RegistryTask → Bool
  | .sendAsyncInfoToClients => true
  | .asyncInfo c _ => c = cid
  | .fetchInfo c => c = cid
  | .sendInfo c _ => c = cid
  | .closeConnection c => c = cid
  | _ => false

/-- The task is about the INFO behind the first PONG. -/
def RegistryTask.follows (cid : Nat) : RegistryTask → Bool
  | .fetchInfo c => c = cid
  | .sendInfo c _ => c = cid
  | _ => false

attribute [simp] RegistryTask.tells RegistryTask.follows

/-- A connection before its first command. -/
def Connection.Unread (c : Connection) : Prop :=
  c.firstPongSent = false ∧ .pong ∉ c.out ∧ c.out.length ≤ 1

/-- One connection before and after a region that is not about INFO. -/
structure Connection.SameNews (c c' : Connection) : Prop where
  nc : c'.nc = true → c.nc = true
  news : c'.news = c.news
  started : c'.hasStarted = false → c.hasStarted = false

theorem Connection.SameNews.refl (c : Connection) : c.SameNews c := ⟨id, rfl, id⟩

/-- What a region does to the URLs of the server, the flags and what has been sent. -/
inductive Registry.News (r : Registry) (d : Doing RegistryOp RegistryTask) (r' : Registry)
    (tasks : List RegistryTask) : Prop where
  | same (gcid : r.gcid ≤ r'.gcid) (urls : r'.urls = r.urls) (clients : r'.clients ⊆ r.clients)
      (conn : ∀ cid, (r.conn cid).SameNews (r'.conn cid) ∨
        r.gcid < cid ∧ (r'.conn cid).Unread)
      (takes : ∀ task ∈ d.taken, ∀ cid, task.tells cid = false)
      (leaves : ∀ task ∈ tasks, ∀ cid, task.follows cid = false)
  | connect (cid : Nat) (opts : ConnectOpts) (decoded authorized : Bool)
      (is : d = .start (.connect cid opts decoded authorized)) (c : Connection)
      (started : (r.conn cid).hasStarted = true) (still : c.hasStarted = true)
      (eq : r' = r.setConn cid c) (nc : c.nc = (r.conn cid).nc)
      (news : c.news = (decoded || (r.conn cid).connectReceived, opts, (r.conn cid).firstPongSent,
        (r.conn cid).infoUpdated, (r.conn cid).out))
      (closes : decoded = false → .closeConnection cid ∈ tasks)
      (leaves : ∀ task ∈ tasks, ∀ x, task.follows x = false)
  | again (cid : Nat) (is : d = .start (.ping cid)) (sent : (r.conn cid).firstPongSent = true)
      (eq : r' = r.setConn cid { r.conn cid with out := (r.conn cid).out ++ [.pong] })
      (leaves : tasks = [])
  | first (cid : Nat) (is : d = .start (.ping cid)) (started : (r.conn cid).hasStarted = true)
      (unsent : (r.conn cid).firstPongSent = false)
      (eq : r' = r.setConn cid { r.conn cid with
        out := (r.conn cid).out ++ [.pong]
        firstPongSent := true
        infoUpdated := false })
      (leaves : tasks = if (r.conn cid).opts.wantsInfo ∧ (r.conn cid).infoUpdated = true then
        [.fetchInfo cid] else [])
  | insert (cid : Nat) (is : d = .run (.register cid))
      (eq : r' = { r with clients := r.clients.insert cid }) (leaves : tasks = [.startReadLoop cid])
  | fetch (cid : Nat) (is : d = .run (.fetchInfo cid)) (eq : r' = r)
      (leaves : tasks = [.sendInfo cid r.urls])
  | send (cid : Nat) (info : List Bytes) (is : d = .run (.sendInfo cid info))
      (eq : r' = r.sendInfo cid info) (leaves : tasks = [])
  | update (urls : List Bytes) (is : d = .run (.updateServerINFO urls)) (known : List Bytes)
      (eq : r' = { r with urls := known }) (leaves : tasks = [.sendAsyncInfoToClients])
  | skip (is : d = .run .sendAsyncInfoToClients) (eq : r' = r) (none : r.cproto = 0)
      (leaves : tasks = [])
  | broadcast (is : d = .run .sendAsyncInfoToClients) (eq : r' = r) (order : List Nat)
      (perm : order.Perm r.clients) (leaves : tasks = order.map fun cid => .asyncInfo cid r.urls)
  | async (cid : Nat) (info : List Bytes) (is : d = .run (.asyncInfo cid info))
      (eq : r' = r.asyncInfo cid info) (leaves : tasks = [])
  | close (cid : Nat) (is : d = .run (.closeConnection cid))
      (conn : ∀ x ≠ cid, r'.conn x = r.conn x)
      (here : (r'.conn cid).nc = false ∧ (r.conn cid).SameNews (r'.conn cid))
      (gcid : r'.gcid = r.gcid) (urls : r'.urls = r.urls) (clients : r'.clients = r.clients)
      (leaves : ∀ task ∈ tasks, ∀ x, task.follows x = false)

namespace Registry

variable {cfg : RegistryConfig} {r r' : Registry} {tasks : List RegistryTask}

/-- A region that writes to one connection and is not about INFO. -/
theorem News.write {d : Doing RegistryOp RegistryTask}
    (conn : r'.conn = Function.update r.conn cid c) (same : (r.conn cid).SameNews c)
    (gcid : r'.gcid = r.gcid) (urls : r'.urls = r.urls) (clients : r'.clients = r.clients)
    (takes : ∀ task ∈ d.taken, ∀ cid, task.tells cid = false)
    (leaves : ∀ task ∈ tasks, ∀ cid, task.follows cid = false) : r.News d r' tasks := by
  refine .same gcid.ge urls (by rw [clients]; exact List.Subset.refl _) (fun x => Or.inl ?_) takes
    leaves
  rw [conn, Function.update_apply]
  split_ifs with here
  · rw [here]
    exact same
  · exact .refl _

/-- A region that leaves the connections alone and is not about INFO. -/
theorem News.of_eq {d : Doing RegistryOp RegistryTask} (conn : r'.conn = r.conn)
    (gcid : r'.gcid = r.gcid) (urls : r'.urls = r.urls) (clients : r'.clients ⊆ r.clients)
    (takes : ∀ task ∈ d.taken, ∀ cid, task.tells cid = false)
    (leaves : ∀ task ∈ tasks, ∀ cid, task.follows cid = false) : r.News d r' tasks :=
  .same gcid.ge urls clients (fun cid => Or.inl (by rw [conn]; exact .refl _)) takes leaves

theorem News.idle {d : Doing RegistryOp RegistryTask}
    (takes : ∀ task ∈ d.taken, ∀ cid, task.tells cid = false)
    (leaves : ∀ task ∈ tasks, ∀ cid, task.follows cid = false) : r.News d r tasks :=
  .of_eq rfl rfl rfl (List.Subset.refl _) takes leaves

/-- A region that creates a connection. -/
theorem News.create {d : Doing RegistryOp RegistryTask}
    (conn : r'.conn = Function.update r.conn (r.gcid + 1) c) (unread : c.Unread)
    (gcid : r'.gcid = r.gcid + 1) (urls : r'.urls = r.urls) (clients : r'.clients = r.clients)
    (takes : ∀ task ∈ d.taken, ∀ cid, task.tells cid = false)
    (leaves : ∀ task ∈ tasks, ∀ cid, task.follows cid = false) : r.News d r' tasks := by
  refine .same (by omega) urls (by rw [clients]; exact List.Subset.refl _) (fun x => ?_) takes leaves
  rw [conn, Function.update_apply]
  split_ifs with here
  · exact Or.inr ⟨by omega, unread⟩
  · exact Or.inl (.refl _)

theorem connected_follows (c : Connection) (cid : Nat) (authorized : Bool) :
    ∀ task ∈ (connected c cid authorized).2, ∀ x, task.follows x = false := by
  unfold connected
  by_cases counts : c.opts.wantsInfo
  all_goals
    simp only [counts, if_true, if_false]
    split_ifs <;> simp

theorem processConnect_news (opts : ConnectOpts) (decoded authorized : Bool)
    (reading : (r.conn cid).readLoop = .reading t) :
    r.News (.start (.connect cid opts decoded authorized))
      (r.processConnect cid opts decoded authorized).1
      (r.processConnect cid opts decoded authorized).2 := by
  have started : (r.conn cid).hasStarted = true := by simp [Connection.hasStarted, reading]
  cases decoded with
  | false =>
    exact .connect cid opts false authorized rfl _ started rfl rfl rfl rfl
      (fun _ => List.mem_singleton_self _) (by simp [processConnect])
  | true =>
    have follows := connected_follows { r.conn cid with opts := opts, connectReceived := true } cid
      authorized
    simp only [processConnect, if_true]
    rcases stops : connected { r.conn cid with opts := opts, connectReceived := true } cid
      authorized with ⟨_ | _, tasks⟩
    all_goals
      rw [stops] at follows
      refine .connect cid opts true authorized rfl _ started ?_ rfl rfl rfl (by rintro ⟨⟩) follows
    · exact started
    · rfl

theorem processPing_news (reading : (r.conn cid).readLoop = .reading t) :
    r.News (.start (.ping cid)) (r.processPing cid).1 (r.processPing cid).2 := by
  have started : (r.conn cid).hasStarted = true := by simp [Connection.hasStarted, reading]
  simp only [processPing]
  split_ifs with closed sent wants
  · exact .idle (by simp) (by simp)
  · exact .again cid rfl sent rfl rfl
  · exact .first cid rfl started (Bool.eq_false_iff.mpr sent) rfl (if_pos wants).symm
  · exact .first cid rfl started (Bool.eq_false_iff.mpr sent) rfl (if_neg wants).symm

theorem unregister_urls (r : Registry) (cid : Nat) (upd : Bool) (rID : Option Bytes) :
    (r.unregister cid upd rID).urls = r.urls := by
  simp only [Registry.unregister]
  split
  · rfl
  · split
    · rfl
    · split_ifs <;> rfl
  · rfl

theorem setRoute_fields (r : Registry) (cid : Nat) (f : RouteObject → RouteObject) :
    (r.setRoute cid f).conn = r.conn ∧ (r.setRoute cid f).gcid = r.gcid ∧
      (r.setRoute cid f).urls = r.urls ∧ (r.setRoute cid f).clients = r.clients := by
  unfold setRoute
  split <;> exact ⟨rfl, rfl, rfl, rfl⟩

theorem News.setRoute {d : Doing RegistryOp RegistryTask} (cid : Nat) (f : RouteObject → RouteObject)
    (takes : ∀ task ∈ d.taken, ∀ cid, task.tells cid = false)
    (leaves : ∀ task ∈ tasks, ∀ cid, task.follows cid = false) :
    r.News d (r.setRoute cid f) tasks := by
  obtain ⟨conn, gcid, urls, clients⟩ := setRoute_fields r cid f
  exact .of_eq conn gcid urls (by rw [clients]; exact List.Subset.refl _) takes leaves

theorem processRouteInfo_news (cid : Nat) (id : Bytes) (parses : Bool) (urls : List Bytes) :
    r.News (.start (.info cid id parses urls)) (r.processRouteInfo cfg cid id parses urls).1
      (r.processRouteInfo cfg cid id parses urls).2 := by
  simp only [processRouteInfo]
  split
  · exact .idle (by simp) (by simp)
  · split_ifs
    · exact .idle (by simp) (by simp)
    · exact .idle (by simp) (by simp)
    · dsimp only
      exact .setRoute cid _ (by simp) (by simp)
    · dsimp only
      exact .setRoute cid _ (by simp) (by simp)
    · obtain ⟨conn, gcid, same, clients⟩ := setRoute_fields r cid fun o => { o with remoteID := id }
      obtain ⟨conn', gcid', same', clients'⟩ :=
        setRoute_fields (r.setRoute cid fun o => { o with remoteID := id }) cid
          fun o => { o with url := true }
      exact .of_eq (conn'.trans conn) (gcid'.trans gcid) (same'.trans same)
        (by rw [clients', clients]; exact List.Subset.refl _) (by simp) (by simp)

theorem News.of_pair {d : Doing RegistryOp RegistryTask} {p : Registry × List RegistryTask}
    (news : r.News d p.1 p.2) (eq : some p = some (r', tasks)) : r.News d r' tasks := by
  cases eq
  exact news

theorem start_news {op : RegistryOp} (started : r.start cfg t op = some (r', tasks)) :
    r.News (.start op) r' tasks := by
  cases op with
  | createClient internal =>
    cases started
    exact .idle (by simp) (by simp)
  | createRoute didSolicit tls =>
    cases tls with
    | true =>
      cases started
      exact .create rfl ⟨rfl, (by rintro ⟨⟩), Nat.zero_le _⟩ rfl rfl rfl (by simp) (by simp)
    | false =>
      cases started
      exact .create rfl ⟨rfl, (by rintro ⟨⟩), Nat.zero_le _⟩ rfl rfl rfl (by simp) (by simp)
  | readLoop cid =>
    simp only [start] at started
    split_ifs at started with loop
    cases started
    refine .write rfl ⟨id, rfl, fun unstarted => ?_⟩ rfl rfl rfl (by simp) (by simp)
    simp only [Connection.hasStarted] at unstarted
    split at unstarted <;> simp at unstarted
  | connect cid opts decoded authorized =>
    simp only [start] at started
    split_ifs at started with reading
    exact (processConnect_news opts decoded authorized reading).of_pair started
  | ping cid =>
    simp only [start] at started
    split_ifs at started with reading
    exact (processPing_news reading).of_pair started
  | info cid id parses urls =>
    simp only [start] at started
    split_ifs at started
    exact (processRouteInfo_news cid id parses urls).of_pair started
  | close cid =>
    cases started
    exact .idle (by simp) (by simp)

theorem closeConnection_news (cid : Nat) :
    r.News (.run (.closeConnection cid)) (r.closeConnection cid).1 (r.closeConnection cid).2 := by
  simp only [closeConnection]
  split_ifs with nc
  · refine .close cid rfl (fun x ne => ?_) ?_ rfl rfl rfl (by simp)
    · rw [setConn_conn, if_neg ne]
    · rw [setConn_conn, if_pos rfl]
      exact ⟨rfl, (by rintro ⟨⟩), rfl, id⟩
  · exact .close cid rfl (fun _ _ => rfl) ⟨Bool.eq_false_iff.mpr nc, .refl _⟩ rfl rfl rfl (by simp)

theorem run_news {order : List Nat} {task : RegistryTask}
    (ran : r.run cfg order task = some (r', tasks)) : r.News (.run task) r' tasks := by
  cases task with
  | greet internal info =>
    cases ran
    exact .create rfl ⟨rfl, by simp, Nat.le_refl _⟩ rfl rfl rfl (by simp)
      (by simp)
  | register cid =>
    simp only [run, register] at ran
    split_ifs at ran <;> cases ran
    · exact .idle (by simp) (by simp)
    · exact .insert cid rfl rfl rfl
  | startReadLoop cid =>
    simp only [run, startReadLoop] at ran
    split_ifs at ran <;> cases ran
    · exact .write rfl ⟨id, rfl, (by rintro ⟨⟩)⟩ rfl rfl rfl (by simp) (by simp)
    · exact .idle (by simp) (by simp)
  | handshaken cid =>
    simp only [run, handshaken] at ran
    split_ifs at ran <;> cases ran
    · exact .write rfl ⟨id, rfl, (by rintro ⟨⟩)⟩ rfl rfl rfl (by simp) (by simp)
    · exact .idle (by simp) (by simp)
  | countProto =>
    cases ran
    exact .of_eq rfl rfl rfl (List.Subset.refl _) (by simp) (by simp)
  | setRemoteID cid =>
    cases ran
    exact .setRoute cid _ (by simp) (by simp)
  | fetchInfo cid =>
    cases ran
    exact .fetch cid rfl rfl rfl
  | sendInfo cid info =>
    cases ran
    exact .send cid info rfl rfl rfl
  | updateServerINFO urls =>
    simp only [run, updateServerINFO] at ran
    split_ifs at ran <;> cases ran
    · exact .idle (by simp) (by simp)
    · exact .idle (by simp) (by simp)
    · exact .update urls rfl _ rfl rfl
  | sendAsyncInfoToClients =>
    simp only [run] at ran
    split_ifs at ran with none perm <;> cases ran
    · exact .skip rfl rfl none rfl
    · exact .broadcast rfl rfl order perm rfl
  | asyncInfo cid info =>
    cases ran
    exact .async cid info rfl rfl rfl
  | addRoute cid urls =>
    cases ran
    exact .idle (by simp) (by simp)
  | registerRoute cid id urls =>
    simp only [run, registerRoute] at ran
    split at ran <;> cases ran
    · exact .of_eq rfl rfl rfl (List.Subset.refl _) (by simp) (by simp)
    · exact .idle (by simp) (by simp)
  | upgrade remote cid =>
    simp only [run, upgrade] at ran
    split at ran
    · split_ifs at ran <;> cases ran
      · exact .write rfl ⟨id, rfl, id⟩ rfl rfl rfl (by simp) (by simp)
      · exact .idle (by simp) (by simp)
    · cases ran
      exact .idle (by simp) (by simp)
  | closeConnection cid => exact (closeConnection_news cid).of_pair ran
  | removeClient cid =>
    cases ran
    exact .idle (by simp) (by simp [removeClient])
  | unregister cid updateProtoInfoCount rID =>
    obtain ⟨gcid, conn, -, -, clients⟩ := unregister_fields r cid updateProtoInfoCount rID
    cases ran
    exact .of_eq conn gcid (unregister_urls r cid updateProtoInfoCount rID) clients
      (by simp) (by simp)

theorem region_news {d : Doing RegistryOp RegistryTask}
    (region : (program cfg).Region r d r' tasks) : r.News d r' tasks := by
  cases region with
  | start started => exact start_news started
  | run ran => exact run_news ran

end Registry

/-- One more line at most is sent, behind the first PONG. -/
def Connection.SentBehind (c c' : Connection) : Prop :=
  c'.firstPongSent = c.firstPongSent ∧
    (c'.out = c.out ∨ c.firstPongSent = true ∧ ∃ line, c'.out = c.out ++ [line])

theorem Connection.SameNews.sentBehind {c' : Connection} (same : c.SameNews c') :
    c.SentBehind c' :=
  ⟨congrArg (fun news => news.2.2.1) same.news, Or.inl (congrArg (fun news => news.2.2.2.2) same.news)⟩

/-- Before its first PONG a connection is sent one line at most, and only connections with a first
PONG have tasks that follow it. -/
structure Registry.Orderly (r : Registry) (bag : Multiset RegistryTask) : Prop where
  pong : ∀ cid, (r.conn cid).firstPongSent = true ↔ .pong ∈ (r.conn cid).out
  greeting : ∀ cid, ((r.conn cid).out.takeWhile (· ≠ .pong)).length ≤ 1
  following : ∀ task ∈ bag, ∀ cid, task.follows cid = true →
    cid ≤ r.gcid ∧ (r.conn cid).firstPongSent = true

theorem takeWhile_behind_pong {out : List ClientLine} (mem : .pong ∈ out) (line : ClientLine) :
    (out ++ [line]).takeWhile (· ≠ .pong) = out.takeWhile (· ≠ .pong) := by
  rw [List.takeWhile_append, if_neg]
  intro all
  have whole : out.takeWhile (· ≠ .pong) = out := (List.takeWhile_prefix _).eq_of_length all
  have := List.takeWhile_eq_self_iff.mp whole _ mem
  simp at this

theorem takeWhile_first_pong {out : List ClientLine} (unsent : .pong ∉ out) :
    out.takeWhile (· ≠ ClientLine.pong) = out ∧
      (out ++ [ClientLine.pong]).takeWhile (· ≠ ClientLine.pong) = out := by
  have whole : out.takeWhile (· ≠ ClientLine.pong) = out := by
    refine List.takeWhile_eq_self_iff.mpr fun line mem => decide_eq_true ?_
    rintro rfl
    exact unsent mem
  refine ⟨whole, ?_⟩
  rw [List.takeWhile_append, whole, if_pos rfl]
  simp

namespace Registry

section Orderly

variable {r r' : Registry} {d : Doing RegistryOp RegistryTask} {tasks : List RegistryTask}
  {others : Multiset RegistryTask}

theorem Orderly.extend (orderly : r.Orderly (d.taken + others)) (gcid : r.gcid ≤ r'.gcid)
    (conn : ∀ cid, (r.conn cid).SentBehind (r'.conn cid) ∨ r.gcid < cid ∧ (r'.conn cid).Unread)
    (leaves : ∀ task ∈ tasks, ∀ cid, task.follows cid = true →
      cid ≤ r.gcid ∧ (r'.conn cid).firstPongSent = true) : r'.Orderly (tasks + others) := by
  refine ⟨fun cid => ?_, fun cid => ?_, fun task mem cid follows => ?_⟩
  · rcases conn cid with ⟨same, out | ⟨sent, line, out⟩⟩ | ⟨-, unsent, unread, -⟩
    · rw [same, out]
      exact orderly.pong cid
    · have := (orderly.pong cid).mp sent
      simp [same, sent, out, this]
    · simp [unsent, unread]
  · rcases conn cid with ⟨-, out | ⟨sent, line, out⟩⟩ | ⟨-, -, -, short⟩
    · rw [out]
      exact orderly.greeting cid
    · rw [out, takeWhile_behind_pong ((orderly.pong cid).mp sent)]
      exact orderly.greeting cid
    · exact (List.takeWhile_prefix _).length_le.trans short
  · rcases Multiset.mem_add.mp mem with new | old
    · have := leaves task new cid follows
      exact ⟨this.1.trans gcid, this.2⟩
    · obtain ⟨issued, sent⟩ := orderly.following task (Multiset.mem_add.mpr (Or.inr old)) cid follows
      refine ⟨issued.trans gcid, ?_⟩
      rcases conn cid with ⟨same, -⟩ | ⟨new, -⟩
      · rw [same]
        exact sent
      · omega

theorem sendInfo_sentBehind (sent : (r.conn cid).firstPongSent = true) (info : List Bytes)
    (x : Nat) : (r.conn x).SentBehind ((r.sendInfo cid info).conn x) := by
  have same (c : Connection) : c.SentBehind c := ⟨rfl, Or.inl rfl⟩
  simp only [sendInfo]
  split_ifs
  · exact @setConn_rel r (fun c' c => c.SentBehind c') same cid
      { r.conn cid with out := (r.conn cid).out ++ [.info info] } ⟨rfl, Or.inr ⟨sent, _, rfl⟩⟩ x
  · exact same _

theorem asyncInfo_sentBehind (cid : Nat) (info : List Bytes) (x : Nat) :
    (r.conn x).SentBehind ((r.asyncInfo cid info).conn x) := by
  have same (c : Connection) : c.SentBehind c := ⟨rfl, Or.inl rfl⟩
  simp only [asyncInfo]
  split_ifs with unconnected wants sent
  · exact @setConn_rel r (fun c' c => c.SentBehind c') same cid
      { r.conn cid with infoUpdated := true } ⟨rfl, Or.inl rfl⟩ x
  · exact sendInfo_sentBehind sent info x
  · exact @setConn_rel r (fun c' c => c.SentBehind c') same cid
      { r.conn cid with infoUpdated := true } ⟨rfl, Or.inl rfl⟩ x
  · exact same _

/-- The first PONG. -/
theorem Orderly.first (orderly : r.Orderly (d.taken + others)) (issued : cid ≤ r.gcid)
    (unsent : (r.conn cid).firstPongSent = false)
    (leaves : ∀ task ∈ tasks, ∀ x, task.follows x = true → x = cid) :
    (r.setConn cid { r.conn cid with
      out := (r.conn cid).out ++ [.pong]
      firstPongSent := true
      infoUpdated := false }).Orderly (tasks + others) := by
  have no : .pong ∉ (r.conn cid).out := fun mem => by
    rw [(orderly.pong cid).mpr mem] at unsent
    cases unsent
  refine ⟨fun x => ?_, fun x => ?_, fun task mem x follows => ?_⟩
  · rw [setConn_conn]
    split_ifs
    · simp
    · exact orderly.pong x
  · rw [setConn_conn]
    split_ifs
    · obtain ⟨whole, first⟩ := takeWhile_first_pong no
      have bound := orderly.greeting cid
      rw [whole] at bound
      rw [first]
      exact bound
    · exact orderly.greeting x
  · rw [setConn_conn]
    rcases Multiset.mem_add.mp mem with new | old
    · have here := leaves task new x follows
      rw [if_pos here, here]
      exact ⟨issued, rfl⟩
    · have before := orderly.following task (Multiset.mem_add.mpr (Or.inr old)) x follows
      split_ifs
      · exact ⟨before.1, rfl⟩
      · exact before

theorem Life.issued_of_started {bag : Multiset RegistryTask} (life : r.Life bag)
    (started : (r.conn cid).hasStarted = true) : cid ≤ r.gcid := by
  have bound := life.starting cid
  rw [started, issued, Bool.toNat_true] at bound
  split_ifs at bound
  · assumption
  · omega

theorem Orderly.region (life : r.Life (d.taken + others)) (orderly : r.Orderly (d.taken + others))
    (news : r.News d r' tasks) : r'.Orderly (tasks + others) := by
  have none {tasks : List RegistryTask} {r' : Registry}
      (leaves : ∀ task ∈ tasks, ∀ x, task.follows x = false) (task : RegistryTask) (mem : task ∈ tasks)
      (cid : Nat) (follows : task.follows cid = true) :
      cid ≤ r.gcid ∧ (r'.conn cid).firstPongSent = true := by
    rw [leaves task mem cid] at follows
    cases follows
  cases news with
  | same gcid urls clients conn takes leaves =>
    exact orderly.extend gcid (fun cid => (conn cid).imp_left (·.sentBehind)) (none leaves)
  | connect cid opts decoded authorized is c started still eq nc news closes leaves =>
    subst is eq
    refine orderly.extend (Nat.le_refl _) (fun x => Or.inl ?_) (none leaves)
    refine @setConn_rel r (fun c' c => c.SentBehind c') (fun _ => ⟨rfl, Or.inl rfl⟩) cid c ?_ x
    exact ⟨congrArg (fun news => news.2.2.1) news, Or.inl (congrArg (fun news => news.2.2.2.2) news)⟩
  | again cid is sent eq leaves =>
    subst is eq leaves
    refine orderly.extend (Nat.le_refl _) (fun x => Or.inl ?_) nofun
    exact @setConn_rel r (fun c' c => c.SentBehind c') (fun _ => ⟨rfl, Or.inl rfl⟩) cid
      { r.conn cid with out := (r.conn cid).out ++ [.pong] } ⟨rfl, Or.inr ⟨sent, _, rfl⟩⟩ x
  | first cid is started unsent eq leaves =>
    subst is eq
    refine orderly.first (life.issued_of_started started) unsent fun task mem x follows => ?_
    rw [leaves] at mem
    split_ifs at mem
    · rw [List.mem_singleton.mp mem] at follows
      exact (of_decide_eq_true follows).symm
    · cases mem
  | insert cid is eq leaves =>
    subst is eq leaves
    exact orderly.extend (Nat.le_refl _) (fun _ => Or.inl ⟨rfl, Or.inl rfl⟩)
      (none (by simp))
  | fetch cid is eq leaves =>
    have sent := orderly.following _ (mem_taken is others) cid (decide_eq_true rfl)
    subst is eq leaves
    refine orderly.extend (Nat.le_refl _) (fun _ => Or.inl ⟨rfl, Or.inl rfl⟩)
      fun task mem x follows => ?_
    rw [List.mem_singleton.mp mem] at follows
    rw [← of_decide_eq_true follows]
    exact sent
  | send cid info is eq leaves =>
    have sent := orderly.following _ (mem_taken is others) cid (decide_eq_true rfl)
    subst is eq leaves
    exact orderly.extend (sendInfo_alike cid info).1.gcid.ge
      (fun x => Or.inl (sendInfo_sentBehind sent.2 info x)) nofun
  | update urls is known eq leaves =>
    subst is eq leaves
    exact orderly.extend (Nat.le_refl _) (fun _ => Or.inl ⟨rfl, Or.inl rfl⟩)
      (none (by simp))
  | skip is eq none leaves =>
    subst is eq leaves
    exact orderly.extend (Nat.le_refl _) (fun _ => Or.inl ⟨rfl, Or.inl rfl⟩) nofun
  | broadcast is eq order perm leaves =>
    subst is eq leaves
    exact orderly.extend (Nat.le_refl _) (fun _ => Or.inl ⟨rfl, Or.inl rfl⟩)
      (none (by simp))
  | async cid info is eq leaves =>
    subst is eq leaves
    exact orderly.extend (asyncInfo_alike cid info).1.gcid.ge
      (fun x => Or.inl (asyncInfo_sentBehind cid info x)) nofun
  | close cid is conn here gcid urls clients leaves =>
    refine orderly.extend gcid.ge (fun x => Or.inl ?_) (none leaves)
    by_cases same : x = cid
    · rw [same]
      exact here.2.sentBehind
    · rw [conn x same]
      exact ⟨rfl, Or.inl rfl⟩

/-- Nothing but the INFO of its creation is sent to a connection before its first PONG. -/
theorem Orderly.run {cfg : RegistryConfig} {urls : List Bytes} {as : List RegistryAction}
    {s : RegistryState} (ran : runFrom (RegistryState.step cfg) (.initial urls) as = some s) :
    s.shared.Orderly s.bag := by
  have both : s.shared.Life s.bag ∧ s.shared.Orderly s.bag := by
    refine @Threaded.invariant_of_all_regions _ _ _ _ _ (fun r bag => r.Life bag ∧ r.Orderly bag)
      _ _ _ (fun r others d r' tasks region inv => ?_) ?_ ran
    · exact ⟨inv.1.region (region_effect region), inv.2.region inv.1 (region_news region)⟩
    · exact ⟨.initial urls, fun _ => ⟨nofun, nofun⟩, fun _ => Nat.zero_le _, nofun⟩
  exact both.2

end Orderly

end Registry

end Hnatsd.Server
