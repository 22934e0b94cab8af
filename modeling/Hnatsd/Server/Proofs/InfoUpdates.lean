import Hnatsd.Server.Proofs.InfoSteps

/-!
# New URLs reach the clients

A registered open client has the server's URLs in its last INFO, or some goroutine is about to send
them or to find out that the client does not want them, or the client's flags say that they follow its
first PONG. The guard names what has to be kept apart for this: the counter that short-cuts the
broadcast, clients that register, connect or ping at an odd time, and INFOs that overtake each other.
-/

namespace Hnatsd.Server
open Misc Connection

variable {info : List Bytes} {task : RegistryTask}

/-- The last INFO of the connection has all URLs of the server. -/
def Registry.Current (r : Registry) (cid : Nat) : Prop :=
  ∃ info ∈ (r.conn cid).lastInfo, r.urls ⊆ info

instance (r : Registry) (cid : Nat) : Decidable (r.Current cid) :=
  inferInstanceAs (Decidable (∃ info ∈ (r.conn cid).lastInfo, ∀ url ∈ r.urls, url ∈ info))

/-- The task brings the connection an INFO with the given URLs. -/
def RegistryTask.brings (cid : Nat) (urls : List Bytes) : RegistryTask → Prop
  | .sendAsyncInfoToClients => True
  | .asyncInfo c info => c = cid ∧ urls ⊆ info
  | .fetchInfo c => c = cid
  | .sendInfo c info => c = cid ∧ urls ⊆ info
  | _ => False

theorem RegistryTask.tells_of_brings {cid : Nat} {urls : List Bytes}
    (brings : task.brings cid urls) : task.tells cid = true := by
  cases task with
  | sendAsyncInfoToClients => rfl
  | asyncInfo c info | sendInfo c info => exact decide_eq_true brings.1
  | fetchInfo c => exact decide_eq_true brings
  | _ => exact brings.elim

instance (cid : Nat) (urls : List Bytes) : DecidablePred (RegistryTask.brings cid urls)
  | .asyncInfo _ info => inferInstanceAs (Decidable (_ ∧ ∀ url ∈ urls, url ∈ info))
  | .sendInfo _ info => inferInstanceAs (Decidable (_ ∧ ∀ url ∈ urls, url ∈ info))
  | .fetchInfo _ => inferInstanceAs (Decidable (_ = _))
  | .sendAsyncInfoToClients => .isTrue trivial
  | .greet .. | .register .. | .startReadLoop .. | .handshaken .. | .countProto | .setRemoteID ..
  | .updateServerINFO .. | .addRoute .. | .registerRoute .. | .upgrade .. | .closeConnection ..
  | .removeClient .. | .unregister .. => .isFalse id

/-- An INFO that is about to be written has all URLs of the server, or another one is to come. -/
def Registry.Fresh (r : Registry) (bag : Multiset RegistryTask) (cid : Nat) (info : List Bytes) :
    Prop :=
  r.urls ⊆ info ∨ ∃ task ∈ bag, task.brings cid r.urls

instance (r : Registry) (bag : Multiset RegistryTask) (cid : Nat) (info : List Bytes) :
    Decidable (r.Fresh bag cid info) :=
  have := Multiset.decidableExistsMultiset (m := bag) (p := RegistryTask.brings cid r.urls)
  inferInstanceAs (Decidable ((∀ url ∈ r.urls, url ∈ info) ∨ ∃ task ∈ bag, task.brings cid r.urls))

/-- The order of events that keeps the clients informed. -/
def KeepsInformed (r : Registry) (bag : Multiset RegistryTask) : Doing RegistryOp RegistryTask → Prop
  | .start (.connect cid opts decoded _) =>
      decoded = true → cid ∈ r.clients → (r.conn cid).connectReceived = true → opts.wantsInfo →
        (r.conn cid).opts.wantsInfo
  | .start (.ping cid) => cid ∈ r.clients → (r.conn cid).connectReceived = true
  | .run (.register cid) =>
      (r.conn cid).nc = true → r.Current cid ∨ .sendAsyncInfoToClients ∈ bag
  | .run .sendAsyncInfoToClients =>
      r.cproto = 0 → ∀ cid ∈ r.clients, (r.conn cid).nc = true →
        (r.conn cid).connectReceived = true ∧ ¬ (r.conn cid).opts.wantsInfo
  | .run (.asyncInfo cid info) =>
      (r.conn cid).connectReceived = true → (r.conn cid).opts.wantsInfo →
        (r.conn cid).firstPongSent = true → r.Fresh bag cid info
  | .run (.sendInfo cid info) => r.Fresh bag cid info
  | _ => True

instance (r : Registry) (bag : Multiset RegistryTask) (d : Doing RegistryOp RegistryTask) :
    Decidable (KeepsInformed r bag d) := by
  unfold KeepsInformed
  induction d using Doing.casesOn with
  | start op => induction op using RegistryOp.casesOn <;> infer_instance
  | run task => induction task using RegistryTask.casesOn <;> infer_instance

/-- The connection has the server's URLs, will get them, does not want them or is about to be
closed. -/
inductive Registry.Covered (r : Registry) (bag : Multiset RegistryTask) (cid : Nat) : Prop where
  | current (current : r.Current cid)
  | pending (task : RegistryTask) (mem : task ∈ bag) (brings : task.brings cid r.urls)
  | marked (updated : (r.conn cid).infoUpdated = true) (unsent : (r.conn cid).firstPongSent = false)
  | unwanted (connected : (r.conn cid).connectReceived = true)
      (unwanted : ¬ (r.conn cid).opts.wantsInfo)
  | closing (mem : .closeConnection cid ∈ bag)

structure Registry.Informed (r : Registry) (bag : Multiset RegistryTask) : Prop where
  asked : ∀ cid ∈ r.clients, (r.conn cid).firstPongSent = true → (r.conn cid).connectReceived = true
  unread : ∀ cid, (r.conn cid).hasStarted = false → (r.conn cid).firstPongSent = false
  covered : ∀ cid ∈ r.clients, (r.conn cid).nc = true → r.Covered bag cid

namespace Registry

variable {r r' : Registry} {d : Doing RegistryOp RegistryTask} {tasks : List RegistryTask}
  {others : Multiset RegistryTask} {cid : Nat}

theorem lastInfo_info (c : Connection) (info : List Bytes) :
    ({ c with out := c.out ++ [.info info] } : Connection).lastInfo = some info := by
  simp [lastInfo, ClientLine.urls]

theorem lastInfo_pong {c c' : Connection} (out : c'.out = c.out ++ [.pong]) :
    c'.lastInfo = c.lastInfo := by
  simp [lastInfo, ClientLine.urls, out]

theorem current_congr (urls : r'.urls = r.urls)
    (last : (r'.conn cid).lastInfo = (r.conn cid).lastInfo) : r'.Current cid ↔ r.Current cid := by
  rw [Current, Current, urls, last]

/-- What a region leaves to do when it takes no task that is about the connection. -/
theorem mem_of_tells (cid : Nat) (takes : ∀ task ∈ d.taken, task.tells cid = false)
    (tells : task.tells cid = true) (mem : task ∈ (d.taken + others : Multiset RegistryTask)) :
    task ∈ (tasks + others : Multiset RegistryTask) := by
  rcases Multiset.mem_add.mp mem with taken | other
  · rw [takes task taken] at tells
    cases tells
  · exact Multiset.mem_add.mpr (Or.inr other)

/-- A region that keeps what the connection has been sent and, as far as it matters, its flags. -/
theorem Covered.keep (covered : r.Covered (d.taken + others) cid) (urls : r'.urls = r.urls)
    (last : (r'.conn cid).lastInfo = (r.conn cid).lastInfo)
    (marked : (r.conn cid).infoUpdated = true → (r.conn cid).firstPongSent = false →
      r'.Covered (tasks + others) cid)
    (unwanted : (r.conn cid).connectReceived = true → ¬ (r.conn cid).opts.wantsInfo →
      r'.Covered (tasks + others) cid)
    (takes : ∀ task ∈ d.taken, task.tells cid = false) : r'.Covered (tasks + others) cid := by
  cases covered with
  | current current => exact .current ((current_congr urls last).mpr current)
  | pending task mem brings =>
    exact .pending task (mem_of_tells cid takes (RegistryTask.tells_of_brings brings) mem) (urls ▸ brings)
  | marked updated unsent => exact marked updated unsent
  | unwanted connected isUnwanted => exact unwanted connected isUnwanted
  | closing mem => exact .closing (mem_of_tells cid takes (decide_eq_true rfl) mem)

/-- A region that is not about the connection. -/
theorem Covered.carry (covered : r.Covered (d.taken + others) cid) (urls : r'.urls = r.urls)
    (news : (r'.conn cid).news = (r.conn cid).news)
    (takes : ∀ task ∈ d.taken, task.tells cid = false) : r'.Covered (tasks + others) cid := by
  have connected : (r'.conn cid).connectReceived = (r.conn cid).connectReceived :=
    congrArg (·.1) news
  have opts : (r'.conn cid).opts = (r.conn cid).opts := congrArg (·.2.1) news
  have sent : (r'.conn cid).firstPongSent = (r.conn cid).firstPongSent := congrArg (·.2.2.1) news
  have updated : (r'.conn cid).infoUpdated = (r.conn cid).infoUpdated := congrArg (·.2.2.2.1) news
  have out : (r'.conn cid).out = (r.conn cid).out := congrArg (·.2.2.2.2) news
  refine covered.keep urls ?_ (fun isUpdated unsent => ?_) (fun isConnected unwanted => ?_) takes
  · rw [lastInfo, out, lastInfo]
  · exact .marked (updated ▸ isUpdated) (sent ▸ unsent)
  · exact .unwanted (connected ▸ isConnected) (opts ▸ unwanted)

/-- An INFO is written to the connection. -/
theorem Covered.write (is : d = .run task)
    (fresh : r.Fresh (d.taken + others) cid info) (urls : r'.urls = r.urls)
    (last : (r'.conn cid).lastInfo = some info) (stale : task.brings cid r.urls → r.urls ⊆ info) :
    r'.Covered (tasks + others) cid := by
  have written (all : r.urls ⊆ info) : r'.Covered (tasks + others) cid :=
    .current ⟨info, last, urls ▸ all⟩
  rcases fresh with all | ⟨other, mem, brings⟩
  · exact written all
  · subst is
    rcases Multiset.mem_add.mp mem with taken | kept
    · rw [List.mem_singleton.mp taken] at brings
      exact written (stale brings)
    · exact .pending other (Multiset.mem_add.mpr (Or.inr kept)) (urls ▸ brings)

theorem sendInfo_covered (is : d = .run task)
    (nc : (r.conn cid).nc = true) (fresh : r.Fresh (d.taken + others) cid info)
    (stale : task.brings cid r.urls → r.urls ⊆ info) :
    (r.sendInfo cid info).Covered (tasks + others) cid := by
  have sends : r.sendInfo cid info =
      r.setConn cid { r.conn cid with out := (r.conn cid).out ++ [.info info] } := by
    rw [sendInfo, if_pos nc]
  rw [sends]
  refine Covered.write is fresh rfl ?_ stale
  rw [setConn_conn, if_pos rfl]
  exact lastInfo_info _ info

theorem sendInfo_other {x : Nat} (ne : x ≠ cid) (info : List Bytes) :
    (r.sendInfo cid info).conn x = r.conn x := by
  rw [sendInfo]
  split_ifs
  · rw [setConn_conn, if_neg ne]
  · rfl

theorem asyncInfo_other {x : Nat} (ne : x ≠ cid) (info : List Bytes) :
    (r.asyncInfo cid info).conn x = r.conn x := by
  rw [asyncInfo]
  split_ifs
  · rw [setConn_conn, if_neg ne]
  · exact sendInfo_other ne info
  · rw [setConn_conn, if_neg ne]
  · rfl

theorem sendInfo_urls (info : List Bytes) : (r.sendInfo cid info).urls = r.urls := by
  rw [sendInfo]
  split_ifs <;> rfl

theorem asyncInfo_urls (info : List Bytes) : (r.asyncInfo cid info).urls = r.urls := by
  rw [asyncInfo]
  split_ifs
  · rfl
  · exact sendInfo_urls info
  · rfl
  · rfl

/-- The flags that `sendInfo` and the loop of `sendAsyncInfoToClients` leave alone. -/
def SameFlags (c c' : Connection) : Prop :=
  c.connectReceived = c'.connectReceived ∧ c.firstPongSent = c'.firstPongSent

theorem sendInfo_flags (info : List Bytes) (x : Nat) :
    SameFlags ((r.sendInfo cid info).conn x) (r.conn x) := by
  rw [sendInfo]
  split_ifs
  · exact setConn_rel (fun _ => ⟨rfl, rfl⟩) ⟨rfl, rfl⟩ x
  · exact ⟨rfl, rfl⟩

theorem asyncInfo_flags (info : List Bytes) (x : Nat) :
    SameFlags ((r.asyncInfo cid info).conn x) (r.conn x) := by
  rw [asyncInfo]
  split_ifs
  · exact setConn_rel (fun _ => ⟨rfl, rfl⟩) ⟨rfl, rfl⟩ x
  · exact sendInfo_flags info x
  · exact setConn_rel (fun _ => ⟨rfl, rfl⟩) ⟨rfl, rfl⟩ x
  · exact ⟨rfl, rfl⟩

/-- The loop of `sendAsyncInfoToClients` reaches an open client. -/
theorem asyncInfo_covered (is : d = .run (.asyncInfo cid info))
    (nc : (r.conn cid).nc = true)
    (asked : (r.conn cid).firstPongSent = true → (r.conn cid).connectReceived = true)
    (fresh : (r.conn cid).connectReceived = true → (r.conn cid).opts.wantsInfo →
      (r.conn cid).firstPongSent = true → r.Fresh (d.taken + others) cid info) :
    (r.asyncInfo cid info).Covered (tasks + others) cid := by
  rw [asyncInfo]
  split_ifs with unconnected wants sent
  · refine .marked ?_ ?_
    · rw [setConn_conn, if_pos rfl]
    · rw [setConn_conn, if_pos rfl]
      by_contra sent
      rw [asked (Bool.eq_true_of_not_eq_false sent)] at unconnected
      cases unconnected
  · exact sendInfo_covered is nc (fresh (Bool.eq_true_of_not_eq_false unconnected) wants sent)
      fun brings => brings.2
  · refine .marked ?_ ?_
    · rw [setConn_conn, if_pos rfl]
    · rw [setConn_conn, if_pos rfl]
      exact Bool.eq_false_iff.mpr sent
  · exact .unwanted (Bool.eq_true_of_not_eq_false unconnected) wants

/-- A region that is about one connection. -/
theorem Informed.write (informed : r.Informed (d.taken + others)) (cid : Nat) (urls : r'.urls = r.urls)
    (clients : r'.clients = r.clients) (conn : ∀ x ≠ cid, r'.conn x = r.conn x)
    (takes : ∀ x ≠ cid, ∀ task ∈ d.taken, task.tells x = false)
    (asked : cid ∈ r.clients → (r'.conn cid).firstPongSent = true →
      (r'.conn cid).connectReceived = true)
    (unread : (r'.conn cid).hasStarted = false → (r'.conn cid).firstPongSent = false)
    (covered : cid ∈ r.clients → (r'.conn cid).nc = true → r'.Covered (tasks + others) cid) :
    r'.Informed (tasks + others) := by
  refine ⟨fun x mem => ?_, fun x => ?_, fun x mem nc => ?_⟩
  · rw [clients] at mem
    by_cases here : x = cid
    · subst here
      exact asked mem
    · rw [conn x here]
      exact informed.asked x mem
  · by_cases here : x = cid
    · subst here
      exact unread
    · rw [conn x here]
      exact informed.unread x
  · rw [clients] at mem
    by_cases here : x = cid
    · subst here
      exact covered mem nc
    · rw [conn x here] at nc
      exact (informed.covered x mem nc).carry urls (by rw [conn x here]) (takes x here)

theorem Informed.region (life : r.Life (d.taken + others)) (informed : r.Informed (d.taken + others))
    (guard : KeepsInformed r (d.taken + others) d) (news : r.News d r' tasks) :
    r'.Informed (tasks + others) := by
  cases news with
  | same gcid urls clients conn takes leaves =>
    have listed {cid : Nat} (mem : cid ∈ r'.clients) : (r.conn cid).SameNews (r'.conn cid) := by
      have := life.listed cid (clients mem)
      exact (conn cid).resolve_right fun new => by omega
    refine ⟨fun cid mem sent => ?_, fun cid unstarted => ?_, fun cid mem nc => ?_⟩
    · have same := (listed mem).news
      have connected := congrArg (·.1) same
      have first := congrArg (·.2.2.1) same
      exact connected.trans (informed.asked cid (clients mem) (first.symm.trans sent))
    · rcases conn cid with same | ⟨-, unread⟩
      · have first := congrArg (·.2.2.1) same.news
        exact first.trans (informed.unread cid (same.started unstarted))
      · exact unread.1
    · exact (informed.covered cid (clients mem) ((listed mem).nc nc)).carry urls (listed mem).news
        fun task taken => takes task taken cid
  | connect cid opts decoded authorized is c started still eq nc news closes leaves =>
    subst is eq
    have here : (r.setConn cid c).conn cid = c := by rw [setConn_conn, if_pos rfl]
    have connected : c.connectReceived = (decoded || (r.conn cid).connectReceived) :=
      congrArg (·.1) news
    have isOpts : c.opts = opts := congrArg (·.2.1) news
    have sent : c.firstPongSent = (r.conn cid).firstPongSent := congrArg (·.2.2.1) news
    have updated : c.infoUpdated = (r.conn cid).infoUpdated := congrArg (·.2.2.2.1) news
    have out : c.out = (r.conn cid).out := congrArg (·.2.2.2.2) news
    refine informed.write cid rfl rfl (fun x ne => by rw [setConn_conn, if_neg ne])
      (fun _ _ => List.forall_mem_nil _) ?_ ?_ ?_
    · rw [here, connected, sent]
      intro mem first
      rw [informed.asked cid mem first, Bool.or_true]
    · rw [here, still]
      rintro ⟨⟩
    · rw [here, nc]
      intro mem isOpen
      cases decoded with
      | false => exact .closing (Multiset.mem_add.mpr (Or.inl (closes rfl)))
      | true =>
        refine (informed.covered cid mem isOpen).keep rfl ?_ (fun marked unsent => ?_)
          (fun before unwanted => ?_) (List.forall_mem_nil _)
        · rw [here, lastInfo, out, lastInfo]
        · exact .marked (by rw [here, updated, marked]) (by rw [here, sent, unsent])
        · refine .unwanted (by rw [here, connected, Bool.true_or]) ?_
          rw [here, isOpts]
          exact fun wants => unwanted (guard rfl mem before wants)
  | again cid is sent eq leaves =>
    subst is eq leaves
    have here : (r.setConn cid { r.conn cid with out := (r.conn cid).out ++ [.pong] }).conn cid =
        { r.conn cid with out := (r.conn cid).out ++ [.pong] } := by rw [setConn_conn, if_pos rfl]
    refine informed.write cid rfl rfl (fun x ne => by rw [setConn_conn, if_neg ne])
      (fun _ _ => List.forall_mem_nil _) ?_ ?_ ?_
    · rw [here]
      exact informed.asked cid
    · rw [here]
      exact informed.unread cid
    · intro mem nc
      rw [here] at nc
      refine (informed.covered cid mem nc).keep rfl ?_ (fun marked unsent => ?_)
        (fun before unwanted => ?_) (List.forall_mem_nil _)
      · rw [here]
        exact lastInfo_pong rfl
      · rw [sent] at unsent
        cases unsent
      · exact .unwanted (by rw [here]; exact before) (by rw [here]; exact unwanted)
  | first cid is started unsent eq leaves =>
    subst is
    let c : Connection := { r.conn cid with
      out := (r.conn cid).out ++ [.pong], firstPongSent := true, infoUpdated := false }
    have here : r'.conn cid = c := by rw [eq, setConn_conn, if_pos rfl]
    have urls : r'.urls = r.urls := by rw [eq]; rfl
    refine informed.write cid urls (by rw [eq]; rfl)
      (fun x ne => by rw [eq, setConn_conn, if_neg ne]) (fun _ _ => List.forall_mem_nil _) ?_ ?_ ?_
    · rw [here]
      exact fun mem _ => guard mem
    · rw [here]
      intro unstarted
      exact absurd started (Bool.eq_false_iff.mp unstarted)
    · intro mem nc
      rw [here] at nc
      refine (informed.covered cid mem nc).keep urls ?_ (fun marked _ => ?_)
        (fun before unwanted => ?_) (List.forall_mem_nil _)
      · rw [here]
        exact lastInfo_pong rfl
      · -- the mark is cleared: the INFO is fetched now, or is not wanted
        by_cases wants : (r.conn cid).opts.wantsInfo
        · refine .pending (.fetchInfo cid) (Multiset.mem_add.mpr (Or.inl ?_)) rfl
          rw [leaves, if_pos ⟨wants, marked⟩]
          exact List.mem_singleton_self _
        · exact .unwanted (by rw [here]; exact guard mem) (by rw [here]; exact wants)
      · exact .unwanted (by rw [here]; exact before) (by rw [here]; exact unwanted)
  | insert cid is eq leaves =>
    have unstarted := (life.starts (mem_taken is others) (decide_eq_true (Eq.refl cid))).2
    subst is eq leaves
    refine ⟨fun x mem sent => ?_, informed.unread, fun x mem nc => ?_⟩
    · rcases List.mem_insert_iff.mp mem with rfl | old
      · rw [informed.unread x unstarted] at sent
        cases sent
      · exact informed.asked x old sent
    · rcases List.mem_insert_iff.mp mem with rfl | old
      · rcases guard nc with current | pends
        · exact .current current
        · exact .pending _ (mem_of_tells x (by simp [Doing.taken, RegistryTask.tells]) rfl pends)
            trivial
      · exact (informed.covered x old nc).carry rfl rfl (by simp [Doing.taken, RegistryTask.tells])
  | fetch cid is eq leaves =>
    subst is eq leaves
    refine informed.write cid rfl rfl (fun _ _ => rfl) ?_ (informed.asked cid)
      (informed.unread cid) fun mem nc => ?_
    · simpa [Doing.taken, RegistryTask.tells] using fun x ne => Ne.symm ne
    · exact .pending (.sendInfo cid r'.urls) (Multiset.mem_add.mpr (Or.inl (List.mem_singleton_self _)))
        ⟨rfl, List.Subset.refl _⟩
  | send cid info is eq leaves =>
    have alike := (sendInfo_alike (r := r) cid info).1
    subst eq leaves
    refine informed.write cid (sendInfo_urls info) alike.clients (fun x ne => sendInfo_other ne info)
      (by subst is; simpa [Doing.taken, RegistryTask.tells] using fun x ne => Ne.symm ne) ?_ ?_ ?_
    · rw [(sendInfo_flags info cid).1, (sendInfo_flags info cid).2]
      exact informed.asked cid
    · rw [alike.hasStarted, (sendInfo_flags info cid).2]
      exact informed.unread cid
    · intro mem nc
      rw [alike.nc] at nc
      refine sendInfo_covered is nc ?_ fun brings => brings.2
      subst is
      exact guard
  | update urls is known eq leaves =>
    subst is eq leaves
    exact ⟨informed.asked, informed.unread, fun x _ _ => .pending .sendAsyncInfoToClients
      (Multiset.mem_add.mpr (Or.inl (List.mem_singleton_self _))) trivial⟩
  | skip is eq none leaves =>
    subst is eq leaves
    refine ⟨informed.asked, informed.unread, fun x mem nc => ?_⟩
    obtain ⟨connected, unwanted⟩ := guard none x mem nc
    exact .unwanted connected unwanted
  | broadcast is eq order perm leaves =>
    subst is eq leaves
    refine ⟨informed.asked, informed.unread, fun x mem nc => ?_⟩
    refine .pending (.asyncInfo x r'.urls) (Multiset.mem_add.mpr (Or.inl ?_))
      ⟨rfl, List.Subset.refl _⟩
    exact List.mem_map.mpr ⟨x, perm.mem_iff.mpr mem, rfl⟩
  | async cid info is eq leaves =>
    have alike := (asyncInfo_alike (r := r) cid info).1
    subst eq leaves
    refine informed.write cid (asyncInfo_urls info) alike.clients (fun x ne => asyncInfo_other ne info)
      (by subst is; simpa [Doing.taken, RegistryTask.tells] using fun x ne => Ne.symm ne) ?_ ?_ ?_
    · rw [(asyncInfo_flags info cid).1, (asyncInfo_flags info cid).2]
      exact informed.asked cid
    · rw [alike.hasStarted, (asyncInfo_flags info cid).2]
      exact informed.unread cid
    · intro mem nc
      rw [alike.nc] at nc
      refine asyncInfo_covered is nc (informed.asked cid mem) ?_
      subst is
      exact guard
  | close cid is conn here gcid urls clients leaves =>
    refine informed.write cid urls clients conn
      (by subst is; simpa [Doing.taken, RegistryTask.tells] using fun x ne => Ne.symm ne) ?_ ?_ ?_
    · intro mem sent
      have connected := congrArg (·.1) here.2.news
      have first := congrArg (·.2.2.1) here.2.news
      exact connected.trans (informed.asked cid mem (first.symm.trans sent))
    · intro unstarted
      have first := congrArg (·.2.2.1) here.2.news
      exact first.trans (informed.unread cid (here.2.started unstarted))
    · rw [here.1]
      rintro - ⟨⟩

end Registry

section Runs

variable {cfg : RegistryConfig} {urls : List Bytes} {as : List RegistryAction} {s : RegistryState}

theorem Registry.Informed.run
    (along : Along (RegistryState.step cfg) (Threaded.Guarded KeepsInformed) (.initial urls) as)
    (ran : runFrom (RegistryState.step cfg) (.initial urls) as = some s) :
    s.shared.Informed s.bag := by
  have both : s.shared.Life s.bag ∧ s.shared.Informed s.bag := by
    refine @Threaded.invariant_of_regions _ _ _ _ _ (fun r bag => r.Life bag ∧ r.Informed bag)
      _ _ _ _ (fun r others d r' tasks guard region inv => ?_) ?_ along ran
    · exact ⟨inv.1.region (region_effect region), inv.2.region inv.1 guard (region_news region)⟩
    · exact ⟨.initial urls, nofun, fun _ _ => rfl, nofun⟩
  exact both.2

/-- No INFO follows the one of its creation before a connection's first PONG, and if the guard is met,
with no step half done the last INFO of every registered open client that wants updates and has its
first PONG has all URLs of the server. -/
theorem info_updates_reach
    (ran : runFrom (RegistryState.step cfg) (.initial urls) as = some s) :
    (∀ cid, ((s.shared.conn cid).out.takeWhile (· ≠ .pong)).length ≤ 1) ∧
      (Along (RegistryState.step cfg) (Threaded.Guarded KeepsInformed) (.initial urls) as →
        s.Quiescent → ∀ cid ∈ s.shared.clients, (s.shared.conn cid).nc = true →
        (s.shared.conn cid).opts.wantsInfo → .pong ∈ (s.shared.conn cid).out →
        ∃ info ∈ (s.shared.conn cid).lastInfo, ∀ url ∈ s.shared.urls, url ∈ info) := by
  have orderly := Registry.Orderly.run ran
  refine ⟨orderly.greeting, fun along quiescent cid mem nc wants pong => ?_⟩
  have sent := (orderly.pong cid).mpr pong
  have covered := (Registry.Informed.run along ran).covered cid mem nc
  rw [quiescent.bag_eq] at covered
  cases covered with
  | current current => exact current
  | pending task pends brings => cases pends
  | marked updated unsent =>
    rw [sent] at unsent
    cases unsent
  | unwanted connected unwanted => exact absurd wants unwanted
  | closing pends => cases pends

end Runs

/-- A client, read on thread 1, and a route, read on thread 2. -/
def clientAndRoute : List RegistryAction :=
  [.spawn, .spawn, .spawn, .start 0 (.createClient false), .run 0 [], .run 0 [], .run 0 [],
    .start 1 (.readLoop 1), .start 2 (.createRoute false false), .start 2 (.readLoop 2)]

/-- The client connects and pings before the route brings a URL. -/
theorem info_updates_reach_one :
    ∃ s, runFrom (RegistryState.step ⟨[65], 0, false⟩) (.initial [])
        (clientAndRoute ++ [.start 1 (.connect 1 { protocol := 1 } true true), .run 1 [],
          .start 1 (.ping 1), .start 2 (.info 2 [66] true [[117]]), .run 2 [], .run 2 [], .run 2 [],
          .run 2 [1], .run 2 []]) = some s ∧
      s.shared.urls = [[117]] ∧
      ∃ info ∈ (s.shared.conn 1).lastInfo, ∀ url ∈ s.shared.urls, url ∈ info :=
  exists_run_imp
    (P := fun s => s.shared.urls = [[117]] ∧ s.Quiescent ∧ 1 ∈ s.shared.clients ∧
      (s.shared.conn 1).nc = true ∧ (s.shared.conn 1).opts.wantsInfo ∧ .pong ∈ (s.shared.conn 1).out)
    (fun _ ran final => ⟨final.1, (info_updates_reach ran).2 (by decide) final.2.1 1
      final.2.2.1 final.2.2.2.1 final.2.2.2.2.1 final.2.2.2.2.2⟩)
    (by decide)

/-- The route brings its URL before the first client that wants updates connects:
`sendAsyncInfoToClients` finds `s.cproto` 0 and does not mark the client. -/
theorem info_update_lost :
    ∃ s, runFrom (RegistryState.step ⟨[65], 0, false⟩) (.initial [])
        (clientAndRoute ++ [.start 2 (.info 2 [66] true [[117]]), .run 2 [], .run 2 [], .run 2 [],
          .run 2 [], .start 1 (.connect 1 { protocol := 1 } true true), .run 1 [],
          .start 1 (.ping 1)]) = some s ∧
      s.Quiescent ∧ 1 ∈ s.shared.clients ∧ (s.shared.conn 1).nc = true ∧
      (s.shared.conn 1).opts.wantsInfo ∧ .pong ∈ (s.shared.conn 1).out ∧
      s.shared.urls = [[117]] ∧ (s.shared.conn 1).lastInfo = some [] :=
  exists_run (by decide)

end Hnatsd.Server
