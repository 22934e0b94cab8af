import Hnatsd.Peers.Bcast

/-!
# Replies and requests

Replies over gRPC do not say which request they answer, and those of all requests wait on one
channel. A reply that outlives its request is read by the next call. So a call only gets answers of
its own if all replies that are still due when it starts would be answers to it too.
-/

namespace Hnatsd.Peers
open Misc List

variable {saver : BoltSaver} {key : Bytes} {s s' : Getter}

namespace Getter

/-- The value has the requested key and, if a peer was asked for by name, comes from that peer. -/
def Answers (s : Getter) (req : BcastGetRequest) (ki : KeyInv) : Prop :=
  ki.key = req.key ∧
    (req.who ≠ [] → ∃ p ∈ s.self :: s.cluster, p.Named req.who ∧ (ki.who = p.id ∨ ki.who = p.whoami))

/-- A blocked reply is an answer to the request. -/
def WaitsFor (s : Getter) (req : BcastGetRequest) (reply : BcastGetReply) : Prop :=
  ∀ ki ∈ reply.ki, s.Answers req ki

/-- A peer that has not answered yet will answer the request. -/
def AskedFor (req : BcastGetRequest) (asked : BcastGetRequest × PeerName) : Prop :=
  asked.1.key = req.key ∧ (req.who ≠ [] → asked.2.Named req.who)

/-- A call for a named peer does a local get only if it is that peer, and a call that asks the peers
starts when all replies that are still due are answers to it. -/
def Apart (s : Getter) : Action → Prop
  | .get key who members published _ =>
      if asksLocally s.self.id members who then who = [] ∨ s.self.Named who
      else published = true →
        (∀ asked ∈ s.asked, AskedFor ⟨key, who, true⟩ asked) ∧
          ∀ reply ∈ s.waiting, s.WaitsFor ⟨key, who, true⟩ reply
  | _ => True

instance (s : Getter) (req : BcastGetRequest) (ki : KeyInv) : Decidable (s.Answers req ki) :=
  inferInstanceAs (Decidable (_ ∧ (_ → ∃ p ∈ s.self :: s.cluster, _)))

instance (s : Getter) (req : BcastGetRequest) (reply : BcastGetReply) :
    Decidable (s.WaitsFor req reply) :=
  inferInstanceAs (Decidable (∀ ki ∈ reply.ki, s.Answers req ki))

instance (req : BcastGetRequest) (asked : BcastGetRequest × PeerName) :
    Decidable (AskedFor req asked) :=
  inferInstanceAs (Decidable (_ ∧ (_ → asked.2.Named req.who)))

instance (s : Getter) (a : Action) : Decidable (s.Apart a) := by
  unfold Apart
  split
  · infer_instance
  · infer_instance

/-- What holds in every run: the results are answers, and while a call runs so is all it has and all
it may get. -/
structure Answering (s : Getter) : Prop where
  members : ∀ asked ∈ s.asked, asked.2 ∈ s.cluster
  results : ∀ req kis, (req, .ok kis) ∈ s.results → ∀ ki ∈ kis, s.Answers req ki
  running : ∀ c, s.call = some c →
    (∀ asked ∈ s.asked, AskedFor c.req asked) ∧ (∀ reply ∈ s.waiting, s.WaitsFor c.req reply) ∧
      ∀ ki ∈ c.sorter, s.Answers c.req ki

theorem localGet_key {includeValue : Bool} {ki : KeyInv}
    (got : saver.localGet key includeValue = .ok ki) : ki.key = key ∧ ki.who = saver.whoami := by
  unfold BoltSaver.localGet at got
  split at got
  · cases got
  · cases got
    exact ⟨rfl, rfl⟩

/-- A reply has the key it was asked for and the ID of the peer that sent it. -/
theorem serverHandleBcastGet_ki {id : Bytes} {bgr : BcastGetRequest}
    {reply : BcastGetReply} (handled : serverHandleBcastGet id saver bgr = some reply) :
    ∀ ki, reply.ki = some ki → ki.key = bgr.key ∧ ki.who = id := by
  unfold serverHandleBcastGet at handled
  split at handled
  · cases handled
  · cases got : saver.localGet bgr.key bgr.includeValue with
    | error err =>
      rw [got] at handled
      cases handled
      intro ki none_left
      cases none_left
    | ok copy =>
      rw [got] at handled
      cases handled
      intro ki same
      cases same
      exact ⟨(localGet_key got).1, rfl⟩

theorem takeReply_ok {sorter kis : List KeyInv} {bgReply : BcastGetReply}
    (taken : takeReply sorter bgReply = .ok kis) :
    ∀ ki ∈ kis, bgReply.ki = some ki ∨ ki ∈ sorter := by
  unfold takeReply at taken
  split at taken
  · cases taken
  · split at taken
    · cases taken
    next copy present =>
      cases taken
      intro ki mem
      rcases mem_treeInsert mem with rfl | old
      · exact Or.inl present
      · exact Or.inr old

/-- The local get answers the request when it is this peer that is asked. -/
theorem answers_getLocally {who : Bytes} {kis : List KeyInv}
    (own : who = [] ∨ s.self.Named who)
    (got : getLocally { saver with whoami := s.self.whoami } key true = .ok kis) :
    ∀ ki ∈ kis, s.Answers ⟨key, who, true⟩ ki := by
  unfold getLocally at got
  split at got
  · cases got
  next copy present =>
    cases got
    intro ki mem
    rw [mem_singleton.mp mem]
    obtain ⟨key_eq, who_eq⟩ := localGet_key present
    refine ⟨key_eq, fun asked => ⟨s.self, mem_cons_self, own.resolve_left asked, ?_⟩⟩
    exact Or.inr who_eq

namespace Answering

section

variable (answering : s.Answering)
include answering

/-- A call that ends adds its result and nothing else. -/
theorem finish {req : BcastGetRequest}
    {result : Except GetError (List KeyInv)}
    (answered : ∀ kis, result = .ok kis → ∀ ki ∈ kis, s.Answers req ki) :
    (s.finish req result).Answering := by
  refine ⟨answering.members, fun req' kis mem ki inKis => ?_, fun c running => nomatch running⟩
  rcases mem_append.mp mem with old | new
  · exact answering.results req' kis old ki inKis
  · cases mem_singleton.mp new
    exact answered kis rfl ki inKis

/-- Fewer replies due. -/
theorem fewer {asked : List (BcastGetRequest × PeerName)} {waiting : List BcastGetReply}
    (fewerAsked : ∀ a ∈ asked, a ∈ s.asked) (fewerWaiting : ∀ r ∈ waiting, r ∈ s.waiting) :
    Answering { s with asked := asked, waiting := waiting } := by
  refine ⟨fun a mem => answering.members a (fewerAsked a mem), answering.results,
    fun c running => ?_⟩
  obtain ⟨allAsked, allWaiting, sorter⟩ := answering.running c running
  exact ⟨fun a mem => allAsked a (fewerAsked a mem), fun r mem => allWaiting r (fewerWaiting r mem),
    sorter⟩

theorem get {who : Bytes} {members : Option Nat} {published : Bool}
    {store : BoltSaver} (apart : s.Apart (.get key who members published store))
    (stepped : s.step (.get key who members published store) = some s') : s'.Answering := by
  unfold step at stepped
  split at stepped
  · cases stepped
  simp only [Apart] at apart
  dsimp only at stepped
  split at stepped
  · cases stepped
  split at stepped
  next locally =>
    rw [if_pos locally] at apart
    cases stepped
    exact answering.finish fun kis got => answers_getLocally apart got
  next far =>
    rw [if_neg far] at apart
    split at stepped
    next sent =>
      cases stepped
      obtain ⟨allAsked, allWaiting⟩ := apart sent
      refine ⟨fun asked mem => ?_, answering.results, fun c running => ?_⟩
      · rcases mem_append.mp mem with old | new
        · exact answering.members asked old
        · obtain ⟨p, inCluster, rfl⟩ := mem_map.mp new
          exact mem_of_mem_filter inCluster
      · cases running
        refine ⟨fun asked mem => ?_, allWaiting, fun ki none_left => nomatch none_left⟩
        rcases mem_append.mp mem with old | new
        · exact allAsked asked old
        · obtain ⟨p, meant, rfl⟩ := mem_map.mp new
          rw [mem_filter, decide_eq_true_eq] at meant
          exact ⟨rfl, fun named => meant.2.resolve_left named⟩
    next =>
      cases stepped
      exact answering.finish fun kis failed => nomatch failed

/-- A reply that arrives answers whatever the peer was asked for. -/
theorem arrive {i : Nat} {store : BoltSaver} (stepped : s.step (.arrive i store) = some s') :
    s'.Answering := by
  unfold step at stepped
  split at stepped
  · cases stepped
  dsimp only at stepped
  split at stepped
  · cases stepped
  next req p found =>
    have inAsked : (req, p) ∈ s.asked := mem_of_getElem? found
    split at stepped
    · cases stepped
    next reply handled =>
      have shrunk : Answering { s with asked := s.asked.eraseIdx i } :=
        answering.fewer (fun a mem => mem_of_mem_eraseIdx mem) fun r mem => mem
      split at stepped
      · cases stepped
        exact ⟨shrunk.members, shrunk.results, shrunk.running⟩
      · cases stepped
        refine ⟨shrunk.members, shrunk.results, fun c running => ?_⟩
        obtain ⟨allAsked, allWaiting, sorter⟩ := answering.running c running
        refine ⟨(shrunk.running c running).1, fun r mem => ?_, sorter⟩
        rcases mem_append.mp mem with old | new
        · exact allWaiting r old
        · rw [mem_singleton.mp new]
          intro ki present
          obtain ⟨key_eq, who_eq⟩ := serverHandleBcastGet_ki handled ki present
          obtain ⟨same, meant⟩ := allAsked (req, p) inAsked
          refine ⟨key_eq.trans same, fun named => ⟨p, ?_, meant named, Or.inl who_eq⟩⟩
          exact mem_cons_of_mem _ (answering.members _ inAsked)

theorem read {j : Nat} (stepped : s.step (.read j) = some s') : s'.Answering := by
  unfold step at stepped
  split at stepped
  · cases stepped
  dsimp only at stepped
  split at stepped
  next c bgReply running found =>
    have shrunk : Answering { s with waiting := s.waiting.eraseIdx j } :=
      answering.fewer (fun a mem => mem) fun r mem => mem_of_mem_eraseIdx mem
    obtain ⟨allAsked, allWaiting, sorter⟩ := answering.running c running
    have here := allWaiting bgReply (mem_of_getElem? found)
    split at stepped
    · cases stepped
      exact shrunk.finish fun kis failed => nomatch failed
    next kis taken =>
      have answers : ∀ ki ∈ kis, s.Answers c.req ki := fun ki mem =>
        (takeReply_ok taken ki mem).elim (here ki) (sorter ki)
      split at stepped
      · cases stepped
        refine shrunk.finish fun kis' same => ?_
        cases same
        exact answers
      · cases stepped
        refine ⟨shrunk.members, shrunk.results, fun c' running' => ?_⟩
        cases running'
        exact ⟨(shrunk.running c running).1, (shrunk.running c running).2.1, answers⟩
  next => cases stepped

theorem step {a : Action} (apart : s.Apart a)
    (stepped : s.step a = some s') : s'.Answering := by
  cases a with
  | get key who members published store => exact answering.get apart stepped
  | arrive i store => exact answering.arrive stepped
  | read j => exact answering.read stepped
  | timeout =>
    unfold Getter.step at stepped
    split at stepped
    · cases stepped
    · obtain ⟨c, -, rfl⟩ := Option.map_eq_some_iff.mp stepped
      exact answering.finish fun kis failed => nomatch failed
  | stop =>
    unfold Getter.step at stepped
    split at stepped
    · cases stepped
    · cases stepped
      exact ⟨answering.members, answering.results, answering.running⟩
  | shutdown =>
    unfold Getter.step at stepped
    split at stepped
    · cases stepped
    · dsimp only at stepped
      split at stepped
      · obtain ⟨c, -, rfl⟩ := Option.map_eq_some_iff.mp stepped
        exact answering.finish fun kis failed => nomatch failed
      · cases stepped
  | giveUp j =>
    unfold Getter.step at stepped
    split at stepped
    · cases stepped
    · dsimp only at stepped
      split at stepped
      · cases stepped
        exact answering.fewer (fun a mem => mem) fun r mem => mem_of_mem_eraseIdx mem
      · cases stepped

end

end Answering

/-- A get never returns another request's answer, in every run whose calls meet the condition. -/
theorem gets_answered (self : PeerName) (cluster : List PeerName) (actions : List Action)
    (apart : Along step Apart (newGetter self cluster) actions) (s : Getter)
    (ran : runFrom step (newGetter self cluster) actions = some s) (req : BcastGetRequest)
    (kis : List KeyInv) (returned : (req, .ok kis) ∈ s.results) :
    ∀ ki ∈ kis, s.Answers req ki := by
  have answering : s.Answering := by
    refine invariant_of_along ?_ ?_ apart ran
    · intro s a s' answering guard stepped
      exact answering.step guard stepped
    · refine ⟨fun asked none_left => ?_, fun req kis none_left => ?_, fun c none_left => ?_⟩
      · cases none_left
      · cases none_left
      · cases none_left
  exact answering.results req kis returned

/-- The keys of what each call returned. -/
def returnedKeys (s : Getter) : List (Bytes × List Bytes) :=
  s.results.map fun (req, result) =>
    match result with
    | .ok kis => (req.key, kis.map (·.key))
    | .error _ => (req.key, [])

/-- A store with the keys `k` and `l`. -/
def twoKeys : BoltSaver :=
  ((BoltSaver.newBoltSaver []).localSet id { key := bytesOf "k", val := bytesOf "v" } true).localSet
    id { key := bytesOf "l", val := bytesOf "w" } true

def nameA : PeerName := ⟨bytesOf "A", bytesOf "a"⟩

def nameB : PeerName := ⟨bytesOf "B", bytesOf "b"⟩

/-- A call that both peers answer in time, and then one for `B` alone, by the name of its store. -/
def inTime : List Action :=
  [.get (bytesOf "k") [] (some 2) true twoKeys, .arrive 1 twoKeys, .arrive 0 twoKeys, .read 0,
    .read 0, .get (bytesOf "l") (bytesOf "b") (some 2) true twoKeys, .arrive 0 twoKeys, .read 0]

theorem gets_answered_in_time :
    ∃ s, runFrom step (newGetter nameA [nameA, nameB]) inTime = some s ∧
      ∀ req kis, (req, .ok kis) ∈ s.results → ∀ ki ∈ kis, s.Answers req ki :=
  exists_run_imp (P := fun s => s.returnedKeys = [(bytesOf "k", [bytesOf "k", bytesOf "k"]),
      (bytesOf "l", [bytesOf "l"])])
    (fun s ran _ req kis returned =>
      gets_answered nameA [nameA, nameB] inTime (by decide) s ran req kis returned)
    (by decide)

/-- A call for `k` times out; its replies arrive late and the next call, for `l`, returns them. -/
theorem late_replies_returned :
    ∃ s, runFrom step (newGetter nameA [nameA, nameB])
        [.get (bytesOf "k") [] (some 2) true twoKeys, .timeout, .arrive 0 twoKeys,
          .arrive 0 twoKeys, .get (bytesOf "l") [] (some 2) true twoKeys, .read 0, .read 0] =
          some s ∧
      s.returnedKeys = [(bytesOf "k", []), (bytesOf "l", [bytesOf "k", bytesOf "k"])] :=
  exists_run (by decide)

end Getter

end Hnatsd.Peers
