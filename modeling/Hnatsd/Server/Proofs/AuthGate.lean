import Hnatsd.Server.AuthTimer
import Hnatsd.Server.Proofs.ParserShape

/-!
# No publish before authentication

While the snapshot says that the auth timer is set, the parser accepts nothing but CONNECT. The
snapshot is worth as much as the field it reads: `closeConnection` clears it too. In runs where the
connection is open at every snapshot, nothing is routed before `checkAuth` has returned true.
-/

namespace Hnatsd.Server
open Misc

variable {c : Conn} {r : Reader}

/-- The states on the way of a CONNECT. -/
def PState.onConnect : PState → Bool
  | .opStart | .opC | .opCo | .opCon | .opConn | .opConne | .opConnec | .opConnect
  | .connectArg => true
  | _ => false

/-- What the parser does with a byte on the way of a CONNECT. -/
def Step.OnConnect : Step → Prop
  | .next _ c call =>
      c.state.onConnect ∧ (call = none ∨ ∃ arg, call = some (.processConnect arg))
  | _ => True

theorem startStep_onConnect (typ : ClientKind) (b : UInt8) :
    (∃ e, startStep typ true b = .fail e) ∨ startStep typ true b = .goto .opC := by
  unfold startStep
  by_cases other : b ∉ letter 'C'
  · rw [if_pos ⟨other, rfl⟩]
    exact Or.inl ⟨_, rfl⟩
  · have isC : b = 67 ∨ b = 99 := by simpa [letter] using not_not.mp other
    rcases isC with rfl | rfl <;> exact Or.inr rfl

theorem keyword_onConnect : ∀ s : PState, s.onConnect → s ≠ .opStart →
    ∀ p ∈ keyword s, p.2.onConnect := by
  intro s
  cases s <;> decide

theorem argumentOf_onConnect : ∀ s : PState, s.onConnect → ∀ s' ∈ argumentOf s, s'.onConnect := by
  intro s
  cases s <;> decide

theorem wordStep_onConnect (typ : ClientKind) {s : PState} (b : UInt8) (on : s.onConnect)
    (i : Int) (c : ParseState) : ((wordStep typ true s b).apply i c).OnConnect := by
  by_cases start : s = .opStart
  · subst start
    rcases startStep_onConnect typ b with ⟨e, fails⟩ | goes
    · rw [show wordStep typ true .opStart b = .fail e from fails]
      trivial
    · rw [show wordStep typ true .opStart b = .goto .opC from goes]
      exact ⟨rfl, Or.inl rfl⟩
  · unfold wordStep
    dsimp only
    split
    · exact (start rfl).elim
    · cases on
    · cases on
    · cases on
    · split
      · rename_i arg argument
        split_ifs
        · exact ⟨on, Or.inl rfl⟩
        · exact ⟨argumentOf_onConnect _ on arg argument, Or.inl rfl⟩
      · split
        · rename_i found
          exact ⟨keyword_onConnect _ on start _ (List.mem_of_find?_eq_some found), Or.inl rfl⟩
        · trivial

/-- While the auth timer is taken to be set, only CONNECT gets through. -/
theorem parseStep_onConnect (cfg : ParserConfig) (refused : Bool) (i : Int) (b : UInt8)
    {c : ParseState} (on : c.state.onConnect) : (parseStep cfg true refused i b c).OnConnect := by
  by_cases arg : c.state.isArg
  · have isConnect : c.state = .connectArg := by
      rcases PState.isArg_cases arg with h | h | h | h | h | h | h <;> rw [h] at on <;>
        first | exact h | cases on
    rw [parseStep_arg arg]
    unfold argStep
    split_ifs
    · exact ⟨on, Or.inl rfl⟩
    · split
      · trivial
      · simp only [argDone, isConnect]
        split_ifs
        · trivial
        · exact ⟨rfl, Or.inr ⟨_, rfl⟩⟩
    · split
      · exact ⟨on, Or.inl rfl⟩
      · exact ⟨on, Or.inl rfl⟩
  · have word : c.state.isWord := by
      revert on arg
      cases c.state <;> decide
    rw [parseStep_word word]
    exact wordStep_onConnect cfg.typ b on i c

/-- What holds of the read loop of a connection that is not authenticated: the parser is on the way
of a CONNECT, and the timer is set or the connection closed until a CONNECT has cleared it. -/
def Reader.Waits (atmr nc : Bool) : Reader → Prop
  | .starting c | .reading c | .entering c _ | .parsed c =>
      c.state.onConnect ∧ (nc = true → atmr = true)
  | .looping s => s.c.state.onConnect ∧ s.authSet = true ∧ (nc = true → atmr = true)
  | .connecting .begin s => s.c.state.onConnect ∧ (nc = true → atmr = true)
  | .connecting .wait s | .connecting .check s => s.c.state.onConnect
  | .connecting .done s => s.c.state.onConnect ∧ nc = false
  | .stopped => True

/-- A closed connection asks no more of the timer. -/
theorem Reader.Waits.close {atmr nc atmr' : Bool} (waits : r.Waits atmr nc) :
    r.Waits atmr' false := by
  unfold Reader.Waits at waits ⊢
  split <;> simp_all

namespace Conn

/-- Messages are routed behind `checkAuth`, which waits for a CONNECT. -/
structure Gated (c : Conn) : Prop where
  routed : ∀ m ∈ c.routed, m.authed = true
  waits : c.authed = false → c.reader.Waits c.atmr c.nc

theorem gated_created : created.Gated where
  routed := by simp [created]
  waits _ := ⟨rfl, fun _ => rfl⟩

theorem clearAuthTimer_fields (c : Conn) :
    c.clearAuthTimer.1.routed = c.routed ∧ c.clearAuthTimer.1.authed = c.authed ∧
      c.clearAuthTimer.1.reader = c.reader ∧ c.clearAuthTimer.1.nc = c.nc := by
  unfold clearAuthTimer
  split_ifs
  · split <;> exact ⟨rfl, rfl, rfl, rfl⟩
  · exact ⟨rfl, rfl, rfl, rfl⟩

theorem closeConnection_fields (c : Conn) :
    c.closeConnection.routed = c.routed ∧ c.closeConnection.authed = c.authed ∧
      c.closeConnection.reader = c.reader ∧ c.closeConnection.nc = false := by
  obtain ⟨routed, authed, reader, -⟩ := c.clearAuthTimer_fields
  unfold closeConnection
  split_ifs with nc
  · exact ⟨routed, authed, reader, rfl⟩
  · exact ⟨rfl, rfl, rfl, by simpa using nc⟩

theorem Gated.closeConnection (gated : c.Gated) : c.closeConnection.Gated := by
  obtain ⟨routed, authed, reader, nc⟩ := c.closeConnection_fields
  refine ⟨routed ▸ gated.routed, fun unauthed => ?_⟩
  rw [reader, nc]
  exact (gated.waits (authed ▸ unauthed)).close

theorem processMsg_fields (g : Grow) (c : Conn) (pa : PubValues) (msg : Bytes) (pick : Nat) :
    (c.processMsg g pa msg pick).authed = c.authed ∧
      ((c.processMsg g pa msg pick).routed = c.routed ∨
        (c.processMsg g pa msg pick).routed = c.routed ++ [⟨pa, msg, c.authed⟩]) := by
  unfold processMsg
  split_ifs
  · exact ⟨rfl, Or.inl rfl⟩
  · split
    · exact ⟨rfl, Or.inl rfl⟩
    · exact ⟨rfl, Or.inr rfl⟩

/-- Handling a call of an authenticated connection routes authenticated messages. -/
theorem handle_routed (g : Grow) (pick : Nat) (call : Call)
    (authed : c.authed = true) (routed : ∀ m ∈ c.routed, m.authed = true) :
    (c.handle g pick call).authed = true ∧ ∀ m ∈ (c.handle g pick call).routed, m.authed = true := by
  unfold handle
  split
  · rename_i pa msg
    obtain ⟨same, kept | added⟩ := c.processMsg_fields g pa msg pick
    · exact ⟨same.trans authed, kept ▸ routed⟩
    · refine ⟨same.trans authed, fun m mem => ?_⟩
      rw [added, List.mem_append, List.mem_singleton] at mem
      rcases mem with old | rfl
      · exact routed m old
      · exact authed
  · obtain ⟨same, auth, -⟩ := c.closeConnection_fields
    exact ⟨auth.trans authed, same ▸ routed⟩
  · exact ⟨authed, routed⟩

/-- An iteration of an authenticated connection. -/
theorem Gated.iterate_authed (gated : c.Gated) (authed : c.authed = true)
    (cfg : ParserConfig) (s : LoopState) (refused : Bool) (pick : Nat) :
    (c.iterate cfg s refused pick).Gated := by
  have still (r : Reader) : Conn.Gated { c with reader := r } :=
    ⟨gated.routed, fun unauthed => absurd (authed.symm.trans unauthed) (by decide)⟩
  unfold iterate
  split_ifs
  · split
    · exact still _
    · split
      · exact still _
      · exact still _
      · exact still _
      · dsimp only
        split_ifs
        · exact still _
        · rename_i call _ _
          obtain ⟨stays, routed⟩ := handle_routed cfg.grow pick call authed gated.routed
          exact ⟨routed, fun unauthed => absurd (stays.symm.trans unauthed) (by decide)⟩
  · split
    · exact still _
    · exact still _

/-- An iteration of a connection that is not authenticated: the byte is part of a CONNECT, or the
read loop ends. -/
theorem Gated.iterate_unauthed (gated : c.Gated) (unauthed : c.authed = false)
    (cfg : ParserConfig) {s : LoopState} (reader : c.reader = .looping s) (refused : Bool)
    (pick : Nat) : (c.iterate cfg s refused pick).Gated := by
  have waits := gated.waits unauthed
  rw [reader] at waits
  obtain ⟨on, authSet, timer⟩ := waits
  have stop : Conn.Gated { c with reader := .stopped } := ⟨gated.routed, fun _ => trivial⟩
  unfold iterate
  rw [authSet]
  split_ifs
  · split
    · exact stop
    · rename_i b _
      have step := parseStep_onConnect cfg refused s.i b on
      split
      · exact stop
      · exact stop
      · rename_i stepped
        rw [stepped] at step
        exact ⟨gated.routed, fun _ => ⟨step.1, rfl, timer⟩⟩
      · rename_i stepped
        rw [stepped] at step
        obtain ⟨on', none | ⟨arg, connect⟩⟩ := step
        · cases none
        · cases connect
          exact ⟨gated.routed, fun _ => ⟨on', timer⟩⟩
  · split
    · rename_i split
      exact ⟨gated.routed, fun _ => ⟨(splitBuffer_state split).symm ▸ on, timer⟩⟩
    · exact stop

end Conn

/-- The connection is open whenever the parser looks at the auth timer. -/
def OpenAtSnapshot (c : Conn) : AuthAction → Prop
  | .snapshot | .resnapshot => c.nc = true
  | _ => True

instance (c : Conn) : (a : AuthAction) → Decidable (OpenAtSnapshot c a)
  | .snapshot | .resnapshot => inferInstanceAs (Decidable (c.nc = true))
  | .fire | .timeout | .close | .start | .read _ | .readError | .iterate _ _ | .connect _
  | .waited | .checkAuth _ | .next => isTrue trivial

namespace Conn

/-- The read loop goes on to another place. -/
theorem Gated.goto (gated : c.Gated) {r' : Reader} (reader : c.reader = r)
    (waits : r.Waits c.atmr c.nc → r'.Waits c.atmr c.nc) : Conn.Gated { c with reader := r' } :=
  ⟨gated.routed, fun unauthed => waits (reader ▸ gated.waits unauthed)⟩

/-- The read loop goes back to `Read` if the connection is open. -/
theorem Gated.reread (gated : c.Gated) {p : ParseState}
    (reader : c.reader = r) (same : r.Waits c.atmr c.nc → (Reader.reading p).Waits c.atmr c.nc) :
    Conn.Gated { c with reader := if c.nc then .reading p else .stopped } := by
  split_ifs
  · exact gated.goto reader same
  · exact gated.goto reader fun _ => trivial

/-- The first lock region of `processConnect`. -/
theorem Gated.connect (gated : c.Gated) {s : LoopState}
    (reader : c.reader = .connecting .begin s)
    (next : r = .connecting .wait s ∨ r = .connecting .check s ∨ r = .stopped) :
    Conn.Gated { c.clearAuthTimer.1 with reader := r } := by
  obtain ⟨routed, authed, -, -⟩ := c.clearAuthTimer_fields
  refine ⟨routed ▸ gated.routed, fun unauthed => ?_⟩
  have waits := gated.waits (authed.symm.trans unauthed)
  rw [reader] at waits
  rcases next with rfl | rfl | rfl
  · exact waits.1
  · exact waits.1
  · trivial

theorem Gated.step {cfg : ParserConfig} (c : Conn) (a : AuthAction) (c' : Conn)
    (gated : c.Gated) (guard : OpenAtSnapshot c a) (stepped : c.step cfg a = some c') :
    c'.Gated := by
  cases a with
  | fire =>
    simp only [Conn.step, Option.ite_none_right_eq_some, Option.some.injEq] at stepped
    obtain ⟨-, rfl⟩ := stepped
    exact ⟨gated.routed, gated.waits⟩
  | timeout =>
    simp only [Conn.step, Option.ite_none_right_eq_some, Option.some.injEq] at stepped
    obtain ⟨-, rfl⟩ := stepped
    exact ⟨gated.closeConnection.routed, gated.closeConnection.waits⟩
  | close =>
    cases stepped
    exact gated.closeConnection
  | start =>
    simp only [Conn.step] at stepped
    split at stepped <;> cases stepped
    rename_i reader
    exact gated.reread reader id
  | read buf =>
    simp only [Conn.step] at stepped
    split at stepped
    · rename_i reader
      split_ifs at stepped
      cases stepped
      exact gated.goto reader id
    · cases stepped
  | readError =>
    simp only [Conn.step] at stepped
    split at stepped <;> cases stepped
    exact gated.closeConnection.goto rfl fun _ => trivial
  | snapshot =>
    simp only [Conn.step] at stepped
    split at stepped <;> cases stepped
    rename_i reader
    exact gated.goto reader fun waits => ⟨waits.1, waits.2 guard, waits.2⟩
  | iterate refused pick =>
    simp only [Conn.step] at stepped
    split at stepped <;> cases stepped
    rename_i s reader
    by_cases authed : c.authed = true
    · exact gated.iterate_authed authed cfg s refused pick
    · exact gated.iterate_unauthed (by simpa using authed) cfg reader refused pick
  | connect decoded =>
    simp only [Conn.step] at stepped
    split at stepped
    · rename_i reader
      split_ifs at stepped <;> cases stepped
      · exact gated.connect reader (Or.inl rfl)
      · exact gated.connect reader (Or.inr (Or.inl rfl))
      · exact gated.connect reader (Or.inr (Or.inr rfl))
    · cases stepped
  | waited =>
    simp only [Conn.step] at stepped
    split at stepped
    · rename_i reader
      split_ifs at stepped with nc
      cases stepped
      exact gated.goto reader fun waits => ⟨waits, by simpa using nc⟩
    · cases stepped
  | checkAuth outcome =>
    simp only [Conn.step] at stepped
    split at stepped
    · split at stepped <;> cases stepped
      · exact ⟨gated.routed, fun _ => trivial⟩
      · exact ⟨gated.routed, nofun⟩
      · exact ⟨gated.routed, nofun⟩
    · cases stepped
  | resnapshot =>
    simp only [Conn.step] at stepped
    split at stepped <;> cases stepped
    rename_i reader
    -- a CONNECT that was not authenticated has left the connection closed
    exact gated.goto reader fun waits => absurd (waits.2.symm.trans guard) (by decide)
  | next =>
    simp only [Conn.step] at stepped
    split at stepped <;> cases stepped
    rename_i reader
    exact gated.reread reader id

end Conn

/-- If the connection is open whenever the parser looks at the auth timer, then `processMsg` routes
nothing before `checkAuth` has returned true. -/
theorem routed_authenticated (cfg : ParserConfig) (actions : List AuthAction) (c : Conn)
    (along : Along (Conn.step cfg) OpenAtSnapshot .created actions)
    (ran : runFrom (Conn.step cfg) .created actions = some c) :
    ∀ m ∈ c.routed, m.authed = true :=
  (invariant_of_along Conn.Gated.step Conn.gated_created along ran).routed

/-- A CONNECT that is accepted, then a message, then the end of the connection. -/
theorem routed_authenticated_connect :
    ∃ c, runFrom (Conn.step ⟨.client, 1024, 1024, .double⟩) .created
        ([.start, .read (bytesOf "CONNECT {}\r\nPUB foo 2\r\nhi\r\n"), .snapshot] ++
          List.replicate 12 (.iterate false 0) ++
          [.connect true, .checkAuth (.accepted none), .resnapshot] ++
          List.replicate 14 (.iterate false 0) ++ [.close]) = some c ∧
      c.routed.length = 1 ∧ ∀ m ∈ c.routed, m.authed = true := by
  refine exists_run_imp (P := fun c => c.routed.length = 1) (fun c ran one => ⟨one, ?_⟩)
    (by decide)
  exact routed_authenticated _ _ c (by decide) ran

/-- The auth timer fires between the read and `parse`: the timeout closes the connection, and the
message that was read is routed without a CONNECT. -/
theorem routed_after_timeout :
    ∃ c, runFrom (Conn.step ⟨.client, 1024, 1024, .double⟩) .created
        ([.start, .read (bytesOf "PUB foo 2\r\nhi\r\n"), .fire, .timeout, .snapshot] ++
          List.replicate 14 (.iterate false 0)) = some c ∧
      c.routed = [⟨⟨bytesOf "foo", none, none, bytesOf "2", 2⟩, bytesOf "hi\r\n", false⟩] :=
  exists_run (by decide)

end Hnatsd.Server
