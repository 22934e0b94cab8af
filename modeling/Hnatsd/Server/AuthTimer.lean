import Hnatsd.Misc.Assoc
import Hnatsd.Misc.Runs
import Hnatsd.Server.Parser
import Hnatsd.Server.Permissions

/-!
# The read loop of a client and its auth timer

A client connection of a server that requires authentication. The read loop (`readLoop`, `parse`,
`processConnect`), the callback of the auth timer and other goroutines that close the connection
take turns at the granularity of the client's lock; a parser iteration without a lock region is one
step. What the client sends, whether CONNECT can be decoded and what `checkAuth` says is up to the
run.
-/

namespace Hnatsd.Server
open Misc

/-- The runtime's side of the auth timer: waiting, its callback started, its callback returned, or
stopped before it fired. -/
inductive AuthTimer where
  | armed
  | fired
  | expired
  | stopped
  deriving DecidableEq

/-- How `processConnect` goes on after its first lock region. -/
inductive ConnectAt where
  | begin
  | wait
  | check
  | done
  deriving DecidableEq

/-- Where the read loop is: before its start, in `Read`, before the snapshot at the start of
`parse`, in the loop of `parse`, in a call of `processConnect` made there, behind `parse`, or
returned. -/
inductive Reader where
  | starting (c : ParseState)
  | reading (c : ParseState)
  | entering (c : ParseState) (buf : Bytes)
  | looping (s : LoopState)
  | connecting (stage : ConnectAt) (s : LoopState)
  | parsed (c : ParseState)
  | stopped

/-- A message that got past the checks of `processMsg`, and whether `checkAuth` had returned true
by then. -/
structure Routed where
  pa : PubValues
  msg : Bytes
  authed : Bool
  deriving DecidableEq

/-- The connection: `c.atmr` is set, `c.nc` is not nil, the timer itself, whether `checkAuth` has
returned true, `c.perms`, the read loop and what has been routed. -/
structure Conn where
  atmr : Bool
  nc : Bool
  timer : AuthTimer
  authed : Bool
  perms : Option Permissions
  reader : Reader
  routed : List Routed

/-- A connection that `createClient` has set up (`server.go:584-690`). -/
def Conn.created : Conn where
  atmr := true
  nc := true
  timer := .armed
  authed := false
  perms := none
  reader := .starting .initial
  routed := []

/-- `clearAuthTimer` (`client.go:1255-1262`). -/
def Conn.clearAuthTimer (c : Conn) : Conn × Bool :=
  if c.atmr then
    match c.timer with
    | .armed => ({ c with atmr := false, timer := .stopped }, true)
    | _ => ({ c with atmr := false }, false)
  else (c, true)

/-- The lock region of `closeConnection` (`client.go:1297-1325`). -/
def Conn.closeConnection (c : Conn) : Conn :=
  if c.nc then { c.clearAuthTimer.1 with nc := false } else c

/-- Subjects that start with `_SYS.` and go on (`client.go:1022-1028`). -/
def isReserved (subject : Bytes) : Bool :=
  4 < subject.length && subject.take 5 = [95, 83, 89, 83, 46]

/-- The permission check of `processMsg` (`client.go:1030-1061`): the new state of `c.perms` and
whether the message may be published. -/
def checkPubPermission (g : Grow) (perms : Option Permissions) (subject : Bytes) (pick : Nat) :
    Option Permissions × Bool :=
  match perms with
  | none => (none, true)
  | some p =>
      match p.pcache.lookup subject with
      | some allowed => (some p, allowed)
      | none =>
          let (pub, r) := p.pub.matchSubject g subject pick
          let allowed : Bool := r.psubs.length ≠ 0
          (some { p with pub := pub, pcache := assocSet p.pcache subject allowed }, allowed)

/-- `processMsg` (`client.go:1005-1061`) up to the lookup in the server's sublist, from where the
message is routed. -/
def Conn.processMsg (g : Grow) (c : Conn) (pa : PubValues) (msg : Bytes) (pick : Nat) : Conn :=
  if isReserved pa.subject then c
  else
    match checkPubPermission g c.perms pa.subject pick with
    | (perms, false) => { c with perms := perms }
    | (perms, true) =>
        { c with perms := perms, routed := c.routed ++ [⟨pa, msg, c.authed⟩] }

/-- What `checkAuth` and the protocol check behind it say; an accepted user may be registered. -/
inductive AuthOutcome where
  | denied
  | badProtocol (user : Option UserPermissions)
  | accepted (user : Option UserPermissions)

inductive AuthAction where
  | fire
  | timeout
  | close
  | start
  | read (buf : Bytes)
  | readError
  | snapshot
  | iterate (refused : Bool) (pick : Nat)
  | connect (decoded : Bool)
  | waited
  | checkAuth (outcome : AuthOutcome)
  | resnapshot
  | next

/-- The calls of `parse` other than `processConnect`. -/
def Conn.handle (g : Grow) (pick : Nat) (c : Conn) : Call → Conn
  | .processMsg pa msg => c.processMsg g pa msg pick
  | .processErr _ => c.closeConnection
  | _ => c

/-- One iteration of the loop of `parse`, or what follows the loop. A CONNECT leaves the iteration
open until `processConnect` has returned. -/
def Conn.iterate (cfg : ParserConfig) (c : Conn) (s : LoopState) (refused : Bool) (pick : Nat) :
    Conn :=
  if s.i < s.c.buf.length then
    match s.c.byteAt s.i with
    | none => { c with reader := .stopped }
    | some b =>
        match parseStep cfg s.authSet refused s.i b s.c with
        | .panic => { c with reader := .stopped }
        | .fail _ => { c with reader := .stopped }
        | .next i p none => { c with reader := .looping { s with i := wrap64 (i + 1), c := p } }
        | .next i p (some call) =>
            let s' : LoopState := ⟨s.authSet, wrap64 (i + 1), p, s.calls ++ [call]⟩
            if call.isConnect then { c with reader := .connecting .begin s' }
            else { c.handle cfg.grow pick call with reader := .looping s' }
  else
    match splitBuffer cfg s.i s.c s.calls with
    | .ok p _ => { c with reader := .parsed p }
    | _ => { c with reader := .stopped }

/-- One step of the connection. -/
def Conn.step (cfg : ParserConfig) (c : Conn) : AuthAction → Option Conn
  | .fire => if c.timer = .armed then some { c with timer := .fired } else none
  | .timeout =>
      if c.timer = .fired then some { c.closeConnection with timer := .expired } else none
  | .close => some c.closeConnection
  | .start =>
      match c.reader with
      | .starting p => some { c with reader := if c.nc then .reading p else .stopped }
      | _ => none
  | .read buf =>
      match c.reader with
      | .reading p => if c.nc then some { c with reader := .entering p buf } else none
      | _ => none
  | .readError =>
      match c.reader with
      | .reading _ => some { c.closeConnection with reader := .stopped }
      | _ => none
  | .snapshot =>
      match c.reader with
      | .entering p buf => some { c with reader := .looping ⟨c.atmr, 0, p.load buf, []⟩ }
      | _ => none
  | .iterate refused pick =>
      match c.reader with
      | .looping s => some (c.iterate cfg s refused pick)
      | _ => none
  | .connect decoded =>
      match c.reader with
      | .connecting .begin s =>
          let (c, cleared) := c.clearAuthTimer
          if cleared = false then some { c with reader := .connecting .wait s }
          else if decoded then some { c with reader := .connecting .check s }
          else some { c with reader := .stopped }
      | _ => none
  | .waited =>
      match c.reader with
      | .connecting .wait s =>
          if c.nc then none else some { c with reader := .connecting .done s }
      | _ => none
  | .checkAuth outcome =>
      match c.reader with
      | .connecting .check s =>
          match outcome with
          | .denied => some { c with reader := .stopped }
          | .badProtocol user =>
              some { c with
                authed := true
                perms := registerUser cfg.grow c.perms user
                reader := .stopped }
          | .accepted user =>
              some { c with
                authed := true
                perms := registerUser cfg.grow c.perms user
                reader := .connecting .done s }
      | _ => none
  | .resnapshot =>
      match c.reader with
      | .connecting .done s => some { c with reader := .looping { s with authSet := c.atmr } }
      | _ => none
  | .next =>
      match c.reader with
      | .parsed p => some { c with reader := if c.nc then .reading p else .stopped }
      | _ => none

end Hnatsd.Server
