import Hnatsd.Server.ClientArgs
import Hnatsd.Server.Sublist

/-!
# Permissions and `processSub`

`RegisterUser` maps the allowed subjects of a user into two sublists of the client; `processSub`
looks a subscription's subject up in the one for subscribing. The outcomes of `processSub` stand
for what it sends and forwards; the fields it does not touch are left out.
-/

namespace Hnatsd.Server
open Misc

/-- `Permissions` (`opts.go:29-32`): the subjects a user may publish and subscribe to. -/
structure UserPermissions where
  publish : List Bytes
  subscribe : List Bytes

/-- `permissions` (`client.go:123-127`). -/
structure Permissions where
  sub : Sublist
  pub : Sublist
  pcache : List (Bytes × Bool)

/-- The insertion loops of `RegisterUser`. Every subject gets an object of its own, and an
insertion that fails is not noticed. -/
def insertSubjects (g : Grow) (subjects : List Bytes) (firstPtr : Nat) : Sublist :=
  (subjects.zipIdx firstPtr).foldl
    (fun s (subject, ptr) => (s.insert g { ptr := ptr, subject := subject }).1) .newSublist

/-- `RegisterUser` (`client.go:230-256`): what `c.perms` becomes. -/
def registerUser (g : Grow) (perms : Option Permissions) (user : Option UserPermissions) :
    Option Permissions :=
  match user with
  | none => perms
  | some user =>
      some {
        pub := insertSubjects g user.publish 0
        sub := insertSubjects g user.subscribe user.publish.length
        pcache := [] }

/-- The token loop of `IsValidSubject`. A token of several bytes leaves `sfwc` as it is, whatever
its first byte. -/
def validTokens : List Bytes → Bool → Bool
  | [], _ => true
  | t :: ts, sfwc =>
      if t.length = 0 ∨ sfwc then false
      else if 1 < t.length then validTokens ts sfwc
      else validTokens ts (if t.head? = some fwc then true else sfwc)

/-- `IsValidSubject` (`sublist.go:569-588`). -/
def isValidSubject (subject : Bytes) : Bool :=
  if subject = [] then false else validTokens (tokens subject) false

/-- A value of the configuration file where subjects are expected; what is not a string in an array
is `none`. -/
inductive SubjectsValue where
  | subject (s : Bytes)
  | subjects (ss : List Bytes)
  | values (vs : List (Option Bytes))
  | other

/-- The errors of `parseSubjects` and `checkSubjectArray`, with the subject the last one names. -/
inductive SubjectsError where
  | elementNotString
  | notSubjects
  | invalid (subject : Bytes)
  deriving DecidableEq

/-- `checkSubjectArray` (`opts.go:486-493`). -/
def checkSubjectArray (sa : List Bytes) : Except SubjectsError (List Bytes) :=
  match sa.find? fun s => !isValidSubject s with
  | some s => .error (.invalid s)
  | none => .ok sa

/-- `parseSubjects` (`opts.go:464-483`). -/
def parseSubjects : SubjectsValue → Except SubjectsError (List Bytes)
  | .subject s => checkSubjectArray [s]
  | .subjects ss => checkSubjectArray ss
  | .values vs =>
      match vs.mapM id with
      | none => .error .elementNotString
      | some ss => checkSubjectArray ss
  | .other => .error .notSubjects

/-- `IsValidLiteralSubject` (`sublist.go:591-608`). -/
def isValidLiteralSubject (subject : Bytes) : Bool :=
  (tokens subject).all fun t =>
    if t.length = 0 then false
    else if 1 < t.length then true
    else t.head? ≠ some pwc ∧ t.head? ≠ some fwc

/-- The part of a client that `processSub` reads and writes. `srv` is the server's sublist, if
there is a server. -/
structure SubClient where
  typ : ClientKind
  connected : Bool
  perms : Option Permissions
  subs : List (Bytes × Subscription)
  srv : Option Sublist

/-- How a call of `processSub` ends. `inserted` is followed by `broadcastSubscribe` when `forward`
is set; after `known`, `unserved` and `inserted` a verbose client gets its `+OK`. -/
inductive SubOutcome where
  | parseError
  | closed
  | violation (subject : Bytes)
  | invalidSubject
  | known
  | unserved (sub : Subscription)
  | inserted (sub : Subscription) (forward : Bool)
  deriving DecidableEq

/-- The subscription described by the arguments (`client.go:760-772`). -/
def subOfArgs (ptr client : Nat) (args : List Bytes) : Option Subscription :=
  match args with
  | [subject, sid] => some { ptr := ptr, subject := subject, client := client, sid := sid }
  | [subject, queue, sid] =>
      some { ptr := ptr, subject := subject, queue := some queue, client := client, sid := sid }
  | _ => none

/-- The permission check (`client.go:784-792`): the new state of `c.perms` and whether the
subject is allowed. -/
def checkSubPermission (g : Grow) (perms : Option Permissions) (subject : Bytes) (pick : Nat) :
    Option Permissions × Bool :=
  match perms with
  | none => (none, true)
  | some p =>
      let (sub, r) := p.sub.matchSubject g subject pick
      (some { p with sub := sub }, r.psubs.length ≠ 0)

/-- `processSub` (`client.go:749-818`); `ptr` is the address of the new object and `pick` the
choice of an evicted cache entry. -/
def processSub (g : Grow) (c : SubClient) (arg : Bytes) (ptr client pick : Nat) :
    SubClient × SubOutcome :=
  match subOfArgs ptr client (splitArg arg) with
  | none => (c, .parseError)
  | some sub =>
      if c.connected = false then (c, .closed)
      else
        match checkSubPermission g c.perms sub.subject pick with
        | (perms, false) => ({ c with perms := perms }, .violation sub.subject)
        | (perms, true) =>
            if (c.subs.lookup sub.sid).isSome then ({ c with perms := perms }, .known)
            else
              match c.srv with
              | none =>
                  ({ c with perms := perms, subs := assocSet c.subs sub.sid sub }, .unserved sub)
              | some sl =>
                  match sl.insert g sub with
                  | (sl, some _) => ({ c with perms := perms, srv := some sl }, .invalidSubject)
                  | (sl, none) =>
                      ({ c with
                          perms := perms
                          subs := assocSet c.subs sub.sid sub
                          srv := some sl }, .inserted sub (c.typ ≠ .router))

end Hnatsd.Server
