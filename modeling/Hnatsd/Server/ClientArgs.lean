import Hnatsd.Misc.Bytes
import Hnatsd.Misc.Int64

/-!
# Arguments of protocol lines

`splitArg` and `parseSize`. `processPub` and `processMsgArgs` have the loop of `splitArg` written
out and keep the tokens as slices of the argument, so the loop is given on index ranges.
-/

namespace Hnatsd.Server
open Misc

/-- The kinds of connection (`client.go:18-26`). -/
inductive ClientKind where
  | client
  | router
  | internalCli
  deriving DecidableEq

/-- The bytes that end a token (`client.go:731`). -/
def isBlank (b : UInt8) : Bool := b = 32 || b = 9 || b = 13 || b = 10

/-- The loop of `splitArg` (`client.go:730-745`) from index `i` on: the ranges of the tokens.
`start` is none where the source has -1. -/
def splitRanges : Bytes → Nat → Option Nat → List (Nat × Nat)
  | [], _, none => []
  | [], i, some start => [(start, i)]
  | b :: rest, i, start =>
      if isBlank b then
        match start with
        | some start => (start, i) :: splitRanges rest (i + 1) none
        | none => splitRanges rest (i + 1) none
      else splitRanges rest (i + 1) (some (start.getD i))

/-- The bytes in a range. -/
def slice (arg : Bytes) (range : Nat × Nat) : Bytes := (arg.take range.2).drop range.1

/-- `splitArg` (`client.go:726-747`). -/
def splitArg (arg : Bytes) : List Bytes := (splitRanges arg 0 none).map (slice arg)

/-- The loop of `parseSize`; `n` wraps as a Go int does. -/
def parseDigits : Bytes → Int → Int
  | [], n => n
  | d :: rest, n => if d < 48 ∨ 57 < d then -1 else parseDigits rest (wrap64 (n * 10 + (d.toNat - 48)))

/-- `parseSize` (`util.go:24-35`). -/
def parseSize (d : Bytes) : Int := if d = [] then -1 else parseDigits d 0

/-- `parseInt64` (`util.go:37-50`): the loop of `parseSize` on an `int64`. -/
def parseInt64 (d : Bytes) : Int := if d = [] then -1 else parseDigits d 0

/-- The arguments of SUB: subject, queue and sid (`client.go:758-771`). -/
def subArgs (arg : Bytes) : Option (Bytes × Option Bytes × Bytes) :=
  match splitArg arg with
  | [subject, sid] => some (subject, none, sid)
  | [subject, queue, sid] => some (subject, some queue, sid)
  | _ => none

/-- The arguments of UNSUB: sid and `max` (`client.go:838-850`). -/
def unsubArgs (arg : Bytes) : Option (Bytes × Int) :=
  match splitArg arg with
  | [sid] => some (sid, -1)
  | [sid, max] => some (sid, parseSize max)
  | _ => none

end Hnatsd.Server
