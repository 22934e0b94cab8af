import Hnatsd.Misc.Decimal
import Hnatsd.Server.Sublist

/-!
# Lines to a route

What a server writes to a route: its interest (`route.go:409-412, 483-489, 561-588`) and the
messages it forwards (`client.go:887-897, 1112-1117`).
-/

namespace Hnatsd.Server
open Misc

/-- `routeSid` (`route.go:483-489`). -/
def routeSid (sub : Subscription) : Bytes :=
  let qi := if 0 < (sub.queue.getD []).length then bytesOf "Q" else []
  qi ++ bytesOf "RSID:" ++ decimal sub.client ++ bytesOf ":" ++ sub.sid

/-- A line about interest. -/
inductive RouteLine where
  | sub (subject : Bytes) (queue : Option Bytes) (rsid : Bytes)
  | unsub (rsid : Bytes) (max : Option Nat)
  deriving DecidableEq

/-- `subProto` and `unsubProto` filled in (`route.go:409-412`); a nil queue prints as nothing. -/
def RouteLine.text : RouteLine → Bytes
  | .sub subject queue rsid =>
      bytesOf "SUB " ++ subject ++ bytesOf " " ++ queue.getD [] ++ bytesOf " " ++ rsid ++
        bytesOf "\r\n"
  | .unsub rsid max =>
      let maxStr := match max with
        | some max => bytesOf " " ++ decimal max
        | none => []
      bytesOf "UNSUB " ++ rsid ++ maxStr ++ bytesOf "\r\n"

/-- The line of `broadcastSubscribe` (`route.go:567-568`). -/
def subLine (sub : Subscription) : RouteLine := .sub sub.subject sub.queue (routeSid sub)

/-- The line of `broadcastUnSubscribe` (`route.go:577-586`) for a subscription with these
counters. -/
def unsubLine (sub : Subscription) (nm max : Int) : RouteLine :=
  .unsub (routeSid sub) (if 0 < max ∧ nm < max then some max.toNat else none)

/-- `msgHeader` (`client.go:887-897`) on the scratch buffer with the subject
(`client.go:1112-1117`), for the publish arguments `reply` and `szb`. -/
def Client.msgHeader (subject sid : Bytes) (reply : Option Bytes) (szb : Bytes) : Bytes :=
  let mh := bytesOf "MSG " ++ subject ++ bytesOf " " ++ sid ++ bytesOf " "
  let mh := match reply with
    | some reply => mh ++ reply ++ bytesOf " "
    | none => mh
  mh ++ szb ++ bytesOf "\r\n"

/-- What a server writes to a route: the lines of `broadcastSubscribe` and of `broadcastUnSubscribe`
for a subscription with these counters, and a message. -/
inductive RouteWrite where
  | sub (sub : Subscription)
  | unsub (sub : Subscription) (nm max : Int)
  | msg (subject sid : Bytes) (reply : Option Bytes) (szb payload : Bytes)

/-- The control line. -/
def RouteWrite.control : RouteWrite → Bytes
  | .sub x => (subLine x).text
  | .unsub x nm max => (unsubLine x nm max).text
  | .msg subject sid reply szb _ => Client.msgHeader subject sid reply szb

/-- All of it: `deliverMsg` writes the message with its CRLF behind the header
(`client.go:936-951`). -/
def RouteWrite.text : RouteWrite → Bytes
  | .msg subject sid reply szb payload =>
      Client.msgHeader subject sid reply szb ++ (payload ++ bytesOf "\r\n")
  | w => w.control

end Hnatsd.Server
