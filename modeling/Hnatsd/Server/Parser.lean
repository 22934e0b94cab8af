import Hnatsd.Misc.Slice
import Hnatsd.Server.ClientArgs

/-!
# The protocol parser

`server/parser.go`. The parser keeps slices: into the buffer of the current read, into its scratch
array and into buffers it has made. They live on one heap, where array 0 is the read buffer, which
the next read overwrites, and array 1 is the scratch array. Indices and sizes are Go ints and wrap.

What the rest of the client does is left to the environment: whether the auth timer is set when
the parser looks, and whether `processConnect` and `processInfo` return an error.
-/

namespace Hnatsd.Server
open Misc

/-- Parser states (`parser.go:28-82`). -/
inductive PState where
  | opStart
  | opPlus | opPlusO | opPlusOk
  | opMinus | opMinusE | opMinusEr | opMinusErr | opMinusErrSpc | minusErrArg
  | opC | opCo | opCon | opConn | opConne | opConnec | opConnect | connectArg
  | opP | opPu | opPub | opPubSpc | pubArg
  | opPi | opPin | opPing
  | opPo | opPon | opPong
  | msgPayload | msgEnd
  | opS | opSu | opSub | opSubSpc | subArg
  | opU | opUn | opUns | opUnsu | opUnsub | opUnsubSpc | unsubArg
  | opM | opMs | opMsg | opMsgSpc | msgArg
  | opI | opIn | opInf | opInfo | infoArg
  deriving DecidableEq

/-- `pubArg` (`parser.go:9-15`). -/
structure PubArg where
  subject : Option Slice
  reply : Option Slice
  sid : Option Slice
  szb : Option Slice
  size : Int

/-- `parseState` (`parser.go:17-25`) and the memory its slices are in. -/
structure ParseState where
  state : PState
  as : Int
  drop : Int
  pa : PubArg
  argBuf : Option Slice
  msgBuf : Option Slice
  mem : Heap UInt8

/-- `MAX_CONTROL_LINE_SIZE` and `LEN_CR_LF` (`const.go:26, 51`). -/
def maxControlLineSize : Nat := 1024
def lenCrLf : Int := 2

/-- The addresses of the read buffer and of `c.scratch`. -/
def readBuf : Nat := 0
def scratch : Nat := 1

/-- What `parse` reads of the client: its kind, `c.mpay` and the `mcl` in force; and how Go grows
slices. -/
structure ParserConfig where
  typ : ClientKind
  mpay : Int
  mcl : Int
  grow : Grow

/-- The values of `c.pa` when `processMsg` runs. -/
structure PubValues where
  subject : Bytes
  reply : Option Bytes
  sid : Option Bytes
  szb : Bytes
  size : Int
  deriving DecidableEq

/-- The calls `parse` makes into the client. -/
inductive Call where
  | processConnect (arg : Bytes)
  | processInfo (arg : Bytes)
  | processSub (arg : Bytes)
  | processUnsub (arg : Bytes)
  | processErr (arg : Bytes)
  | processPing
  | processPong
  | processMsg (pa : PubValues) (msg : Bytes)
  deriving DecidableEq

def Call.isConnect : Call → Bool
  | .processConnect _ => true
  | _ => false

inductive ParseError where
  | authorization
  | protocol
  | arguments
  | badSize
  | maxPayload
  | maxControlLine
  | refused
  deriving DecidableEq

/-- The environment of one call of `parse`: what `isAuthTimerSet` says, and whether
`processConnect` or `processInfo` fails, after the calls made so far. -/
structure Env where
  authSet : List Call → Bool
  refuses : List Call → Bool

/-- No auth timer is pending and nothing is refused. -/
def Env.quiet : Env := ⟨fun _ => false, fun _ => false⟩

namespace ParseState

/-- The state of a new connection. -/
def initial : ParseState where
  state := .opStart
  as := 0
  drop := 0
  pa := ⟨none, none, none, none, 0⟩
  argBuf := none
  msgBuf := none
  mem := ⟨[[], List.replicate maxControlLineSize 0]⟩

def buf (c : ParseState) : Bytes := c.mem.array readBuf

/-- The next read overwrites the read buffer. -/
def load (c : ParseState) (buf : Bytes) : ParseState :=
  { c with mem := ⟨c.mem.arrays.set readBuf buf⟩ }

/-- `buf[i]`; none when the index is out of range. -/
def byteAt (c : ParseState) (i : Int) : Option UInt8 :=
  if 0 ≤ i then c.buf[i.toNat]? else none

/-- `buf[lo:hi]`; none when the bounds are out of range. -/
def bufSlice (c : ParseState) (lo hi : Int) : Option Slice :=
  if 0 ≤ lo ∧ lo ≤ hi ∧ hi ≤ c.buf.length then
    some ⟨readBuf, lo.toNat, (hi - lo).toNat, (hi - lo).toNat, Nat.le_refl _⟩
  else none

end ParseState

/-- The bytes of a slice that may be nil. -/
def textOf (mem : Heap UInt8) (s : Option Slice) : Bytes := (s.map mem.read).getD []

/-- What `processMsg` finds in `c.pa`. -/
def PubArg.values (pa : PubArg) (mem : Heap UInt8) : PubValues :=
  ⟨textOf mem pa.subject, pa.reply.map mem.read, pa.sid.map mem.read, textOf mem pa.szb, pa.size⟩

/-- The slice of an argument in a range. -/
def subSlice (arg : Slice) (range : Nat × Nat) : Slice :=
  ⟨arg.arr, arg.off + range.1, range.2 - range.1, range.2 - range.1, Nat.le_refl _⟩

/-- The tokens of an argument, as slices of it. -/
def argSlices (mem : Heap UInt8) (arg : Slice) : List Slice :=
  (splitRanges (mem.read arg) 0 none).map (subSlice arg)

/-- `processPub` (`client.go:672-724`); it leaves `sid` as it was. -/
def processPub (cfg : ParserConfig) (mem : Heap UInt8) (pa : PubArg) (arg : Slice) :
    Except ParseError PubArg :=
  let check (pa : PubArg) : Except ParseError PubArg :=
    if pa.size < 0 then .error .badSize
    else if 0 < cfg.mpay ∧ cfg.mpay < pa.size then .error .maxPayload
    else .ok pa
  match argSlices mem arg with
  | [subject, szb] =>
      check ⟨some subject, none, pa.sid, some szb, parseSize (mem.read szb)⟩
  | [subject, reply, szb] =>
      check ⟨some subject, some reply, pa.sid, some szb, parseSize (mem.read szb)⟩
  | _ => .error .arguments

/-- `processMsgArgs` (`client.go:623-670`). -/
def processMsgArgs (mem : Heap UInt8) (arg : Slice) : Except ParseError PubArg :=
  let check (pa : PubArg) : Except ParseError PubArg :=
    if pa.size < 0 then .error .badSize else .ok pa
  match argSlices mem arg with
  | [subject, sid, szb] =>
      check ⟨some subject, none, some sid, some szb, parseSize (mem.read szb)⟩
  | [subject, sid, reply, szb] =>
      check ⟨some subject, some reply, some sid, some szb, parseSize (mem.read szb)⟩
  | _ => .error .arguments

/-- `processSub` takes two or three arguments (`client.go:760-772`). -/
def subArgsOk (arg : Bytes) : Bool := (splitArg arg).length = 2 || (splitArg arg).length = 3

/-- `processUnsub` takes one or two arguments (`client.go:842-850`). -/
def unsubArgsOk (arg : Bytes) : Bool := (splitArg arg).length = 1 || (splitArg arg).length = 2

/-- The end of an iteration of the loop of `parse`: the index before `i++`, the new state and the
call that was made; or an error, or an access out of range. -/
inductive Step where
  | next (i : Int) (c : ParseState) (call : Option Call)
  | fail (e : ParseError)
  | panic

/-- `case 'X', 'x':` -/
def letter (c : Char) : Bytes := [c.toNat.toUInt8, c.toLower.toNat.toUInt8]

/-- `case ' ', '\t':` -/
def blanks : Bytes := [32, 9]

def cr : UInt8 := 13
def lf : UInt8 := 10

/-- The states that take one of a few bytes and go wrong on any other: what they take and where
they go (`parser.go:130-154, 235-255, 285-319, 349-362, 369-382, 389-430, 462-482, 516-536,
566-579, 585-612`). -/
def keyword : PState → List (Bytes × PState)
  | .opP => [(letter 'U', .opPu), (letter 'I', .opPi), (letter 'O', .opPo)]
  | .opPu => [(letter 'B', .opPub)]
  | .opPub => [(blanks, .opPubSpc)]
  | .opS => [(letter 'U', .opSu)]
  | .opSu => [(letter 'B', .opSub)]
  | .opSub => [(blanks, .opSubSpc)]
  | .opU => [(letter 'N', .opUn)]
  | .opUn => [(letter 'S', .opUns)]
  | .opUns => [(letter 'U', .opUnsu)]
  | .opUnsu => [(letter 'B', .opUnsub)]
  | .opUnsub => [(blanks, .opUnsubSpc)]
  | .opPi => [(letter 'N', .opPin)]
  | .opPin => [(letter 'G', .opPing)]
  | .opPo => [(letter 'N', .opPon)]
  | .opPon => [(letter 'G', .opPong)]
  | .opC => [(letter 'O', .opCo)]
  | .opCo => [(letter 'N', .opCon)]
  | .opCon => [(letter 'N', .opConn)]
  | .opConn => [(letter 'E', .opConne)]
  | .opConne => [(letter 'C', .opConnec)]
  | .opConnec => [(letter 'T', .opConnect)]
  | .opM => [(letter 'S', .opMs)]
  | .opMs => [(letter 'G', .opMsg)]
  | .opMsg => [(blanks, .opMsgSpc)]
  | .opI => [(letter 'N', .opIn)]
  | .opIn => [(letter 'F', .opInf)]
  | .opInf => [(letter 'O', .opInfo)]
  | .opPlus => [(letter 'O', .opPlusO)]
  | .opPlusO => [(letter 'K', .opPlusOk)]
  | .opMinus => [(letter 'E', .opMinusE)]
  | .opMinusE => [(letter 'R', .opMinusEr)]
  | .opMinusEr => [(letter 'R', .opMinusErr)]
  | .opMinusErr => [(blanks, .opMinusErrSpc)]
  | _ => []

/-- The states that skip blanks before an argument, and the state the first other byte leads to
(`parser.go:155-162, 256-263, 320-327, 431-438, 483-490, 537-544, 613-620`). -/
def argumentOf : PState → Option PState
  | .opPubSpc => some .pubArg
  | .opSubSpc => some .subArg
  | .opUnsubSpc => some .unsubArg
  | .opConnect => some .connectArg
  | .opMsgSpc => some .msgArg
  | .opInfo => some .infoArg
  | .opMinusErrSpc => some .minusErrArg
  | _ => none

/-- The states inside an argument (`parser.go:646-648`). -/
def PState.isArg : PState → Bool
  | .subArg | .unsubArg | .pubArg | .msgArg | .minusErrArg | .connectArg | .infoArg => true
  | _ => false

/-- What the states outside arguments and messages do with a byte: stay or go to another, make a
call at the end of the line, or begin an argument with it. -/
inductive WordStep where
  | fail (e : ParseError)
  | goto (s : PState)
  | line (call : Option Call)
  | begin (s : PState)

/-- `case OP_START` (`parser.go:102-129`). -/
def startStep (typ : ClientKind) (authSet : Bool) (b : UInt8) : WordStep :=
  if b ∉ letter 'C' ∧ authSet then .fail .authorization
  else if b ∈ letter 'P' then .goto .opP
  else if b ∈ letter 'S' then .goto .opS
  else if b ∈ letter 'U' then .goto .opU
  else if b ∈ letter 'M' then
    if typ = .client then .fail .protocol else .goto .opM
  else if b ∈ letter 'C' then .goto .opC
  else if b ∈ letter 'I' then .goto .opI
  else if b = 43 then .goto .opPlus
  else if b = 45 then .goto .opMinus
  else .fail .protocol

/-- The states outside arguments and messages; PING, PONG and +OK wait for the end of the line
(`parser.go:363-368, 383-388, 580-584`). -/
def wordStep (typ : ClientKind) (authSet : Bool) (s : PState) (b : UInt8) : WordStep :=
  let lineEnd (call : Option Call) : WordStep := if b = lf then .line call else .goto s
  match s with
  | .opStart => startStep typ authSet b
  | .opPing => lineEnd (some .processPing)
  | .opPong => lineEnd (some .processPong)
  | .opPlusOk => lineEnd none
  | s =>
      match argumentOf s with
      | some arg => if b ∈ blanks then .goto s else .begin arg
      | none =>
          match (keyword s).find? fun alternative => b ∈ alternative.1 with
          | some (_, s) => .goto s
          | none => .fail .protocol

/-- A `WordStep` on the parser's state. -/
def WordStep.apply (i : Int) (c : ParseState) : WordStep → Step
  | .fail e => .fail e
  | .goto s => .next i { c with state := s } none
  | .line call => .next i { c with drop := 0, state := .opStart } call
  | .begin s => .next i { c with state := s, as := i } none

/-- The argument at the end of its line: `c.argBuf`, or `buf[c.as : i-c.drop]`. -/
def argAt (i : Int) (c : ParseState) : Option Slice :=
  match c.argBuf with
  | some arg => some arg
  | none => c.bufSlice c.as (wrap64 (i - c.drop))

/-- What is done with an argument (`case '\n'` of the states inside an argument). -/
def argDone (cfg : ParserConfig) (refused : Bool) (i : Int) (c : ParseState) (arg : Slice) : Step :=
  let text := c.mem.read arg
  let start := wrap64 (i + 1)
  -- the argument has been taken: `c.argBuf = nil`, then `c.drop, c.as, c.state = ...`
  let finish (call : Call) : Step :=
    .next i { c with argBuf := none, drop := 0, as := start, state := .opStart } (some call)
  match c.state with
  | .subArg => if subArgsOk text then finish (.processSub text) else .fail .arguments
  | .unsubArg => if unsubArgsOk text then finish (.processUnsub text) else .fail .arguments
  | .infoArg => if refused then .fail .refused else finish (.processInfo text)
  | .minusErrArg => finish (.processErr text)
  | .connectArg =>
      if refused then .fail .refused
      else .next i { c with argBuf := none, drop := 0, state := .opStart }
        (some (.processConnect text))
  | .pubArg =>
      match processPub cfg c.mem c.pa arg with
      | .error e => .fail e
      | .ok pa =>
          let i := if c.msgBuf.isNone then wrap64 (wrap64 (start + pa.size) - lenCrLf) else i
          .next i { c with pa := pa, drop := 0, as := start, state := .msgPayload } none
  | .msgArg =>
      match processMsgArgs c.mem arg with
      | .error e => .fail e
      | .ok pa =>
          .next (wrap64 (wrap64 (start + pa.size) - 1))
            { c with pa := pa, drop := 0, as := start, state := .msgPayload } none
  | _ => .panic

/-- The states inside an argument (`parser.go:163-188, 264-284, 328-348, 439-461, 491-515,
545-565, 621-639`). -/
def argStep (cfg : ParserConfig) (refused : Bool) (i : Int) (b : UInt8) (c : ParseState) : Step :=
  if b = cr then .next i { c with drop := 1 } none
  else if b = lf then
    match argAt i c with
    | none => .panic
    | some arg => argDone cfg refused i c arg
  else
    match c.argBuf with
    | some arg =>
        let (mem, arg) := c.mem.append cfg.grow 0 arg [b]
        .next i { c with argBuf := some arg, mem := mem } none
    | none => .next i c none

/-- `case MSG_PAYLOAD` (`parser.go:189-213`). -/
def payloadStep (cfg : ParserConfig) (i : Int) (b : UInt8) (c : ParseState) : Step :=
  let settle (i : Int) (c : ParseState) (msg : Slice) : Step :=
    .next i (if c.pa.size ≤ msg.len then { c with state := .msgEnd } else c) none
  match c.msgBuf with
  | some msg =>
      let toCopy := min (wrap64 (c.pa.size - msg.len)) (wrap64 (c.buf.length - i))
      if 0 < toCopy then
        let n := msg.len + toCopy.toNat
        if fits : n ≤ msg.cap then
          let copied := (c.buf.drop i.toNat).take toCopy.toNat
          let msg' : Slice := { msg with len := n, len_le_cap := fits }
          settle (wrap64 (i + toCopy - 1))
            { c with
                msgBuf := some msg'
                mem := c.mem.write msg.arr (msg.off + msg.len) copied } msg'
        else .panic
      else
        let (mem, msg) := c.mem.append cfg.grow 0 msg [b]
        settle i { c with msgBuf := some msg, mem := mem } msg
  | none =>
      .next i (if c.pa.size ≤ wrap64 (i - c.as) then { c with state := .msgEnd } else c) none

/-- `case MSG_END` (`parser.go:214-234`). -/
def endStep (cfg : ParserConfig) (i : Int) (b : UInt8) (c : ParseState) : Step :=
  if b = lf then
    let msg := match c.msgBuf with
      | some msg => some (c.mem.append cfg.grow 0 msg [b])
      | none => (c.bufSlice c.as (wrap64 (i + 1))).map fun msg => (c.mem, msg)
    match msg with
    | none => .panic
    | some (mem, msg) =>
        let c := { c with mem := mem }
        if (msg.len : Int) ≠ wrap64 (c.pa.size + lenCrLf) then .fail .protocol
        else
          .next i
            { c with
                argBuf := none
                msgBuf := none
                drop := 0
                as := wrap64 (i + 1)
                state := .opStart }
            (some (.processMsg (c.pa.values c.mem) (c.mem.read msg)))
  else
    match c.msgBuf with
    | some msg =>
        let (mem, msg) := c.mem.append cfg.grow 0 msg [b]
        .next i { c with msgBuf := some msg, mem := mem } none
    | none => .next i c none

/-- One iteration of the loop of `parse` (`parser.go:99-643`). -/
def parseStep (cfg : ParserConfig) (authSet refused : Bool) (i : Int) (b : UInt8) (c : ParseState) :
    Step :=
  match c.state with
  | .msgPayload => payloadStep cfg i b c
  | .msgEnd => endStep cfg i b c
  | s => if s.isArg then argStep cfg refused i b c else (wordStep cfg.typ authSet s b).apply i c

/-- How a call of `parse` ends, with the calls it made. -/
inductive ParseResult where
  | ok (c : ParseState) (calls : List Call)
  | error (e : ParseError) (calls : List Call)
  | panic (calls : List Call)
  | outOfFuel

/-- `append(c.argBuf, s...)`, with the memory that holds both. -/
def appendText (cfg : ParserConfig) (held : Heap UInt8 × Slice) (s : Option Slice) :
    Heap UInt8 × Slice :=
  held.1.append cfg.grow 0 held.2 (textOf held.1 s)

/-- `c.scratch[:0]` -/
def scratchStart : Slice := ⟨scratch, 0, 0, maxControlLineSize, Nat.zero_le _⟩

/-- The slices of `c.pa` in a copy of its texts (`parser.go:727-737`). -/
def PubArg.relocate (pa : PubArg) (arg : Slice) : PubArg :=
  let len (s : Option Slice) : Nat := (s.map Slice.len).getD 0
  let a := len pa.subject
  let b := a + len pa.reply
  let d := b + len pa.sid
  { pa with
      subject := some (subSlice arg (0, a))
      reply := pa.reply.map fun _ => subSlice arg (a, b)
      sid := pa.sid.map fun _ => subSlice arg (b, d)
      szb := some (subSlice arg (d, arg.len)) }

/-- `clonePubArg` (`parser.go:720-738`). -/
def clonePubArg (cfg : ParserConfig) (c : ParseState) : ParseState :=
  let (mem, arg) :=
    [c.pa.subject, c.pa.reply, c.pa.sid, c.pa.szb].foldl (appendText cfg) (c.mem, scratchStart)
  { c with mem := mem, argBuf := some arg, pa := c.pa.relocate arg }

/-- The rest of the buffer begins a message that goes on in the next read: hold it, in a buffer of
its own or behind `argBuf` in the scratch array (`parser.go:672-689`). -/
def holdMsg (cfg : ParserConfig) (c : ParseState) (calls : List Call) : ParseResult :=
  let held := (c.argBuf.map Slice.len).getD 0
  match c.bufSlice c.as c.buf.length with
  | none => .panic calls
  | some rest =>
      if (maxControlLineSize : Int) - held < c.pa.size then
        if wrap64 (c.pa.size + lenCrLf) < rest.len then .error .protocol calls
        else
          let (mem, msg) := c.mem.make 0 (c.mem.read rest) (wrap64 (c.pa.size + lenCrLf)).toNat
          .ok { c with mem := mem, msgBuf := some msg } calls
      else if held ≤ maxControlLineSize then
        let empty : Slice := ⟨scratch, held, 0, maxControlLineSize - held, Nat.zero_le _⟩
        let (mem, msg) := c.mem.append cfg.grow 0 empty (c.mem.read rest)
        .ok { c with mem := mem, msgBuf := some msg } calls
      else .panic calls

/-- What follows the loop for a message that is not complete (`parser.go:664-690`). -/
def splitMsg (cfg : ParserConfig) (c : ParseState) (calls : List Call) : ParseResult :=
  if (c.state = .msgPayload ∨ c.state = .msgEnd) ∧ c.msgBuf = none then
    holdMsg cfg (if c.argBuf = none then clonePubArg cfg c else c) calls
  else .ok c calls

/-- What follows the loop (`parser.go:645-692`). -/
def splitBuffer (cfg : ParserConfig) (i : Int) (c : ParseState) (calls : List Call) : ParseResult :=
  if c.state.isArg then
    match c.argBuf with
    | some arg => if cfg.mcl < arg.len then .error .maxControlLine calls else splitMsg cfg c calls
    | none =>
        match c.bufSlice c.as (wrap64 (i - c.drop)) with
        | none => .panic calls
        | some arg =>
            let (mem, arg) := c.mem.append cfg.grow 0 scratchStart (c.mem.read arg)
            if cfg.mcl < arg.len then .error .maxControlLine calls
            else splitMsg cfg { c with argBuf := some arg, mem := mem } calls
  else splitMsg cfg c calls

/-- The variables of the loop of `parse`, and the calls made so far. -/
structure LoopState where
  authSet : Bool
  i : Int
  c : ParseState
  calls : List Call

/-- `for i = 0; i < len(buf); i++`: one iteration, or the end of the call. -/
def loopStep (cfg : ParserConfig) (env : Env) (s : LoopState) : Except ParseResult LoopState :=
  if s.i < s.c.buf.length then
    match s.c.byteAt s.i with
    | none => .error (.panic s.calls)
    | some b =>
        match parseStep cfg s.authSet (env.refuses s.calls) s.i b s.c with
        | .panic => .error (.panic s.calls)
        | .fail e => .error (.error e s.calls)
        | .next i c none => .ok { s with i := wrap64 (i + 1), c := c }
        | .next i c (some call) =>
            -- the auth timer is looked at again after a CONNECT
            let authSet := if call.isConnect then env.authSet (s.calls ++ [call]) else s.authSet
            .ok ⟨authSet, wrap64 (i + 1), c, s.calls ++ [call]⟩
  else .error (splitBuffer cfg s.i s.c s.calls)

def parseLoop (cfg : ParserConfig) (env : Env) : Nat → LoopState → ParseResult
  | 0, _ => .outOfFuel
  | fuel + 1, s =>
      match loopStep cfg env s with
      | .error r => r
      | .ok s => parseLoop cfg env fuel s

/-- The loop at its start. -/
def loopStart (env : Env) (buf : Bytes) (c : ParseState) : LoopState :=
  ⟨env.authSet [], 0, c.load buf, []⟩

/-- `parse` (`parser.go:84-704`). No byte is looked at more than twice. -/
def parse (cfg : ParserConfig) (env : Env) (buf : Bytes) (c : ParseState) : ParseResult :=
  parseLoop cfg env (2 * buf.length + 2) (loopStart env buf c)

/-- Successive calls of `parse` on one connection, until one fails; `calls` are those made so
far. -/
def feed (cfg : ParserConfig) : List (Env × Bytes) → ParseState → List Call → ParseResult
  | [], c, calls => .ok c calls
  | (env, buf) :: reads, c, calls =>
      match parse cfg env buf c with
      | .ok c made => feed cfg reads c (calls ++ made)
      | .error e made => .error e (calls ++ made)
      | .panic made => .panic (calls ++ made)
      | .outOfFuel => .outOfFuel

end Hnatsd.Server
