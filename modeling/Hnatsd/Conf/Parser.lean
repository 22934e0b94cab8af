import Hnatsd.Conf.Lexer
import Hnatsd.Misc.Assoc
import Hnatsd.Misc.Decimal
import Hnatsd.Misc.Int64

/-!
# The parser of configuration files

`conf/parse.go`. The parser takes the items one by one and keeps two stacks: the maps and arrays
that are open, and the keys that still wait for their value. Environment variables and included
files are parsed by the same parser, so a call takes a number of turns, and it is `running` as long
as they do not suffice.
-/

namespace Hnatsd.Conf

open Hnatsd.Misc

/-- The values of a configuration. A float is given by its bits, a time by its seconds. -/
inductive Value where
  | str (s : Bytes)
  | int (n : Int)
  | float (bits : UInt64)
  | bool (b : Bool)
  | datetime (seconds : Int)
  | array (values : List Value)
  | map (entries : List (Bytes × Value))

abbrev Mapping := List (Bytes × Value)

/-- `*strconv.NumError`, by what its `Err` is. -/
inductive NumError where
  | errSyntax
  | errRange
  deriving DecidableEq, Repr

/-- What the parser asks for outside its text. -/
structure Env where
  /-- `ioutil.ReadFile`, the error as `%v` prints it. -/
  readFile : Bytes → Except Bytes Bytes
  /-- `os.LookupEnv`. -/
  lookupEnv : Bytes → Option Bytes
  /-- `strconv.ParseFloat`. -/
  parseFloat : Bytes → Except NumError UInt64
  /-- `time.Parse` for Zulu time. -/
  parseTime : Bytes → Option Int
  /-- `filepath.Dir`. -/
  dir : Bytes → Bytes
  /-- `filepath.Join`. -/
  join : Bytes → Bytes → Bytes

/-- How a call ends, or that it has not ended yet. -/
inductive Outcome (α : Type) where
  | ok (a : α)
  | error (text : Bytes)
  | panic (cause : Panic)
  | running

def Outcome.bind {α β : Type} (outcome : Outcome α) (andThen : α → Outcome β) : Outcome β :=
  match outcome with
  | .ok a => andThen a
  | .error text => .error text
  | .panic cause => .panic cause
  | .running => .running

inductive Ctx where
  | array (values : List Value)
  | map (entries : Mapping)

/-- The parser. `ctx` is the top of the context stack and `outer` what is below it, so that there
is a context always; keys are kept with the last one first. -/
structure Parser where
  ctx : Ctx
  outer : List Ctx
  keys : List Bytes
  fp : Bytes

namespace Parser

/-- The parser with the context of the mapping alone. -/
def init (fp : Bytes) : Parser := ⟨.map [], [], [], fp⟩

/-- All contexts, the innermost first. -/
def ctxs (p : Parser) : List Ctx := p.ctx :: p.outer

/-- `p.mapping`, the map that was pushed first. -/
def mapping (p : Parser) : Mapping :=
  match (p.ctxs).getLast? with
  | some (.map entries) => entries
  | _ => []

def pushContext (p : Parser) (ctx : Ctx) : Parser :=
  { p with ctx := ctx, outer := p.ctx :: p.outer }

/-- The context below becomes the current one, and there has to be one. -/
def popContext (p : Parser) : Outcome Parser :=
  match p.outer with
  | [] => .panic .emptyContexts
  | ctx :: outer => .ok { p with ctx := ctx, outer := outer }

def pushKey (p : Parser) (key : Bytes) : Parser := { p with keys := key :: p.keys }

def setValue (p : Parser) (val : Value) : Outcome Parser :=
  match p.ctx with
  | .array values => .ok { p with ctx := .array (values ++ [val]) }
  | .map entries =>
      match p.keys with
      | [] => .panic .emptyKeys
      | key :: keys => .ok { p with ctx := .map (assocSet entries key val), keys := keys }

end Parser

/-- A context as the value it becomes when it is closed. -/
def Ctx.value : Ctx → Value
  | .array values => .array values
  | .map entries => .map entries

/-- The loop of `strconv.ParseUint` in base ten. -/
def parseUintLoop : Nat → Bytes → Except NumError Nat
  | n, [] => .ok n
  | n, b :: text =>
      if b < 48 ∨ 57 < b then .error .errSyntax
      else if 2 ^ 64 ≤ n * 10 + (b.toNat - 48) then .error .errRange
      else parseUintLoop (n * 10 + (b.toNat - 48)) text

/-- `strconv.ParseInt(text, 10, 64)` of a text without a sign. -/
def parseInt (text : Bytes) : Except NumError Int :=
  if text = [] then .error .errSyntax
  else
    match parseUintLoop 0 text with
    | .error e => .error e
    | .ok n => if 2 ^ 63 ≤ n then .error .errRange else .ok n

/-- The runes of `strings.ToLower(strings.TrimSpace(text))`. -/
def Unicode.loweredTrim (u : Unicode) (text : Bytes) : List Nat :=
  ((((runes text).dropWhile u.isSpace).reverse.dropWhile u.isSpace).reverse).map u.toLower

/-- Multiplication of `int64`. -/
def mul64 (a b : Int) : Int := wrap64 (a * b)

/-- What the suffix makes of the number; nothing for a suffix without a case. -/
def applySuffix (suffix : List Nat) (num : Int) : Option Int :=
  if suffix = [] then some num
  else if suffix = [107] then some (mul64 num 1000)
  else if suffix = [107, 98] then some (mul64 num 1024)
  else if suffix = [109] then some (mul64 (mul64 num 1000) 1000)
  else if suffix = [109, 98] then some (mul64 (mul64 num 1024) 1024)
  else if suffix = [103] then some (mul64 (mul64 (mul64 num 1000) 1000) 1000)
  else if suffix = [103, 98] then some (mul64 (mul64 (mul64 num 1024) 1024) 1024)
  else none

/-- `itemInteger`: `lastDigit` counts runes and cuts bytes. -/
def Parser.processInteger (u : Unicode) (p : Parser) (it : Item) : Outcome Parser :=
  let lastDigit := ((runes it.val).takeWhile u.isDigit).length
  match parseInt (it.val.take lastDigit) with
  | .error .errRange => .error (bytesOf "Integer '" ++ it.val ++ bytesOf "' is out of the range.")
  | .error .errSyntax => .error (bytesOf "Expected integer, but got '" ++ it.val ++ bytesOf "'.")
  | .ok num =>
      match applySuffix (u.loweredTrim (it.val.drop lastDigit)) num with
      | some num => p.setValue (.int num)
      | none => .ok p

def bcryptPrefix : Bytes := bytesOf "2a$"

/-- The variable in the innermost map that has it; arrays are passed over. -/
def lookupContexts (varReference : Bytes) : List Ctx → Option Value
  | [] => none
  | .array _ :: ctxs => lookupContexts varReference ctxs
  | .map entries :: ctxs =>
      match entries.lookup varReference with
      | some v => some v
      | none => lookupContexts varReference ctxs

/-- The text an environment value is parsed as: `fmt.Sprintf("%s=%s", pkey, vStr)`. -/
def pkText (vStr : Bytes) : Bytes := bytesOf "pk=" ++ vStr

/-- The line of an item as `%d` prints it. -/
def lineText (line : Int) : Bytes := decimal line.toNat

section

variable (u : Unicode) (env : Env) (parse : Bytes → Bytes → Outcome Mapping)

/-- `ParseFile` over `parse`. -/
def parseFileWith (path : Bytes) : Outcome Mapping :=
  match env.readFile path with
  | .error err => .error (bytesOf "error opening config file: " ++ err)
  | .ok data => parse data (env.dir path)

/-- What an environment variable stands for: an error in its value makes it unknown. -/
def lookupEnvironment (varReference : Bytes) : Outcome (Option Value) :=
  match env.lookupEnv varReference with
  | none => .ok none
  | some vStr =>
      match parse (pkText vStr) [] with
      | .ok vmap => .ok (vmap.lookup (bytesOf "pk"))
      | .error _ => .ok none
      | .panic cause => .panic cause
      | .running => .running

def Parser.lookupVariable (p : Parser) (varReference : Bytes) : Outcome (Option Value) :=
  if bcryptPrefix.isPrefixOf varReference then .ok (some (.str (bytesOf "$" ++ varReference)))
  else
    match lookupContexts varReference p.ctxs with
    | some v => .ok (some v)
    | none => lookupEnvironment env parse varReference

/-- The loop that puts the entries of an included file into the current map. -/
def Parser.setAll (p : Parser) : Mapping → Outcome Parser
  | [] => .ok p
  | (k, v) :: m => ((p.pushKey k).setValue v).bind fun p => p.setAll m

def Parser.processItem (p : Parser) (it : Item) : Outcome Parser :=
  match it.typ with
  | .itemError => .error (bytesOf "Parse error on line " ++ lineText it.line ++ bytesOf ": '" ++
      it.val ++ bytesOf "'")
  | .itemKey => .ok (p.pushKey it.val)
  | .itemMapStart => .ok (p.pushContext (.map []))
  | .itemMapEnd => p.popContext.bind fun popped => popped.setValue p.ctx.value
  | .itemString => p.setValue (.str it.val)
  | .itemInteger => p.processInteger u it
  | .itemFloat =>
      match env.parseFloat it.val with
      | .error .errRange => .error (bytesOf "Float '" ++ it.val ++ bytesOf "' is out of the range.")
      | .error .errSyntax => .error (bytesOf "Expected float, but got '" ++ it.val ++ bytesOf "'.")
      | .ok num => p.setValue (.float num)
  | .itemBool =>
      if u.lowersTo it.val "true" || u.lowersTo it.val "yes" || u.lowersTo it.val "on" then
        p.setValue (.bool true)
      else if u.lowersTo it.val "false" || u.lowersTo it.val "no" || u.lowersTo it.val "off" then
        p.setValue (.bool false)
      else .error (bytesOf "Expected boolean value, but got '" ++ it.val ++ bytesOf "'.")
  | .itemDatetime =>
      match env.parseTime it.val with
      | none => .error (bytesOf "Expected Zulu formatted DateTime, but got '" ++ it.val ++
          bytesOf "'.")
      | some dt => p.setValue (.datetime dt)
  | .itemArrayStart => .ok (p.pushContext (.array []))
  | .itemArrayEnd => p.popContext.bind fun popped => popped.setValue p.ctx.value
  | .itemVariable =>
      (p.lookupVariable env parse it.val).bind fun
        | some value => p.setValue value
        | none => .error (bytesOf "Variable reference for '" ++ it.val ++ bytesOf "' on line " ++
            lineText it.line ++ bytesOf " can not be found.")
  | .itemInclude =>
      match parseFileWith env parse (env.join p.fp it.val) with
      | .ok m => p.setAll m
      | .error err => .error (bytesOf "Error parsing include file '" ++ it.val ++ bytesOf "', " ++
          err ++ bytesOf ".")
      | .panic cause => .panic cause
      | .running => .running
  | .itemNIL | .itemEOF | .itemText | .itemCommentStart => .ok p

end

/-- The loop of `parse`; the parses of environment values and included files take their turns from
the same number. -/
def parseLoop (u : Unicode) (env : Env) : Nat → Parser → Scan → Outcome Mapping
  | 0, _, _ => .running
  | turns + 1, p, scan =>
      match scan.poll u with
      | .panic cause => .panic cause
      | .called scan => parseLoop u env turns p scan
      | .item it scan =>
          if it.typ = .itemEOF then .ok p.mapping
          else
            (p.processItem u env
              (fun data fp => parseLoop u env turns (Parser.init fp) (Scan.init data)) it).bind
              fun p => parseLoop u env turns p scan

/-- `parse(data, fp)`, of which only the mapping is used. -/
def parse (u : Unicode) (env : Env) (turns : Nat) (data fp : Bytes) : Outcome Mapping :=
  parseLoop u env turns (Parser.init fp) (Scan.init data)

/-- `Parse`. -/
def parseText (u : Unicode) (env : Env) (turns : Nat) (data : Bytes) : Outcome Mapping :=
  parse u env turns data []

/-- `ParseFile`. -/
def parseFile (u : Unicode) (env : Env) (turns : Nat) (fp : Bytes) : Outcome Mapping :=
  parseFileWith env (parse u env turns) fp

end Hnatsd.Conf
