import Hnatsd.Misc.Runes

/-!
# The lexer of configuration files

`conf/lex.go`. A state function reads some runes, sends items and names the state function that
comes next. Values and comments can stand in several places, so the state to go back to is kept on
a stack. At the end of the input `next` returns the rune zero and moves by no byte, and it is left
to each state function to see that.
-/

namespace Hnatsd.Conf

open Hnatsd.Misc

inductive ItemType where
  | itemError | itemNIL | itemEOF | itemKey | itemText | itemString | itemBool | itemInteger
  | itemFloat | itemDatetime | itemArrayStart | itemArrayEnd | itemMapStart | itemMapEnd
  | itemCommentStart | itemVariable | itemInclude
  deriving DecidableEq, Repr

abbrev eof : Nat := 0
abbrev mapStart : Nat := 123
abbrev mapEnd : Nat := 125
abbrev keySepEqual : Nat := 61
abbrev keySepColon : Nat := 58
abbrev arrayStart : Nat := 91
abbrev arrayEnd : Nat := 93
abbrev arrayValTerm : Nat := 44
abbrev mapValTerm : Nat := 44
abbrev commentHashStart : Nat := 35
abbrev commentSlashStart : Nat := 47
abbrev dqStringStart : Nat := 34
abbrev dqStringEnd : Nat := 34
abbrev sqStringStart : Nat := 39
abbrev sqStringEnd : Nat := 39
abbrev optValTerm : Nat := 59
abbrev blockStart : Nat := 40
abbrev blockEnd : Nat := 41

/-- The tables of package `unicode` outside the runes that the package decides by itself; they
come with the Go release. -/
structure Unicode where
  digit : Nat → Bool
  space : Nat → Bool
  lower : Nat → Nat
  /-- The rune of an invalid byte is no digit. -/
  digit_error : digit runeError = false

namespace Unicode

variable (u : Unicode)

/-- `unicode.IsDigit`. -/
def isDigit (r : Nat) : Bool := if r ≤ 0xFF then 48 ≤ r && r ≤ 57 else u.digit r

/-- `unicode.IsSpace`. -/
def isSpace (r : Nat) : Bool :=
  if r ≤ 0xFF then r == 9 || r == 10 || r == 11 || r == 12 || r == 13 || r == 32 || r == 0x85 || r == 0xA0
  else u.space r

/-- `unicode.ToLower`. -/
def toLower (r : Nat) : Nat :=
  if r ≤ 0x7F then (if 65 ≤ r ∧ r ≤ 90 then r + 32 else r) else u.lower r

/-- The runes of `strings.ToLower(text)`. -/
def lowered (text : Bytes) : List Nat := (runes text).map u.toLower

/-- `strings.ToLower(text) == word`, for a word in ASCII. -/
def lowersTo (text : Bytes) (word : String) : Bool := u.lowered text == word.toList.map Char.toNat

end Unicode

/-- The state functions; `lexSkip` makes one out of the state that comes after it. -/
inductive StateFn where
  | lexTop | lexTopValueEnd
  | lexKeyStart | lexDubQuotedKey | lexQuotedKey | lexKey | lexKeyEnd
  | lexIncludeStart | lexIncludeQuotedString | lexIncludeDubQuotedString | lexIncludeString
  | lexInclude
  | lexValue
  | lexArrayValue | lexArrayValueEnd | lexArrayEnd
  | lexMapKeyStart | lexMapQuotedKey | lexMapDubQuotedKey | lexMapKey | lexMapKeyEnd
  | lexMapValue | lexMapValueEnd | lexMapEnd
  | lexQuotedString | lexDubQuotedString | lexString | lexBlock | lexStringEscape
  | lexStringBinary
  | lexNumberOrDateOrIPStart | lexNumberOrDateOrIP | lexConvenientNumber | lexDateAfterYear
  | lexNegNumberStart | lexNegNumber | lexFloatStart | lexFloat | lexIPAddr
  | lexCommentStart | lexComment
  | lexSkip (nextState : StateFn)
  deriving DecidableEq, Repr

structure Item where
  typ : ItemType
  val : Bytes
  line : Int
  deriving DecidableEq, Repr

/-- The run-time panics of the lexer's own index and slice expressions. -/
inductive LexFault where
  /-- `lx.input[lx.start:lx.pos]` with bounds out of range. -/
  | sliceBounds
  /-- `lx.input[lx.pos]` in `backup` with a negative position. -/
  | backupIndex
  /-- `lx.input[lx.start]` in `isVariable` at the end of the input. -/
  | variableIndex
  deriving DecidableEq, Repr

/-- The lexer; the top of the stack comes first. A panic ends the state function, so what is done
to a lexer with a fault is not seen by anyone. -/
structure Lexer where
  input : Bytes
  start : Nat
  pos : Nat
  width : Nat
  line : Int
  stack : List StateFn
  fault : Option LexFault
  deriving DecidableEq, Repr

/-- What a call of a state function comes to: the lexer, the items sent, the next state, none
being `nil`. -/
structure Result where
  lx : Lexer
  items : List Item
  state : Option StateFn
  deriving DecidableEq, Repr

def Result.after (item : Item) (result : Result) : Result :=
  { result with items := item :: result.items }

/-- The lexer `lex` makes; it starts in `lexTop`. -/
def lex (input : Bytes) : Lexer where
  input := input
  start := 0
  pos := 0
  width := 0
  line := 1
  stack := []
  fault := none

def isNumberSuffix (r : Nat) : Bool :=
  r == 107 || r == 75 || r == 109 || r == 77 || r == 103 || r == 71

def isKeySeparator (r : Nat) : Bool := r == keySepEqual || r == keySepColon

def isWhitespace (r : Nat) : Bool := r == 9 || r == 32

def isNL (r : Nat) : Bool := r == 10 || r == 13

def isHexadecimal (r : Nat) : Bool :=
  (48 ≤ r && r ≤ 57) || (97 ≤ r && r ≤ 102) || (65 ≤ r && r ≤ 70)

def escapeSpecial (c : Nat) : Bytes := if c = 10 then bytesOf "\\n" else encodeRune c

namespace Lexer

def raise (lx : Lexer) (fault : LexFault) : Lexer := { lx with fault := lx.fault.or (some fault) }

def push (lx : Lexer) (state : StateFn) : Lexer := { lx with stack := state :: lx.stack }

def errorf (lx : Lexer) (text : Bytes) : Result := ⟨lx, [⟨.itemError, text, lx.line⟩], none⟩

/-- `return state`. -/
def goto (lx : Lexer) (state : StateFn) : Result := ⟨lx, [], some state⟩

/-- `return nil`. -/
def stop (lx : Lexer) : Result := ⟨lx, [], none⟩

def pop (lx : Lexer) : Result :=
  match lx.stack with
  | [] => lx.errorf (bytesOf "BUG in lexer: no states to pop.")
  | last :: stack => { lx with stack := stack }.goto last

/-- `lx.input[lx.start:lx.pos]`. -/
def slice (lx : Lexer) : Bytes × Lexer :=
  if lx.start ≤ lx.pos ∧ lx.pos ≤ lx.input.length then
    ((lx.input.drop lx.start).take (lx.pos - lx.start), lx)
  else ([], lx.raise .sliceBounds)

/-- `lx.emit(typ)` and what the state function does after it. -/
def emit (lx : Lexer) (typ : ItemType) (andThen : Lexer → Result) : Result :=
  let (val, lx) := lx.slice
  (andThen { lx with start := lx.pos }).after ⟨typ, val, lx.line⟩

def next (lx : Lexer) : Nat × Lexer :=
  if lx.input.length ≤ lx.pos then (eof, { lx with width := 0 })
  else
    let line := if lx.input[lx.pos]? = some 10 then lx.line + 1 else lx.line
    let (r, width) := decodeRune (lx.input.drop lx.pos)
    (r, { lx with line := line, width := width, pos := lx.pos + width })

/-- `lx.next()` for its effect alone. -/
def skip (lx : Lexer) : Lexer := lx.next.2

def ignore (lx : Lexer) : Lexer := { lx with start := lx.pos }

def backup (lx : Lexer) : Lexer :=
  if lx.pos < lx.width then lx.raise .backupIndex
  else
    let pos := lx.pos - lx.width
    let line := if lx.input[pos]? = some 10 then lx.line - 1 else lx.line
    { lx with pos := pos, line := line }

def peek (lx : Lexer) : Nat × Lexer :=
  let (r, lx) := lx.next
  (r, lx.backup)

/-- `lexSkip(lx, nextState)` as the value returned. -/
def gotoSkip (lx : Lexer) (nextState : StateFn) : Result := lx.goto (.lexSkip nextState)

/-- A `#` was read: back to `state` after the comment. -/
def comment (lx : Lexer) (state : StateFn) : Result := (lx.push state).goto .lexCommentStart

/-- A `/` was read: a second one starts a comment, and with anything else the code falls through to
what it does for other runes. -/
def slash (lx : Lexer) (state : StateFn) (fallthrough : Lexer → Result) : Result :=
  let (rn, lx) := lx.next
  if rn = commentSlashStart then lx.comment state else fallthrough lx.backup

/-- The end of a quoted text: the quote itself is not part of it. -/
def endQuoted (lx : Lexer) (typ : ItemType) : Result :=
  lx.backup.emit typ fun lx => lx.skip.ignore.pop

/-- The rune read is not part of the item. -/
def endBefore (lx : Lexer) (typ : ItemType) : Result := lx.backup.emit typ pop

/-- The end of input in `lexTop`. -/
def topEOF (lx : Lexer) : Result :=
  if lx.start < lx.pos then lx.errorf (bytesOf "Unexpected EOF.") else lx.emit .itemEOF stop

section

variable (u : Unicode)

def lexTop (lx : Lexer) : Result :=
  let (r, lx) := lx.next
  if u.isSpace r then lx.gotoSkip .lexTop
  else if r = commentHashStart then lx.comment .lexTop
  else if r = commentSlashStart then lx.slash .lexTop topEOF
  else if r = eof then lx.topEOF
  else (lx.backup.push .lexTopValueEnd).goto .lexKeyStart

def lexTopValueEnd (lx : Lexer) : Result :=
  let (r, lx) := lx.next
  if r = commentHashStart then lx.comment .lexTop
  else if r = commentSlashStart then lx.slash .lexTop fun lx => lx.goto .lexTopValueEnd
  else if isWhitespace r then lx.goto .lexTopValueEnd
  else if isNL r || r == eof || r == optValTerm then lx.ignore.goto .lexTop
  else lx.errorf (bytesOf "Expected a top-level value to end with a new line, comment or EOF, but got '" ++
    escapeSpecial r ++ bytesOf "' instead.")

def lexKeyStart (lx : Lexer) : Result :=
  let (r, lx) := lx.peek
  if isKeySeparator r then
    lx.errorf (bytesOf "Unexpected key separator '" ++ escapeSpecial r ++ bytesOf "'")
  else if u.isSpace r then lx.skip.gotoSkip .lexKeyStart
  else if r = dqStringStart then lx.skip.gotoSkip .lexDubQuotedKey
  else if r = sqStringStart then lx.skip.gotoSkip .lexQuotedKey
  else lx.ignore.skip.goto .lexKey

/-- The text of a key between quotes, read in state `self`. -/
def quotedKey (quote : Nat) (self keyEnd : StateFn) (lx : Lexer) : Result :=
  let (r, lx) := lx.peek
  if r = quote then lx.emit .itemKey fun lx => lx.skip.gotoSkip keyEnd
  else lx.skip.goto self

def lexDubQuotedKey : Lexer → Result := quotedKey dqStringEnd .lexDubQuotedKey .lexKeyEnd

def lexQuotedKey : Lexer → Result := quotedKey sqStringEnd .lexQuotedKey .lexKeyEnd

def keyCheckKeyword (lx : Lexer) (fallThrough : StateFn) (push : Option StateFn) : Result :=
  let (key, lx) := lx.slice
  if u.lowersTo key "include" then
    match push with
    | none => lx.ignore.goto .lexIncludeStart
    | some state => (lx.ignore.push state).goto .lexIncludeStart
  else lx.emit .itemKey fun lx => lx.goto fallThrough

def lexIncludeStart (lx : Lexer) : Result :=
  let (r, lx) := lx.next
  if isWhitespace r then lx.gotoSkip .lexIncludeStart else lx.backup.goto .lexInclude

/-- The inner contents of a quoted text, read in state `self`. -/
def quotedText (quote : Nat) (self : StateFn) (typ : ItemType) (lx : Lexer) : Result :=
  let (r, lx) := lx.next
  if r = quote then lx.endQuoted typ else lx.goto self

def lexIncludeQuotedString : Lexer → Result :=
  quotedText sqStringEnd .lexIncludeQuotedString .itemInclude

def lexIncludeDubQuotedString : Lexer → Result :=
  quotedText dqStringEnd .lexIncludeDubQuotedString .itemInclude

def lexIncludeString (lx : Lexer) : Result :=
  let (r, lx) := lx.next
  if isNL r || r == eof || r == optValTerm || r == mapEnd || isWhitespace r then
    lx.endBefore .itemInclude
  else if r = sqStringEnd then lx.endQuoted .itemInclude
  else lx.goto .lexIncludeString

def lexInclude (lx : Lexer) : Result :=
  let (r, lx) := lx.next
  if r = sqStringStart then lx.ignore.goto .lexIncludeQuotedString
  else if r = dqStringStart then lx.ignore.goto .lexIncludeDubQuotedString
  else if r = arrayStart then
    lx.errorf (bytesOf "Expected include value but found start of an array")
  else if r = mapStart then lx.errorf (bytesOf "Expected include value but found start of a map")
  else if r = blockStart then
    lx.errorf (bytesOf "Expected include value but found start of a block")
  else if u.isDigit r || r == 45 then
    lx.errorf (bytesOf "Expected include value but found start of a number")
  else if r = 92 then lx.errorf (bytesOf "Expected include value but found escape sequence")
  else if isNL r then lx.errorf (bytesOf "Expected include value but found new line")
  else lx.backup.goto .lexIncludeString

def lexKey (lx : Lexer) : Result :=
  let (r, lx) := lx.peek
  if u.isSpace r then keyCheckKeyword u lx .lexKeyEnd none
  else if isKeySeparator r || r == eof then lx.emit .itemKey fun lx => lx.goto .lexKeyEnd
  else lx.skip.goto .lexKey

def lexKeyEnd (lx : Lexer) : Result :=
  let (r, lx) := lx.next
  if u.isSpace r then lx.gotoSkip .lexKeyEnd
  else if isKeySeparator r then lx.gotoSkip .lexValue
  else if r = eof then lx.emit .itemEOF stop
  else lx.backup.goto .lexValue

def lexValue (lx : Lexer) : Result :=
  let (r, lx) := lx.next
  if isWhitespace r then lx.gotoSkip .lexValue
  else if r = arrayStart then lx.ignore.emit .itemArrayStart fun lx => lx.goto .lexArrayValue
  else if r = mapStart then lx.ignore.emit .itemMapStart fun lx => lx.goto .lexMapKeyStart
  else if r = sqStringStart then lx.ignore.goto .lexQuotedString
  else if r = dqStringStart then lx.ignore.goto .lexDubQuotedString
  else if r = 45 then lx.goto .lexNegNumberStart
  else if r = blockStart then lx.ignore.goto .lexBlock
  else if u.isDigit r then lx.backup.goto .lexNumberOrDateOrIPStart
  else if r = 46 then lx.errorf (bytesOf "Floats must start with a digit")
  else if isNL r then lx.errorf (bytesOf "Expected value but found new line")
  else lx.backup.goto .lexString

def unexpectedArrayTerm (lx : Lexer) : Result :=
  lx.errorf (bytesOf "Unexpected array value terminator ','.")

def lexArrayValue (lx : Lexer) : Result :=
  let (r, lx) := lx.next
  if u.isSpace r then lx.gotoSkip .lexArrayValue
  else if r = commentHashStart then lx.comment .lexArrayValue
  else if r = commentSlashStart then lx.slash .lexArrayValue unexpectedArrayTerm
  else if r = arrayValTerm then lx.unexpectedArrayTerm
  else if r = arrayEnd then lx.goto .lexArrayEnd
  else (lx.backup.push .lexArrayValueEnd).goto .lexValue

def lexArrayValueEnd (lx : Lexer) : Result :=
  let (r, lx) := lx.next
  if isWhitespace r then lx.gotoSkip .lexArrayValueEnd
  else if r = commentHashStart then lx.comment .lexArrayValueEnd
  else if r = commentSlashStart then
    lx.slash .lexArrayValueEnd fun lx => lx.gotoSkip .lexArrayValue
  else if r == arrayValTerm || isNL r then lx.gotoSkip .lexArrayValue
  else if r = arrayEnd then lx.goto .lexArrayEnd
  else lx.errorf (bytesOf "Expected an array value terminator \",\" or an array terminator \"]\", but got '" ++
    escapeSpecial r ++ bytesOf "' instead.")

def lexArrayEnd (lx : Lexer) : Result := lx.ignore.emit .itemArrayEnd pop

def lexMapKeyStart (lx : Lexer) : Result :=
  let (r, lx) := lx.peek
  if isKeySeparator r then
    lx.errorf (bytesOf "Unexpected key separator '" ++ escapeSpecial r ++ bytesOf "'.")
  else if u.isSpace r then lx.skip.gotoSkip .lexMapKeyStart
  else if r = mapEnd then lx.skip.gotoSkip .lexMapEnd
  else if r = commentHashStart then lx.skip.comment .lexMapKeyStart
  else if r = commentSlashStart then
    lx.skip.slash .lexMapKeyStart fun lx => lx.ignore.skip.goto .lexMapKey
  else if r = sqStringStart then lx.skip.gotoSkip .lexMapQuotedKey
  else if r = dqStringStart then lx.skip.gotoSkip .lexMapDubQuotedKey
  else lx.ignore.skip.goto .lexMapKey

def lexMapQuotedKey : Lexer → Result := quotedKey sqStringEnd .lexMapQuotedKey .lexMapKeyEnd

def lexMapDubQuotedKey : Lexer → Result := quotedKey dqStringEnd .lexMapDubQuotedKey .lexMapKeyEnd

def lexMapKey (lx : Lexer) : Result :=
  let (r, lx) := lx.peek
  if u.isSpace r then keyCheckKeyword u lx .lexMapKeyEnd (some .lexMapValueEnd)
  else if isKeySeparator r then lx.emit .itemKey fun lx => lx.goto .lexMapKeyEnd
  else lx.skip.goto .lexMapKey

def lexMapKeyEnd (lx : Lexer) : Result :=
  let (r, lx) := lx.next
  if u.isSpace r then lx.gotoSkip .lexMapKeyEnd
  else if isKeySeparator r then lx.gotoSkip .lexMapValue
  else lx.backup.goto .lexMapValue

def lexMapValue (lx : Lexer) : Result :=
  let (r, lx) := lx.next
  if u.isSpace r then lx.gotoSkip .lexMapValue
  else if r = mapValTerm then lx.errorf (bytesOf "Unexpected map value terminator \",\".")
  else if r = mapEnd then lx.gotoSkip .lexMapEnd
  else (lx.backup.push .lexMapValueEnd).goto .lexValue

def lexMapValueEnd (lx : Lexer) : Result :=
  let (r, lx) := lx.next
  if isWhitespace r then lx.gotoSkip .lexMapValueEnd
  else if r = commentHashStart then lx.comment .lexMapValueEnd
  else if r = commentSlashStart then
    lx.slash .lexMapValueEnd fun lx => lx.gotoSkip .lexMapKeyStart
  else if r == optValTerm || r == mapValTerm || isNL r then lx.gotoSkip .lexMapKeyStart
  else if r = mapEnd then lx.gotoSkip .lexMapEnd
  else lx.errorf (bytesOf "Expected a map value terminator \",\" or a map terminator \"\x7d\", but got '" ++
    escapeSpecial r ++ bytesOf "' instead.")

def lexMapEnd (lx : Lexer) : Result := lx.ignore.emit .itemMapEnd pop

def isBool (lx : Lexer) : Bool × Lexer :=
  let (str, lx) := lx.slice
  (u.lowersTo str "true" || u.lowersTo str "false" || u.lowersTo str "on" || u.lowersTo str "off" ||
    u.lowersTo str "yes" || u.lowersTo str "no", lx)

def isVariable (lx : Lexer) : Bool × Lexer :=
  match lx.input[lx.start]? with
  | none => (false, lx.raise .variableIndex)
  | some b => if b = 36 then (true, { lx with start := lx.start + 1 }) else (false, lx)

def lexQuotedString : Lexer → Result := quotedText sqStringEnd .lexQuotedString .itemString

def lexDubQuotedString : Lexer → Result := quotedText dqStringEnd .lexDubQuotedString .itemString

/-- The end of an unquoted string: it may turn out to be a boolean or a variable. -/
def endString (lx : Lexer) : Result :=
  let (bool, lx) := isBool u lx
  if bool then lx.emit .itemBool pop
  else
    let (reference, lx) := lx.isVariable
    if reference then lx.emit .itemVariable pop else lx.emit .itemString pop

def lexString (lx : Lexer) : Result :=
  let (r, lx) := lx.next
  if r = 92 then lx.goto .lexStringEscape
  else if isNL r || r == eof || r == optValTerm || r == arrayValTerm || r == arrayEnd ||
      r == mapEnd || isWhitespace r then endString u lx.backup
  else if r = sqStringEnd then lx.endQuoted .itemString
  else lx.goto .lexString

/-- A `)` on a line by itself ends the block. The two calls of `backup` go back by the width of the
last rune read, whatever the rune before it was. -/
def lexBlock (lx : Lexer) : Result :=
  let (r, lx) := lx.next
  if r = blockEnd then
    let (r, lx) := lx.backup.backup.next
    if r ≠ 10 then lx.skip.goto .lexBlock
    else
      let (r, lx) := lx.skip.next
      if r = 10 ∨ r = eof then
        lx.backup.backup.emit .itemString fun lx => lx.skip.ignore.pop
      else lx.backup.goto .lexBlock
  else lx.goto .lexBlock

def lexStringEscape (lx : Lexer) : Result :=
  let (r, lx) := lx.next
  if r = 120 then lx.goto .lexStringBinary
  else if r = 116 ∨ r = 110 ∨ r = 114 ∨ r = 34 ∨ r = 92 then lx.goto .lexString
  else lx.errorf (bytesOf "Invalid escape character '" ++ escapeSpecial r ++
    bytesOf "'. Only the following escape characters are allowed: \\xXX, \\t, \\n, \\r, \\\", \\\\.")

def notHexadecimal (lx : Lexer) (r : Nat) : Result :=
  lx.errorf (bytesOf "Expected two hexadecimal digits after '\\x', but got '" ++ escapeSpecial r ++
    bytesOf "' instead.")

def lexStringBinary (lx : Lexer) : Result :=
  let (r, lx) := lx.next
  if ¬ isHexadecimal r then lx.notHexadecimal r
  else
    let (r, lx) := lx.next
    if ¬ isHexadecimal r then lx.notHexadecimal r else lx.goto .lexString

/-- A number has to start with a digit, after which it is read in state `state`. -/
def numberStart (state : StateFn) (lx : Lexer) : Result :=
  let (r, lx) := lx.next
  if ¬ u.isDigit r then
    if r = 46 then lx.errorf (bytesOf "Floats must start with a digit, not '.'.")
    else lx.errorf (bytesOf "Expected a digit but got '" ++ escapeSpecial r ++ bytesOf "'.")
  else lx.goto state

def lexNumberOrDateOrIPStart : Lexer → Result := numberStart u .lexNumberOrDateOrIP

def lexNumberOrDateOrIP (lx : Lexer) : Result :=
  let (r, lx) := lx.next
  if r = 45 then
    -- `lx.pos-lx.start != 5`: four digits and the dash
    if lx.pos ≠ lx.start + 5 then
      lx.errorf (bytesOf "All ISO8601 dates must be in full Zulu form.")
    else lx.goto .lexDateAfterYear
  else if u.isDigit r then lx.goto .lexNumberOrDateOrIP
  else if r = 46 then lx.goto .lexFloatStart
  else if isNumberSuffix r then lx.goto .lexConvenientNumber
  else lx.endBefore .itemInteger

def lexConvenientNumber (lx : Lexer) : Result :=
  let (r, lx) := lx.next
  if r = 98 ∨ r = 66 then lx.goto .lexConvenientNumber else lx.endBefore .itemInteger

/-- The loop over `formats`, where a `0` stands for any digit. -/
def dateLoop : List Nat → Lexer → Result
  | [], lx => lx.emit .itemDatetime pop
  | f :: formats, lx =>
      let (r, lx) := lx.next
      if f = 48 then
        if ¬ u.isDigit r then
          lx.errorf (bytesOf "Expected digit in ISO8601 datetime, but found '" ++ escapeSpecial r ++
            bytesOf "' instead.")
        else dateLoop formats lx
      else if f ≠ r then
        lx.errorf (bytesOf "Expected '" ++ escapeSpecial f ++
          bytesOf "' in ISO8601 datetime, but found '" ++ escapeSpecial r ++ bytesOf "' instead.")
      else dateLoop formats lx

def lexDateAfterYear : Lexer → Result :=
  dateLoop u ("00-00T00:00:00Z".toList.map Char.toNat)

def lexNegNumberStart : Lexer → Result := numberStart u .lexNegNumber

def lexNegNumber (lx : Lexer) : Result :=
  let (r, lx) := lx.next
  if u.isDigit r then lx.goto .lexNegNumber
  else if r = 46 then lx.goto .lexFloatStart
  else if isNumberSuffix r then lx.goto .lexConvenientNumber
  else lx.endBefore .itemInteger

def lexFloatStart (lx : Lexer) : Result :=
  let (r, lx) := lx.next
  if ¬ u.isDigit r then
    lx.errorf (bytesOf "Floats must have a digit after the '.', but got '" ++ escapeSpecial r ++
      bytesOf "' instead.")
  else lx.goto .lexFloat

def lexFloat (lx : Lexer) : Result :=
  let (r, lx) := lx.next
  if u.isDigit r then lx.goto .lexFloat
  else if r = 46 then lx.goto .lexIPAddr
  else lx.endBefore .itemFloat

def lexIPAddr (lx : Lexer) : Result :=
  let (r, lx) := lx.next
  if u.isDigit r || r == 46 || r == 58 then lx.goto .lexIPAddr else lx.endBefore .itemString

def lexCommentStart (lx : Lexer) : Result :=
  lx.ignore.emit .itemCommentStart fun lx => lx.goto .lexComment

def lexComment (lx : Lexer) : Result :=
  let (r, lx) := lx.peek
  if isNL r || r == eof then lx.emit .itemText pop else lx.skip.goto .lexComment

end

end Lexer

/-- A call of the state function. -/
def StateFn.call (u : Unicode) : StateFn → Lexer → Result
  | .lexTop => Lexer.lexTop u
  | .lexTopValueEnd => Lexer.lexTopValueEnd
  | .lexKeyStart => Lexer.lexKeyStart u
  | .lexDubQuotedKey => Lexer.lexDubQuotedKey
  | .lexQuotedKey => Lexer.lexQuotedKey
  | .lexKey => Lexer.lexKey u
  | .lexKeyEnd => Lexer.lexKeyEnd u
  | .lexIncludeStart => Lexer.lexIncludeStart
  | .lexIncludeQuotedString => Lexer.lexIncludeQuotedString
  | .lexIncludeDubQuotedString => Lexer.lexIncludeDubQuotedString
  | .lexIncludeString => Lexer.lexIncludeString
  | .lexInclude => Lexer.lexInclude u
  | .lexValue => Lexer.lexValue u
  | .lexArrayValue => Lexer.lexArrayValue u
  | .lexArrayValueEnd => Lexer.lexArrayValueEnd
  | .lexArrayEnd => Lexer.lexArrayEnd
  | .lexMapKeyStart => Lexer.lexMapKeyStart u
  | .lexMapQuotedKey => Lexer.lexMapQuotedKey
  | .lexMapDubQuotedKey => Lexer.lexMapDubQuotedKey
  | .lexMapKey => Lexer.lexMapKey u
  | .lexMapKeyEnd => Lexer.lexMapKeyEnd u
  | .lexMapValue => Lexer.lexMapValue u
  | .lexMapValueEnd => Lexer.lexMapValueEnd
  | .lexMapEnd => Lexer.lexMapEnd
  | .lexQuotedString => Lexer.lexQuotedString
  | .lexDubQuotedString => Lexer.lexDubQuotedString
  | .lexString => Lexer.lexString u
  | .lexBlock => Lexer.lexBlock
  | .lexStringEscape => Lexer.lexStringEscape
  | .lexStringBinary => Lexer.lexStringBinary
  | .lexNumberOrDateOrIPStart => Lexer.lexNumberOrDateOrIPStart u
  | .lexNumberOrDateOrIP => Lexer.lexNumberOrDateOrIP u
  | .lexConvenientNumber => Lexer.lexConvenientNumber
  | .lexDateAfterYear => Lexer.lexDateAfterYear u
  | .lexNegNumberStart => Lexer.lexNegNumberStart u
  | .lexNegNumber => Lexer.lexNegNumber u
  | .lexFloatStart => Lexer.lexFloatStart u
  | .lexFloat => Lexer.lexFloat u
  | .lexIPAddr => Lexer.lexIPAddr u
  | .lexCommentStart => Lexer.lexCommentStart
  | .lexComment => Lexer.lexComment
  | .lexSkip nextState => fun lx => lx.ignore.goto nextState

/-- How a call of a Go function can panic here. -/
inductive Panic where
  | lexer (fault : LexFault)
  /-- A call of the state function `nil`. -/
  | nilState
  /-- A stack of the parser that is empty. -/
  | emptyContexts
  | emptyKeys
  deriving DecidableEq, Repr

/-- The lexer with its state and the items in its channel. -/
structure Scan where
  lx : Lexer
  state : Option StateFn
  items : List Item
  deriving DecidableEq, Repr

def Scan.init (input : Bytes) : Scan := ⟨lex input, some .lexTop, []⟩

/-- One turn of the loop in `nextItem`: an item that waits is returned, and without one the state
function is called. No call sends more than two items, so the channel of ten never blocks. -/
inductive Poll where
  | item (it : Item) (scan : Scan)
  | called (scan : Scan)
  | panic (cause : Panic)
  deriving DecidableEq, Repr

def Scan.poll (u : Unicode) (scan : Scan) : Poll :=
  match scan.items, scan.state with
  | it :: items, _ => .item it { scan with items := items }
  | [], none => .panic .nilState
  | [], some state =>
      let result := state.call u scan.lx
      match result.lx.fault with
      | some fault => .panic (.lexer fault)
      | none => .called ⟨result.lx, result.state, result.items⟩

/-- What calling `nextItem` again and again comes to within a number of turns. -/
inductive LexEnd where
  | ended (items : List Item)
  | panicked (cause : Panic)
  | running (items : List Item)
  deriving DecidableEq, Repr

/-- `nextItem` until it returns `itemEOF` or `itemError`. -/
def lexAll (u : Unicode) : Nat → List Item → Scan → LexEnd
  | 0, seen, _ => .running seen
  | turns + 1, seen, scan =>
      match scan.poll u with
      | .item it scan =>
          if it.typ = .itemEOF ∨ it.typ = .itemError then .ended (seen ++ [it])
          else lexAll u turns (seen ++ [it]) scan
      | .called scan => lexAll u turns seen scan
      | .panic cause => .panicked cause

end Hnatsd.Conf
