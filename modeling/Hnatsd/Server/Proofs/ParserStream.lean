import Hnatsd.Misc.Scans
import Hnatsd.Server.Proofs.ParserRange

/-!
# The parser as a machine that scans bytes

A machine that takes one byte of the protocol at a time and keeps what it has read: no buffers, no
indices, no reads. On the streams it accepts, `parse` makes the same calls however the stream is
cut. The relation between the two says, at every head of the loop, which bytes of the read buffer
have been taken and where in memory the machine's bytes are.
-/

namespace Hnatsd.Server
open Misc List Heap

/-- No slice is longer than what the Go runtime allocates at most. -/
def maxAlloc : Nat := 2 ^ 48

inductive Scan where
  | word (s : PState)
  | arg (s : PState) (bytes : Bytes) (ended : Bool)
  | payload (pa : PubValues) (got : Bytes)

def scanHeader : Except ParseError PubValues → Option (Scan × Option Call)
  | .ok pa => if pa.size ≤ maxAlloc then some (.payload pa [], none) else none
  | .error _ => none

/-- The end of an argument. PUB comes from clients, MSG from routes. -/
def scanArg (cfg : ParserConfig) (s : PState) (bytes : Bytes) : Option (Scan × Option Call) :=
  match s with
  | .subArg =>
      if subArgsOk bytes then some (.word .opStart, some (.processSub bytes)) else none
  | .unsubArg =>
      if unsubArgsOk bytes then some (.word .opStart, some (.processUnsub bytes)) else none
  | .infoArg => some (.word .opStart, some (.processInfo bytes))
  | .minusErrArg => some (.word .opStart, some (.processErr bytes))
  | .connectArg => some (.word .opStart, some (.processConnect bytes))
  | .pubArg =>
      if cfg.typ = .client then scanHeader (pubHeader cfg none (splitArg bytes)) else none
  | .msgArg => if cfg.typ = .client then none else scanHeader (msgHeader (splitArg bytes))
  | _ => none

def scanWord (cfg : ParserConfig) (s : PState) (b : UInt8) : Option (Scan × Option Call) :=
  match wordStep cfg.typ false s b with
  | .fail _ => none
  | .goto s => some (.word s, none)
  | .line call => some (.word .opStart, call)
  | .begin s => if 1 ≤ cfg.mcl then some (.arg s [b] false, none) else none

def scanArgByte (cfg : ParserConfig) (s : PState) (bytes : Bytes) (ended : Bool) (b : UInt8) :
    Option (Scan × Option Call) :=
  if b = cr then if ended then none else some (.arg s bytes true, none)
  else if b = lf then if ended then scanArg cfg s bytes else none
  else if ended ∨ cfg.mcl < bytes.length + 1 then none
  else some (.arg s (bytes ++ [b]) false, none)

/-- The payload is followed by a carriage return and a line feed. -/
def scanPayload (pa : PubValues) (got : Bytes) (b : UInt8) : Option (Scan × Option Call) :=
  if got.length < pa.size then some (.payload pa (got ++ [b]), none)
  else if got.length = pa.size then
    if b = cr then some (.payload pa (got ++ [b]), none) else none
  else if b = lf then some (.word .opStart, some (.processMsg pa (got ++ [b]))) else none

def scanStep (cfg : ParserConfig) : Scan → UInt8 → Option (Scan × Option Call)
  | .word s, b => scanWord cfg s b
  | .arg s bytes ended, b => scanArgByte cfg s bytes ended b
  | .payload pa got, b => scanPayload pa got b

/-- How many bytes of the read buffer have been taken. The index runs ahead of them, or one byte
behind, after the header of a message. -/
def consumed (c : ParseState) (i : Int) : Nat :=
  if c.state = .msgPayload ∧ c.msgBuf = none then min c.buf.length (max i c.as).toNat
  else i.toNat

/-- An argument held from an earlier read starts the scratch array or has an array of its own. -/
def ArgPlace (c : ParseState) : Prop :=
  ∀ arg, c.argBuf = some arg → arg.arr = scratch → arg.off = 0

/-- Where the slices of `c.pa` are: in the read buffer, or in `argBuf` once the message is split,
and then away from `msgBuf`. -/
structure HeaderPlace (c : ParseState) : Prop where
  valid : ∀ s ∈ c.pa.slices, c.mem.Valid s
  unsplit : c.argBuf = none → c.msgBuf = none ∧ ∀ s ∈ c.pa.slices, s.arr = readBuf
  split : ∀ arg, c.argBuf = some arg → ∀ s ∈ c.pa.slices, Slice.Inside s arg
  apart : ∀ arg m, c.argBuf = some arg → c.msgBuf = some m →
    m.arr = arg.arr → arg.off + arg.len ≤ m.off

/-- Inside an argument: its bytes are in the read buffer or in `argBuf`. -/
structure ArgFollows (cfg : ParserConfig) (c : ParseState) (i : Int) (bytes : Bytes)
    (ended : Bool) : Prop where
  state : c.state.isArg
  place : ArgPlace c
  drop : c.drop = if ended then 1 else 0
  short : bytes.length ≤ cfg.mcl
  unsplit : c.argBuf = none →
    slice c.buf (c.as.toNat, i.toNat) = bytes ++ if ended then [cr] else []
  split : ∀ arg, c.argBuf = some arg → c.mem.read arg = bytes

/-- Inside a message: its bytes are in the read buffer or in `msgBuf`, and `c.pa` reads as its
header. -/
structure MsgFollows (c : ParseState) (i : Int) (pa : PubValues) (got : Bytes) : Prop where
  state : c.state = .msgPayload ∨ c.state = .msgEnd
  place : ArgPlace c
  header : HeaderPlace c
  values : c.pa.values c.mem = pa
  small : pa.size ≤ maxAlloc
  unsplit : c.msgBuf = none → got = slice c.buf (c.as.toNat, consumed c i)
  split : ∀ m, c.msgBuf = some m → c.mem.read m = got
  partly : c.state = .msgPayload → got.length ≤ pa.size
  ended : c.state = .msgEnd → got.length = pa.size + 1 ∨
    (got.length = pa.size ∧ c.msgBuf ≠ none)

/-- The parser at the head of its loop, and the machine after the bytes taken so far. On a client
connection no `sid` is ever set. -/
def Follows (cfg : ParserConfig) (c : ParseState) (i : Int) (a : Scan) : Prop :=
  (cfg.typ = .client → c.pa.sid = none) ∧
    match a with
    | .word s => c.state = s ∧ c.state.isWord
    | .arg s bytes ended => c.state = s ∧ ArgFollows cfg c i bytes ended
    | .payload pa got => MsgFollows c i pa got

/-- An iteration makes the first of the machine's remaining calls, if it makes one, and leaves
the machine with the others. -/
def Step.Follows (cfg : ParserConfig) (last : Scan) (calls : List Call) : Step → Prop
  | .next i c call => ∃ a rest, Server.Follows cfg c (wrap64 (i + 1)) a ∧
      Scans (scanStep cfg) a (c.buf.drop (consumed c (wrap64 (i + 1)))) rest last ∧
      calls = call.toList ++ rest
  | _ => False

theorem consumed_other {c : ParseState} {i : Int}
    (other : c.state ≠ .msgPayload ∨ c.msgBuf ≠ none) : consumed c i = i.toNat := by
  unfold consumed
  rw [if_neg]
  rintro ⟨state, msgBuf⟩
  rcases other with other | other <;> contradiction

theorem consumed_split {c : ParseState} {i : Int} {m : Slice} (held : c.msgBuf = some m) :
    consumed c i = i.toNat := by
  apply consumed_other
  rw [held]
  exact Or.inr (Option.some_ne_none m)

theorem drop_byteAt {c : ParseState} {i : Int} {b : UInt8} (byte : c.byteAt i = some b) :
    0 ≤ i ∧ c.buf.drop i.toNat = b :: c.buf.drop (i.toNat + 1) := by
  unfold ParseState.byteAt at byte
  split_ifs at byte with low
  obtain ⟨inside, rfl⟩ := List.getElem?_eq_some_iff.mp byte
  exact ⟨low, drop_eq_getElem_cons inside⟩

theorem slice_self (xs : Bytes) (lo : Nat) : slice xs (lo, lo) = [] := by
  rw [slice, drop_eq_nil_of_le (by rw [length_take]; omega)]

theorem slice_succ {xs rest : Bytes} {lo hi : Nat} {b : UInt8} (order : lo ≤ hi)
    (next : xs.drop hi = b :: rest) : slice xs (lo, hi + 1) = slice xs (lo, hi) ++ [b] := by
  have inside : hi < xs.length := by
    by_contra outside
    rw [drop_eq_nil_of_le (by omega)] at next
    cases next
  have here : xs[hi] = b := by
    rw [drop_eq_getElem_cons inside] at next
    exact (List.cons.inj next).1
  have long : lo ≤ (xs.take hi).length := by rw [length_take]; omega
  rw [slice, slice, take_succ_eq_append_getElem inside, here,
    drop_append_of_le_length long]

section Rounds

variable {cfg : ParserConfig} {i : Int} {b : UInt8} {c : ParseState} {last : Scan}
  {calls : List Call}

theorem toNat_succ (low : 0 ≤ i) : (i + 1).toNat = i.toNat + 1 := by omega

theorem consumed_next (low : 0 ≤ i) (other : c.state ≠ .msgPayload ∨ c.msgBuf ≠ none) :
    consumed c (i + 1) = i.toNat + 1 := by
  rw [consumed_other other, toNat_succ low]

/-- An iteration that has taken the first `k` bytes when it ends. -/
theorem follows_at {c' : ParseState} {call : Option Call} {a : Scan} {rest : List Call} {j i' : Int}
    {k : Nat} (next : wrap64 (j + 1) = i') (buf : c'.buf = c.buf) (taken : consumed c' i' = k)
    (scans : Scans (scanStep cfg) a (c.buf.drop k) rest last)
    (follows : Server.Follows cfg c' i' a) :
    (Step.next j c' call).Follows cfg last (call.toList ++ rest) := by
  subst next taken
  refine ⟨a, rest, follows, ?_, rfl⟩
  rw [buf]
  exact scans

theorem follows_silent {c' : ParseState} {a : Scan} {j i' : Int} {k : Nat}
    (next : wrap64 (j + 1) = i') (buf : c'.buf = c.buf) (taken : consumed c' i' = k)
    (scans : Scans (scanStep cfg) a (c.buf.drop k) calls last)
    (follows : Server.Follows cfg c' i' a) : (Step.next j c' none).Follows cfg last calls :=
  show (Step.next j c' none).Follows cfg last ((none : Option Call).toList ++ calls) from
    follows_at next buf taken scans follows

/-- An iteration that takes one byte. -/
theorem follows_next {c' : ParseState} {call : Option Call} {a : Scan} {rest : List Call}
    (memory : Memory c) (low : 0 ≤ i) (inside : i < c.buf.length) (buf : c'.buf = c.buf)
    (taken : consumed c' (i + 1) = i.toNat + 1)
    (scans : Scans (scanStep cfg) a (c.buf.drop (i.toNat + 1)) rest last)
    (follows : Server.Follows cfg c' (i + 1) a) :
    (Step.next i c' call).Follows cfg last (call.toList ++ rest) :=
  follows_at (wrap64_succ memory low inside) buf taken scans follows

theorem word_follows (refused : Bool) (shape : Shape c i) (inside : i < c.buf.length)
    (word : c.state.isWord) (sid : cfg.typ = .client → c.pa.sid = none)
    (byte : c.byteAt i = some b)
    (scans : Scans (scanStep cfg) (.word c.state) (c.buf.drop (consumed c i)) calls last) :
    (parseStep cfg false refused i b c).Follows cfg last calls := by
  obtain ⟨low, rest⟩ := drop_byteAt byte
  have leads := wordStep_leads cfg.typ false b word
  obtain ⟨argBuf, drop⟩ : c.argBuf = none ∧ c.drop = 0 := by
    rcases shape.placed with ⟨_, argBuf, _, drop, _⟩ | ⟨state⟩ | ⟨state⟩ | ⟨state⟩
    · exact ⟨argBuf, drop⟩
    · simp [PState.isWord, state] at word
    · simp [PState.isWord, state] at word
    · simp [PState.isWord, state] at word
  rw [consumed_other (Or.inl (PState.isWord_ne word).1), rest] at scans
  obtain ⟨a, emitted, out, stepped, rfl, scansRest⟩ := scans.cons_inv
  rw [parseStep_word word]
  change scanWord cfg c.state b = _ at stepped
  unfold scanWord at stepped
  cases moved : wordStep cfg.typ false c.state b with
  | fail e => simp [moved] at stepped
  | goto s =>
    rw [moved] at stepped leads
    cases stepped
    exact follows_next shape.memory low inside rfl
      (consumed_next low (Or.inl (PState.isWord_ne leads).1))
      scansRest ⟨sid, rfl, leads⟩
  | line call =>
    rw [moved] at stepped
    cases stepped
    exact follows_next shape.memory low inside rfl
      (consumed_next low (Or.inl PState.noConfusion))
      scansRest ⟨sid, rfl, rfl⟩
  | begin s =>
    rw [moved] at stepped leads
    dsimp only at stepped
    split_ifs at stepped with fits
    cases stepped
    refine follows_next shape.memory low inside rfl
      (consumed_next low (Or.inl (PState.isArg_ne leads).1)) scansRest ?_
    refine ⟨sid, rfl, leads, ?_, ?_, fits, fun _ => ?_, ?_⟩
    · intro arg held
      rw [argBuf] at held
      cases held
    · exact drop
    · change slice c.buf (i.toNat, (i + 1).toNat) = [b]
      rw [toNat_succ low, slice_succ (Nat.le_refl _) rest, slice_self, nil_append]
    · intro arg held
      rw [argBuf] at held
      cases held

/-- The bytes of an argument; a carriage return behind it is dropped. -/
theorem read_argAt {bytes : Bytes} {ended : Bool} {arg : Slice} (shape : Shape c i)
    (inside : i ≤ c.buf.length) (follows : ArgFollows cfg c i bytes ended)
    (taken : argAt i c = some arg) : c.mem.read arg = bytes := by
  unfold argAt at taken
  cases argBuf : c.argBuf with
  | some held =>
    rw [argBuf] at taken
    cases taken
    exact follows.split _ argBuf
  | none =>
    obtain ⟨-, -, started⟩ := shape.placed.inArg follows.state
    obtain ⟨first, behind⟩ := started argBuf
    have short := shape.memory.short
    have text := follows.unsplit argBuf
    have drop := follows.drop
    rw [argBuf] at taken
    dsimp only at taken
    have window : slice c.buf (c.as.toNat, (i - c.drop).toNat) = bytes := by
      cases ended with
      | false =>
        simp only [Bool.false_eq_true, if_false, append_nil] at drop text
        rw [drop, Int.sub_zero, text]
      | true =>
        simp only [if_true] at drop text
        have before : i.toNat = (i - c.drop).toNat + 1 := by omega
        have here : (i - c.drop).toNat < c.buf.length := by omega
        rw [before, slice_succ (by omega) (drop_eq_getElem_cons here)] at text
        exact (append_inj' text rfl).1
    have bounds : 0 ≤ c.drop ∧ c.drop ≤ 1 := by
      rw [drop]
      split_ifs <;> omega
    rw [wrap64_of_bounds (by omega) (by omega)] at taken
    rw [read_bufSlice taken, ← window, slice, drop_take]
    congr 1
    omega

/-- The machine's own view of `argDone`, for arguments that are not headers. -/
theorem argDone_call {arg : Slice} {bytes : Bytes} {a : Scan} {emitted : Option Call}
    (text : c.mem.read arg = bytes) (pub : c.state ≠ .pubArg) (msg : c.state ≠ .msgArg)
    (scanned : scanArg cfg c.state bytes = some (a, emitted)) :
    ∃ as, argDone cfg false i c arg =
        .next i { c with argBuf := none, drop := 0, as := as, state := .opStart } emitted ∧
      a = .word .opStart := by
  unfold scanArg at scanned
  unfold argDone
  dsimp only
  split at scanned
  · rename_i state
    split_ifs at scanned with ok
    cases scanned
    refine ⟨wrap64 (i + 1), ?_, rfl⟩
    simp only [state, text, ok, if_true]
  · rename_i state
    split_ifs at scanned with ok
    cases scanned
    refine ⟨wrap64 (i + 1), ?_, rfl⟩
    simp only [state, text, ok, if_true]
  · rename_i state
    cases scanned
    refine ⟨wrap64 (i + 1), ?_, rfl⟩
    simp only [state, text, Bool.false_eq_true, if_false]
  · rename_i state
    cases scanned
    refine ⟨wrap64 (i + 1), ?_, rfl⟩
    simp only [state, text]
  · rename_i state
    cases scanned
    refine ⟨c.as, ?_, rfl⟩
    simp only [state, text, Bool.false_eq_true, if_false]
  · rename_i state
    exact (pub state).elim
  · rename_i state
    exact (msg state).elim
  · cases scanned

/-- The machine skips over the bytes of a payload. -/
theorem scans_payload {pa : PubValues} {got bytes : Bytes} (n : Nat)
    (fits : (got.length : Int) + n ≤ pa.size)
    (scans : Scans (scanStep cfg) (.payload pa got) bytes calls last) :
    Scans (scanStep cfg) (.payload pa (got ++ bytes.take n)) (bytes.drop n) calls last := by
  induction n generalizing got bytes with
  | zero => simpa using scans
  | succ n ih =>
    cases bytes with
    | nil => simpa using scans
    | cons b bytes =>
      obtain ⟨a, emitted, out, stepped, rfl, scansRest⟩ := scans.cons_inv
      change scanPayload pa got b = _ at stepped
      rw [scanPayload, if_pos (by omega)] at stepped
      cases stepped
      have := ih (by rw [length_append, length_singleton]; omega) scansRest
      simpa using this

theorem bufSlice_arr {lo hi : Int} {s : Slice} (taken : c.bufSlice lo hi = some s) :
    s.arr = readBuf := by
  unfold ParseState.bufSlice at taken
  split_ifs at taken
  cases taken
  rfl

theorem slice_eq_take_drop (xs : Bytes) (lo n : Nat) :
    slice xs (lo, lo + n) = (xs.drop lo).take n := by
  rw [slice, drop_take]
  congr 1
  omega

/-- The header of a message: the machine has taken what the jump skips. -/
theorem header_follows {j : Int} {arg : Slice} {pa : PubArg} {v : PubValues} (shape : Shape c i)
    (inside : i < c.buf.length) (state : c.state.isArg) (place : ArgPlace c)
    (taken : argAt i c = some arg) (sid : cfg.typ = .client → pa.sid = none)
    (slices : ∀ s ∈ pa.slices, Slice.Inside s arg) (values : pa.values c.mem = v)
    (size : 0 ≤ v.size) (small : v.size ≤ maxAlloc)
    (next : wrap64 (j + 1) = jump c.state i v.size)
    (scans : Scans (scanStep cfg) (.payload v []) (c.buf.drop (i.toNat + 1)) calls last) :
    (Step.next j { c with pa := pa, drop := 0, as := wrap64 (i + 1), state := .msgPayload }
      none).Follows cfg last calls := by
  obtain ⟨msgBuf, -, -⟩ := shape.placed.inArg state
  have low := shape.index.1
  have succ := wrap64_succ shape.memory low inside
  have valid := valid_argAt shape.memory taken
  have order : i + v.size ≤ jump c.state i v.size ∧ jump c.state i v.size ≤ i + 1 + v.size := by
    unfold jump
    split_ifs <;> omega
  obtain ⟨n, count, fits⟩ : ∃ n : Nat,
      min c.buf.length (max (jump c.state i v.size) (i + 1)).toNat = i.toNat + 1 + n ∧
        (n : Int) ≤ v.size :=
    ⟨min c.buf.length (max (jump c.state i v.size) (i + 1)).toNat - (i.toNat + 1),
      by omega, by omega⟩
  have at_ : consumed { c with pa := pa, drop := 0, as := wrap64 (i + 1), state := .msgPayload }
      (jump c.state i v.size) = i.toNat + 1 + n := by
    unfold consumed
    rw [if_pos ⟨rfl, msgBuf⟩, succ]
    exact count
  have skipped := scans_payload n (by simpa using fits) scans
  rw [drop_drop, nil_append] at skipped
  refine follows_silent (c := c) next rfl at_ skipped
    ⟨sid, Or.inl rfl, place, ⟨?_, ?_, ?_, ?_⟩, values, small, fun _ => ?_, ?_, fun _ => ?_, nofun⟩
  · exact fun s mem => valid_inside (slices s mem) valid
  · intro argBuf
    refine ⟨msgBuf, fun s mem => ?_⟩
    have unsplit : argAt i c = c.bufSlice c.as (wrap64 (i - c.drop)) := by
      unfold argAt
      rw [show c.argBuf = none from argBuf]
    rw [(slices s mem).1]
    exact bufSlice_arr (unsplit.symm.trans taken)
  · intro held argBuf s mem
    have split : argAt i c = some held := by
      unfold argAt
      rw [show c.argBuf = some held from argBuf]
    rw [split] at taken
    cases taken
    exact slices s mem
  · intro _ m _ held
    rw [show c.msgBuf = some m from held] at msgBuf
    cases msgBuf
  · rw [at_]
    change _ = slice c.buf ((wrap64 (i + 1)).toNat, _)
    rw [succ, toNat_succ low, slice_eq_take_drop]
  · intro m held
    rw [show c.msgBuf = some m from held] at msgBuf
    cases msgBuf
  · rw [length_take]
    omega

theorem scanHeader_some {header : Except ParseError PubValues} {a : Scan} {emitted : Option Call}
    (scanned : scanHeader header = some (a, emitted)) :
    ∃ v, header = .ok v ∧ v.size ≤ maxAlloc ∧ a = .payload v [] ∧ emitted = none := by
  unfold scanHeader at scanned
  split at scanned
  · split_ifs at scanned with small
    cases scanned
    exact ⟨_, rfl, small, rfl, rfl⟩
  · cases scanned

theorem map_eq_ok {ε α β : Type} {f : α → β} {x : Except ε α} {y : β} (ok : x.map f = .ok y) :
    ∃ a, x = .ok a ∧ f a = y := by
  cases x with
  | error e => cases ok
  | ok a =>
    cases ok
    exact ⟨a, rfl, rfl⟩

/-- The end of an argument. -/
theorem argEnd_follows {bytes : Bytes} {arg : Slice} {a : Scan} {emitted : Option Call}
    (shape : Shape c i) (inside : i < c.buf.length) (big : c.buf.length ≤ maxAlloc)
    (state : c.state.isArg) (sid : cfg.typ = .client → c.pa.sid = none) (place : ArgPlace c)
    (taken : argAt i c = some arg) (text : c.mem.read arg = bytes)
    (scanned : scanArg cfg c.state bytes = some (a, emitted))
    (scans : Scans (scanStep cfg) a (c.buf.drop (i.toNat + 1)) calls last) :
    (argDone cfg false i c arg).Follows cfg last (emitted.toList ++ calls) := by
  have low := shape.index.1
  have valid := valid_argAt shape.memory taken
  have succ := wrap64_succ shape.memory low inside
  obtain ⟨msgBuf, -, -⟩ := shape.placed.inArg state
  by_cases pub : c.state = .pubArg
  · rw [pub, scanArg] at scanned
    split_ifs at scanned with client
    obtain ⟨v, header, small, rfl, rfl⟩ := scanHeader_some scanned
    have noSid := sid client
    have values := processPub_values cfg c.pa valid
    rw [text, noSid, Option.map_none, header] at values
    obtain ⟨pa, ok, values⟩ := map_eq_ok values
    obtain ⟨sidKept, slices⟩ := processPub_slices valid ok
    have size := pubHeader_size header
    have sizes : pa.size = v.size := by rw [← values]; rfl
    unfold argDone
    simp only [pub, ok, show c.msgBuf.isNone = true by rw [msgBuf]; rfl, if_true]
    refine header_follows shape inside state place taken (fun _ => sidKept.trans noSid) ?_ values
      size.1 small ?_ scans
    · intro s mem
      rcases slices s mem with old | fresh
      · rw [noSid] at old
        cases old
      · exact fresh
    · unfold maxAlloc at small big
      rw [jump, if_pos pub, succ, sizes, lenCrLf, wrap64_sub_left, wrap64_add_left,
        wrap64_of_bounds] <;> omega
  by_cases msg : c.state = .msgArg
  · rw [msg, scanArg] at scanned
    split_ifs at scanned with client
    obtain ⟨v, header, small, rfl, rfl⟩ := scanHeader_some scanned
    have values := processMsgArgs_values valid
    rw [text, header] at values
    obtain ⟨pa, ok, values⟩ := map_eq_ok values
    have size := msgHeader_size header
    have sizes : pa.size = v.size := by rw [← values]; rfl
    unfold argDone
    simp only [msg, ok]
    refine header_follows shape inside state place taken (fun isClient => (client isClient).elim)
      (processMsgArgs_slices valid ok) values size.1 small ?_ scans
    unfold maxAlloc at small big
    rw [jump, if_neg pub, succ, sizes, wrap64_sub_left, wrap64_add_left, wrap64_of_bounds] <;> omega
  · obtain ⟨as, done, rfl⟩ := argDone_call text pub msg scanned
    rw [done]
    exact follows_next shape.memory low inside rfl
      (consumed_next low (Or.inl PState.noConfusion)) scans ⟨sid, rfl, rfl⟩

theorem arg_follows {bytes : Bytes} {ended : Bool} (shape : Shape c i) (inside : i < c.buf.length)
    (big : c.buf.length ≤ maxAlloc) (follows : Server.Follows cfg c i (.arg c.state bytes ended))
    (byte : c.byteAt i = some b)
    (scans : Scans (scanStep cfg) (.arg c.state bytes ended) (c.buf.drop (consumed c i)) calls
      last) :
    (parseStep cfg false false i b c).Follows cfg last calls := by
  obtain ⟨sid, -, follows⟩ := follows
  have ⟨state, place, drop, short, unsplit, split⟩ := follows
  obtain ⟨low, rest⟩ := drop_byteAt byte
  obtain ⟨-, -, started⟩ := shape.placed.inArg state
  have one := (consumed_other (c := c) (i := i) (Or.inl (PState.isArg_ne state).1))
  rw [one, rest] at scans
  obtain ⟨a, emitted, out, stepped, rfl, scansRest⟩ := scans.cons_inv
  change scanArgByte cfg c.state bytes ended b = _ at stepped
  have window (argBuf : c.argBuf = none) : slice c.buf (c.as.toNat, (i + 1).toNat) =
      (bytes ++ if ended then [cr] else []) ++ [b] := by
    have := started argBuf
    rw [toNat_succ low, slice_succ (by rw [drop] at this; split_ifs at this <;> omega) rest,
      unsplit argBuf]
  rw [parseStep_arg state]
  unfold scanArgByte at stepped
  unfold argStep
  by_cases isCr : b = cr
  · rw [if_pos isCr] at stepped ⊢
    split_ifs at stepped with open'
    cases stepped
    refine follows_next shape.memory low inside rfl
      (consumed_next low (Or.inl (PState.isArg_ne state).1)) scansRest ?_
    refine ⟨sid, rfl, state, place, rfl, short, fun argBuf => ?_, split⟩
    have text := window argBuf
    rw [if_neg open', append_nil, isCr] at text
    exact text
  · rw [if_neg isCr] at stepped ⊢
    by_cases isLf : b = lf
    · rw [if_pos isLf] at stepped ⊢
      split_ifs at stepped with closed
      obtain ⟨arg, taken⟩ := argAt_some shape inside state
      have text := read_argAt shape (Int.le_of_lt inside) follows taken
      rw [taken]
      exact argEnd_follows shape inside big state sid place taken text stepped scansRest
    · rw [if_neg isLf] at stepped ⊢
      split_ifs at stepped with refused
      cases stepped
      obtain ⟨open', fits⟩ := not_or.mp refused
      have length : ((bytes ++ [b]).length : Int) ≤ cfg.mcl := by
        rw [length_append, length_singleton]
        omega
      rw [if_neg open'] at drop
      cases argBuf : c.argBuf with
      | some arg =>
        have owned := shape.memory.argBuf
        rw [argBuf] at owned
        obtain ⟨valid, other⟩ := owned arg rfl
        have kept := Kept.append cfg.grow [b] valid other
        have moved := append_arr c.mem cfg.grow 0 arg [b]
        have text : (c.mem.append cfg.grow 0 arg [b]).1.read (c.mem.append cfg.grow 0 arg [b]).2 =
            bytes ++ [b] := by rw [read_append valid, split arg argBuf]
        have arrays := shape.memory.arrays
        dsimp only
        generalize c.mem.append cfg.grow 0 arg [b] = held at kept moved text ⊢
        refine follows_next shape.memory low inside (kept.buf (by unfold readBuf; omega))
          (consumed_next low (Or.inl (PState.isArg_ne state).1)) scansRest
          ⟨sid, rfl, state, ?_, drop, length, nofun, ?_⟩
        · rintro _ ⟨⟩ isScratch
          rcases moved with ⟨arr, off⟩ | ⟨arr, off⟩
          · rw [off]
            exact place arg argBuf (arr.symm.trans isScratch)
          · exact off
        · rintro _ ⟨⟩
          exact text
      | none =>
        refine follows_next shape.memory low inside rfl
          (consumed_next low (Or.inl (PState.isArg_ne state).1)) scansRest ?_
        refine ⟨sid, rfl, state, place, drop, length, fun _ => ?_, ?_⟩
        · have text := window argBuf
          rw [if_neg open', append_nil] at text
          simpa using text
        · intro arg held
          rw [argBuf] at held
          cases held

theorem values_congr {pa : PubArg} {mem mem' : Heap UInt8}
    (same : ∀ s ∈ pa.slices, mem'.read s = mem.read s) : pa.values mem' = pa.values mem := by
  obtain ⟨subject, reply, sid, szb, size⟩ := pa
  have on (field : Option Slice) (mem'' : ∀ s, field = some s → s ∈ (PubArg.slices
      ⟨subject, reply, sid, szb, size⟩)) : field.map mem'.read = field.map mem.read := by
    cases field with
    | none => rfl
    | some s => simp [same s (mem'' s rfl)]
  have h1 := on subject (by rintro s rfl; simp [PubArg.slices])
  have h2 := on reply (by rintro s rfl; simp [PubArg.slices])
  have h3 := on sid (by rintro s rfl; simp [PubArg.slices])
  have h4 := on szb (by rintro s rfl; simp [PubArg.slices])
  simp only [PubArg.values, textOf, h1, h2, h3, h4]

/-- Behind the start of `msgBuf` there is nothing of the header. -/
theorem HeaderPlace.away {m : Slice} (header : HeaderPlace c) (held : c.msgBuf = some m) :
    ∀ s ∈ c.pa.slices, s.arr = m.arr → s.off + s.len ≤ m.off := by
  intro s mem same
  cases argBuf : c.argBuf with
  | none =>
    rw [(header.unsplit argBuf).1] at held
    cases held
  | some arg =>
    obtain ⟨arr, -, last, -⟩ := header.split arg argBuf s mem
    have := header.apart arg m argBuf held (by rw [← same, arr])
    omega

/-- The header stays where it is when `msgBuf` grows, in place or in a new array. -/
theorem HeaderPlace.grown {m m' : Slice} {mem' : Heap UInt8} (header : HeaderPlace c)
    (held : c.msgBuf = some m) (owned : Owned c.mem c.argBuf) (kept : Kept c.mem mem')
    (moved : (m'.arr = m.arr ∧ m'.off = m.off) ∨ c.mem.arrays.length ≤ m'.arr) (s : PState) :
    HeaderPlace { c with state := s, msgBuf := some m', mem := mem' } where
  valid t mem := kept.valid (header.valid t mem)
  unsplit argBuf := by
    rw [(header.unsplit argBuf).1] at held
    cases held
  split := header.split
  apart := by
    rintro arg _ argBuf ⟨⟩ same
    have exist := (owned arg argBuf).1.1
    rcases moved with ⟨arr, off⟩ | fresh
    · rw [off]
      exact header.apart arg m argBuf held (arr.symm.trans same)
    · omega

/-- `msgBuf` has taken further bytes of the message. -/
theorem MsgFollows.grown {pa : PubValues} {got got' : Bytes} {m m' : Slice} {mem' : Heap UInt8}
    {s : PState} {i' : Int} (follows : MsgFollows c i pa got) (held : c.msgBuf = some m)
    (owned : Owned c.mem c.argBuf) (kept : Kept c.mem mem')
    (moved : (m'.arr = m.arr ∧ m'.off = m.off) ∨ c.mem.arrays.length ≤ m'.arr)
    (values : c.pa.values mem' = c.pa.values c.mem) (text : mem'.read m' = got')
    (state : (s = .msgPayload ∧ got'.length ≤ pa.size) ∨
      (s = .msgEnd ∧ (got'.length = pa.size + 1 ∨ got'.length = pa.size))) :
    MsgFollows { c with state := s, msgBuf := some m', mem := mem' } i' pa got' where
  state := by
    rcases state with ⟨rfl, -⟩ | ⟨rfl, -⟩
    · exact Or.inl rfl
    · exact Or.inr rfl
  place := follows.place
  header := follows.header.grown held owned kept moved s
  values := values.trans follows.values
  small := follows.small
  unsplit := nofun
  split := by
    rintro _ ⟨⟩
    exact text
  partly payload := by
    rcases state with ⟨-, short⟩ | ⟨rfl, -⟩
    · exact short
    · cases payload
  ended finish := by
    rcases state with ⟨rfl, -⟩ | ⟨-, whole | part⟩
    · cases finish
    · exact Or.inl whole
    · exact Or.inr ⟨part, nofun⟩

/-- Appending to `msgBuf` does not touch the header. -/
theorem HeaderPlace.values_append {m : Slice} (header : HeaderPlace c) (xs : Bytes)
    (g : Grow) (held : c.msgBuf = some m) (valid : c.mem.Valid m) :
    c.pa.values (c.mem.append g 0 m xs).1 = c.pa.values c.mem := by
  refine values_congr fun s mem => read_append_frame valid (header.valid s mem) fun same => ?_
  have := header.away held s mem same
  omega

theorem moved_append (mem : Heap UInt8) (g : Grow) (m : Slice) (xs : Bytes) :
    ((mem.append g 0 m xs).2.arr = m.arr ∧ (mem.append g 0 m xs).2.off = m.off) ∨
      mem.arrays.length ≤ (mem.append g 0 m xs).2.arr := by
  rcases append_arr mem g 0 m xs with same | ⟨arr, -⟩
  · exact Or.inl same
  · exact Or.inr (Nat.le_of_eq arr.symm)

theorem payload_follows {pa : PubValues} {got : Bytes} (shape : Shape c i)
    (inside : i < c.buf.length) (follows : Server.Follows cfg c i (.payload pa got))
    (state : c.state = .msgPayload) (byte : c.byteAt i = some b)
    (scans : Scans (scanStep cfg) (.payload pa got) (c.buf.drop (consumed c i)) calls last) :
    (payloadStep cfg i b c).Follows cfg last calls := by
  obtain ⟨sid, follows⟩ := follows
  obtain ⟨low, rest⟩ := drop_byteAt byte
  have short := shape.memory.short
  have size : pa.size = c.pa.size := by rw [← follows.values]; rfl
  obtain ⟨drop, sizes, unsplit, split⟩ := shape.placed.inPayload state
  cases msgBuf : c.msgBuf with
  | none =>
    obtain ⟨first, fits, before, jumped⟩ := unsplit msgBuf
    have behind : wrap64 (i - c.as) = i - c.as := wrap64_of_bounds (by omega) (by omega)
    have text := follows.unsplit msgBuf
    have position : consumed c i = (max i c.as).toNat := by
      rw [consumed, if_pos ⟨state, msgBuf⟩]
      omega
    rw [payloadStep_unsplit msgBuf, behind]
    by_cases early : i < c.as
    · -- the line feed of the header is looked at once more
      have position' : consumed c (i + 1) = consumed c i := by
        rw [position, consumed, if_pos ⟨state, msgBuf⟩]
        omega
      rw [if_neg (by omega)]
      have succ := wrap64_succ shape.memory low inside
      refine ⟨.payload pa got, calls, ?_, ?_, rfl⟩
      · rw [succ]
        exact ⟨sid, { follows with unsplit := fun _ => by rw [position']; exact text }⟩
      · rw [succ, position']
        exact scans
    · have here : consumed c i = i.toNat := by omega
      rw [here] at text scans
      rw [rest] at scans
      have length : (got.length : Int) = i - c.as := by
        rw [text, slice, length_drop, length_take]
        omega
      have window : slice c.buf (c.as.toNat, i.toNat + 1) = got ++ [b] := by
        rw [slice_succ (by omega) rest, text]
      obtain ⟨a, emitted, out, stepped, rfl, scansRest⟩ := scans.cons_inv
      change scanPayload pa got b = _ at stepped
      unfold scanPayload at stepped
      by_cases missing : (got.length : Int) < pa.size
      · rw [if_pos missing] at stepped
        cases stepped
        have position' : consumed c (i + 1) = i.toNat + 1 := by
          rw [consumed, if_pos ⟨state, msgBuf⟩]
          omega
        rw [if_neg (by omega)]
        refine follows_next shape.memory low inside rfl position' scansRest
          ⟨sid, { follows with unsplit := fun _ => ?_, split := ?_, partly := fun _ => ?_, ended := ?_ }⟩
        · rw [position', window]
        · intro m held
          rw [msgBuf] at held
          cases held
        · rw [length_append, length_singleton]
          omega
        · intro finish
          rw [state] at finish
          cases finish
      · rw [if_neg missing] at stepped
        split_ifs at stepped with complete isCr
        · cases stepped
          rw [if_pos (by omega)]
          refine follows_next shape.memory low inside rfl (consumed_next low (Or.inl (by rintro ⟨⟩))) scansRest
            ⟨sid, Or.inr rfl, follows.place, ?_, follows.values, follows.small, fun _ => ?_, ?_, (by rintro ⟨⟩),
              fun _ => Or.inl ?_⟩
          · exact ⟨follows.header.valid, follows.header.unsplit, follows.header.split,
              follows.header.apart⟩
          · rw [consumed_next low (Or.inl PState.noConfusion)]
            exact window.symm
          · intro m held
            rw [show c.msgBuf = some m from held] at msgBuf
            cases msgBuf
          · rw [length_append, length_singleton]
            omega
        · omega
  | some m =>
    obtain ⟨len, cap⟩ := split m msgBuf
    have owned := shape.memory.msgBuf
    rw [msgBuf] at owned
    obtain ⟨valid, other⟩ := owned m rfl
    have bound := valid.2
    have text := follows.split m msgBuf
    have length : got.length = m.len := by rw [← text, read_length valid]
    have away := follows.header.away msgBuf
    rw [consumed_split msgBuf] at scans
    have exist : readBuf < c.mem.arrays.length := by
      have := shape.memory.arrays
      unfold readBuf
      omega
    by_cases full : c.pa.size = m.len
    · rw [rest] at scans
      obtain ⟨a, emitted, out, stepped, rfl, scansRest⟩ := scans.cons_inv
      change scanPayload pa got b = _ at stepped
      rw [scanPayload, if_neg (by omega), if_pos (by omega)] at stepped
      split_ifs at stepped with isCr
      cases stepped
      rw [payloadStep_full msgBuf valid full]
      have kept := Kept.append cfg.grow [b] valid other
      have values := follows.header.values_append [b] cfg.grow msgBuf valid
      have moved := moved_append c.mem cfg.grow m [b]
      have text' : (c.mem.append cfg.grow 0 m [b]).1.read (c.mem.append cfg.grow 0 m [b]).2 =
          got ++ [b] := by rw [read_append valid, text]
      generalize c.mem.append cfg.grow 0 m [b] = held at kept values moved text' ⊢
      refine follows_next shape.memory low inside (kept.buf exist) (consumed_next low (Or.inl (by rintro ⟨⟩)))
        scansRest ⟨sid, follows.grown msgBuf shape.memory.argBuf kept moved values text'
          (Or.inr ⟨rfl, Or.inl ?_⟩)⟩
      rw [length_append, length_singleton]
      omega
    · obtain ⟨n, count, fits, copied, index⟩ := payload_chunk low inside short len cap
      have kept : Kept c.mem (c.mem.write m.arr (m.off + m.len) ((c.buf.drop i.toNat).take n)) :=
        Kept.write (by omega) other
      have values : c.pa.values (c.mem.write m.arr (m.off + m.len) ((c.buf.drop i.toNat).take n)) =
          c.pa.values c.mem := by
        refine values_congr fun s mem => read_write_frame (by omega) fun same => ?_
        have := away s mem same
        omega
      have skipped := scans_payload n (by omega) scans
      rw [drop_drop] at skipped
      rw [payloadStep_copy msgBuf low inside short sizes.2 (by omega) count fits]
      refine follows_silent (c := c) index (kept.buf exist) ?_ skipped ⟨sid, ?_⟩
      · refine (consumed_split rfl).trans ?_
        omega
      · refine follows.grown msgBuf shape.memory.argBuf kept (Or.inl ⟨rfl, rfl⟩) values ?_ ?_
        · rw [read_write_extend valid fits copied, text]
        · rw [length_append, copied]
          by_cases complete : c.pa.size = m.len + n
          · exact Or.inr ⟨if_pos complete, Or.inr (by omega)⟩
          · exact Or.inl ⟨(if_neg complete).trans state, by omega⟩

theorem end_follows {pa : PubValues} {got : Bytes} (shape : Shape c i)
    (inside : i < c.buf.length) (follows : Server.Follows cfg c i (.payload pa got))
    (state : c.state = .msgEnd) (byte : c.byteAt i = some b)
    (scans : Scans (scanStep cfg) (.payload pa got) (c.buf.drop (consumed c i)) calls last) :
    (endStep cfg i b c).Follows cfg last calls := by
  obtain ⟨sid, follows⟩ := follows
  obtain ⟨low, rest⟩ := drop_byteAt byte
  obtain ⟨-, sizes, unsplit⟩ := shape.placed.inEnd state
  have short := shape.memory.short
  have size : pa.size = c.pa.size := by rw [← follows.values]; rfl
  have small := follows.small
  have total : wrap64 (c.pa.size + lenCrLf) = c.pa.size + lenCrLf := by
    unfold maxAlloc at small
    unfold lenCrLf
    exact wrap64_of_bounds (by omega) (by omega)
  have position : consumed c i = i.toNat := consumed_other (Or.inl (by rw [state]; nofun))
  rw [position, rest] at scans
  obtain ⟨a, emitted, out, stepped, rfl, scansRest⟩ := scans.cons_inv
  change scanPayload pa got b = _ at stepped
  unfold endStep
  cases msgBuf : c.msgBuf with
  | none =>
    have length : (got.length : Int) = pa.size + 1 := by
      rcases follows.ended state with whole | ⟨-, held⟩
      · exact whole
      · exact (held msgBuf).elim
    obtain ⟨first, -, before⟩ := unsplit msgBuf
    rw [scanPayload, if_neg (by omega), if_neg (by omega)] at stepped
    split_ifs at stepped with isLf
    cases stepped
    have succ := wrap64_succ shape.memory low inside
    obtain ⟨msg, taken⟩ : ∃ msg, c.bufSlice c.as (i + 1) = some msg :=
      bufSlice_some first before (by omega)
    have valid := valid_bufSlice shape.memory taken
    have window : c.mem.read msg = got ++ [b] := by
      have text := follows.unsplit msgBuf
      rw [position] at text
      have order : c.as.toNat ≤ i.toNat := by
        have : got.length = i.toNat - c.as.toNat := by
          rw [text, slice, length_drop, length_take]
          omega
        omega
      rw [read_bufSlice taken, text, ← slice_succ order rest, slice, drop_take]
      congr 1
      omega
    have len : (msg.len : Int) = c.pa.size + lenCrLf := by
      rw [← read_length valid, window, length_append, length_singleton]
      unfold lenCrLf
      omega
    rw [if_pos isLf]
    dsimp only
    rw [succ, taken]
    dsimp only [Option.map_some]
    rw [if_neg (by rw [total, len]; exact fun differ => differ rfl), window, follows.values]
    exact follows_next shape.memory low inside rfl (consumed_next low (Or.inl PState.noConfusion))
      scansRest ⟨sid, rfl, rfl⟩
  | some m =>
    have owned := shape.memory.msgBuf
    rw [msgBuf] at owned
    obtain ⟨valid, other⟩ := owned m rfl
    have exist : readBuf < c.mem.arrays.length := by
      have := shape.memory.arrays
      unfold readBuf
      omega
    have kept := Kept.append cfg.grow [b] valid other
    have values := follows.header.values_append [b] cfg.grow msgBuf valid
    have moved := moved_append c.mem cfg.grow m [b]
    have text : (c.mem.append cfg.grow 0 m [b]).1.read (c.mem.append cfg.grow 0 m [b]).2 =
        got ++ [b] := by rw [read_append valid, follows.split m msgBuf]
    have len : (c.mem.append cfg.grow 0 m [b]).2.len = got.length + 1 := by
      rw [append_len valid, ← follows.split m msgBuf, read_length valid,
        length_singleton]
    dsimp only
    generalize c.mem.append cfg.grow 0 m [b] = held at kept values moved text len ⊢
    rcases follows.ended state with whole | ⟨part, -⟩
    · rw [scanPayload, if_neg (by omega), if_neg (by omega)] at stepped
      split_ifs at stepped with isLf
      cases stepped
      rw [if_pos isLf, if_neg (by rw [total, len]; unfold lenCrLf; omega), text, values,
        follows.values]
      exact follows_next shape.memory low inside (kept.buf exist)
        (consumed_next low (Or.inl PState.noConfusion)) scansRest ⟨sid, rfl, rfl⟩
    · rw [scanPayload, if_neg (by omega), if_pos part] at stepped
      split_ifs at stepped with isCr
      cases stepped
      rw [if_neg (by rw [isCr]; decide)]
      have notPayload : c.state ≠ .msgPayload := by
        rw [state]
        exact PState.noConfusion
      refine follows_next shape.memory low inside (kept.buf exist)
        (consumed_next low (Or.inl notPayload)) scansRest
        ⟨sid, follows.grown msgBuf shape.memory.argBuf kept moved values text
          (Or.inr ⟨state, Or.inl ?_⟩)⟩
      rw [length_append, length_singleton]
      omega

end Rounds

end Hnatsd.Server
