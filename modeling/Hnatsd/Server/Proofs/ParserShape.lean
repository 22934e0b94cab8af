import Hnatsd.Server.Proofs.ParserArgs

/-!
# Indices and slices of the parser

What ties the parser's state, its index, `as`, `drop`, `argBuf` and `msgBuf` together at the head
of the loop, and that each iteration keeps it. The jump over a payload is the one place where an
index can leave the 64-bit range.
-/

namespace Hnatsd.Server
open Misc

variable {h h' : Heap UInt8} {calls calls' : List Call} {c' : ParseState} {pa : PubArg}
  {arg m s : Slice}

/-- States outside arguments and messages. -/
def PState.isWord (s : PState) : Bool := !s.isArg && s != .msgPayload && s != .msgEnd

theorem PState.isArg_cases {s : PState} (arg : s.isArg) :
    s = .subArg ∨ s = .unsubArg ∨ s = .infoArg ∨ s = .minusErrArg ∨ s = .connectArg ∨
      s = .pubArg ∨ s = .msgArg := by
  cases s <;> simp [PState.isArg] at arg ⊢

theorem parseStep_word {cfg : ParserConfig} {authSet refused : Bool} {i : Int} {b : UInt8}
    {c : ParseState} (word : c.state.isWord) :
    parseStep cfg authSet refused i b c = (wordStep cfg.typ authSet c.state b).apply i c := by
  unfold parseStep
  split
  · rename_i state
    rw [state] at word
    exact absurd word (by decide)
  · rename_i state
    rw [state] at word
    exact absurd word (by decide)
  · simp only [PState.isWord, Bool.and_eq_true, Bool.not_eq_true'] at word
    rw [word.1.1]
    rfl

theorem parseStep_arg {cfg : ParserConfig} {authSet refused : Bool} {i : Int} {b : UInt8}
    {c : ParseState} (arg : c.state.isArg) :
    parseStep cfg authSet refused i b c = argStep cfg refused i b c := by
  unfold parseStep
  split
  · rename_i state
    rw [state] at arg
    exact absurd arg (by decide)
  · rename_i state
    rw [state] at arg
    exact absurd arg (by decide)
  · rw [if_pos arg]

/-- Words lead to words or to arguments. -/
def WordStep.Leads : WordStep → Prop
  | .goto s => s.isWord
  | .begin s => s.isArg
  | _ => True

theorem keyword_isWord : ∀ s, ∀ p ∈ keyword s, p.2.isWord := by
  intro s
  cases s <;> decide

theorem argumentOf_isArg : ∀ s, ∀ s' ∈ argumentOf s, s'.isArg := by
  intro s
  cases s <;> decide

theorem startStep_leads (typ : ClientKind) (authSet : Bool) (b : UInt8) :
    (startStep typ authSet b).Leads := by
  unfold startStep
  split_ifs <;> trivial

theorem wordStep_leads (typ : ClientKind) (authSet : Bool) {s : PState} (b : UInt8)
    (word : s.isWord) : (wordStep typ authSet s b).Leads := by
  unfold wordStep
  dsimp only
  split
  · exact startStep_leads typ authSet b
  · split_ifs
    · trivial
    · exact word
  · split_ifs
    · trivial
    · exact word
  · split_ifs
    · trivial
    · exact word
  · split
    · rename_i arg isArgument
      split_ifs
      · exact word
      · exact argumentOf_isArg _ arg isArgument
    · split
      · rename_i found
        exact keyword_isWord _ _ (List.mem_of_find?_eq_some found)
      · trivial

/-- The arrays of `h` are still there, with their lengths, and the read buffer is as it was. -/
structure Kept (h h' : Heap UInt8) : Prop where
  arrays : h.arrays.length ≤ h'.arrays.length
  length : ∀ a < h.arrays.length, (h'.array a).length = (h.array a).length
  buf : readBuf < h.arrays.length → h'.array readBuf = h.array readBuf

namespace Kept

theorem refl (h : Heap UInt8) : Kept h h := ⟨Nat.le_refl _, fun _ _ => rfl, fun _ => rfl⟩

theorem trans {h'' : Heap UInt8} (first : Kept h h') (second : Kept h' h'') : Kept h h'' where
  arrays := Nat.le_trans first.arrays second.arrays
  length a old := by rw [second.length a (Nat.lt_of_lt_of_le old first.arrays), first.length a old]
  buf old := by rw [second.buf (Nat.lt_of_lt_of_le old first.arrays), first.buf old]

theorem append (g : Grow) (xs : Bytes) (valid : h.Valid s)
    (other : s.arr ≠ readBuf) : Kept h (h.append g 0 s xs).1 where
  arrays := Heap.arrays_length_le_append ..
  length _ old := Heap.array_length_append valid old
  buf old := Heap.array_append_ne old (Ne.symm other)

theorem write {a i : Nat} {xs : Bytes} (fits : i + xs.length ≤ (h.array a).length)
    (other : a ≠ readBuf) : Kept h (h.write a i xs) where
  arrays := by rw [Heap.write_arrays_length]
  length b _ := Heap.array_length_write fits b
  buf _ := Heap.array_write_ne (Ne.symm other)

theorem make (h : Heap UInt8) (xs : Bytes) (n : Nat) : Kept h (h.make 0 xs n).1 where
  arrays := by simp [Heap.make]
  length _ old := by rw [Heap.array_make_old old]
  buf old := Heap.array_make_old old

theorem valid (kept : Kept h h') (valid : h.Valid s) :
    h'.Valid s := by
  refine ⟨Nat.lt_of_lt_of_le valid.1 kept.arrays, ?_⟩
  rw [kept.length _ valid.1]
  exact valid.2

end Kept

/-- A slice that may be nil lies in an array other than the read buffer. -/
def Owned (h : Heap UInt8) (s : Option Slice) : Prop :=
  ∀ t, s = some t → h.Valid t ∧ t.arr ≠ readBuf

theorem Owned.none (h : Heap UInt8) : Owned h none := by
  intro t absent
  cases absent

theorem Owned.some {t : Slice} (valid : h.Valid t) (other : t.arr ≠ readBuf) :
    Owned h (some t) := by
  rintro _ ⟨⟩
  exact ⟨valid, other⟩

theorem Owned.kept {s : Option Slice} (owned : Owned h s) (kept : Kept h h') :
    Owned h' s := fun t held => ⟨kept.valid (owned t held).1, (owned t held).2⟩

theorem Owned.append {t : Slice} (g : Grow) (xs : Bytes) (owned : Owned h (Option.some t))
    (exist : readBuf < h.arrays.length) :
    Owned (h.append g 0 t xs).1 (Option.some (h.append g 0 t xs).2) := by
  obtain ⟨valid, other⟩ := owned t rfl
  refine Owned.some (Heap.valid_append_self valid) ?_
  rcases Heap.append_arr h g 0 t xs with ⟨arr, -⟩ | ⟨arr, -⟩
  · rwa [arr]
  · omega

/-- The memory of the parser: the two fixed arrays, and where `argBuf` and `msgBuf` are. -/
structure Memory (c : ParseState) : Prop where
  arrays : 2 ≤ c.mem.arrays.length
  scratch : (c.mem.array scratch).length = maxControlLineSize
  short : c.buf.length < 2 ^ 63
  argBuf : Owned c.mem c.argBuf
  msgBuf : Owned c.mem c.msgBuf

/-- Where the parser is, by the kind of its state. -/
inductive Placed (c : ParseState) (i : Int) : Prop where
  | word (state : c.state.isWord) (argBuf : c.argBuf = none) (msgBuf : c.msgBuf = none)
      (drop : c.drop = 0) (inside : i ≤ c.buf.length)
  | arg (state : c.state.isArg) (msgBuf : c.msgBuf = none) (drop : c.drop = 0 ∨ c.drop = 1)
      (started : c.argBuf = none → 0 ≤ c.as ∧ c.as + c.drop < i) (inside : i ≤ c.buf.length)
  | payload (state : c.state = .msgPayload) (drop : c.drop = 0)
      (size : 0 ≤ c.pa.size ∧ c.pa.size < 2 ^ 63)
      (unsplit : c.msgBuf = none →
        0 ≤ c.as ∧ c.as ≤ c.buf.length ∧ c.as ≤ i + 1 ∧ i ≤ c.as + c.pa.size)
      (split : ∀ m, c.msgBuf = some m →
        m.len ≤ c.pa.size ∧ c.pa.size ≤ m.cap ∧ i ≤ c.buf.length)
  | finish (state : c.state = .msgEnd) (drop : c.drop = 0)
      (size : 0 ≤ c.pa.size ∧ c.pa.size < 2 ^ 63)
      (unsplit : c.msgBuf = none → 0 ≤ c.as ∧ c.as ≤ c.buf.length ∧ c.as ≤ i + 1)
      (inside : i ≤ c.buf.length)

/-- What holds at the head of the loop. -/
structure Shape (c : ParseState) (i : Int) : Prop where
  memory : Memory c
  index : 0 ≤ i ∧ i < 2 ^ 63
  placed : Placed c i

/-- An iteration neither accesses anything out of range nor leaves the shape, and moves on: the
index grows, or the byte is looked at once more as the first of a payload. -/
def Step.Fine (c : ParseState) (i : Int) : Step → Prop
  | .panic => False
  | .fail _ => True
  | .next i' c' _ =>
      Shape c' (wrap64 (i' + 1)) ∧ c'.buf = c.buf ∧
        (i < wrap64 (i' + 1) ∨
          (i = wrap64 (i' + 1) ∧ c'.state = .msgPayload ∧ c.state ≠ .msgPayload))

theorem Memory.update {c c' : ParseState} (memory : Memory c) (kept : Kept c.mem c'.mem)
    (argBuf : Owned c'.mem c'.argBuf) (msgBuf : Owned c'.mem c'.msgBuf) :
    Memory c' ∧ c'.buf = c.buf := by
  have arrays := memory.arrays
  have buf : c'.buf = c.buf := kept.buf (by unfold readBuf; omega)
  refine ⟨⟨Nat.le_trans arrays kept.arrays, ?_, ?_, argBuf, msgBuf⟩, buf⟩
  · rw [kept.length _ (by unfold Server.scratch; omega), memory.scratch]
  · rw [buf]
    exact memory.short

/-- Only the registers change. -/
theorem Memory.registers {c : ParseState} (memory : Memory c) (mem : c'.mem = c.mem)
    (argBuf : c'.argBuf = none ∨ c'.argBuf = c.argBuf)
    (msgBuf : c'.msgBuf = none ∨ c'.msgBuf = c.msgBuf) : Memory c' ∧ c'.buf = c.buf := by
  refine memory.update (by rw [mem]; exact Kept.refl _) ?_ ?_
  · rcases argBuf with argBuf | argBuf <;> rw [argBuf, mem]
    · exact Owned.none _
    · exact memory.argBuf
  · rcases msgBuf with msgBuf | msgBuf <;> rw [msgBuf, mem]
    · exact Owned.none _
    · exact memory.msgBuf

theorem wrap64_succ {c : ParseState} {i : Int} (memory : Memory c) (low : 0 ≤ i)
    (high : i < c.buf.length) : wrap64 (i + 1) = i + 1 := by
  have := memory.short
  exact wrap64_of_bounds (by omega) (by omega)

section Steps

variable {cfg : ParserConfig} {authSet refused : Bool} {i : Int} {b : UInt8} {c : ParseState}

/-- An iteration that moves to the next byte. -/
theorem fine_next {call : Option Call} (shape : Shape c i)
    (inside : i < c.buf.length) (memory : Memory c' ∧ c'.buf = c.buf)
    (placed : c'.buf = c.buf → Placed c' (i + 1)) : (Step.next i c' call).Fine c i := by
  have low := shape.index.1
  have short := shape.memory.short
  have succ := wrap64_succ shape.memory low inside
  refine ⟨⟨memory.1, ?_, ?_⟩, memory.2, ?_⟩
  · omega
  · rw [succ]
    exact placed memory.2
  · omega

theorem word_fine (shape : Shape c i) (inside : i < c.buf.length) (word : c.state.isWord) :
    (parseStep cfg authSet refused i b c).Fine c i := by
  have leads := wordStep_leads cfg.typ authSet b word
  obtain ⟨argBuf, msgBuf, drop⟩ : c.argBuf = none ∧ c.msgBuf = none ∧ c.drop = 0 := by
    rcases shape.placed with ⟨_, argBuf, msgBuf, drop, _⟩ | ⟨state⟩ | ⟨state⟩ | ⟨state⟩
    · exact ⟨argBuf, msgBuf, drop⟩
    · simp [PState.isWord, state] at word
    · simp [PState.isWord, state] at word
    · simp [PState.isWord, state] at word
  have low := shape.index.1
  rw [parseStep_word word]
  cases moved : wordStep cfg.typ authSet c.state b with
  | fail e => trivial
  | goto s =>
    rw [moved] at leads
    exact fine_next shape inside (shape.memory.registers rfl (Or.inr rfl) (Or.inr rfl))
      fun _ => .word leads argBuf msgBuf drop inside
  | line call =>
    exact fine_next shape inside (shape.memory.registers rfl (Or.inr rfl) (Or.inr rfl))
      fun _ => .word rfl argBuf msgBuf rfl inside
  | begin s =>
    rw [moved] at leads
    refine fine_next shape inside (shape.memory.registers rfl (Or.inr rfl) (Or.inr rfl))
      fun _ => .arg leads msgBuf (Or.inl drop) (fun _ => ?_) inside
    simp only [drop]
    omega

/-- The fields of `Placed` inside an argument. -/
theorem Placed.inArg (placed : Placed c i) (state : c.state.isArg) :
    c.msgBuf = none ∧ (c.drop = 0 ∨ c.drop = 1) ∧
      (c.argBuf = none → 0 ≤ c.as ∧ c.as + c.drop < i) := by
  rcases placed with ⟨word⟩ | ⟨_, msgBuf, drop, started, _⟩ | ⟨payload⟩ | ⟨finish⟩
  · simp [PState.isWord, state] at word
  · exact ⟨msgBuf, drop, started⟩
  · simp [PState.isArg, payload] at state
  · simp [PState.isArg, finish] at state

theorem valid_bufSlice {lo hi : Int} (memory : Memory c)
    (taken : c.bufSlice lo hi = some s) : c.mem.Valid s := by
  unfold ParseState.bufSlice at taken
  split at taken
  · rename_i bounds
    obtain ⟨low, order, high⟩ := bounds
    cases taken
    have := memory.arrays
    rw [ParseState.buf] at high
    constructor
    · dsimp only [readBuf]
      omega
    · dsimp only
      omega
  · cases taken

theorem bufSlice_some {lo hi : Int} (low : 0 ≤ lo) (order : lo ≤ hi) (high : hi ≤ c.buf.length) :
    ∃ s, c.bufSlice lo hi = some s := by
  unfold ParseState.bufSlice
  rw [if_pos ⟨low, order, high⟩]
  exact ⟨_, rfl⟩

/-- Inside an argument the argument can be taken. -/
theorem argAt_some (shape : Shape c i) (inside : i < c.buf.length) (state : c.state.isArg) :
    ∃ arg, argAt i c = some arg := by
  obtain ⟨-, drop, started⟩ := shape.placed.inArg state
  have low := shape.index.1
  have short := shape.memory.short
  unfold argAt
  cases argBuf : c.argBuf with
  | some arg => exact ⟨arg, rfl⟩
  | none =>
    obtain ⟨first, last⟩ := started argBuf
    have index : wrap64 (i - c.drop) = i - c.drop := wrap64_of_bounds (by omega) (by omega)
    dsimp only
    rw [index]
    exact bufSlice_some first (by omega) (by omega)

theorem valid_argAt (memory : Memory c) (taken : argAt i c = some arg) :
    c.mem.Valid arg := by
  unfold argAt at taken
  cases argBuf : c.argBuf with
  | some held =>
    rw [argBuf] at taken
    cases taken
    exact (memory.argBuf _ argBuf).1
  | none =>
    rw [argBuf] at taken
    exact valid_bufSlice memory taken

/-- The size an accepted header states. -/
def statedSize (cfg : ParserConfig) (c : ParseState) (arg : Slice) : Option Int :=
  let toks := splitArg (c.mem.read arg)
  match c.state with
  | .pubArg => (pubHeader cfg none toks).toOption.map PubValues.size
  | .msgArg => (msgHeader toks).toOption.map PubValues.size
  | _ => none

/-- Where the loop continues after the header of a message of `n` bytes that ends at `i`: on the
byte before the last of a published payload, on the last of a routed one. -/
def jump (s : PState) (i n : Int) : Int := if s = .pubArg then i + n else i + 1 + n

/-- If a header ends at this byte, the jump it leads to stays in the 64-bit range. -/
def HeaderFits (cfg : ParserConfig) (i : Int) (b : UInt8) (c : ParseState) : Prop :=
  b = lf → ∀ arg n, argAt i c = some arg → statedSize cfg c arg = some n →
    jump c.state i n < 2 ^ 63

theorem statedSize_bounds {n : Int} (stated : statedSize cfg c arg = some n) :
    0 ≤ n ∧ n < 2 ^ 63 := by
  unfold statedSize at stated
  dsimp only at stated
  split at stated
  · cases header : pubHeader cfg none (splitArg (c.mem.read arg)) with
    | error e => simp [header, Except.toOption] at stated
    | ok pa =>
      rw [header] at stated
      cases stated
      exact pubHeader_size header
  · cases header : msgHeader (splitArg (c.mem.read arg)) with
    | error e => simp [header, Except.toOption] at stated
    | ok pa =>
      rw [header] at stated
      cases stated
      exact msgHeader_size header
  · cases stated

theorem statedSize_pub (state : c.state = .pubArg)
    (valid : c.mem.Valid arg) (ok : processPub cfg c.mem c.pa arg = .ok pa) :
    statedSize cfg c arg = some pa.size := by
  have values := processPub_values cfg c.pa valid
  have sid := pubHeader_sid cfg (c.pa.sid.map c.mem.read) (splitArg (c.mem.read arg))
  unfold statedSize
  rw [ok] at values
  simp only [state]
  rw [← sid, ← values]
  rfl

theorem statedSize_msg (cfg : ParserConfig) (state : c.state = .msgArg)
    (valid : c.mem.Valid arg) (ok : processMsgArgs c.mem arg = .ok pa) :
    statedSize cfg c arg = some pa.size := by
  have values := processMsgArgs_values valid
  unfold statedSize
  rw [ok] at values
  simp only [state]
  rw [← values]
  rfl

theorem statedSize_cases {n : Int} (valid : c.mem.Valid arg)
    (stated : statedSize cfg c arg = some n) :
    (c.state = .pubArg ∧ ∃ pa, processPub cfg c.mem c.pa arg = .ok pa ∧ pa.size = n) ∨
      (c.state = .msgArg ∧ ∃ pa, processMsgArgs c.mem arg = .ok pa ∧ pa.size = n) := by
  have pubValues := processPub_values cfg c.pa valid
  have msgValues := processMsgArgs_values valid
  unfold statedSize at stated
  dsimp only at stated
  split at stated
  · rename_i state
    rw [← pubHeader_sid cfg (c.pa.sid.map c.mem.read), ← pubValues] at stated
    cases ok : processPub cfg c.mem c.pa arg with
    | error e => simp [ok, Except.map, Except.toOption] at stated
    | ok pa =>
      rw [ok] at stated
      cases stated
      exact Or.inl ⟨state, pa, rfl, rfl⟩
  · rename_i state
    rw [← msgValues] at stated
    cases ok : processMsgArgs c.mem arg with
    | error e => simp [ok, Except.map, Except.toOption] at stated
    | ok pa =>
      rw [ok] at stated
      cases stated
      exact Or.inr ⟨state, pa, rfl, rfl⟩
  · cases stated

/-- The payload state after a header that ends at `i`. -/
theorem payload_fine {j : Int} (shape : Shape c i) (inside : i < c.buf.length)
    (state : c.state.isArg) (size : 0 ≤ pa.size ∧ pa.size < 2 ^ 63)
    (next : wrap64 (j + 1) = jump c.state i pa.size) (fits : jump c.state i pa.size < 2 ^ 63) :
    (Step.next j { c with pa := pa, drop := 0, as := wrap64 (i + 1), state := .msgPayload }
      none).Fine c i := by
  obtain ⟨msgBuf, -, -⟩ := shape.placed.inArg state
  have low := shape.index.1
  have succ := wrap64_succ shape.memory low inside
  have order : i + pa.size ≤ jump c.state i pa.size ∧ jump c.state i pa.size ≤ i + 1 + pa.size := by
    unfold jump
    split <;> omega
  have memory : Memory { c with pa := pa, drop := 0, as := wrap64 (i + 1), state := .msgPayload } ∧
      _ := shape.memory.registers rfl (Or.inr rfl) (Or.inr rfl)
  refine ⟨⟨memory.1, by rw [next]; omega, ?_⟩, memory.2, ?_⟩
  · refine .payload rfl rfl size (fun _ => ?_) fun m held => ?_
    · rw [memory.2, next, succ]
      refine ⟨?_, ?_, ?_, ?_⟩ <;> simp only <;> omega
    · rw [msgBuf] at held
      cases held
  · rw [next]
    have other : c.state ≠ .msgPayload := by
      intro eq
      rw [eq] at state
      exact absurd state (by decide)
    by_cases same : i = jump c.state i pa.size
    · exact Or.inr ⟨same, rfl, other⟩
    · exact Or.inl (by omega)

theorem argDone_fine (shape : Shape c i) (inside : i < c.buf.length)
    (state : c.state.isArg) (taken : argAt i c = some arg)
    (fits : ∀ n, statedSize cfg c arg = some n → jump c.state i n < 2 ^ 63) :
    (argDone cfg refused i c arg).Fine c i := by
  obtain ⟨msgBuf, -, -⟩ := shape.placed.inArg state
  have low := shape.index.1
  have short := shape.memory.short
  have valid := valid_argAt shape.memory taken
  have done {as : Int} {call : Option Call} : (Step.next i
      { c with argBuf := none, drop := 0, as := as, state := .opStart } call).Fine c i :=
    fine_next shape inside (shape.memory.registers rfl (Or.inl rfl) (Or.inr rfl))
      fun _ => .word rfl rfl msgBuf rfl inside
  have succ := wrap64_succ shape.memory low inside
  unfold argDone
  dsimp only
  split
  · split_ifs
    · exact done
    · trivial
  · split_ifs
    · exact done
    · trivial
  · split_ifs
    · trivial
    · exact done
  · exact done
  · split_ifs
    · trivial
    · exact done
  · rename_i isPub
    split
    · trivial
    · rename_i pa ok
      have stated := statedSize_pub isPub valid ok
      have size := statedSize_bounds stated
      have fits := fits _ stated
      refine payload_fine shape inside state size ?_ fits
      rw [msgBuf, succ, jump, if_pos isPub] at *
      simp only [Option.isNone_none, if_true, lenCrLf]
      rw [wrap64_sub_left, wrap64_add_left, wrap64_of_bounds] <;> omega
  · rename_i isMsg
    split
    · trivial
    · rename_i pa ok
      have stated := statedSize_msg cfg isMsg valid ok
      have size := statedSize_bounds stated
      have fits := fits _ stated
      refine payload_fine shape inside state size ?_ fits
      have other : c.state ≠ .pubArg := by simp [isMsg]
      rw [succ, jump, if_neg other] at *
      rw [wrap64_sub_left, wrap64_add_left, wrap64_of_bounds] <;> omega
  · rcases PState.isArg_cases state with h | h | h | h | h | h | h <;> contradiction

theorem arg_fine (shape : Shape c i) (inside : i < c.buf.length) (state : c.state.isArg)
    (fits : HeaderFits cfg i b c) : (parseStep cfg authSet refused i b c).Fine c i := by
  obtain ⟨msgBuf, drop, started⟩ := shape.placed.inArg state
  have low := shape.index.1
  rw [parseStep_arg state]
  unfold argStep
  split_ifs with isCr isLf
  · refine fine_next shape inside (shape.memory.registers rfl (Or.inr rfl) (Or.inr rfl))
      fun _ => .arg state msgBuf (Or.inr rfl) (fun argBuf => ?_) inside
    have := started argBuf
    simp only
    omega
  · obtain ⟨arg, taken⟩ := argAt_some shape inside state
    rw [taken]
    exact argDone_fine shape inside state taken (fun n => fits isLf arg n taken)
  · split
    · rename_i arg held
      have owned := shape.memory.argBuf
      rw [held] at owned
      have arrays := shape.memory.arrays
      have exist : readBuf < c.mem.arrays.length := by unfold readBuf; omega
      have kept := Kept.append cfg.grow [b] (owned arg rfl).1 (owned arg rfl).2
      refine fine_next shape inside
        (shape.memory.update kept (owned.append cfg.grow [b] exist) (shape.memory.msgBuf.kept kept))
        fun buf => .arg state msgBuf drop (fun absent => ?_) (by rw [buf]; exact inside)
      cases absent
    · refine fine_next shape inside (shape.memory.registers rfl (Or.inr rfl) (Or.inr rfl))
        fun _ => .arg state msgBuf drop (fun argBuf => ?_) inside
      have := started argBuf
      omega

/-- With the whole message in the read buffer, only its end is looked for. -/
theorem payloadStep_unsplit (msgBuf : c.msgBuf = none) :
    payloadStep cfg i b c =
      .next i (if c.pa.size ≤ wrap64 (i - c.as) then { c with state := .msgEnd } else c) none := by
  unfold payloadStep
  split
  · rename_i held
    rw [msgBuf] at held
    cases held
  · rfl

/-- With a message that is complete but for the end of its line, the byte is added to it. -/
theorem payloadStep_full (held : c.msgBuf = some m) (valid : c.mem.Valid m)
    (full : c.pa.size = m.len) :
    payloadStep cfg i b c = .next i
      { c with
          state := .msgEnd
          msgBuf := some (c.mem.append cfg.grow 0 m [b]).2
          mem := (c.mem.append cfg.grow 0 m [b]).1 } none := by
  have left : wrap64 (c.pa.size - m.len) = 0 := by rw [full, Int.sub_self]; rfl
  have none : ¬ 0 < min (wrap64 (c.pa.size - m.len)) (wrap64 (c.buf.length - i)) := by
    rw [left]
    omega
  have complete : c.pa.size ≤ (c.mem.append cfg.grow 0 m [b]).2.len := by
    rw [Heap.append_len valid, full]
    omega
  unfold payloadStep
  rw [held]
  dsimp only
  rw [if_neg none, if_pos complete]

/-- With an incomplete message, as much as is there and is missing is copied. -/
theorem payloadStep_copy {n : Nat} (held : c.msgBuf = some m) (low : 0 ≤ i)
    (inside : i < c.buf.length) (short : c.buf.length < 2 ^ 63) (size : c.pa.size < 2 ^ 63)
    (open' : m.len < c.pa.size)
    (count : n = min (c.pa.size - m.len) (c.buf.length - i)) (fits : m.len + n ≤ m.cap) :
    payloadStep cfg i b c = .next (i + n - 1)
      { c with
          state := if c.pa.size = m.len + n then .msgEnd else c.state
          msgBuf := some { m with len := m.len + n, len_le_cap := fits }
          mem := c.mem.write m.arr (m.off + m.len) ((c.buf.drop i.toNat).take n) } none := by
  have left : wrap64 (c.pa.size - m.len) = c.pa.size - m.len :=
    wrap64_of_bounds (by omega) (by omega)
  have rest : wrap64 (c.buf.length - i) = c.buf.length - i :=
    wrap64_of_bounds (by omega) (by omega)
  have some' : 0 < (n : Int) := by omega
  have index : wrap64 (i + n - 1) = i + n - 1 := wrap64_of_bounds (by omega) (by omega)
  unfold payloadStep
  rw [held]
  dsimp only
  rw [left, rest, ← count, if_pos some']
  simp only [Int.toNat_natCast]
  rw [dif_pos fits, index]
  by_cases complete : c.pa.size = m.len + n
  · have reached : c.pa.size ≤ (m.len + n : Nat) := by omega
    rw [if_pos reached, if_pos complete]
  · have missing : ¬ c.pa.size ≤ (m.len + n : Nat) := by omega
    rw [if_neg missing, if_neg complete]

/-- The fields of `Placed` inside a payload. -/
theorem Placed.inPayload (placed : Placed c i) (state : c.state = .msgPayload) :
    c.drop = 0 ∧ (0 ≤ c.pa.size ∧ c.pa.size < 2 ^ 63) ∧
      (c.msgBuf = none →
        0 ≤ c.as ∧ c.as ≤ c.buf.length ∧ c.as ≤ i + 1 ∧ i ≤ c.as + c.pa.size) ∧
      (∀ m, c.msgBuf = some m → m.len ≤ c.pa.size ∧ c.pa.size ≤ m.cap) := by
  rcases placed with ⟨word⟩ | ⟨arg⟩ | ⟨_, drop, size, unsplit, held⟩ | ⟨finish⟩
  · rw [state] at word
    exact absurd word (by decide)
  · rw [state] at arg
    exact absurd arg (by decide)
  · exact ⟨drop, size, unsplit, fun m eq => ⟨(held m eq).1, (held m eq).2.1⟩⟩
  · rw [state] at finish
    cases finish

/-- The fields of `Placed` behind a payload. -/
theorem Placed.inEnd (placed : Placed c i) (state : c.state = .msgEnd) :
    c.drop = 0 ∧ (0 ≤ c.pa.size ∧ c.pa.size < 2 ^ 63) ∧
      (c.msgBuf = none → 0 ≤ c.as ∧ c.as ≤ c.buf.length ∧ c.as ≤ i + 1) := by
  rcases placed with ⟨word⟩ | ⟨arg⟩ | ⟨payload⟩ | ⟨_, drop, size, unsplit, _⟩
  · rw [state] at word
    exact absurd word (by decide)
  · rw [state] at arg
    exact absurd arg (by decide)
  · rw [state] at payload
    cases payload
  · exact ⟨drop, size, unsplit⟩

/-- How much of a split payload the rest of the buffer holds. -/
theorem payload_chunk (low : 0 ≤ i) (inside : i < c.buf.length)
    (short : c.buf.length < 2 ^ 63) (len : m.len ≤ c.pa.size) (cap : c.pa.size ≤ m.cap) :
    ∃ n : Nat, (n : Int) = min (c.pa.size - m.len) (c.buf.length - i) ∧ m.len + n ≤ m.cap ∧
      ((c.buf.drop i.toNat).take n).length = n ∧ wrap64 (i + n - 1 + 1) = i + n := by
  refine ⟨(min (c.pa.size - m.len) (c.buf.length - i)).toNat, by omega, by omega, ?_, ?_⟩
  · rw [List.length_take, List.length_drop]
    omega
  · rw [wrap64_of_bounds] <;> omega

theorem payloadStep_fine (shape : Shape c i) (inside : i < c.buf.length)
    (state : c.state = .msgPayload) : (payloadStep cfg i b c).Fine c i := by
  obtain ⟨drop, size, unsplit, held⟩ := shape.placed.inPayload state
  have low := shape.index.1
  have short := shape.memory.short
  cases msgBuf : c.msgBuf with
  | some m =>
    obtain ⟨len, cap⟩ := held m msgBuf
    have owned := shape.memory.msgBuf
    rw [msgBuf] at owned
    obtain ⟨valid, other⟩ := owned m rfl
    have bound := valid.2
    by_cases full : c.pa.size = m.len
    · have arrays := shape.memory.arrays
      have exist : readBuf < c.mem.arrays.length := by unfold readBuf; omega
      have kept := Kept.append cfg.grow [b] valid other
      rw [payloadStep_full msgBuf valid full]
      refine fine_next shape inside
        (shape.memory.update kept (shape.memory.argBuf.kept kept) (owned.append cfg.grow [b] exist))
        fun buf => .finish rfl drop size (fun absent => ?_) (by rw [buf]; exact inside)
      cases absent
    · obtain ⟨n, count, fits, copied, index⟩ := payload_chunk low inside short len cap
      have kept : Kept c.mem (c.mem.write m.arr (m.off + m.len) ((c.buf.drop i.toNat).take n)) :=
        Kept.write (by omega) other
      have moved := kept.valid valid
      rw [payloadStep_copy msgBuf low inside short size.2 (by omega) count fits]
      have memory := @Memory.update c
        { c with
            state := if c.pa.size = m.len + n then .msgEnd else c.state
            msgBuf := some { m with len := m.len + n, len_le_cap := fits }
            mem := c.mem.write m.arr (m.off + m.len) ((c.buf.drop i.toNat).take n) }
        shape.memory kept (shape.memory.argBuf.kept kept) (Owned.some ⟨moved.1, moved.2⟩ other)
      refine ⟨⟨memory.1, by rw [index]; omega, ?_⟩, memory.2, Or.inl (by omega)⟩
      rw [index]
      by_cases complete : c.pa.size = m.len + n
      · refine .finish (if_pos complete) drop size (fun absent => ?_) (by rw [memory.2]; omega)
        cases absent
      · refine .payload ((if_neg complete).trans state) drop size (fun absent => ?_) ?_
        · cases absent
        · rintro _ ⟨⟩
          rw [memory.2]
          dsimp only
          omega
  | none =>
    obtain ⟨first, last, before, jumped⟩ := unsplit msgBuf
    have behind : wrap64 (i - c.as) = i - c.as := wrap64_of_bounds (by omega) (by omega)
    rw [payloadStep_unsplit msgBuf, behind]
    refine fine_next shape inside ?_ fun _ => ?_
    · split_ifs
      · exact shape.memory.registers rfl (Or.inr rfl) (Or.inr rfl)
      · exact ⟨shape.memory, rfl⟩
    · split_ifs with complete
      · exact .finish rfl drop size (fun _ => ⟨first, last, by simp only; omega⟩) inside
      · refine .payload state drop size (fun _ => ⟨first, last, by omega, by omega⟩) ?_
        intro m some
        rw [msgBuf] at some
        cases some

theorem endStep_fine (shape : Shape c i) (inside : i < c.buf.length)
    (state : c.state = .msgEnd) : (endStep cfg i b c).Fine c i := by
  obtain ⟨drop, size, unsplit⟩ := shape.placed.inEnd state
  have low := shape.index.1
  have short := shape.memory.short
  have arrays := shape.memory.arrays
  have exist : readBuf < c.mem.arrays.length := by unfold readBuf; omega
  unfold endStep
  cases msgBuf : c.msgBuf with
  | some m =>
    have owned := shape.memory.msgBuf
    rw [msgBuf] at owned
    have kept := Kept.append cfg.grow [b] (owned m rfl).1 (owned m rfl).2
    split_ifs with isLf
    · dsimp only
      split_ifs
      · trivial
      · exact fine_next shape inside
          (shape.memory.update kept (Owned.none _) (Owned.none _))
          fun buf => .word rfl rfl rfl rfl (by rw [buf]; exact inside)
    · refine fine_next shape inside
        (shape.memory.update kept (shape.memory.argBuf.kept kept) (owned.append cfg.grow [b] exist))
        fun buf => .finish state drop size (fun absent => ?_) (by rw [buf]; exact inside)
      cases absent
  | none =>
    obtain ⟨first, last, before⟩ := unsplit msgBuf
    have succ := wrap64_succ shape.memory low inside
    split_ifs with isLf
    · obtain ⟨msg, taken⟩ : ∃ msg, c.bufSlice c.as (i + 1) = some msg :=
        bufSlice_some first before (by omega)
      dsimp only
      rw [succ, taken]
      dsimp only [Option.map_some]
      split_ifs
      · trivial
      · exact fine_next shape inside
          (shape.memory.registers rfl (Or.inl rfl) (Or.inl rfl))
          fun _ => .word rfl rfl rfl rfl inside
    · exact fine_next shape inside ⟨shape.memory, rfl⟩
        fun _ => .finish state drop size (fun _ => ⟨first, last, by omega⟩) inside

/-- One iteration: no access out of range, provided a header that ends here fits. -/
theorem parseStep_fine (shape : Shape c i) (inside : i < c.buf.length)
    (fits : HeaderFits cfg i b c) : (parseStep cfg authSet refused i b c).Fine c i := by
  rcases shape.placed with ⟨word⟩ | ⟨arg⟩ | ⟨payload⟩ | ⟨finish⟩
  · exact word_fine shape inside word
  · exact arg_fine shape inside arg fits
  · have step : (payloadStep cfg i b c).Fine c i := payloadStep_fine shape inside payload
    simpa only [parseStep, payload] using step
  · have step : (endStep cfg i b c).Fine c i := endStep_fine shape inside finish
    simpa only [parseStep, finish] using step

end Steps

theorem holdMsg_state {cfg : ParserConfig} {c : ParseState}
    (ok : holdMsg cfg c calls = .ok c' calls') : c'.state = c.state := by
  unfold holdMsg at ok
  dsimp only at ok
  split at ok
  · cases ok
  · split_ifs at ok <;> cases ok <;> rfl

theorem splitMsg_state {cfg : ParserConfig} {c : ParseState}
    (ok : splitMsg cfg c calls = .ok c' calls') : c'.state = c.state := by
  unfold splitMsg at ok
  split_ifs at ok
  · exact (holdMsg_state ok).trans rfl
  · exact holdMsg_state ok
  · cases ok
    rfl

/-- What is held between reads does not change the state. -/
theorem splitBuffer_state {cfg : ParserConfig} {i : Int} {c : ParseState} (ok : splitBuffer cfg i c calls = .ok c' calls') :
    c'.state = c.state := by
  unfold splitBuffer at ok
  split at ok
  · split at ok
    · split_ifs at ok
      exact splitMsg_state ok
    · split at ok
      · cases ok
      · dsimp only at ok
        split_ifs at ok
        exact (splitMsg_state ok).trans rfl
  · exact splitMsg_state ok

end Hnatsd.Server
