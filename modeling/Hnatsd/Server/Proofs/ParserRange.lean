import Hnatsd.Server.Proofs.ParserShape

/-!
# The parser stays in range

Whole calls of `parse` and sequences of them: the loop ends, what it leaves between two reads is
again of the right shape, and an access out of range comes from a header whose jump leaves the
64-bit range, and from nothing else.
-/

namespace Hnatsd.Server
open Misc

variable {buf : Bytes} {env : Env} {i : Int} {s : LoopState} {c : ParseState} {arg : Slice}

/-- The state between two reads. -/
def Between (c : ParseState) : Prop := ∀ buf : Bytes, buf.length < 2 ^ 63 → Shape (c.load buf) 0

theorem array_load {a : Nat} (other : a ≠ readBuf) :
    (c.load buf).mem.array a = c.mem.array a := by
  simp [ParseState.load, Heap.array, Ne.symm other]

theorem buf_load (arrays : 2 ≤ c.mem.arrays.length) :
    (c.load buf).buf = buf := by
  have exist : readBuf < c.mem.arrays.length := by unfold readBuf; omega
  simp [ParseState.buf, ParseState.load, Heap.array, exist]

theorem Owned.load {s : Option Slice} (buf : Bytes) (owned : Owned c.mem s) :
    Owned (c.load buf).mem s := by
  intro t held
  obtain ⟨valid, other⟩ := owned t held
  refine ⟨⟨?_, ?_⟩, other⟩
  · simpa [ParseState.load] using valid.1
  · rw [array_load other]
    exact valid.2

theorem Memory.load (memory : Memory c)
    (short : buf.length < 2 ^ 63) : Memory (c.load buf) where
  arrays := by simpa [ParseState.load] using memory.arrays
  scratch := by rw [array_load (by decide)]; exact memory.scratch
  short := by rw [buf_load memory.arrays]; exact short
  argBuf := memory.argBuf.load buf
  msgBuf := memory.msgBuf.load buf

theorem between_word (memory : Memory c) (word : c.state.isWord)
    (argBuf : c.argBuf = none) (msgBuf : c.msgBuf = none) (drop : c.drop = 0) : Between c :=
  fun _ short => ⟨memory.load short, by omega, .word word argBuf msgBuf drop (by omega)⟩

theorem between_arg (memory : Memory c) (state : c.state.isArg)
    (argBuf : c.argBuf = some arg) (msgBuf : c.msgBuf = none) (drop : c.drop = 0 ∨ c.drop = 1) :
    Between c := by
  refine fun buf short => ⟨memory.load short, by omega, .arg state msgBuf drop ?_ (by omega)⟩
  intro absent
  have held : (c.load buf).argBuf = some arg := argBuf
  rw [held] at absent
  cases absent

theorem between_msg {m : Slice} (memory : Memory c)
    (state : c.state = .msgPayload ∨ c.state = .msgEnd) (msgBuf : c.msgBuf = some m)
    (drop : c.drop = 0) (size : 0 ≤ c.pa.size ∧ c.pa.size < 2 ^ 63)
    (open' : c.state = .msgPayload → m.len ≤ c.pa.size ∧ c.pa.size ≤ m.cap) : Between c := by
  intro buf short
  have held : (c.load buf).msgBuf = some m := msgBuf
  have absent (gone : (c.load buf).msgBuf = none) : False := by
    rw [held] at gone
    cases gone
  refine ⟨memory.load short, by omega, ?_⟩
  rcases state with state | state
  · refine .payload state drop size (fun gone => (absent gone).elim) fun m' eq => ?_
    rw [held] at eq
    cases eq
    exact ⟨(open' state).1, (open' state).2, by omega⟩
  · exact .finish state drop size (fun gone => (absent gone).elim) (by omega)

theorem appendText_kept (cfg : ParserConfig) {held : Heap UInt8 × Slice} (s : Option Slice)
    (exist : readBuf < held.1.arrays.length) (owned : Owned held.1 (some held.2)) :
    Kept held.1 (appendText cfg held s).1 ∧
      Owned (appendText cfg held s).1 (some (appendText cfg held s).2) := by
  obtain ⟨valid, other⟩ := owned _ rfl
  exact ⟨Kept.append cfg.grow _ valid other, owned.append cfg.grow _ exist⟩

theorem foldl_appendText_kept (cfg : ParserConfig) (texts : List (Option Slice))
    (held : Heap UInt8 × Slice) (exist : readBuf < held.1.arrays.length)
    (owned : Owned held.1 (some held.2)) :
    Kept held.1 (texts.foldl (appendText cfg) held).1 ∧
      Owned (texts.foldl (appendText cfg) held).1
        (some (texts.foldl (appendText cfg) held).2) := by
  induction texts generalizing held with
  | nil => exact ⟨Kept.refl _, owned⟩
  | cons s texts ih =>
    obtain ⟨kept, owned⟩ := appendText_kept cfg s exist owned
    obtain ⟨kept', owned'⟩ := ih (appendText cfg held s) (Nat.lt_of_lt_of_le exist kept.arrays) owned
    exact ⟨kept.trans kept', owned'⟩

theorem owned_scratch (memory : Memory c) {off len cap : Nat} (fits : len ≤ cap)
    (inside : off + cap ≤ maxControlLineSize) : Owned c.mem (some ⟨scratch, off, len, cap, fits⟩) := by
  have arrays := memory.arrays
  refine Owned.some ⟨?_, ?_⟩ ?_
  · dsimp only [scratch]
    omega
  · dsimp only
    rw [memory.scratch]
    exact inside
  · dsimp only
    decide

theorem clonePubArg_memory (cfg : ParserConfig) (memory : Memory c) :
    Memory (clonePubArg cfg c) ∧ (clonePubArg cfg c).buf = c.buf := by
  have arrays := memory.arrays
  have exist : readBuf < c.mem.arrays.length := by unfold readBuf; omega
  obtain ⟨kept, owned⟩ := foldl_appendText_kept cfg
    [c.pa.subject, c.pa.reply, c.pa.sid, c.pa.szb] (c.mem, scratchStart) exist
    (owned_scratch memory _ (by decide))
  exact memory.update kept owned (memory.msgBuf.kept kept)

/-- The bytes of a slice of the read buffer. -/
theorem read_bufSlice {lo hi : Int} {s : Slice} (taken : c.bufSlice lo hi = some s) :
    c.mem.read s = (c.buf.drop lo.toNat).take (hi - lo).toNat := by
  unfold ParseState.bufSlice at taken
  split at taken
  · cases taken
    rfl
  · cases taken

/-- Holding the rest of the buffer: it is refused as too long for its size, or it is held in a new
array or behind `argBuf` in the scratch array, and what lies elsewhere stays. -/
theorem holdMsg_cases (cfg : ParserConfig) (calls : List Call)
    (memory : Memory c) (argBuf : c.argBuf = some arg)
    (size : 0 ≤ c.pa.size ∧ c.pa.size < 2 ^ 63) (bounds : 0 ≤ c.as ∧ c.as ≤ c.buf.length) :
    (wrap64 (c.pa.size + lenCrLf) < c.buf.length - c.as ∧
        holdMsg cfg c calls = .error .protocol calls) ∨
      ∃ mem m, holdMsg cfg c calls = .ok { c with mem := mem, msgBuf := some m } calls ∧
        Kept c.mem mem ∧ Owned mem (some m) ∧ (m.len : Int) = c.buf.length - c.as ∧
        c.pa.size ≤ m.cap ∧ mem.read m = c.buf.drop c.as.toNat ∧
        ((m.arr = scratch ∧ m.off = arg.len) ∨ c.mem.arrays.length ≤ m.arr) ∧
        ∀ t, c.mem.Valid t → (t.arr = scratch → t.off + t.len ≤ arg.len) →
          mem.read t = c.mem.read t := by
  have arrays := memory.arrays
  have exist : readBuf < c.mem.arrays.length := by unfold readBuf; omega
  obtain ⟨rest, taken⟩ : ∃ rest, c.bufSlice c.as c.buf.length = some rest :=
    bufSlice_some bounds.1 bounds.2 (Int.le_refl _)
  have valid := valid_bufSlice memory taken
  have text : c.mem.read rest = c.buf.drop c.as.toNat := by
    rw [read_bufSlice taken]
    apply List.take_of_length_le
    rw [List.length_drop]
    omega
  have length : rest.len = (c.buf.drop c.as.toNat).length := by
    rw [← text, Heap.read_length valid]
  have len : (rest.len : Int) = c.buf.length - c.as := by
    rw [length, List.length_drop]
    omega
  unfold holdMsg
  simp only [argBuf, taken, Option.map_some, Option.getD_some]
  split_ifs with large long room
  · exact Or.inl ⟨by omega, rfl⟩
  · refine Or.inr ⟨_, _, rfl, Kept.make _ _ _, ?_, ?_, ?_, ?_, Or.inr (Nat.le_refl _), ?_⟩
    · refine Owned.some (Heap.valid_make_new ..) ?_
      rw [Heap.make_arr]
      omega
    · rw [← len]
      dsimp only [Heap.make]
      rw [Heap.read_length valid]
    · -- a size so large that adding the line end overflows has been refused
      have whole : wrap64 (c.pa.size + lenCrLf) = c.pa.size + lenCrLf := by
        by_contra wrapped
        have past : 2 ^ 63 ≤ c.pa.size + lenCrLf := by
          by_contra under
          exact wrapped (wrap64_of_bounds (by unfold lenCrLf; omega) (by omega))
        rw [wrap64_of_overflow past (by unfold lenCrLf; omega)] at long
        unfold lenCrLf at long
        omega
      rw [whole]
      dsimp only [Heap.make]
      unfold lenCrLf
      omega
    · rw [Heap.read_make_new, text]
    · exact fun t other _ => Heap.read_make_old other
  · have held : Owned c.mem (some ⟨scratch, arg.len, 0, maxControlLineSize - arg.len,
        Nat.zero_le _⟩) := owned_scratch memory _ (by omega)
    obtain ⟨valid', other⟩ := held _ rfl
    refine Or.inr ⟨_, _, rfl, Kept.append _ _ valid' other, held.append _ _ exist, ?_, ?_, ?_, ?_, ?_⟩
    · rw [← len, Heap.append_len valid', Heap.read_length valid]
      simp
    · refine Int.le_trans ?_ (Int.ofNat_le.mpr (Heap.cap_le_append valid'))
      dsimp only
      omega
    · rw [Heap.read_append valid', text]
      simp [Heap.read]
    · rcases Heap.append_arr c.mem cfg.grow 0 ⟨scratch, arg.len, 0, maxControlLineSize - arg.len,
        Nat.zero_le _⟩ (c.mem.read rest) with ⟨arr, off⟩ | ⟨arr, off⟩
      · exact Or.inl ⟨arr, off⟩
      · exact Or.inr (Nat.le_of_eq arr.symm)
    · intro t old before
      exact Heap.read_append_frame valid' old (by simpa using before)
  · omega

/-- A call of `parse` ends without an access out of range, and if it succeeds the next one can
begin. -/
def ParseResult.Fine : ParseResult → Prop
  | .ok c _ => Between c
  | .error _ _ => True
  | .panic _ => False
  | .outOfFuel => False

theorem holdMsg_fine (cfg : ParserConfig) (calls : List Call)
    (memory : Memory c) (argBuf : c.argBuf = some arg) (drop : c.drop = 0)
    (state : c.state = .msgPayload ∨ c.state = .msgEnd)
    (size : 0 ≤ c.pa.size ∧ c.pa.size < 2 ^ 63) (bounds : 0 ≤ c.as ∧ c.as ≤ c.buf.length)
    (part : c.state = .msgPayload → c.buf.length ≤ c.as + c.pa.size) :
    (holdMsg cfg c calls).Fine := by
  rcases holdMsg_cases cfg calls memory argBuf size bounds with
    ⟨-, refused⟩ | ⟨mem, m, held, kept, owned, len, cap, -⟩
  · rw [refused]
    trivial
  · rw [held]
    have updated := @Memory.update c { c with mem := mem, msgBuf := some m } memory kept
      (memory.argBuf.kept kept) owned
    refine between_msg updated.1 state rfl drop size fun payload => ⟨?_, cap⟩
    have := part payload
    dsimp only
    omega

theorem splitMsg_fine (cfg : ParserConfig) (calls : List Call)
    (shape : Shape c i) (past : c.buf.length ≤ i)
    (state : c.state = .msgPayload ∨ c.state = .msgEnd) : (splitMsg cfg c calls).Fine := by
  obtain ⟨drop, size, unsplit, held⟩ : c.drop = 0 ∧ (0 ≤ c.pa.size ∧ c.pa.size < 2 ^ 63) ∧
      (c.msgBuf = none → 0 ≤ c.as ∧ c.as ≤ c.buf.length ∧
        (c.state = .msgPayload → c.buf.length ≤ c.as + c.pa.size)) ∧
      (∀ m, c.msgBuf = some m → c.state = .msgPayload →
        m.len ≤ c.pa.size ∧ c.pa.size ≤ m.cap) := by
    rcases shape.placed with ⟨word⟩ | ⟨arg⟩ | ⟨_, drop, size, unsplit, held⟩ |
      ⟨finish, drop, size, unsplit, _⟩
    · rcases state with state | state <;> rw [state] at word <;> exact absurd word (by decide)
    · rcases state with state | state <;> rw [state] at arg <;> exact absurd arg (by decide)
    · refine ⟨drop, size, fun none => ?_, fun m eq _ => ⟨(held m eq).1, (held m eq).2.1⟩⟩
      have := unsplit none
      exact ⟨this.1, this.2.1, fun _ => by omega⟩
    · refine ⟨drop, size, fun none => ⟨(unsplit none).1, (unsplit none).2.1, ?_⟩, ?_⟩
      · intro payload
        rw [finish] at payload
        cases payload
      · intro m _ payload
        rw [finish] at payload
        cases payload
  unfold splitMsg
  cases msgBuf : c.msgBuf with
  | some m =>
    rw [if_neg (by simp)]
    exact between_msg shape.memory state msgBuf drop size (held m msgBuf)
  | none =>
    obtain ⟨first, last, part⟩ := unsplit msgBuf
    rw [if_pos ⟨state, rfl⟩]
    cases argBuf : c.argBuf with
    | some arg =>
      rw [if_neg (by simp)]
      exact holdMsg_fine cfg calls shape.memory argBuf drop state size ⟨first, last⟩ part
    | none =>
      rw [if_pos rfl]
      obtain ⟨memory, buf⟩ := clonePubArg_memory cfg shape.memory
      refine holdMsg_fine cfg calls memory rfl drop state size ⟨first, ?_⟩ ?_
      · rw [buf]
        exact last
      · rw [buf]
        exact part

theorem splitMsg_other (cfg : ParserConfig) (calls : List Call)
    (payload : c.state ≠ .msgPayload) (finish : c.state ≠ .msgEnd) :
    splitMsg cfg c calls = .ok c calls := by
  unfold splitMsg
  rw [if_neg]
  rintro ⟨state | state, -⟩
  · exact payload state
  · exact finish state

theorem PState.isArg_ne {s : PState} (arg : s.isArg) : s ≠ .msgPayload ∧ s ≠ .msgEnd := by
  constructor <;> rintro rfl <;> exact absurd arg (by decide)

theorem PState.isWord_ne {s : PState} (word : s.isWord) : s ≠ .msgPayload ∧ s ≠ .msgEnd := by
  constructor <;> rintro rfl <;> exact absurd word (by decide)

theorem splitBuffer_fine (cfg : ParserConfig) (calls : List Call)
    (shape : Shape c i) (past : c.buf.length ≤ i) : (splitBuffer cfg i c calls).Fine := by
  have memory := shape.memory
  have low := shape.index
  unfold splitBuffer
  rcases shape.placed with ⟨word, argBuf, msgBuf, drop, _⟩ | ⟨arg, msgBuf, drop, started, inside⟩ |
      ⟨payload⟩ | ⟨finish⟩
  · have notArg : ¬ c.state.isArg := by
      simp only [PState.isWord, Bool.and_eq_true, Bool.not_eq_true'] at word
      simp [word.1.1]
    rw [if_neg notArg, splitMsg_other cfg calls (PState.isWord_ne word).1 (PState.isWord_ne word).2]
    exact between_word memory word argBuf msgBuf drop
  · rw [if_pos arg]
    cases argBuf : c.argBuf with
    | some held =>
      dsimp only
      split_ifs
      · trivial
      · rw [splitMsg_other cfg calls (PState.isArg_ne arg).1 (PState.isArg_ne arg).2]
        exact between_arg memory arg argBuf msgBuf drop
    | none =>
      obtain ⟨first, last⟩ := started argBuf
      have arrays := memory.arrays
      have exist : readBuf < c.mem.arrays.length := by unfold readBuf; omega
      have index : wrap64 (i - c.drop) = i - c.drop := wrap64_of_bounds (by omega) (by omega)
      obtain ⟨text, taken⟩ : ∃ text, c.bufSlice c.as (i - c.drop) = some text :=
        bufSlice_some first (by omega) (by omega)
      have owned : Owned c.mem (some scratchStart) := owned_scratch memory _ (by decide)
      obtain ⟨valid, other⟩ := owned _ rfl
      have kept := Kept.append cfg.grow (c.mem.read text) valid other
      have updated := @Memory.update c
        { c with
            argBuf := some (c.mem.append cfg.grow 0 scratchStart (c.mem.read text)).2
            mem := (c.mem.append cfg.grow 0 scratchStart (c.mem.read text)).1 }
        memory kept (owned.append cfg.grow _ exist) (memory.msgBuf.kept kept)
      dsimp only
      rw [index, taken]
      dsimp only
      split_ifs
      · trivial
      · rw [splitMsg_other]
        · exact between_arg updated.1 arg rfl msgBuf drop
        · exact (PState.isArg_ne arg).1
        · exact (PState.isArg_ne arg).2
  · rw [if_neg (by rw [payload]; decide)]
    exact splitMsg_fine cfg calls shape past (Or.inl payload)
  · rw [if_neg (by rw [finish]; decide)]
    exact splitMsg_fine cfg calls shape past (Or.inr finish)

/-- The bytes still to be looked at, each counted twice but for the first of a payload. -/
def remaining (s : LoopState) : Nat :=
  2 * (s.c.buf.length - s.i).toNat + if s.c.state = .msgPayload then 0 else 1

/-- At the head of the loop, a header that ends here fits. -/
def LoopState.HeaderFits (cfg : ParserConfig) (s : LoopState) : Prop :=
  ∀ b, s.c.byteAt s.i = some b → Server.HeaderFits cfg s.i b s.c

theorem byteAt_inside (low : 0 ≤ i) (inside : i < c.buf.length) :
    ∃ b, c.byteAt i = some b := by
  have : i.toNat < c.buf.length := by omega
  exact ⟨c.buf[i.toNat], by simp [ParseState.byteAt, low, this]⟩

theorem byteAt_lt {b : UInt8} (byte : c.byteAt i = some b) :
    i < c.buf.length := by
  unfold ParseState.byteAt at byte
  split_ifs at byte with low
  have := (List.getElem?_eq_some_iff.mp byte).1
  omega

/-- One round of the loop from a state where headers fit. -/
theorem loopStep_fine (cfg : ParserConfig) (env : Env) (shape : Shape s.c s.i)
    (fits : s.HeaderFits cfg) :
    match loopStep cfg env s with
    | .error r => r.Fine
    | .ok s' => Shape s'.c s'.i ∧ remaining s' < remaining s := by
  have low := shape.index.1
  unfold loopStep
  split_ifs with inside
  · obtain ⟨b, byte⟩ := byteAt_inside low inside
    have step : (parseStep cfg s.authSet (env.refuses s.calls) s.i b s.c).Fine s.c s.i :=
      parseStep_fine shape inside (fits b byte)
    simp only [byte]
    cases stepped : parseStep cfg s.authSet (env.refuses s.calls) s.i b s.c with
    | panic =>
      rw [stepped] at step
      exact step.elim
    | fail e => trivial
    | next i c call =>
      rw [stepped] at step
      obtain ⟨after, buf, moved⟩ := step
      have less (a : Bool) (calls : List Call) :
          remaining ⟨a, wrap64 (i + 1), c, calls⟩ < remaining s := by
        unfold remaining
        dsimp only
        rw [buf]
        rcases moved with grown | ⟨same, payload, other⟩
        · split_ifs <;> omega
        · rw [if_pos payload, if_neg other]
          omega
      cases call with
      | none => exact ⟨after, less _ _⟩
      | some call => exact ⟨after, less _ _⟩
  · exact splitBuffer_fine cfg s.calls shape (by omega)

/-- The states at the head of the loop of one call. -/
abbrev LoopRuns (cfg : ParserConfig) (env : Env) : LoopState → LoopState → Prop :=
  Relation.ReflTransGen fun s s' => loopStep cfg env s = .ok s'

theorem parseLoop_fine (cfg : ParserConfig) (env : Env) {fuel : Nat}
    (shape : Shape s.c s.i) (enough : remaining s < fuel)
    (fits : ∀ s', LoopRuns cfg env s s' → s'.HeaderFits cfg) : (parseLoop cfg env fuel s).Fine := by
  induction fuel generalizing s with
  | zero => omega
  | succ fuel ih =>
    have round := loopStep_fine cfg env shape (fits s .refl)
    unfold parseLoop
    cases stepped : loopStep cfg env s with
    | error r =>
      rw [stepped] at round
      exact round
    | ok s' =>
      rw [stepped] at round
      exact ih round.1 (by omega) fun s'' run => fits s'' (.head stepped run)

/-- A header that does not fit sends the index below zero. -/
theorem loopStep_unfit (cfg : ParserConfig) (env : Env) (shape : Shape s.c s.i)
    (unfit : ¬ s.HeaderFits cfg) :
    s.i < s.c.buf.length ∧ ∃ s', loopStep cfg env s = .ok s' ∧ s'.i < 0 := by
  simp only [LoopState.HeaderFits, HeaderFits, not_forall, Int.not_lt] at unfit
  obtain ⟨b, byte, isLf, arg, n, taken, stated, past⟩ := unfit
  have inside : s.i < s.c.buf.length := byteAt_lt byte
  have short := shape.memory.short
  have low := shape.index.1
  have valid := valid_argAt shape.memory taken
  have size := statedSize_bounds stated
  have succ := wrap64_succ shape.memory low inside
  refine ⟨inside, ?_⟩
  unfold loopStep
  rw [if_pos inside, byte]
  rcases statedSize_cases valid stated with ⟨state, pa, ok, rfl⟩ | ⟨state, pa, ok, rfl⟩
  · have arg' : s.c.state.isArg := by rw [state]; rfl
    obtain ⟨msgBuf, -, -⟩ := shape.placed.inArg arg'
    rw [jump, if_pos state] at past
    dsimp only
    rw [parseStep_arg arg', argStep, if_neg (by rw [isLf]; decide), if_pos isLf, taken]
    simp only [argDone, state, ok, msgBuf, Option.isNone_none, if_true]
    refine ⟨_, rfl, ?_⟩
    dsimp only
    rw [succ, wrap64_sub_left, wrap64_add_left, lenCrLf, wrap64_of_overflow] <;> omega
  · have arg' : s.c.state.isArg := by rw [state]; rfl
    rw [jump, if_neg (by rw [state]; decide)] at past
    dsimp only
    rw [parseStep_arg arg', argStep, if_neg (by rw [isLf]; decide), if_pos isLf, taken]
    simp only [argDone, state, ok]
    refine ⟨_, rfl, ?_⟩
    dsimp only
    rw [succ, wrap64_sub_left, wrap64_add_left, wrap64_of_overflow] <;> omega

theorem parseLoop_negative (cfg : ParserConfig) (env : Env) (fuel : Nat)
    (negative : s.i < 0) : parseLoop cfg env (fuel + 1) s = .panic s.calls := by
  have step : loopStep cfg env s = .error (.panic s.calls) := by
    have byte : s.c.byteAt s.i = none := if_neg (by omega)
    unfold loopStep
    rw [if_pos (by omega), byte]
  unfold parseLoop
  rw [step]

theorem parseLoop_unfit (cfg : ParserConfig) (env : Env) {fuel : Nat} {s' : LoopState}
    (shape : Shape s.c s.i) (enough : remaining s < fuel) (run : LoopRuns cfg env s s')
    (unfit : ¬ s'.HeaderFits cfg) : ∃ calls, parseLoop cfg env fuel s = .panic calls := by
  induction run using Relation.ReflTransGen.head_induction_on generalizing fuel with
  | refl =>
    obtain ⟨inside, next, stepped, negative⟩ := loopStep_unfit cfg env shape unfit
    obtain ⟨fuel, rfl⟩ : ∃ n, fuel = n + 2 := ⟨fuel - 2, by unfold remaining at enough; omega⟩
    refine ⟨next.calls, ?_⟩
    rw [parseLoop, stepped]
    exact parseLoop_negative cfg env fuel negative
  | head stepped run ih =>
    rename_i s₁ s₂
    obtain ⟨fuel, rfl⟩ : ∃ n, fuel = n + 1 := ⟨fuel - 1, by omega⟩
    rw [parseLoop, stepped]
    by_cases fits : s₁.HeaderFits cfg
    · have round := loopStep_fine cfg env shape fits
      rw [stepped] at round
      exact ih round.1 (by omega)
    · -- the jump has left the range already, so the run ends here
      obtain ⟨inside, next, stepped', negative⟩ := loopStep_unfit cfg env shape fits
      rw [stepped] at stepped'
      cases stepped'
      obtain ⟨fuel, rfl⟩ : ∃ n, fuel = n + 1 := ⟨fuel - 1, by unfold remaining at enough; omega⟩
      exact ⟨_, parseLoop_negative cfg env fuel negative⟩

/-- The states at the head of the loop, over successive calls of `parse` on one connection. -/
inductive Visited (cfg : ParserConfig) :
    ParseState → List (Env × Bytes) → Env → LoopState → Prop where
  | here {c env buf reads s} (run : LoopRuns cfg env (loopStart env buf c) s) :
      Visited cfg c ((env, buf) :: reads) env s
  | later {c c' env buf made reads env' s} (parsed : parse cfg env buf c = .ok c' made)
      (visited : Visited cfg c' reads env' s) : Visited cfg c ((env, buf) :: reads) env' s

theorem remaining_loopStart (env : Env) (buf : Bytes)
    (loaded : (c.load buf).buf = buf) : remaining (loopStart env buf c) < 2 * buf.length + 2 := by
  unfold remaining loopStart
  dsimp only
  rw [loaded]
  split_ifs <;> omega

theorem between_initial : Between .initial :=
  between_word
    { arrays := by decide
      scratch := by decide +kernel
      short := by decide
      argBuf := Owned.none _
      msgBuf := Owned.none _ } rfl rfl rfl rfl

theorem remaining_between (env : Env) (between : Between c)
    (short : buf.length < 2 ^ 63) : remaining (loopStart env buf c) < 2 * buf.length + 2 := by
  have arrays : 2 ≤ c.mem.arrays.length := by
    simpa [ParseState.load] using (between buf short).memory.arrays
  exact remaining_loopStart env buf (buf_load arrays)

section

variable (cfg : ParserConfig)
include cfg

theorem parse_fine (between : Between c) (short : buf.length < 2 ^ 63)
    (fits : ∀ s, LoopRuns cfg env (loopStart env buf c) s → s.HeaderFits cfg) :
    (parse cfg env buf c).Fine :=
  parseLoop_fine cfg env (between buf short) (remaining_between env between short) fits

theorem parse_unfit (between : Between c) (short : buf.length < 2 ^ 63)
    (run : LoopRuns cfg env (loopStart env buf c) s) (unfit : ¬ s.HeaderFits cfg) :
    ∃ calls, parse cfg env buf c = .panic calls :=
  parseLoop_unfit cfg env (between buf short) (remaining_between env between short) run unfit

/-- A call that succeeds leaves a state in which the next one can begin. -/
theorem parse_between {c' : ParseState}
    {made : List Call} (between : Between c) (short : buf.length < 2 ^ 63)
    (parsed : parse cfg env buf c = .ok c' made) : Between c' := by
  have fine : (parse cfg env buf c).Fine := by
    refine parse_fine cfg between short fun s run => ?_
    by_contra unfit
    obtain ⟨calls, panicked⟩ := parse_unfit cfg between short run unfit
    rw [parsed] at panicked
    cases panicked
  rw [parsed] at fine
  exact fine

theorem feed_fine {reads : List (Env × Bytes)}
    (calls : List Call) (between : Between c) (sized : ∀ r ∈ reads, r.2.length < 2 ^ 63)
    (fits : ∀ env s, Visited cfg c reads env s → s.HeaderFits cfg) :
    (feed cfg reads c calls).Fine := by
  induction reads generalizing c calls with
  | nil => exact between
  | cons r reads ih =>
    obtain ⟨env, buf⟩ := r
    have short : buf.length < 2 ^ 63 := sized (env, buf) List.mem_cons_self
    have parsed := parse_fine cfg between short fun s run => fits env s (.here run)
    unfold feed
    cases result : parse cfg env buf c with
    | ok c' made =>
      rw [result] at parsed
      exact ih _ parsed (fun r mem => sized r (List.mem_cons_of_mem _ mem))
        fun env' s visited => fits env' s (.later result visited)
    | error e made => trivial
    | panic made =>
      rw [result] at parsed
      exact parsed.elim
    | outOfFuel =>
      rw [result] at parsed
      exact parsed.elim

theorem feed_unfit {reads : List (Env × Bytes)} (calls : List Call) (between : Between c)
    (sized : ∀ r ∈ reads, r.2.length < 2 ^ 63) (visited : Visited cfg c reads env s)
    (unfit : ¬ s.HeaderFits cfg) : ∃ calls', feed cfg reads c calls = .panic calls' := by
  induction visited generalizing calls with
  | here run =>
    rename_i env buf reads s
    have short : buf.length < 2 ^ 63 := sized (env, buf) List.mem_cons_self
    obtain ⟨made, panicked⟩ := parse_unfit cfg between short run unfit
    exact ⟨calls ++ made, by rw [feed, panicked]⟩
  | later parsed visited ih =>
    rename_i env buf made reads env' s
    have short : buf.length < 2 ^ 63 := sized (env, buf) List.mem_cons_self
    rw [feed, parsed]
    exact ih _ (parse_between cfg between short parsed)
      (fun r mem => sized r (List.mem_cons_of_mem _ mem)) unfit

end

def ParseResult.panicked : ParseResult → Bool
  | .panic _ => true
  | _ => false

theorem ParseResult.eq_panic {r : ParseResult} (panicked : r.panicked) : ∃ calls, r = .panic calls := by
  cases r with
  | panic calls => exact ⟨calls, rfl⟩
  | ok | error | outOfFuel => cases panicked

theorem ParseResult.ne_panic {r : ParseResult} (fine : r.panicked = false) (calls : List Call) :
    r ≠ .panic calls := by
  rintro rfl
  cases fine

/-- No access of the parser is out of range, over any sequence of reads, exactly when the jump
over the payload stays below `2^63` at every header that is accepted; and every call returns. -/
theorem feed_in_range_iff (cfg : ParserConfig) (reads : List (Env × Bytes))
    (sized : ∀ r ∈ reads, r.2.length < 2 ^ 63) :
    feed cfg reads .initial [] ≠ .outOfFuel ∧
      ((∀ calls, feed cfg reads .initial [] ≠ .panic calls) ↔
        ∀ env s, Visited cfg .initial reads env s → s.HeaderFits cfg) := by
  by_cases fits : ∀ env s, Visited cfg .initial reads env s → s.HeaderFits cfg
  · have fine := feed_fine cfg [] between_initial sized fits
    refine ⟨fun out => ?_, fun _ => fits, fun _ calls panicked => ?_⟩
    · rw [out] at fine
      exact fine
    · rw [panicked] at fine
      exact fine
  · simp only [not_forall] at fits
    obtain ⟨env, s, visited, unfit⟩ := fits
    obtain ⟨calls, panicked⟩ := feed_unfit cfg [] between_initial sized visited unfit
    refine ⟨?_, fun never => (never calls panicked).elim, fun fits => ?_⟩
    · rw [panicked]
      exact ParseResult.noConfusion
    · exact (unfit (fits env s visited)).elim

/-- A published message in two reads. -/
theorem feed_in_range_iff_split :
    (∀ r ∈ [(Env.quiet, bytesOf "PUB foo 2\r\nh"), (Env.quiet, bytesOf "i\r\n")],
      r.2.length < 2 ^ 63) ∧
    ∀ env s, Visited ⟨.client, 1024, 1024, .double⟩ .initial
      [(Env.quiet, bytesOf "PUB foo 2\r\nh"), (Env.quiet, bytesOf "i\r\n")] env s →
        s.HeaderFits ⟨.client, 1024, 1024, .double⟩ := by
  have sized : ∀ r ∈ [(Env.quiet, bytesOf "PUB foo 2\r\nh"), (Env.quiet, bytesOf "i\r\n")],
      r.2.length < 2 ^ 63 := by
    intro r mem
    simp only [List.mem_cons, List.not_mem_nil, or_false] at mem
    rcases mem with rfl | rfl <;> decide
  refine ⟨sized, (feed_in_range_iff _ _ sized).2.mp (ParseResult.ne_panic ?_)⟩
  decide

/-- A route sends a MSG with the largest size. -/
theorem feed_out_of_range :
    ∃ calls, feed ⟨.router, 1024, 1024, .double⟩
      [(Env.quiet, bytesOf "MSG a 1 9223372036854775807\r\n")] .initial [] = .panic calls :=
  ParseResult.eq_panic (by decide +kernel)

end Hnatsd.Server
