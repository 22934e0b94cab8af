import Hnatsd.Conf.Lexer

/-!
# Reading and going back

What `next`, `backup` and `peek` do to a lexer whose positions are in order. A rune that was just
read can be put back: the lexer is then as before, but for the width it remembers.
-/

namespace Hnatsd.Conf

open Hnatsd.Misc

namespace Lexer

/-- The rune `next` returns. -/
def rune (lx : Lexer) : Nat := lx.next.1

/-- The lexer after a rune was read and put back. -/
def seen (lx : Lexer) : Lexer := { lx with width := lx.skip.width }

/-- The positions are in order and nothing has panicked. -/
structure Ok (lx : Lexer) : Prop where
  start : lx.start ≤ lx.pos
  pos : lx.pos ≤ lx.input.length
  fault : lx.fault = none

/-- What has been read of the item. -/
def token (lx : Lexer) : Bytes := (lx.input.drop lx.start).take (lx.pos - lx.start)

/-- All of the input has been read. -/
def atEnd (lx : Lexer) : Bool := decide (lx.input.length ≤ lx.pos)

variable {lx : Lexer}

theorem next_eq (lx : Lexer) : lx.next = (lx.rune, lx.skip) := rfl

/-- What is read depends on the input and the position alone. -/
theorem rune_congr {lx lx' : Lexer} (input : lx.input = lx'.input) (pos : lx.pos = lx'.pos) :
    lx.rune = lx'.rune := by
  unfold rune next
  rw [input, pos]
  split <;> rfl

theorem next_of_end (done : lx.input.length ≤ lx.pos) : lx.next = (eof, { lx with width := 0 }) := by
  rw [next, if_pos done]

theorem rune_of_end (done : lx.input.length ≤ lx.pos) : lx.rune = 0 := by
  rw [rune, next_of_end done]

theorem skip_of_end (done : lx.input.length ≤ lx.pos) : lx.skip = { lx with width := 0 } := by
  rw [skip, next_of_end done]

theorem rune_of_more (more : lx.pos < lx.input.length) :
    lx.rune = (decodeRune (lx.input.drop lx.pos)).1 := by
  rw [rune, next, if_neg (Nat.not_le.mpr more)]

theorem skip_width_of_more (more : lx.pos < lx.input.length) :
    lx.skip.width = (decodeRune (lx.input.drop lx.pos)).2 := by
  rw [skip, next, if_neg (Nat.not_le.mpr more)]

theorem skip_of_more (more : lx.pos < lx.input.length) : lx.skip =
    { lx with line := if lx.input[lx.pos]? = some 10 then lx.line + 1 else lx.line,
              width := (decodeRune (lx.input.drop lx.pos)).2,
              pos := lx.pos + (decodeRune (lx.input.drop lx.pos)).2 } := by
  rw [skip, next, if_neg (Nat.not_le.mpr more)]

@[simp] theorem skip_input (lx : Lexer) : lx.skip.input = lx.input := by
  unfold skip next
  split <;> rfl

@[simp] theorem skip_start (lx : Lexer) : lx.skip.start = lx.start := by
  unfold skip next
  split <;> rfl

@[simp] theorem skip_stack (lx : Lexer) : lx.skip.stack = lx.stack := by
  unfold skip next
  split <;> rfl

@[simp] theorem skip_fault (lx : Lexer) : lx.skip.fault = lx.fault := by
  unfold skip next
  split <;> rfl

theorem skip_pos (lx : Lexer) : lx.skip.pos = lx.pos + lx.skip.width := by
  unfold skip next
  split <;> rfl

@[simp] theorem seen_input (lx : Lexer) : lx.seen.input = lx.input := rfl
@[simp] theorem seen_start (lx : Lexer) : lx.seen.start = lx.start := rfl
@[simp] theorem seen_pos (lx : Lexer) : lx.seen.pos = lx.pos := rfl
@[simp] theorem seen_stack (lx : Lexer) : lx.seen.stack = lx.stack := rfl
@[simp] theorem seen_fault (lx : Lexer) : lx.seen.fault = lx.fault := rfl
@[simp] theorem seen_skip (lx : Lexer) : lx.seen.skip = lx.skip := rfl
@[simp] theorem ignore_input (lx : Lexer) : lx.ignore.input = lx.input := rfl
@[simp] theorem ignore_start (lx : Lexer) : lx.ignore.start = lx.pos := rfl
@[simp] theorem ignore_pos (lx : Lexer) : lx.ignore.pos = lx.pos := rfl
@[simp] theorem ignore_stack (lx : Lexer) : lx.ignore.stack = lx.stack := rfl

/-- Reading does not look at the start of the item. -/
@[simp] theorem ignore_skip (lx : Lexer) : lx.ignore.skip = { lx.skip with start := lx.pos } := by
  unfold skip next ignore
  dsimp only
  split <;> rfl

@[simp] theorem seen_token (lx : Lexer) : lx.seen.token = lx.token := rfl

@[simp] theorem ignore_token (lx : Lexer) : lx.ignore.token = [] := by
  simp [token]

theorem skip_width_pos (more : lx.pos < lx.input.length) : 1 ≤ lx.skip.width := by
  rw [skip_width_of_more more]
  apply decodeRune_pos
  rw [Ne, List.drop_eq_nil_iff]
  omega

theorem skip_pos_le (bound : lx.pos ≤ lx.input.length) : lx.skip.pos ≤ lx.input.length := by
  rcases Nat.lt_or_ge lx.pos lx.input.length with more | done
  · have width := decodeRune_le (lx.input.drop lx.pos)
    rw [List.length_drop] at width
    rw [skip_pos, skip_width_of_more more]
    omega
  · rw [skip_of_end done]
    exact bound

/-- Reading moves forward everywhere but at the end. -/
theorem lt_skip_pos (more : lx.atEnd = false) : lx.pos < lx.skip.pos := by
  rw [atEnd, decide_eq_false_iff_not, Nat.not_le] at more
  have := skip_width_pos more
  rw [skip_pos]
  omega

/-- Where a rune other than zero is read there is something left. -/
theorem atEnd_of_rune (some : lx.rune ≠ 0) : lx.atEnd = false := by
  rw [atEnd, decide_eq_false_iff_not]
  intro done
  exact some (rune_of_end done)

theorem le_skip_pos (lx : Lexer) : lx.pos ≤ lx.skip.pos := by
  rw [skip_pos]
  omega

/-- Where a new line stands, it is the rune read, and it is counted. -/
theorem skip_line (lx : Lexer) :
    lx.skip.line = if lx.input[lx.pos]? = some 10 then lx.line + 1 else lx.line := by
  unfold skip next
  split
  · next done =>
    rw [List.getElem?_eq_none done]
    rfl
  · rfl

theorem backup_skip (lx : Lexer) : lx.skip.backup = lx.seen := by
  have pos := skip_pos lx
  have back : lx.skip.pos - lx.skip.width = lx.pos := by omega
  rw [backup, if_neg (by omega), back, skip_input, skip_line]
  have line : (if lx.input[lx.pos]? = some 10 then
      (if lx.input[lx.pos]? = some 10 then lx.line + 1 else lx.line) - 1 else
      if lx.input[lx.pos]? = some 10 then lx.line + 1 else lx.line) = lx.line := by
    split_ifs <;> omega
  simp only [line, seen]
  unfold skip next
  split <;> rfl

theorem peek_eq (lx : Lexer) : lx.peek = (lx.rune, lx.seen) := by
  unfold peek
  rw [next_eq]
  exact congrArg (Prod.mk lx.rune) (backup_skip lx)

/-- Where an ASCII rune is read, its byte stands. -/
theorem ascii_of_rune (ascii : lx.rune < 0x80) (more : lx.atEnd = false) :
    lx.input[lx.pos]? = some (UInt8.ofNat lx.rune) ∧ lx.skip.width = 1 := by
  rw [atEnd, decide_eq_false_iff_not, Nat.not_le] at more
  rw [rune_of_more more, List.drop_eq_getElem_cons more] at ascii ⊢
  rw [skip_width_of_more more, List.drop_eq_getElem_cons more, List.getElem?_eq_getElem more]
  by_cases first : lx.input[lx.pos] < 0x80
  · rw [decodeRune_ascii first]
    simp
  · have := (wideRune first (lx.input.drop (lx.pos + 1))).rune
    omega

@[simp] theorem backup_input (lx : Lexer) : lx.backup.input = lx.input := by
  unfold backup
  split <;> rfl

@[simp] theorem backup_start (lx : Lexer) : lx.backup.start = lx.start := by
  unfold backup
  split <;> rfl

@[simp] theorem backup_stack (lx : Lexer) : lx.backup.stack = lx.stack := by
  unfold backup
  split <;> rfl

theorem backup_of_le (le : lx.width ≤ lx.pos) : lx.backup =
    { lx with pos := lx.pos - lx.width,
              line := if lx.input[lx.pos - lx.width]? = some 10 then lx.line - 1 else lx.line } := by
  rw [backup, if_neg (Nat.not_lt.mpr le)]

namespace Ok

theorem skip (ok : lx.Ok) : lx.skip.Ok where
  start := by
    rw [skip_start]
    exact Nat.le_trans ok.start (le_skip_pos lx)
  pos := by
    rw [skip_input]
    exact skip_pos_le ok.pos
  fault := by rw [skip_fault, ok.fault]

theorem seen (ok : lx.Ok) : lx.seen.Ok := ⟨ok.start, ok.pos, ok.fault⟩

theorem ignore (ok : lx.Ok) : lx.ignore.Ok := ⟨Nat.le_refl _, ok.pos, ok.fault⟩

theorem push (ok : lx.Ok) (s : StateFn) : (lx.push s).Ok := ⟨ok.start, ok.pos, ok.fault⟩

theorem slice (ok : lx.Ok) : lx.slice = (lx.token, lx) := by
  rw [Lexer.slice, if_pos ⟨ok.start, ok.pos⟩, token]

theorem emit (ok : lx.Ok) (typ : ItemType) (andThen : Lexer → Result) :
    lx.emit typ andThen = (andThen lx.ignore).after ⟨typ, lx.token, lx.line⟩ := by
  rw [Lexer.emit, ok.slice]
  rfl

/-- The token grows by what is read. -/
theorem skip_token (ok : lx.Ok) :
    lx.skip.token = lx.token ++ (lx.input.drop lx.pos).take lx.skip.width := by
  have start := ok.start
  have cut : lx.input.drop lx.pos = (lx.input.drop lx.start).drop (lx.pos - lx.start) := by
    rw [List.drop_drop]
    congr 1
    omega
  have far : lx.pos + lx.skip.width - lx.start = (lx.pos - lx.start) + lx.skip.width := by omega
  rw [token, token, skip_input, skip_start, skip_pos, far, cut, List.take_add]

/-- A token that spells its runes does so after a further rune, unless that is an error. -/
theorem spells {rs : List Nat} (ok : lx.Ok) (front : Spells lx.token rs) (visible : lx.rune ≠ 0)
    (valid : lx.rune ≠ runeError) : Spells lx.skip.token (rs ++ [lx.rune]) := by
  have more := atEnd_of_rune visible
  rw [atEnd, decide_eq_false_iff_not, Nat.not_le] at more
  rw [rune_of_more more] at valid ⊢
  rw [ok.skip_token, skip_width_of_more more]
  refine front.read ?_ valid
  rw [Ne, List.drop_eq_nil_iff]
  omega

theorem lex (input : Bytes) : (lex input).Ok := ⟨Nat.le_refl 0, Nat.zero_le _, rfl⟩

end Ok

end Lexer

end Hnatsd.Conf
