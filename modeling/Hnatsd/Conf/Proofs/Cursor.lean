import Hnatsd.Conf.Proofs.LexingEnds

/-!
# Reading over a text

What a lexer does with a text that is given piece by piece. A `Spot` says where the lexer stands:
what it has dropped, what it has read of the token, what comes next, and the stack. `Reads` leads
from a spot to another and says which items are sent on the way; longer stretches are put together
with `Reads.trans`.
-/

namespace Hnatsd.Conf

open Hnatsd.Misc Lexer List

structure Spot where
  before : Bytes
  tok : Bytes
  rest : Bytes
  stack : List StateFn

/-- The lexer stands there. -/
structure Spot.At (spot : Spot) (lx : Lexer) : Prop where
  input : lx.input = spot.before ++ spot.tok ++ spot.rest
  start : lx.start = spot.before.length
  pos : lx.pos = spot.before.length + spot.tok.length
  stack : lx.stack = spot.stack
  fault : lx.fault = none

/-- An item without its line. -/
def Item.told (it : Item) : ItemType × Bytes := (it.typ, it.val)

/-- `nextItem` comes from the one call to the other and has then returned these items. -/
def Reaches (u : Unicode) (lx : Lexer) (s : StateFn) (items : List Item) (lx' : Lexer) (s' : StateFn) :
    Prop :=
  ∃ turns, ∀ more seen, lexAll u (turns + more) seen ⟨lx, some s, []⟩ =
    lexAll u more (seen ++ items) ⟨lx', some s', []⟩

/-- The lexer comes from a spot to another. -/
def Reads (u : Unicode) (s : StateFn) (spot : Spot) (told : List (ItemType × Bytes)) (s' : StateFn)
    (spot' : Spot) : Prop :=
  ∀ lx, spot.At lx → ∃ lx' items, Reaches u lx s items lx' s' ∧ items.map Item.told = told ∧
    spot'.At lx'

namespace Reaches

variable {u : Unicode} {lx lx' : Lexer} {s s' : StateFn} {items : List Item}

theorem refl (u : Unicode) (lx : Lexer) (s : StateFn) : Reaches u lx s [] lx s :=
  ⟨0, fun more seen => by rw [Nat.zero_add, append_nil]⟩

theorem trans {lx'' : Lexer} {s'' : StateFn} {items' : List Item}
    (first : Reaches u lx s items lx' s') (second : Reaches u lx' s' items' lx'' s'') :
    Reaches u lx s (items ++ items') lx'' s'' := by
  obtain ⟨turns, first⟩ := first
  obtain ⟨turns', second⟩ := second
  refine ⟨turns + turns', fun more seen => ?_⟩
  rw [Nat.add_assoc, first, second, append_assoc]

/-- Items that wait are returned one by one. -/
theorem drain {rest : Option StateFn} (goOn : ∀ it ∈ items, ¬ it.typ.isLast) (more : Nat)
    (seen : List Item) : lexAll u (items.length + more) seen ⟨lx, rest, items⟩ =
      lexAll u more (seen ++ items) ⟨lx, rest, []⟩ := by
  induction items generalizing seen with
  | nil => rw [length_nil, Nat.zero_add, append_nil]
  | cons it items ih =>
    rw [forall_mem_cons] at goOn
    have notLast : ¬ (it.typ = .itemEOF ∨ it.typ = .itemError) := goOn.1
    rw [length_cons, Nat.add_right_comm, lexAll]
    simp only [Scan.poll, if_neg notLast]
    rw [ih goOn.2, append_assoc, singleton_append]

/-- One call. -/
theorem call (called : s.call u lx = ⟨lx', items, some s'⟩) (fault : lx'.fault = none)
    (goOn : ∀ it ∈ items, ¬ it.typ.isLast) : Reaches u lx s items lx' s' := by
  refine ⟨1 + items.length, fun more seen => ?_⟩
  rw [Nat.add_assoc, Nat.add_comm 1, lexAll]
  simp only [Scan.poll, called, fault]
  exact drain goOn more seen

end Reaches

namespace Spot

variable {spot : Spot} {lx : Lexer}

section

variable (here : spot.At lx)
include here

theorem At.ok : lx.Ok where
  start := by
    rw [here.start, here.pos]
    omega
  pos := by
    rw [here.pos, here.input, length_append, length_append]
    omega
  fault := here.fault

theorem At.token : lx.token = spot.tok := by
  rw [Lexer.token, here.input, here.start, here.pos, append_assoc, drop_left,
    Nat.add_sub_cancel_left, take_left]

theorem At.drop : lx.input.drop lx.pos = spot.rest := by
  rw [here.input, here.pos, ← length_append, drop_left]

theorem At.rune_eq (more : spot.rest ≠ []) :
    lx.rune = (decodeRune spot.rest).1 := by
  have inside : lx.pos < lx.input.length := by
    have := length_pos_iff.mpr more
    rw [here.pos, here.input, length_append, length_append]
    omega
  rw [rune_of_more inside, here.drop]

/-- An ASCII byte is read as itself. -/
theorem At.rune {b : UInt8} {rest : Bytes} (next : spot.rest = b :: rest)
    (ascii : b < 0x80) : lx.rune = b.toNat := by
  rw [here.rune_eq (by rw [next]; simp), next, decodeRune_ascii ascii]

theorem At.rune_end (done : spot.rest = []) : lx.rune = 0 := by
  apply rune_of_end
  rw [here.pos, here.input, done, append_nil, length_append]

end

/-- What reading a rune does to the spot. -/
def next (spot : Spot) (width : Nat) : Spot :=
  { spot with tok := spot.tok ++ spot.rest.take width, rest := spot.rest.drop width }

section

variable (here : spot.At lx)
include here

theorem At.skip_rune (more : spot.rest ≠ []) :
    (spot.next (decodeRune spot.rest).2).At lx.skip := by
  have inside : lx.pos < lx.input.length := by
    have := length_pos_iff.mpr more
    rw [here.pos, here.input, length_append, length_append]
    omega
  have width : lx.skip.width = (decodeRune spot.rest).2 := by
    rw [skip_width_of_more inside, here.drop]
  have bound := decodeRune_le spot.rest
  refine ⟨?_, ?_, ?_, ?_, ?_⟩
  · rw [skip_input, here.input, next]
    simp only [append_assoc, take_append_drop]
  · rw [skip_start, here.start, next]
  · rw [skip_pos, width, here.pos, next]
    simp only [length_append, length_take, Nat.min_eq_left bound]
    omega
  · rw [skip_stack, here.stack, next]
  · rw [skip_fault, here.fault]

theorem At.skip {b : UInt8} {rest : Bytes} (next : spot.rest = b :: rest)
    (ascii : b < 0x80) : { spot with tok := spot.tok ++ [b], rest := rest }.At lx.skip := by
  have read := here.skip_rune (by rw [next]; simp)
  rw [Spot.next, next, decodeRune_ascii ascii] at read
  exact read

theorem At.skip_end (done : spot.rest = []) : spot.At lx.skip := by
  have all : lx.input.length ≤ lx.pos := by
    rw [here.pos, here.input, done, append_nil, length_append]
  rw [skip_of_end all]
  exact ⟨here.input, here.start, here.pos, here.stack, here.fault⟩

theorem At.seen : spot.At lx.seen :=
  ⟨here.input, here.start, here.pos, here.stack, here.fault⟩

theorem At.push (s : StateFn) :
    { spot with stack := s :: spot.stack }.At (lx.push s) :=
  ⟨here.input, here.start, here.pos, congrArg (List.cons s) here.stack, here.fault⟩

end

/-- The spot with a new token. -/
def drop (spot : Spot) : Spot := { spot with before := spot.before ++ spot.tok, tok := [] }

theorem At.ignore (here : spot.At lx) : spot.drop.At lx.ignore where
  input := by
    rw [ignore_input, here.input, Spot.drop, append_nil]
  start := by
    rw [ignore_start, here.pos, Spot.drop, length_append]
  pos := by
    rw [ignore_pos, here.pos, Spot.drop, length_append, length_nil, Nat.add_zero]
  stack := here.stack
  fault := here.fault

theorem At.pop {s : StateFn} {below : List StateFn} (here : spot.At lx) (stack : spot.stack = s :: below) :
    ∃ lx', lx.pop = lx'.goto s ∧ { spot with stack := below }.At lx' := by
  refine ⟨{ lx with stack := below }, ?_, here.input, here.start, here.pos, rfl, here.fault⟩
  rw [Lexer.pop, here.stack, stack]

/-- The item that is sent is the token. -/
theorem At.emit (here : spot.At lx) (typ : ItemType) (andThen : Lexer → Result) :
    lx.emit typ andThen = (andThen lx.ignore).after ⟨typ, spot.tok, lx.line⟩ := by
  rw [here.ok.emit, here.token]

end Spot

namespace Reads

variable {u : Unicode} {s s' : StateFn} {spot spot' : Spot} {told : List (ItemType × Bytes)}

theorem refl (u : Unicode) (s : StateFn) (spot : Spot) : Reads u s spot [] s spot :=
  fun lx here => ⟨lx, [], .refl u lx s, rfl, here⟩

theorem trans {s'' : StateFn} {spot'' : Spot} {told' : List (ItemType × Bytes)}
    (first : Reads u s spot told s' spot') (second : Reads u s' spot' told' s'' spot'') :
    Reads u s spot (told ++ told') s'' spot'' := by
  intro lx here
  obtain ⟨mid, items, reaches, rfl, there⟩ := first lx here
  obtain ⟨lx', items', reaches', rfl, arrived⟩ := second mid there
  exact ⟨lx', items ++ items', reaches.trans reaches', map_append, arrived⟩

/-- A call that sends nothing. -/
theorem goto (called : ∀ lx, spot.At lx → ∃ lx', s.call u lx = lx'.goto s' ∧ spot'.At lx') :
    Reads u s spot [] s' spot' := by
  intro lx here
  obtain ⟨lx', called, there⟩ := called lx here
  exact ⟨lx', [], .call called there.fault (by simp), rfl, there⟩

/-- A call that sends one item. -/
theorem emit {typ : ItemType} {val : Bytes} (goesOn : ¬ typ.isLast)
    (called : ∀ lx, spot.At lx → ∃ lx' line,
      s.call u lx = (lx'.goto s').after ⟨typ, val, line⟩ ∧ spot'.At lx') :
    Reads u s spot [(typ, val)] s' spot' := by
  intro lx here
  obtain ⟨lx', line, called, there⟩ := called lx here
  refine ⟨lx', [⟨typ, val, line⟩], .call called there.fault ?_, rfl, there⟩
  intro it mem
  rw [mem_singleton.mp mem]
  exact goesOn

/-- `lexSkip` drops the token. -/
theorem skip (u : Unicode) (s : StateFn) (spot : Spot) : Reads u (.lexSkip s) spot [] s spot.drop :=
  .goto fun _ here => ⟨_, rfl, here.ignore⟩

end Reads

section

variable {u : Unicode} {s s' : StateFn} {before tok rest : Bytes} {stack : List StateFn} {b : UInt8}

section

variable (ascii : b < 0x80)
include ascii

/-- A call that reads an ASCII byte. -/
theorem reads_byte (called : ∀ lx, lx.rune = b.toNat → s.call u lx = lx.skip.goto s') :
    Reads u s ⟨before, tok, b :: rest, stack⟩ [] s' ⟨before, tok ++ [b], rest, stack⟩ := by
  apply Reads.goto
  intro lx here
  exact ⟨lx.skip, called lx (here.rune rfl ascii), here.skip rfl ascii⟩

/-- A call that looks at an ASCII byte. -/
theorem reads_ahead (called : ∀ lx, lx.rune = b.toNat → s.call u lx = lx.seen.goto s') :
    Reads u s ⟨before, tok, b :: rest, stack⟩ [] s' ⟨before, tok, b :: rest, stack⟩ := by
  apply Reads.goto
  intro lx here
  exact ⟨lx.seen, called lx (here.rune rfl ascii), here.seen⟩

/-- A call that looks at an ASCII byte and keeps the state to come back to. -/
theorem reads_push {back : StateFn}
    (called : ∀ lx, lx.rune = b.toNat → s.call u lx = (lx.seen.push back).goto s') :
    Reads u s ⟨before, tok, b :: rest, stack⟩ [] s' ⟨before, tok, b :: rest, back :: stack⟩ := by
  apply Reads.goto
  intro lx here
  exact ⟨lx.seen.push back, called lx (here.rune rfl ascii), here.seen.push back⟩

/-- A call that starts a token with an ASCII byte. -/
theorem reads_first (called : ∀ lx, lx.rune = b.toNat → s.call u lx = lx.seen.ignore.skip.goto s') :
    Reads u s ⟨before, [], b :: rest, stack⟩ [] s' ⟨before, [b], rest, stack⟩ := by
  apply Reads.goto
  intro lx here
  have there := here.seen.ignore.skip rfl ascii
  rw [Spot.drop, append_nil] at there
  exact ⟨lx.seen.ignore.skip, called lx (here.rune rfl ascii), there⟩

/-- A call that reads an ASCII byte and starts a new token. -/
theorem reads_ignore (called : ∀ lx, lx.rune = b.toNat → s.call u lx = lx.skip.ignore.goto s') :
    Reads u s ⟨before, tok, b :: rest, stack⟩ [] s' ⟨before ++ tok ++ [b], [], rest, stack⟩ := by
  apply Reads.goto
  intro lx here
  have there := (here.skip rfl ascii).ignore
  rw [Spot.drop, ← append_assoc] at there
  exact ⟨lx.skip.ignore, called lx (here.rune rfl ascii), there⟩

theorem reads_skip (called : ∀ lx, lx.rune = b.toNat → s.call u lx = lx.skip.gotoSkip s') :
    Reads u s ⟨before, tok, b :: rest, stack⟩ [] s' ⟨before ++ tok ++ [b], [], rest, stack⟩ := by
  have there := (@reads_byte u s _ before tok rest stack b ascii called).trans (Reads.skip u s' _)
  rw [Spot.drop, ← append_assoc] at there
  exact there

end

end

/-- A state that goes on reading over the runes of a text does so up to the first byte of `mark`. -/
theorem reads_over {u : Unicode} {s : StateFn} {before tok text rest : Bytes} {mark : UInt8}
    {stack : List StateFn} (ascii : mark < 0x80)
    (step : ∀ lx, (∃ b ∈ text, lx.rune = b.toNat ∨ 0x80 ≤ b ∧ 0x80 ≤ lx.rune) →
      s.call u lx = lx.skip.goto s) :
    Reads u s ⟨before, tok, text ++ mark :: rest, stack⟩ [] s
      ⟨before, tok ++ text, mark :: rest, stack⟩ := by
  -- the text gets shorter by the width of a rune, which stops before the mark
  induction size : text.length using Nat.strong_induction_on generalizing tok text with
  | _ length ih =>
  rcases text with _ | ⟨b, text⟩
  · rw [append_nil]
    exact .refl u s _
  · have nonempty : (b :: text) ++ mark :: rest ≠ [] := by simp
    have pos := decodeRune_pos nonempty
    have bound := @decodeRune_le_of_ascii (b :: text) rest mark (by simp) ascii
    generalize width : (decodeRune ((b :: text) ++ mark :: rest)).2 = w at pos bound
    have first : Reads u s ⟨before, tok, (b :: text) ++ mark :: rest, stack⟩ [] s
        ⟨before, tok ++ (b :: text).take w, (b :: text).drop w ++ mark :: rest, stack⟩ := by
      apply Reads.goto
      intro lx here
      refine ⟨lx.skip, step lx ?_, ?_⟩
      · rw [here.rune_eq nonempty]
        refine ⟨b, mem_cons_self, ?_⟩
        by_cases small : b < 0x80
        · left
          dsimp only
          rw [cons_append, decodeRune_ascii small]
        · right
          exact ⟨UInt8.not_lt.mp small, (wideRune small (text ++ mark :: rest)).rune⟩
      · have read := here.skip_rune nonempty
        dsimp only at read
        rw [width, Spot.next] at read
        dsimp only at read
        rw [take_append_of_le_length bound, drop_append_of_le_length bound] at read
        exact read
    have step' : ∀ lx, (∃ c ∈ (b :: text).drop w, lx.rune = c.toNat ∨ 0x80 ≤ c ∧ 0x80 ≤ lx.rune) →
        s.call u lx = lx.skip.goto s := by
      rintro lx ⟨c, mem, read⟩
      exact step lx ⟨c, mem_of_mem_drop mem, read⟩
    have shorter : ((b :: text).drop w).length < length := by
      rw [length_drop]
      omega
    have later := @ih _ shorter (tok ++ (b :: text).take w) _ step' rfl
    rw [append_assoc, take_append_drop] at later
    exact first.trans later

end Hnatsd.Conf
