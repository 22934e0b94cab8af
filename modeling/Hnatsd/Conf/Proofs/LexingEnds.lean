import Hnatsd.Conf.Proofs.StateFns

/-!
# When lexing ends

Every call of a state function reads on, or comes nearer to one that does, unless it is made at the
end of the input in a state that only waits for a closing rune; such a state then calls itself for
ever. So the items come to an end exactly for the inputs that never lead there
(`lexing_ends_iff`).
-/

namespace Hnatsd.Conf

open Hnatsd.Misc Lexer List

variable {it : Item} {all items seen : List Item} {shape shape' : Shape}

/-- The calls of state functions that lexing an input leads to. -/
inductive Reached (u : Unicode) (input : Bytes) : Lexer → StateFn → Prop
  | init : Reached u input (lex input) .lexTop
  | call {lx : Lexer} {state state' : StateFn} (reached : Reached u input lx state)
      (fine : (state.call u lx).lx.fault = none) (goes : (state.call u lx).state = some state') :
      Reached u input (state.call u lx).lx state'

/-- An item that is sent when `input` is lexed, by a call that does not panic. -/
def Sent (u : Unicode) (input : Bytes) (it : Item) : Prop :=
  ∃ lx state, Reached u input lx state ∧ (state.call u lx).lx.fault = none ∧
    it ∈ (state.call u lx).items

/-- A call that waits for a closing rune when everything has been read. -/
def OpenAtEnd (lx : Lexer) (state : StateFn) : Prop := lx.atEnd = true ∧ state ∈ openStates

def ItemType.isLast (typ : ItemType) : Prop := typ = .itemEOF ∨ typ = .itemError

instance (typ : ItemType) : Decidable typ.isLast := inferInstanceAs (Decidable (_ ∨ _))

/-- `nextItem`, called from here on, comes to the last item, and these are then all. -/
def Ends (u : Unicode) (seen : List Item) (scan : Scan) (all : List Item) : Prop :=
  ∃ turns, lexAll u turns seen scan = .ended all

variable {u : Unicode} {input : Bytes} {lx : Lexer} {state : StateFn}

/-- A call that did not panic had something of the value to look at. -/
theorem inside_of_fine (ok : lx.Ok) (fine : (state.call u lx).lx.fault = none) :
    ¬ EmptyAtEnd lx state := by
  intro empty
  rw [call_fault u ok empty] at fine
  cases fine

theorem Reached.stands (reached : Reached u input lx state) :
    lx.Ok ∧ lx.input = input ∧ ∃ shape, Stands u lx state shape := by
  induction reached with
  | init => exact ⟨Ok.lex input, rfl, .filled [], rfl, rfl⟩
  | @call lx state state' reached fine goes ih =>
    obtain ⟨ok, same, shape, stands⟩ := ih
    have result := goes_call u ok stands (inside_of_fine ok fine)
    obtain ⟨shape', -, continues⟩ := result.continues
    rw [goes] at continues
    exact ⟨result.ok, result.input.trans same, shape', continues.1⟩

/-- A state that waits at the end calls itself, with nothing changed but the width. -/
theorem call_of_openAtEnd (waits : OpenAtEnd lx state) :
    state.call u lx = lx.skip.goto state := by
  obtain ⟨done, isOpen⟩ := waits
  rw [atEnd, decide_eq_true_eq] at done
  have zero := rune_of_end done
  have key (quote : Nat) (visible : quote ≠ 0) (self keyEnd : StateFn) :
      quotedKey quote self keyEnd lx = lx.skip.goto self := by
    rw [quotedKey, peek_eq]
    simp only [seen_skip]
    rw [if_neg (by rw [zero]; exact visible.symm)]
  have text (quote : Nat) (visible : quote ≠ 0) (self : StateFn) (typ : ItemType) :
      quotedText quote self typ lx = lx.skip.goto self := by
    rw [quotedText, next_eq]
    dsimp only
    rw [if_neg (by rw [zero]; exact visible.symm)]
  simp only [openStates, mem_cons, not_mem_nil, or_false] at isOpen
  rcases isOpen with rfl | rfl | rfl | rfl | rfl | rfl | rfl | rfl | rfl | rfl
  · exact key dqStringEnd (by decide) _ _
  · exact key sqStringEnd (by decide) _ _
  · exact text sqStringEnd (by decide) _ _
  · exact text dqStringEnd (by decide) _ _
  · exact key sqStringEnd (by decide) _ _
  · exact key dqStringEnd (by decide) _ _
  · show lexMapKey u lx = _
    rw [lexMapKey, peek_eq]
    simp only [seen_skip, zero]
    rfl
  · exact text sqStringEnd (by decide) _ _
  · exact text dqStringEnd (by decide) _ _
  · show lexBlock lx = _
    rw [lexBlock, next_eq]
    dsimp only
    rw [if_neg (by rw [zero]; decide)]

theorem skip_openAtEnd (waits : OpenAtEnd lx state) : OpenAtEnd lx.skip state := by
  refine ⟨?_, waits.2⟩
  have done := waits.1
  rw [atEnd, decide_eq_true_eq] at done
  rw [skip_of_end done]
  exact waits.1

/-- From there on no item comes. -/
theorem lexAll_of_openAtEnd (waits : OpenAtEnd lx state) (fine : lx.fault = none) (turns : Nat)
    (seen : List Item) : lexAll u turns seen ⟨lx, some state, []⟩ = .running seen := by
  induction turns generalizing lx with
  | zero => rfl
  | succ turns ih =>
    have polled : Scan.poll u ⟨lx, some state, []⟩ = .called ⟨lx.skip, some state, []⟩ := by
      simp only [Scan.poll, call_of_openAtEnd waits, goto, skip_fault, fine]
    rw [lexAll, polled]
    exact ih (skip_openAtEnd waits) (by rw [skip_fault, fine])

/-- Items that are not last are passed on before the next call. -/
theorem ends_drain {rest : Option StateFn}
    (more : ∀ it ∈ items, ¬ it.typ.isLast) :
    Ends u seen ⟨lx, rest, items⟩ all ↔ Ends u (seen ++ items) ⟨lx, rest, []⟩ all := by
  induction items generalizing seen with
  | nil => rw [append_nil]
  | cons it items ih =>
    have notLast : ¬ (it.typ = .itemEOF ∨ it.typ = .itemError) := more it mem_cons_self
    have step (turns : Nat) : lexAll u (turns + 1) seen ⟨lx, rest, it :: items⟩ =
        lexAll u turns (seen ++ [it]) ⟨lx, rest, items⟩ := by
      rw [lexAll]
      simp only [Scan.poll, if_neg notLast]
    have tail := @ih (seen ++ [it]) fun it mem => more it (mem_cons_of_mem _ mem)
    rw [append_assoc, singleton_append] at tail
    rw [← tail]
    constructor
    · rintro ⟨turns, ended⟩
      cases turns with
      | zero => cases ended
      | succ turns => exact ⟨turns, by rw [← step, ended]⟩
    · rintro ⟨turns, ended⟩
      exact ⟨turns + 1, by rw [step, ended]⟩

theorem ends_of_last {rest : Option StateFn}
    (more : ∀ it ∈ items, ¬ it.typ.isLast) (last : it.typ.isLast) :
    Ends u seen ⟨lx, rest, items ++ [it]⟩ all ↔ all = seen ++ (items ++ [it]) := by
  induction items generalizing seen with
  | nil =>
    have step (turns : Nat) :
        lexAll u (turns + 1) seen ⟨lx, rest, [it]⟩ = .ended (seen ++ [it]) := by
      rw [lexAll]
      exact if_pos last
    constructor
    · rintro ⟨turns, ended⟩
      cases turns with
      | zero => cases ended
      | succ turns =>
        rw [nil_append, step] at ended
        cases ended
        rfl
    · rintro rfl
      exact ⟨1, step 0⟩
  | cons first items ih =>
    have notLast : ¬ (first.typ = .itemEOF ∨ first.typ = .itemError) := more first mem_cons_self
    have step (turns : Nat) : lexAll u (turns + 1) seen ⟨lx, rest, first :: (items ++ [it])⟩ =
        lexAll u turns (seen ++ [first]) ⟨lx, rest, items ++ [it]⟩ := by
      rw [lexAll]
      simp only [Scan.poll, if_neg notLast]
    have tail := @ih (seen ++ [first]) fun it mem => more it (mem_cons_of_mem _ mem)
    rw [append_assoc, singleton_append] at tail
    rw [cons_append, ← tail]
    constructor
    · rintro ⟨turns, ended⟩
      cases turns with
      | zero => cases ended
      | succ turns => exact ⟨turns, by rw [← step, ended]⟩
    · rintro ⟨turns, ended⟩
      exact ⟨turns + 1, by rw [step, ended]⟩

namespace Shape

/-- The last item ends a shape, and no other item does. -/
theorem step_ended {typ : ItemType}
    (steps : shape.step typ = some shape') :
    shape.ended = false ∧ (shape'.ended = true ↔ typ.isLast) := by
  unfold step at steps
  split at steps
  · cases steps
  · next isOpen =>
    rw [Bool.not_eq_true] at isOpen
    refine ⟨isOpen, ?_⟩
    cases typ <;> dsimp only at steps <;> (try split at steps) <;> cases steps <;>
      simp [ItemType.isLast, isOpen, filled]

/-- Nothing follows the last item. -/
theorem run_ended (ended : shape.ended = true)
    (run : shape.run items = some shape') : items = [] := by
  cases items with
  | nil => rfl
  | cons next items =>
    obtain ⟨after, taken, -⟩ := of_run_cons run
    rw [(step_ended taken).1] at ended
    cases ended

theorem run_last (isOpen : shape.ended = false)
    (run : shape.run items = some shape') :
    (shape'.ended = false → ∀ it ∈ items, ¬ it.typ.isLast) ∧
      (shape'.ended = true → ∃ before it, items = before ++ [it] ∧ it.typ.isLast ∧
        ∀ it ∈ before, ¬ it.typ.isLast) := by
  induction items generalizing shape with
  | nil =>
    cases run
    refine ⟨fun _ => by simp, fun ended => ?_⟩
    rw [isOpen] at ended
    cases ended
  | cons it items ih =>
    obtain ⟨mid, steps, run⟩ := of_run_cons run
    obtain ⟨-, last⟩ := step_ended steps
    rcases ended : mid.ended with _ | _
    · have notLast : ¬ it.typ.isLast := by
        rw [← last, ended]
        decide
      obtain ⟨goesOn, ends⟩ := ih ended run
      refine ⟨fun still => ?_, fun ended' => ?_⟩
      · rw [forall_mem_cons]
        exact ⟨notLast, goesOn still⟩
      · obtain ⟨before, final, rfl, isLast, others⟩ := ends ended'
        refine ⟨it :: before, final, rfl, isLast, ?_⟩
        rw [forall_mem_cons]
        exact ⟨notLast, others⟩
    · have nothing := run_ended ended run
      subst nothing
      cases run
      refine ⟨fun still => ?_, fun _ => ⟨[], it, rfl, last.mp ended, by simp⟩⟩
      rw [still] at ended
      cases ended

end Shape

/-- What a call leaves to be done, and which items it adds. -/
theorem ends_call (ok : lx.Ok)
    (stands : Stands u lx state shape) (inside : ¬ EmptyAtEnd lx state) :
    Ends u seen ⟨lx, some state, []⟩ all ↔
      match (state.call u lx).state with
      | none => all = seen ++ (state.call u lx).items
      | some state' =>
          Ends u (seen ++ (state.call u lx).items) ⟨(state.call u lx).lx, some state', []⟩ all := by
  have result := goes_call u ok stands inside
  obtain ⟨shape', run, continues⟩ := result.continues
  obtain ⟨more, last⟩ := Shape.run_last stands.not_ended run
  have polled : Scan.poll u ⟨lx, some state, []⟩ =
      .called ⟨(state.call u lx).lx, (state.call u lx).state, (state.call u lx).items⟩ := by
    simp only [Scan.poll, result.ok.fault]
  have called : Ends u seen ⟨lx, some state, []⟩ all ↔ Ends u seen
      ⟨(state.call u lx).lx, (state.call u lx).state, (state.call u lx).items⟩ all := by
    constructor
    · rintro ⟨turns, ended⟩
      cases turns with
      | zero => cases ended
      | succ turns =>
        rw [lexAll, polled] at ended
        exact ⟨turns, ended⟩
    · rintro ⟨turns, ended⟩
      refine ⟨turns + 1, ?_⟩
      rw [lexAll, polled]
      exact ended
  rw [called]
  split
  · next stopped =>
    rw [stopped] at continues
    obtain ⟨before, it, eq, isLast, others⟩ := last continues
    rw [eq]
    exact ends_of_last others isLast
  · next state' goes =>
    rw [goes] at continues ⊢
    exact ends_drain (more continues.1.not_ended)

/-- Lexing that ends has ended from everywhere it has been. -/
theorem Reached.ends (reached : Reached u input lx state)
    (ends : Ends u [] (Scan.init input) all) : ∃ seen, Ends u seen ⟨lx, some state, []⟩ all := by
  induction reached with
  | init => exact ⟨[], ends⟩
  | @call lx state state' reached fine goes ih =>
    obtain ⟨seen, ends⟩ := ih
    obtain ⟨ok, -, shape, stands⟩ := reached.stands
    rw [ends_call ok stands (inside_of_fine ok fine), goes] at ends
    exact ⟨_, ends⟩

/-- Lexing that ends has not been where it could not go on. -/
theorem Reached.closed (reached : Reached u input lx state)
    (ends : Ends u [] (Scan.init input) all) : ¬ OpenAtEnd lx state ∧ ¬ EmptyAtEnd lx state := by
  obtain ⟨seen, turns, ended⟩ := reached.ends ends
  obtain ⟨ok, -, -⟩ := reached.stands
  refine ⟨fun waits => ?_, fun empty => ?_⟩
  · rw [lexAll_of_openAtEnd waits ok.fault] at ended
    cases ended
  · cases turns with
    | zero => cases ended
    | succ turns =>
      rw [lexAll, Scan.poll] at ended
      simp only [call_fault u ok empty] at ended
      cases ended

/-- Items are only added. -/
theorem lexAll_extends {turns : Nat} {scan : Scan}
    (came : lexAll u turns seen scan = .ended all ∨ lexAll u turns seen scan = .running all) :
    seen <+: all := by
  induction turns generalizing seen scan with
  | zero =>
    rcases came with ended | running
    · cases ended
    · cases running
      exact prefix_refl _
  | succ turns ih =>
    rw [lexAll] at came
    split at came
    · split at came
      · rcases came with ended | running
        · cases ended
          exact prefix_append _ _
        · cases running
      · exact (prefix_append _ _).trans (ih came)
    · exact ih came
    · rcases came with ended | running
      · cases ended
      · cases running

/-- The item that is returned next is the next one of the list. -/
theorem lexAll_item {turns : Nat} {scan' : Scan}
    (ended : (if it.typ = .itemEOF ∨ it.typ = .itemError then LexEnd.ended (seen ++ [it])
      else lexAll u turns (seen ++ [it]) scan') = .ended (seen ++ items)) :
    ∃ later, items = it :: later ∧ ((it.typ.isLast ∧ later = []) ∨
      (¬ it.typ.isLast ∧ lexAll u turns (seen ++ [it]) scan' = .ended (seen ++ [it] ++ later))) := by
  split at ended
  · next last =>
    rw [LexEnd.ended.injEq, append_cancel_left_eq] at ended
    exact ⟨[], ended.symm, Or.inl ⟨last, rfl⟩⟩
  · next notLast =>
    obtain ⟨later, eq⟩ := lexAll_extends (Or.inl ended)
    rw [← eq] at ended
    rw [append_assoc, append_cancel_left_eq] at eq
    exact ⟨later, eq.symm, Or.inr ⟨notLast, ended⟩⟩

/-- Lexing that ends has returned all that was sent. -/
theorem Sent.mem (sent : Sent u input it)
    (ends : Ends u [] (Scan.init input) all) : it ∈ all := by
  obtain ⟨lx, state, reached, -, mem⟩ := sent
  obtain ⟨seen, rest⟩ := reached.ends ends
  obtain ⟨ok, -, shape, stands⟩ := reached.stands
  rw [ends_call ok stands (reached.closed ends).2] at rest
  split at rest
  · rw [rest]
    exact mem_append_right seen mem
  · obtain ⟨turns, ended⟩ := rest
    exact (lexAll_extends (Or.inl ended)).subset (mem_append_right seen mem)

/-- The measure that each call lowers: what is left to read, and then the rank. -/
theorem ends_of_reached
    (closed : ∀ lx state, Reached u input lx state → ¬ OpenAtEnd lx state ∧ ¬ EmptyAtEnd lx state)
    (reached : Reached u input lx state) (seen : List Item) :
    ∃ all, Ends u seen ⟨lx, some state, []⟩ all := by
  induction left : input.length - lx.pos using Nat.strong_induction_on generalizing lx state seen with
  | _ left ihLeft =>
  induction rank : state.rank lx.atEnd using Nat.strong_induction_on generalizing lx state seen with
  | _ rank ihRank =>
  obtain ⟨ok, same, shape, stands⟩ := reached.stands
  obtain ⟨notOpen, inside⟩ := closed lx state reached
  have result := goes_call u ok stands inside
  obtain ⟨shape', -, continues⟩ := result.continues
  simp only [ends_call ok stands inside]
  rcases goes : (state.call u lx).state with _ | state'
  · exact ⟨_, rfl⟩
  rw [goes] at continues
  have reached' := reached.call result.ok.fault goes
  rcases continues.2 with read | ⟨stays, lower⟩ | ⟨-, done, -, isOpen⟩
  · have bound := result.ok.pos
    rw [result.input, same] at bound
    exact ihLeft _ (by omega) reached' _ rfl
  · have sameEnd : (state.call u lx).lx.atEnd = lx.atEnd := by
      rw [atEnd, atEnd, result.input, stays]
    refine ihRank _ ?_ reached' _ (by rw [stays, left]) rfl
    rw [sameEnd, ← rank]
    exact lower
  · exact absurd ⟨done, isOpen⟩ notOpen

/-- Lexing comes to `itemEOF` or `itemError` exactly if it is never, with everything read, waiting
for a closing quote, the end of a block or of a key in a map, nor at an empty unquoted value. -/
theorem lexing_ends_iff (u : Unicode) (input : Bytes) :
    (∃ turns items, lexAll u turns [] (Scan.init input) = .ended items) ↔
      ∀ lx state, Reached u input lx state → ¬ OpenAtEnd lx state ∧ ¬ EmptyAtEnd lx state := by
  constructor
  · rintro ⟨turns, items, ended⟩ lx state reached
    exact reached.closed ⟨turns, ended⟩
  · intro closed
    obtain ⟨items, turns, ended⟩ := ends_of_reached closed .init []
    exact ⟨turns, items, ended⟩

/-- A key whose quote is not closed is read for ever. -/
theorem unclosed_key_never_ends :
    ¬ ∃ u turns items, lexAll u turns [] (Scan.init (bytesOf "'k")) = .ended items := by
  rintro ⟨u, turns, items, ended⟩
  have start : Reached u (bytesOf "'k") _ .lexKeyStart := .call .init rfl rfl
  have quote : Reached u (bytesOf "'k") _ (.lexSkip .lexQuotedKey) := .call start rfl rfl
  have skipped : Reached u (bytesOf "'k") _ .lexQuotedKey := .call quote rfl rfl
  have waits : Reached u (bytesOf "'k") _ .lexQuotedKey := .call skipped rfl rfl
  exact (waits.closed ⟨turns, ended⟩).1 ⟨rfl, by decide⟩

end Hnatsd.Conf
