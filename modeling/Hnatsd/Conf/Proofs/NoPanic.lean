import Hnatsd.Conf.Proofs.ParserStacks

/-!
# When parsing does not panic

The state stack of the lexer and the two stacks of the parser stay aligned through a parse, so the
one panic left is that of `isVariable` at an empty value at the end of a text. The texts are the one
given and those that it makes the parser parse, directly or through others.
-/

namespace Hnatsd.Conf

open Hnatsd.Misc Lexer

/-- Parsing the one text can lead to parsing the other; a text comes with its directory. -/
def Refers (u : Unicode) (env : Env) (text text' : Bytes × Bytes) : Prop :=
  ∃ it, Sent u text.1 it ∧ References env text.2 it text'.1 text'.2

/-- A text and all others that parsing it can lead to. -/
def Parses (u : Unicode) (env : Env) : Bytes × Bytes → Bytes × Bytes → Prop :=
  Relation.ReflTransGen (Refers u env)

variable {u : Unicode} {env : Env} {data : Bytes} {p : Parser} {scan : Scan} {shape : Shape}

/-- Where the lexer has come to, with the items that still wait. -/
structure Scanned (u : Unicode) (data : Bytes) (scan : Scan) : Prop where
  sent : ∀ it ∈ scan.items, Sent u data it
  reached : ∀ state, scan.state = some state → Reached u data scan.lx state

theorem Scanned.init (u : Unicode) (data : Bytes) : Scanned u data (Scan.init data) where
  sent := nofun
  reached := by
    rintro state ⟨⟩
    exact .init

theorem Scanned.poll (scanned : Scanned u data scan) :
    match scan.poll u with
    | .item it scan' => Sent u data it ∧ Scanned u data scan'
    | .called scan' => Scanned u data scan'
    | .panic _ => True := by
  obtain ⟨lx, state, items⟩ := scan
  obtain ⟨sent, reached⟩ := scanned
  rcases items with _ | ⟨it, items⟩
  · rcases state with _ | state
    · trivial
    · have here := reached state rfl
      rcases fault : (state.call u lx).lx.fault with _ | fault
      · simp only [Scan.poll, fault]
        exact ⟨fun it mem => ⟨lx, state, here, fault, mem⟩, fun state' next => here.call fault next⟩
      · simp only [Scan.poll, fault]
  · exact ⟨sent it List.mem_cons_self, fun other mem => sent other (List.mem_cons_of_mem _ mem),
      reached⟩

/-- All that `nextItem` returns was sent. -/
theorem Scanned.sent_of_ended {turns : Nat} {seen all : List Item} (scanned : Scanned u data scan)
    (before : ∀ it ∈ seen, Sent u data it) (ended : lexAll u turns seen scan = .ended all) :
    ∀ it ∈ all, Sent u data it := by
  induction turns generalizing seen scan with
  | zero => cases ended
  | succ turns ih =>
    have polled := scanned.poll
    rw [lexAll] at ended
    split at ended
    · next it scan' item =>
      rw [item] at polled
      have before' : ∀ other ∈ seen ++ [it], Sent u data other := by
        intro other mem
        rcases List.mem_append.mp mem with old | new
        · exact before other old
        · rw [List.mem_singleton.mp new]
          exact polled.1
      split at ended
      · cases ended
        exact before'
      · exact ih polled.2 before' ended
    · next scan' called =>
      rw [called] at polled
      exact ih polled before ended
    · cases ended

/-- The lexer stands where the items returned so far make `shape`. -/
structure Standing (u : Unicode) (data : Bytes) (scan : Scan) (shape : Shape) : Prop where
  scanned : Scanned u data scan
  isOpen : shape.ended = false
  stands : ∃ shape', shape.run scan.items = some shape' ∧
    match scan.state with
    | none => shape'.ended = true
    | some state => Stands u scan.lx state shape'

theorem Standing.init (u : Unicode) (data : Bytes) : Standing u data (Scan.init data) (.filled []) where
  scanned := .init u data
  isOpen := rfl
  stands := ⟨_, rfl, rfl, rfl⟩

/-- What one turn of `nextItem` comes to. -/
theorem Standing.poll (standing : Standing u data scan shape)
    (inside : ∀ lx state, Reached u data lx state → ¬ EmptyAtEnd lx state) :
    match scan.poll u with
    | .item it scan' => ∃ shape', shape.step it.typ = some shape' ∧
        (shape'.ended = false → Standing u data scan' shape')
    | .called scan' => Standing u data scan' shape
    | .panic _ => False := by
  obtain ⟨scanned, isOpen, shape', run, stands⟩ := standing
  have polled := scanned.poll
  obtain ⟨lx, state, items⟩ := scan
  rcases items with _ | ⟨it, items⟩
  · cases run
    rcases state with _ | state
    · dsimp only at stands
      rw [isOpen] at stands
      cases stands
    · have reached := scanned.reached state rfl
      have result := goes_call u reached.stands.1 stands (inside lx state reached)
      obtain ⟨shape', run, continues⟩ := result.continues
      simp only [Scan.poll, result.ok.fault] at polled ⊢
      refine ⟨polled, isOpen, shape', run, ?_⟩
      dsimp only
      split
      · next stopped =>
        rw [stopped] at continues
        exact continues
      · next state' next =>
        rw [next] at continues
        exact continues.1
  · obtain ⟨mid, steps, run⟩ := Shape.of_run_cons run
    exact ⟨mid, steps, fun stillOpen => ⟨polled.2, stillOpen, shape', run, stands⟩⟩

/-- The items of a text make a shape. -/
theorem Standing.run {turns : Nat} {seen items : List Item} (standing : Standing u data scan shape)
    (inside : ∀ lx state, Reached u data lx state → ¬ EmptyAtEnd lx state)
    (ended : lexAll u turns seen scan = .ended (seen ++ items)) :
    ∃ shape', shape.run items = some shape' := by
  induction turns generalizing seen scan shape items with
  | zero => cases ended
  | succ turns ih =>
    have polled := standing.poll inside
    rw [lexAll] at ended
    split at ended
    · next it scan' item =>
      rw [item] at polled
      obtain ⟨mid, steps, goesOn⟩ := polled
      obtain ⟨later, rfl, goesOn'⟩ := lexAll_item ended
      rw [Shape.run, List.foldlM_cons, steps]
      rcases goesOn' with ⟨-, rfl⟩ | ⟨notLast, more⟩
      · exact ⟨mid, rfl⟩
      · refine ih (goesOn ?_) more
        rw [Bool.eq_false_iff]
        exact mt (Shape.step_ended steps).2.mp notLast
    · next scan' called =>
      rw [called] at polled
      exact ih polled ended
    · cases ended

/-- The loop does not panic where no text referred to does. -/
theorem parseLoop_no_panic {fp : Bytes} (turns : Nat)
    (nested : ∀ text, Refers u env (data, fp) text → ∀ turns' < turns, ∀ cause,
      parse u env turns' text.1 text.2 ≠ .panic cause)
    (inside : ∀ lx state, Reached u data lx state → ¬ EmptyAtEnd lx state)
    (standing : Standing u data scan shape) (fits : Fits p shape) (home : p.fp = fp)
    (cause : Panic) : parseLoop u env turns p scan ≠ .panic cause := by
  induction turns generalizing p scan shape with
  | zero => nofun
  | succ turns ih =>
    have ih' {p' : Parser} {scan' : Scan} {shape' : Shape} (standing : Standing u data scan' shape')
        (fits : Fits p' shape') (home : p'.fp = fp) :
        parseLoop u env turns p' scan' ≠ .panic cause := by
      refine ih ?_ standing fits home
      intro text refers turns' less
      exact nested text refers turns' (Nat.lt_succ_of_lt less)
    have polled := standing.poll inside
    have scanned := standing.scanned.poll
    rw [parseLoop]
    split
    · next panics =>
      rw [panics] at polled
      exact polled.elim
    · next scan' called =>
      rw [called] at polled
      exact ih' polled fits home
    · next it scan' item =>
      rw [item] at polled scanned
      obtain ⟨shape', steps, continues⟩ := polled
      split
      · nofun
      next notEOF =>
      have taken := @Fits.processItem p shape u env (parse u env turns) it shape' fits steps
      change (p.processItem u env (parse u env turns) it).bind _ ≠ _
      rcases processed : p.processItem u env (parse u env turns) it with p' | text | cause' | _
      · rw [processed] at taken
        refine ih' (continues ?_) taken.1 (taken.2.trans home)
        -- an error ends the parse, so a shape that goes on has not ended
        by_contra ended
        rw [Bool.not_eq_false, (Shape.step_ended steps).2] at ended
        rcases ended with last | error
        · exact notEOF last
        · rw [Parser.processItem, error] at processed
          cases processed
      · nofun
      · rw [processed, home] at taken
        obtain ⟨text, fp', refers, panics⟩ := taken
        exact absurd panics
          (nested (text, fp') ⟨it, scanned.1, refers⟩ turns (Nat.lt_succ_self turns) cause')
      · nofun

/-- No stack is found empty and no `nil` called: if no text that is parsed leads to an empty
unquoted value at its end, then `parse` does not panic. -/
theorem parse_no_panic (turns : Nat) {text : Bytes × Bytes}
    (inside : ∀ text', Parses u env text text' → ∀ lx state, Reached u text'.1 lx state →
      ¬ EmptyAtEnd lx state)
    (cause : Panic) : parse u env turns text.1 text.2 ≠ .panic cause := by
  induction turns using Nat.strong_induction_on generalizing text cause with
  | _ turns ih =>
  refine parseLoop_no_panic turns ?_ (inside text .refl) (.init u text.1) (.init text.2) rfl cause
  intro text' refers turns' less cause'
  refine ih turns' less ?_ cause'
  intro later parses
  exact inside later (.head refers parses)

end Hnatsd.Conf
