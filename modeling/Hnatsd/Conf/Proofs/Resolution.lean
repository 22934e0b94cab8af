import Hnatsd.Conf.Proofs.Items
import Hnatsd.Conf.Proofs.Tables

/-!
# When a parse returns

A parse returns if lexing each text ends that it leads to and no chain of references among them goes
on for ever. The code has no check for such a chain.
-/

namespace Hnatsd.Conf

open Hnatsd.Misc Lexer

/-- The outcome of a call that returned. -/
def Outcome.ofExcept {α : Type} : Except Bytes α → Outcome α
  | .ok a => .ok a
  | .error text => .error text

/-- A call that returns a map or an error. -/
def Returns (call : Nat → Outcome Mapping) : Prop :=
  ∃ bound result, ∀ turns ≥ bound, call turns = .ofExcept result

/-- Everything a parse can lead to comes to an end: each text when it is lexed, and each chain of
references. -/
structure Resolves (u : Unicode) (env : Env) (text : Bytes × Bytes) : Prop where
  lexed : ∀ text', Parses u env text text' → ∃ all, Ends u [] (Scan.init text'.1) all
  founded : Acc (fun text' text => Refers u env text text') text

section

variable {u : Unicode} {env : Env} {p : Parser} {it : Item}

/-- A step of the parser that has been made, and in the same directory. -/
def Settled (fp : Bytes) : Outcome Parser → Prop
  | .ok p => p.fp = fp
  | .running => False
  | .error _ => True
  | .panic _ => True

theorem settled_setValue (p : Parser) (val : Value) : Settled p.fp (p.setValue val) := by
  unfold Parser.setValue
  split
  · exact rfl
  · split
    · trivial
    · exact rfl

theorem Settled.bind {outcome : Outcome Parser} {andThen : Parser → Outcome Parser} {fp : Bytes}
    (settled : Settled fp outcome) (later : ∀ p', p'.fp = fp → Settled fp (andThen p')) :
    Settled fp (outcome.bind andThen) := by
  cases outcome with
  | ok p' => exact later p' settled
  | running => exact settled
  | error => trivial
  | panic => trivial

theorem settled_close (p : Parser) (val : Value) :
    Settled p.fp (p.popContext.bind fun popped => popped.setValue val) := by
  apply Settled.bind
  · unfold Parser.popContext
    split
    · trivial
    · exact rfl
  · intro popped same
    rw [← same]
    exact settled_setValue popped val

theorem settled_setAll (p : Parser) (m : Mapping) : Settled p.fp (p.setAll m) := by
  induction m generalizing p with
  | nil => exact rfl
  | cons entry m ih =>
    apply Settled.bind (settled_setValue (p.pushKey entry.1) entry.2)
    intro p' same
    rw [← same]
    exact ih p'

theorem settled_integer (p : Parser) (it : Item) : Settled p.fp (p.processInteger u it) := by
  unfold Parser.processInteger
  dsimp only
  split
  · trivial
  · trivial
  · split
    · exact settled_setValue p _
    · exact rfl

theorem lookupVariable_returns (parse : Bytes → Bytes → Outcome Mapping)
    (isVariable : it.typ = .itemVariable)
    (nested : ∀ data fp, References env p.fp it data fp → parse data fp ≠ .running) :
    p.lookupVariable env parse it.val ≠ .running := by
  unfold Parser.lookupVariable
  split
  · nofun
  · next plain =>
    split
    · nofun
    · unfold lookupEnvironment
      split
      · nofun
      · next vStr found =>
        have returned := nested (pkText vStr) []
          (Or.inl ⟨isVariable, Bool.eq_false_iff.mpr plain, vStr, found, rfl, rfl⟩)
        split
        · nofun
        · nofun
        · nofun
        · next running => exact absurd running returned

/-- An item is processed to an end when the text it refers to is parsed to one. -/
theorem processItem_settled (parse : Bytes → Bytes → Outcome Mapping)
    (nested : ∀ data fp, References env p.fp it data fp → parse data fp ≠ .running) :
    Settled p.fp (p.processItem u env parse it) := by
  unfold Parser.processItem
  cases typ : it.typ <;> dsimp only
  case itemError | itemKey | itemMapStart | itemArrayStart | itemNIL | itemEOF | itemText
      | itemCommentStart =>
    trivial
  case itemMapEnd | itemArrayEnd => exact settled_close p _
  case itemString => exact settled_setValue p _
  case itemInteger => exact settled_integer p it
  case itemFloat =>
    split
    · trivial
    · trivial
    · exact settled_setValue p _
  case itemBool =>
    split
    · exact settled_setValue p _
    · split
      · exact settled_setValue p _
      · trivial
  case itemDatetime =>
    split
    · trivial
    · exact settled_setValue p _
  case itemVariable =>
    have returned := lookupVariable_returns parse typ nested
    rcases looked : p.lookupVariable env parse it.val with (_ | value) | _ | _ | _
    · trivial
    · exact settled_setValue p value
    · trivial
    · trivial
    · exact absurd looked returned
  case itemInclude =>
    rcases parsed : parseFileWith env parse (env.join p.fp it.val) with m | _ | _ | _
    · exact settled_setAll p m
    · trivial
    · trivial
    · unfold parseFileWith at parsed
      split at parsed
      · cases parsed
      · next data read => exact nested _ _ (Or.inr ⟨typ, read, rfl⟩) parsed

/-- The loop returns after the turns that lexing takes, if within the turns on top of that every
text that an item refers to has been parsed. -/
theorem parseLoop_returns {turns extra : Nat} {fp : Bytes} {scan : Scan} {seen all : List Item}
    (ended : lexAll u turns seen scan = .ended all)
    (nested : ∀ it ∈ all, ∀ data fp', References env fp it data fp' →
      parse u env extra data fp' ≠ .running)
    (home : p.fp = fp) : parseLoop u env (turns + extra) p scan ≠ .running := by
  induction turns generalizing seen scan p with
  | zero => cases ended
  | succ turns ih =>
    rw [lexAll] at ended
    rw [Nat.add_right_comm, parseLoop]
    split
    · rintro ⟨⟩
    · next scan' called =>
      rw [called] at ended
      exact ih ended home
    · next it scan' item =>
      rw [item] at ended
      dsimp only at ended
      split
      · rintro ⟨⟩
      next notEOF =>
      change (p.processItem u env (parse u env (turns + extra)) it).bind _ ≠ _
      by_cases error : it.typ = .itemError
      · rw [Parser.processItem, error]
        rintro ⟨⟩
      · rw [if_neg (not_or.mpr ⟨notEOF, error⟩)] at ended
        have mem : it ∈ all := (lexAll_extends (Or.inl ended)).subset (by simp)
        have settled := @processItem_settled u env p it (parse u env (turns + extra)) ?_
        · rw [home] at settled
          rcases processed : p.processItem u env (parse u env (turns + extra)) it with p' | _ | _ | _
          · rw [processed] at settled
            exact ih ended settled
          · rintro ⟨⟩
          · rintro ⟨⟩
          · rw [processed] at settled
            exact settled.elim
        · intro data fp' refers running
          rw [home] at refers
          have returned := nested it mem data fp' refers
          rw [(parse_below (Nat.le_add_left extra turns) data fp').eq returned] at running
          exact returned running

/-- An item refers to one text at most. -/
theorem References.unique {fp data fp₁ data' fp₂ : Bytes} (refers : References env fp it data fp₁)
    (refers' : References env fp it data' fp₂) : data = data' ∧ fp₁ = fp₂ := by
  rcases refers with ⟨var, -, vStr, found, rfl, rfl⟩ | ⟨incl, read, rfl⟩ <;>
    rcases refers' with ⟨var', -, vStr', found', rfl, rfl⟩ | ⟨incl', read', rfl⟩
  · rw [found] at found'
    cases found'
    exact ⟨rfl, rfl⟩
  · rw [var] at incl'
    cases incl'
  · rw [incl] at var'
    cases var'
  · rw [read] at read'
    cases read'
    exact ⟨rfl, rfl⟩

/-- Enough turns for one item after the other are enough for all. -/
theorem exists_turns_all (fp : Bytes) (items : List Item)
    (each : ∀ it ∈ items, ∀ data fp', References env fp it data fp' →
      ∃ turns, parse u env turns data fp' ≠ .running) :
    ∃ extra, ∀ it ∈ items, ∀ data fp', References env fp it data fp' →
      parse u env extra data fp' ≠ .running := by
  induction items with
  | nil => exact ⟨0, nofun⟩
  | cons it items ih =>
    obtain ⟨extra, rest⟩ := ih fun it mem => each it (List.mem_cons_of_mem _ mem)
    obtain ⟨turns, first⟩ : ∃ turns, ∀ data fp', References env fp it data fp' →
        parse u env turns data fp' ≠ .running := by
      by_cases refers : ∃ data fp', References env fp it data fp'
      · obtain ⟨data, fp', refers⟩ := refers
        obtain ⟨turns, returned⟩ := each it List.mem_cons_self data fp' refers
        refine ⟨turns, fun other fp'' also => ?_⟩
        obtain ⟨rfl, rfl⟩ := refers.unique also
        exact returned
      · exact ⟨0, fun data fp' also => absurd ⟨data, fp', also⟩ refers⟩
    have longer {turns' : Nat} (le : turns' ≤ max turns extra) (data fp' : Bytes)
        (returned : parse u env turns' data fp' ≠ .running) :
        parse u env (max turns extra) data fp' ≠ .running := by
      rw [(parse_below le data fp').eq returned]
      exact returned
    refine ⟨max turns extra, fun other mem data fp' refers => ?_⟩
    rcases List.mem_cons.mp mem with rfl | later
    · exact longer (Nat.le_max_left _ _) data fp' (first data fp' refers)
    · exact longer (Nat.le_max_right _ _) data fp' (rest other later data fp' refers)

variable {text : Bytes × Bytes}

theorem Resolves.next {text' : Bytes × Bytes} (resolves : Resolves u env text)
    (refers : Refers u env text text') : Resolves u env text' :=
  ⟨fun later parses => resolves.lexed later (.head refers parses), resolves.founded.inv refers⟩

/-- The recursion is on the references. -/
theorem Resolves.exists_turns (resolves : Resolves u env text) :
    ∃ turns, parse u env turns text.1 text.2 ≠ .running := by
  induction resolves.founded with
  | intro text _ ih =>
    obtain ⟨all, turns, ended⟩ := resolves.lexed text .refl
    have each : ∀ it ∈ all, ∀ data fp', References env text.2 it data fp' →
        ∃ turns, parse u env turns data fp' ≠ .running := by
      intro it mem data fp' refers
      have sent : Sent u text.1 it := (Scanned.init u text.1).sent_of_ended (by simp) ended it mem
      exact ih (data, fp') ⟨it, sent, refers⟩ (resolves.next ⟨it, sent, refers⟩)
    obtain ⟨extra, nested⟩ := exists_turns_all text.2 all each
    exact ⟨turns + extra, parseLoop_returns ended nested rfl⟩

/-- A text resolves if the items it is lexed to refer to texts that do. -/
theorem Resolves.of_items {turns : Nat} {all : List Item}
    (ended : lexAll u turns [] (Scan.init text.1) = .ended all)
    (later : ∀ it ∈ all, ∀ data fp, References env text.2 it data fp → Resolves u env (data, fp)) :
    Resolves u env text := by
  have next (text' : Bytes × Bytes) (refers : Refers u env text text') : Resolves u env text' := by
    obtain ⟨it, sent, refers⟩ := refers
    exact later it (sent.mem ⟨turns, ended⟩) text'.1 text'.2 refers
  refine ⟨fun text' parses => ?_, ⟨text, fun text' refers => (next text' refers).founded⟩⟩
  rcases Relation.ReflTransGen.cases_head parses with rfl | ⟨mid, refers, rest⟩
  · exact ⟨all, turns, ended⟩
  · exact (next mid refers).lexed text' rest

theorem Resolves.inside (resolves : Resolves u env text) :
    ∀ text', Parses u env text text' → ∀ lx state, Reached u text'.1 lx state →
      ¬ EmptyAtEnd lx state := by
  intro text' parses lx state reached
  obtain ⟨all, ends⟩ := resolves.lexed text' parses
  exact (reached.closed ends).2

theorem Resolves.returns (resolves : Resolves u env text) :
    Returns fun turns => parse u env turns text.1 text.2 := by
  obtain ⟨bound, returned⟩ := resolves.exists_turns
  have same (turns : Nat) (le : bound ≤ turns) :=
    (@parse_below u env bound turns le text.1 text.2).eq returned
  rcases outcome : parse u env bound text.1 text.2 with m | err | cause | _
  · exact ⟨bound, .ok m, fun turns le => (same turns le).trans outcome⟩
  · exact ⟨bound, .error err, fun turns le => (same turns le).trans outcome⟩
  · exact absurd outcome (parse_no_panic bound resolves.inside cause)
  · exact absurd outcome returned

end

/-- An environment with one variable `A` and one file `a`. -/
def smallEnv (value file : Bytes) : Env where
  readFile path := if path = bytesOf "a" then .ok file else .error (bytesOf "no such file")
  lookupEnv name := if name = bytesOf "A" then some value else none
  parseFloat _ := .error .errSyntax
  parseTime _ := none
  dir _ := bytesOf "."
  join _ name := name

/-- The items of an entry whose value is the variable `A`. -/
def referenceItems (key : Bytes) : List Item :=
  [⟨.itemKey, key, 1⟩, ⟨.itemVariable, bytesOf "A", 1⟩, ⟨.itemEOF, [], 1⟩]

def includeItems : List Item := [⟨.itemInclude, bytesOf "a", 1⟩, ⟨.itemEOF, [], 2⟩]

theorem lex_reference (u : Unicode) :
    lexAll u 15 [] (Scan.init (bytesOf "x=$A")) = .ended (referenceItems (bytesOf "x")) :=
  ends_ascii (by decide) 15 (by decide)

theorem lex_pkReference (u : Unicode) :
    lexAll u 15 [] (Scan.init (pkText (bytesOf "$A"))) = .ended (referenceItems (bytesOf "pk")) :=
  ends_ascii (by decide) 15 (by decide)

theorem lex_include (u : Unicode) :
    lexAll u 19 [] (Scan.init (bytesOf "include a\n")) = .ended includeItems :=
  ends_ascii (by decide) 19 (by decide)

section

variable {u : Unicode} {value file : Bytes} {parse : Bytes → Bytes → Outcome Mapping}

/-- An entry whose value is the variable `A` gets no further than the value of `A` does. -/
theorem processItems_reference (key fp : Bytes) :
    (parse (pkText value) [] = .running → (Parser.init fp).processItems u (smallEnv value file) parse
      (referenceItems key) = .running) ∧
    ∀ cause, parse (pkText value) [] = .panic cause → (Parser.init fp).processItems u
      (smallEnv value file) parse (referenceItems key) = .panic cause := by
  have looked : ((Parser.init fp).pushKey key).lookupVariable (smallEnv value file) parse
      (bytesOf "A") = lookupEnvironment (smallEnv value file) parse (bytesOf "A") := by
    rw [Parser.lookupVariable, if_neg (by decide)]
    rfl
  have found : (smallEnv value file).lookupEnv (bytesOf "A") = some value := by
    simp [smallEnv]
  refine ⟨fun running => ?_, fun cause panics => ?_⟩
  · simp only [referenceItems, Parser.processItems, Parser.processItem, reduceCtorEq, if_false,
      Outcome.bind, looked, lookupEnvironment, found, running]
  · simp only [referenceItems, Parser.processItems, Parser.processItem, reduceCtorEq, if_false,
      Outcome.bind, looked, lookupEnvironment, found, panics]

theorem processItems_include (running : parse file (bytesOf ".") = .running) (fp : Bytes) :
    (Parser.init fp).processItems u (smallEnv value file) parse includeItems = .running := by
  have read : parseFileWith (smallEnv value file) parse
      ((smallEnv value file).join (Parser.init fp).fp (bytesOf "a")) = .running := by
    simp only [parseFileWith, smallEnv, if_true, running]
  simp only [includeItems, Parser.processItems, Parser.processItem, reduceCtorEq, if_false,
    Outcome.bind, read]

end

/-- A file names a variable, which is a number. -/
abbrev chainEnv : Env := smallEnv (bytesOf "5") (bytesOf "x=$A")

theorem lex_number (u : Unicode) : lexAll u 14 [] (Scan.init (pkText (bytesOf "5"))) =
    .ended [⟨.itemKey, bytesOf "pk", 1⟩, ⟨.itemInteger, bytesOf "5", 1⟩, ⟨.itemEOF, [], 1⟩] :=
  ends_ascii (by decide) 14 (by decide)

theorem chain_file_resolves (u : Unicode) (fp : Bytes) :
    Resolves u chainEnv (bytesOf "x=$A", fp) := by
  have number : Resolves u chainEnv (pkText (bytesOf "5"), []) := by
    refine .of_items (lex_number u) ?_
    rintro it (_ | ⟨_, _ | ⟨_, _ | ⟨_, ⟨⟩⟩⟩⟩) data fp (⟨⟨⟩, -⟩ | ⟨⟨⟩, -⟩)
  refine .of_items (lex_reference u) ?_
  rintro it (_ | ⟨_, _ | ⟨_, _ | ⟨_, ⟨⟩⟩⟩⟩) data fp' (⟨⟨⟩, -, vStr, found, rfl, rfl⟩ | ⟨⟨⟩, -⟩)
  cases found
  exact number

theorem chain_resolves (u : Unicode) (fp : Bytes) :
    Resolves u chainEnv (bytesOf "include a\n", fp) := by
  refine .of_items (lex_include u) ?_
  rintro it (_ | ⟨_, _ | ⟨_, ⟨⟩⟩⟩) data fp' (⟨⟨⟩, -⟩ | ⟨⟨⟩, read, rfl⟩)
  cases read
  exact chain_file_resolves u _

/-- A variable that stands for itself, and a file that includes itself. -/
abbrev selfEnv : Env := smallEnv (bytesOf "$A") (bytesOf "include a\n")

end Hnatsd.Conf
