import Hnatsd.Conf.Proofs.NoPanic

/-!
# The parser over the items of a text

The turns of a parse go to the lexer, to the parser and to the texts that are parsed on the way. A
parse that has returned does so with any number of further turns (`parse_below`), and it comes to
what processing the items of the text one after the other comes to (`below_parseLoop`,
`parseLoop_below`).
-/

namespace Hnatsd.Conf

open Hnatsd.Misc Lexer

theorem Outcome.bind_assoc {α β γ : Type} (a : Outcome α) (f : α → Outcome β) (g : β → Outcome γ) :
    (a.bind f).bind g = a.bind fun x => (f x).bind g := by
  cases a <;> rfl

/-- The one outcome is the other, or it has not been reached yet. -/
def Outcome.Below {α : Type} (a b : Outcome α) : Prop := a = .running ∨ b = a

namespace Outcome.Below

variable {α β : Type} {a b c : Outcome α}

theorem refl (a : Outcome α) : Below a a := Or.inr rfl

theorem trans (first : Below a b) (second : Below b c) : Below a c := by
  rcases first with running | rfl
  · exact Or.inl running
  · exact second

theorem eq (below : Below a b) (returned : a ≠ .running) : b = a := below.resolve_left returned

theorem running (below : Below a .running) : a = .running := by
  rcases below with running | same
  · exact running
  · exact same.symm

theorem bind {f g : α → Outcome β} (below : Below a b) (later : ∀ x, Below (f x) (g x)) :
    Below (a.bind f) (b.bind g) := by
  rcases below with rfl | rfl
  · exact Or.inl rfl
  · cases b with
    | ok x => exact later x
    | _ => exact refl _

end Outcome.Below

section

variable {u : Unicode} {env : Env} {p : Parser} {it : Item}
  {parse₁ parse₂ : Bytes → Bytes → Outcome Mapping}

section

variable (below : ∀ data fp, (parse₁ data fp).Below (parse₂ data fp))
include below

theorem lookupVariable_below (varReference : Bytes) :
    (p.lookupVariable env parse₁ varReference).Below (p.lookupVariable env parse₂ varReference) := by
  unfold Parser.lookupVariable
  split
  · exact .refl _
  · split
    · exact .refl _
    · unfold lookupEnvironment
      split
      · exact .refl _
      · next vStr found =>
        rcases below (pkText vStr) [] with running | same
        · rw [running]
          exact Or.inl rfl
        · rw [same]
          exact .refl _

theorem parseFileWith_below (path : Bytes) : (parseFileWith env parse₁ path).Below
    (parseFileWith env parse₂ path) := by
  unfold parseFileWith
  split
  · exact .refl _
  · exact below _ _

/-- An item that is processed to an end is so whatever the parses that have not returned do. -/
theorem processItem_below :
    (p.processItem u env parse₁ it).Below (p.processItem u env parse₂ it) := by
  unfold Parser.processItem
  cases it.typ
  case itemVariable =>
    exact (lookupVariable_below below it.val).bind fun _ => .refl _
  case itemInclude =>
    dsimp only
    rcases parseFileWith_below below (env.join p.fp it.val) with running | same
    · rw [running]
      exact Or.inl rfl
    · rw [same]
      exact .refl _
  all_goals exact .refl _

end

theorem parseLoop_below_succ (turns : Nat) (p : Parser) (scan : Scan) :
    (parseLoop u env turns p scan).Below (parseLoop u env (turns + 1) p scan) := by
  induction turns generalizing p scan with
  | zero => exact Or.inl rfl
  | succ turns ih =>
    rw [parseLoop, parseLoop]
    split
    · exact .refl _
    · exact ih _ _
    · split
      · exact .refl _
      · exact (processItem_below fun data fp => ih _ _).bind fun p' => ih _ _

theorem parse_below {turns later : Nat} (le : turns ≤ later) (data fp : Bytes) :
    (parse u env turns data fp).Below (parse u env later data fp) := by
  induction later, le using Nat.le_induction with
  | base => exact .refl _
  | succ later le ih => exact ih.trans (parseLoop_below_succ later _ _)

/-- What is left of the loop of `parse` when the items are known. -/
def Parser.processItems (u : Unicode) (env : Env) (parse : Bytes → Bytes → Outcome Mapping) :
    Parser → List Item → Outcome Mapping
  | _, [] => .running
  | p, it :: items =>
      if it.typ = .itemEOF then .ok p.mapping
      else (p.processItem u env parse it).bind fun p => p.processItems u env parse items

/-- The parser after some items that are not last. -/
def Parser.takeItems (u : Unicode) (env : Env) (parse : Bytes → Bytes → Outcome Mapping) :
    Parser → List Item → Outcome Parser
  | p, [] => .ok p
  | p, it :: items =>
      (p.processItem u env parse it).bind fun p => p.takeItems u env parse items

theorem processItems_below (below : ∀ data fp, (parse₁ data fp).Below (parse₂ data fp))
    (items : List Item) :
    (p.processItems u env parse₁ items).Below (p.processItems u env parse₂ items) := by
  induction items generalizing p with
  | nil => exact .refl _
  | cons it items ih =>
    rw [Parser.processItems, Parser.processItems]
    split
    · exact .refl _
    · exact (processItem_below below).bind fun _ => ih

theorem processItem_error (error : it.typ = .itemError) (parse : Bytes → Bytes → Outcome Mapping) :
    ∃ text, p.processItem u env parse it = .error text := by
  rw [Parser.processItem, error]
  exact ⟨_, rfl⟩

/-- Enough turns for the lexer and as many on top as the texts referred to need. -/
theorem below_parseLoop {turns : Nat} {scan : Scan} {seen items : List Item}
    (ended : lexAll u turns seen scan = .ended (seen ++ items)) (extra : Nat) :
    (p.processItems u env (parse u env extra) items).Below
      (parseLoop u env (turns + extra) p scan) := by
  induction turns generalizing seen scan items p with
  | zero => cases ended
  | succ turns ih =>
    rw [lexAll] at ended
    rw [Nat.add_right_comm, parseLoop]
    split at ended
    · next it scan' item =>
      obtain ⟨later, rfl, goesOn⟩ := lexAll_item ended
      rw [item, Parser.processItems]
      dsimp only
      split
      · exact .refl _
      next notEOF =>
      have first : (p.processItem u env (parse u env extra) it).Below
          (p.processItem u env (parse u env (turns + extra)) it) :=
        processItem_below fun data fp => parse_below (Nat.le_add_left extra turns) data fp
      rcases goesOn with ⟨last | error, -⟩ | ⟨-, more⟩
      · exact absurd last notEOF
      · obtain ⟨text, failed⟩ := @processItem_error u env p it error (parse u env extra)
        have same := first.eq (by rw [failed]; rintro ⟨⟩)
        rw [failed] at same ⊢
        exact Or.inr (congrArg (Outcome.bind · _) same)
      · exact first.bind fun _ => ih more
    · next scan' called =>
      rw [called]
      exact ih ended
    · cases ended

/-- The loop comes to nothing else, and the texts referred to have fewer turns. -/
theorem parseLoop_below {turns : Nat} {scan : Scan} {seen items : List Item}
    (ended : lexAll u turns seen scan = .ended (seen ++ items)) (given : Nat) :
    (parseLoop u env (given + 1) p scan).Below
      (p.processItems u env (parse u env given) items) := by
  induction turns generalizing seen scan items p given with
  | zero => cases ended
  | succ turns ih =>
    have fewer {p' : Parser} {scan' : Scan} {seen' later : List Item}
        (ended : lexAll u turns seen' scan' = .ended (seen' ++ later)) :
        (parseLoop u env given p' scan').Below
          (p'.processItems u env (parse u env given) later) := by
      cases given with
      | zero => exact Or.inl rfl
      | succ given =>
        exact (ih ended given).trans
          (processItems_below (fun data fp => parse_below (Nat.le_succ given) data fp) later)
    rw [lexAll] at ended
    rw [parseLoop]
    split at ended
    · next it scan' item =>
      obtain ⟨later, rfl, goesOn⟩ := lexAll_item ended
      rw [item, Parser.processItems]
      dsimp only
      split
      · exact .refl _
      next notEOF =>
      change ((p.processItem u env (parse u env given) it).bind _).Below _
      rcases goesOn with ⟨last | error, -⟩ | ⟨-, more⟩
      · exact absurd last notEOF
      · obtain ⟨text, failed⟩ := @processItem_error u env p it error (parse u env given)
        rw [failed]
        exact .refl _
      · exact (Outcome.Below.refl _).bind fun _ => fewer more
    · next scan' called =>
      rw [called]
      exact fewer ended
    · cases ended

section

variable {turns : Nat} {data : Bytes} {items : List Item}

theorem below_parse (ended : lexAll u turns [] (Scan.init data) = .ended items) (extra : Nat)
    (fp : Bytes) : ((Parser.init fp).processItems u env (parse u env extra) items).Below
      (parse u env (turns + extra) data fp) :=
  below_parseLoop (by exact ended) extra

theorem parse_below_items (ended : lexAll u turns [] (Scan.init data) = .ended items) (given : Nat)
    (fp : Bytes) : (parse u env (given + 1) data fp).Below
      ((Parser.init fp).processItems u env (parse u env given) items) :=
  parseLoop_below (by exact ended) given

end

/-- A text without references is accepted if its items are. -/
theorem accepted_of_items {turns : Nat} {data : Bytes} {items : List Item} {m : Mapping}
    (ended : lexAll u turns [] (Scan.init data) = .ended items)
    (processed : (Parser.init []).processItems u env (parse u env 0) items = .ok m) :
    parseText u env turns data = .ok m := by
  have below := @below_parse u env turns data items ended 0 []
  rw [processed] at below
  exact below.eq (by nofun)

/-- A text that is accepted is lexed to its end. -/
theorem lexAll_of_parseLoop {turns : Nat} {scan : Scan} {m : Mapping}
    (accepted : parseLoop u env turns p scan = .ok m) (seen : List Item) :
    ∃ items, lexAll u turns seen scan = .ended items := by
  induction turns generalizing p scan seen with
  | zero => cases accepted
  | succ turns ih =>
    rw [parseLoop] at accepted
    rw [lexAll]
    split at accepted
    · cases accepted
    · next scan' called =>
      rw [called]
      exact ih accepted seen
    · next it scan' item =>
      rw [item]
      dsimp only
      split at accepted
      · next last => exact ⟨_, if_pos (Or.inl last)⟩
      · next notLast =>
        change (p.processItem u env (parse u env turns) it).bind _ = _ at accepted
        rcases processed : p.processItem u env (parse u env turns) it with p' | _ | _ | _ <;>
          rw [processed] at accepted
        case ok =>
          split
          · exact ⟨_, rfl⟩
          · exact ih accepted _
        all_goals cases accepted

/-- The items of a text that is accepted, and what processing them comes to. -/
theorem items_of_parse {turns : Nat} {data fp : Bytes} {m : Mapping}
    (accepted : parse u env turns data fp = .ok m) :
    ∃ items, lexAll u turns [] (Scan.init data) = .ended items ∧
      (Parser.init fp).processItems u env (parse u env turns) items = .ok m := by
  obtain ⟨items, ended⟩ := lexAll_of_parseLoop accepted []
  refine ⟨items, ended, ?_⟩
  have later := (@parse_below u env turns (turns + 1) (Nat.le_succ turns) data fp).eq
    (by rw [accepted]; nofun)
  have below := @parse_below_items u env turns data items ended turns fp
  rw [later, accepted] at below
  exact below.eq (by nofun)

/-- A panic of the lexer ends the parse that has come so far. -/
theorem parseLoop_panics {turns : Nat} {scan : Scan} {seen items : List Item} {cause : Panic}
    (running : lexAll u turns seen scan = .running (seen ++ items))
    (panicked : lexAll u (turns + 1) seen scan = .panicked cause) (extra : Nat) :
    ((p.takeItems u env (parse u env extra) items).bind fun _ => .panic cause).Below
      (parseLoop u env (turns + 1 + extra) p scan) := by
  induction turns generalizing seen scan items p with
  | zero =>
    rw [lexAll, LexEnd.running.injEq, List.self_eq_append_right] at running
    subst running
    rw [lexAll] at panicked
    rw [Nat.add_right_comm, parseLoop]
    split at panicked
    · split at panicked <;> cases panicked
    · cases panicked
    · next cause' panics =>
      cases panicked
      rw [panics]
      exact .refl _
  | succ turns ih =>
    rw [lexAll] at running panicked
    rw [Nat.add_right_comm, parseLoop]
    split at running
    · next it scan' item =>
      rw [item] at panicked ⊢
      dsimp only at panicked ⊢
      split at running
      · cases running
      next notLast =>
      rw [if_neg notLast] at panicked
      obtain ⟨later, eq⟩ := lexAll_extends (Or.inr running)
      rw [← eq] at running
      rw [List.append_assoc, List.append_cancel_left_eq] at eq
      subst eq
      rw [if_neg fun last => notLast (Or.inl last)]
      have first : (p.processItem u env (parse u env extra) it).Below
          (p.processItem u env (parse u env (turns + 1 + extra)) it) :=
        processItem_below fun data fp => parse_below (Nat.le_add_left extra (turns + 1)) data fp
      rw [List.singleton_append, Parser.takeItems, Outcome.bind_assoc]
      exact first.bind fun _ => ih running panicked
    · next scan' called =>
      rw [called] at panicked ⊢
      exact ih running panicked
    · cases running

end

end Hnatsd.Conf
