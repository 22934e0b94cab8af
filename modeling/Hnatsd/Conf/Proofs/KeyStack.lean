import Hnatsd.Conf.Proofs.Items
import Hnatsd.Conf.Proofs.Tables

/-!
# Keys and the values they are for

Which key a value belongs to is a matter of the items alone: the one right before it, and for a map
or an array the one before its start (`Nest`). The parser keeps one stack of keys for all maps and
takes the top one for each value, so a key that no value follows shifts every later value.
`processItem_keys` says what one item does to that stack and `keys_kept_iff` when it keeps in step
with the items.
-/

namespace Hnatsd.Conf

open Hnatsd.Misc Lexer

/-- The suffixes that `processItem` has a case for. -/
def knownSuffixes : List (List Nat) :=
  [[], [107], [107, 98], [109], [109, 98], [103], [103, 98]]

/-- An integer that `processItem` stores, once its digits are read. -/
def KnownSuffix (u : Unicode) (text : Bytes) : Prop :=
  u.loweredTrim (text.drop ((runes text).takeWhile u.isDigit).length) ∈ knownSuffixes

instance (u : Unicode) (text : Bytes) : Decidable (KnownSuffix u text) :=
  inferInstanceAs (Decidable (_ ∈ _))

/-- The keys that wait for their value, by the items alone: the one that was just read, and for
every open container the key that it is for, which in an array is none. -/
structure Nest where
  awaiting : Option Bytes
  outer : List (Option Bytes)
  deriving DecidableEq, Repr

def Nest.step (nest : Nest) (it : Item) : Nest :=
  match it.typ with
  | .itemKey => { nest with awaiting := some it.val }
  | .itemString | .itemBool | .itemInteger | .itemFloat | .itemDatetime | .itemVariable =>
      { nest with awaiting := none }
  | .itemMapStart | .itemArrayStart => ⟨none, nest.awaiting :: nest.outer⟩
  | .itemMapEnd | .itemArrayEnd => ⟨none, nest.outer.tail⟩
  | .itemInclude | .itemText | .itemCommentStart | .itemNIL | .itemEOF | .itemError => nest

/-- The keys in the order in which their values come. -/
def Nest.keys (nest : Nest) : List Bytes := nest.awaiting.toList ++ nest.outer.reduceOption

/-- The numbers of keys there were when the open containers were opened. -/
def ItemType.opened (typ : ItemType) (height : Nat) (before : List Nat) : List Nat :=
  match typ with
  | .itemMapStart | .itemArrayStart => height :: before
  | .itemMapEnd | .itemArrayEnd => before.tail
  | _ => before

section

variable (u : Unicode) (env : Env) (parse : Bytes → Bytes → Outcome Mapping)

/-- When a map closes there are as many keys as when it was opened, and at the end there are
none. -/
def KeepsHeights : List Nat → Parser → List Item → Prop
  | _, _, [] => True
  | opened, p, it :: items =>
      (it.typ = .itemEOF → p.keys = []) ∧
      (it.typ = .itemMapEnd → opened.head? = some p.keys.length) ∧
      ∀ p', p.processItem u env parse it = .ok p' →
        KeepsHeights (it.typ.opened p.keys.length opened) p' items

/-- Before every item the parser keeps the keys that wait for their value, so that each value is
stored under its own. -/
def KeepsOwnKeys : Nest → Parser → List Item → Prop
  | _, _, [] => True
  | nest, p, it :: items =>
      p.keys = nest.keys ∧
      ∀ p', p.processItem u env parse it = .ok p' → KeepsOwnKeys (nest.step it) p' items

end

/-- No key is followed by the end of its map or of the input, or by an integer with a suffix that
is not known. `awaiting` says that the item before was a key. -/
def KeysTakenFrom (u : Unicode) : Bool → List Item → Prop
  | _, [] => True
  | awaiting, it :: items =>
      (awaiting = true → it.typ ≠ .itemMapEnd ∧ it.typ ≠ .itemEOF ∧
        (it.typ = .itemInteger → KnownSuffix u it.val)) ∧
      KeysTakenFrom u (it.typ = .itemKey) items

def KeysTaken (u : Unicode) (items : List Item) : Prop := KeysTakenFrom u false items

instance decidableKeysTakenFrom (u : Unicode) :
    ∀ awaiting items, Decidable (KeysTakenFrom u awaiting items)
  | _, [] => isTrue trivial
  | _, it :: items =>
      have := decidableKeysTakenFrom u (it.typ = .itemKey) items
      inferInstanceAs (Decidable (_ ∧ _))

instance (u : Unicode) (items : List Item) : Decidable (KeysTaken u items) :=
  decidableKeysTakenFrom u false items

/-- What an item does to the keys: a value in a map takes one. -/
def keysAfter (u : Unicode) (frames : List Frame) (it : Item) (keys : List Bytes) : List Bytes :=
  match it.typ with
  | .itemKey => it.val :: keys
  | .itemString | .itemBool | .itemFloat | .itemDatetime | .itemVariable =>
      if innermost frames = .map then keys.tail else keys
  | .itemInteger =>
      if innermost frames = .map ∧ KnownSuffix u it.val then keys.tail else keys
  | .itemMapEnd | .itemArrayEnd => if innermost frames.tail = .map then keys.tail else keys
  | _ => keys

/-- For every open container, whether it stands in a map. -/
def inMaps : List Frame → List Bool
  | [] => []
  | _ :: frames => decide (innermost frames = .map) :: inMaps frames

/-- The items as the lexer's shape and as the keys that wait. -/
structure Nested (shape : Shape) (nest : Nest) : Prop where
  awaiting : nest.awaiting.isSome = shape.awaiting
  outer : nest.outer.map Option.isSome = inMaps shape.frames
  inMap : shape.awaiting = true → innermost shape.frames = .map

/-- An item leaves a key behind. -/
def Drops (u : Unicode) (nest : Nest) (it : Item) : Prop :=
  nest.awaiting.isSome = true ∧
    (it.typ = .itemMapEnd ∨ (it.typ = .itemInteger ∧ ¬ KnownSuffix u it.val))

/-- The parser has the keys that wait, and `extra` that were left behind. -/
structure Keeps (p : Parser) (nest : Nest) (extra : Nat) : Prop where
  length : p.keys.length = nest.keys.length + extra
  eq : extra = 0 → p.keys = nest.keys

section

variable {u : Unicode} {env : Env} {parse : Bytes → Bytes → Outcome Mapping} {p p' : Parser}
  {it : Item} {shape shape' : Shape} {nest : Nest}

theorem applySuffix_isSome (suffix : List Nat) (num : Int) :
    (applySuffix suffix num).isSome = decide (suffix ∈ knownSuffixes) := by
  unfold applySuffix
  split_ifs <;> simp_all [knownSuffixes]

/-- A value in a map takes a key. -/
theorem setValue_keys {val : Value} (set : p.setValue val = .ok p') :
    p'.keys = if p.ctx.frame = .map then p.keys.tail else p.keys := by
  unfold Parser.setValue at set
  rcases ctx : p.ctx with values | entries
  · rw [ctx] at set
    cases set
    rfl
  · rw [ctx] at set
    rcases keys : p.keys with _ | ⟨key, below⟩
    · rw [keys] at set
      cases set
    · rw [keys] at set
      cases set
      rfl

theorem setAll_keys {m : Mapping} (isMap : p.ctx.frame = .map) (set : p.setAll m = .ok p') :
    p'.keys = p.keys := by
  induction m generalizing p with
  | nil =>
    cases set
    rfl
  | cons entry m ih =>
    obtain ⟨k, v⟩ := entry
    rw [Parser.setAll] at set
    rcases first : (p.pushKey k).setValue v with q | _ | _ | _
    · rw [first] at set
      have keys := setValue_keys first
      rw [if_pos (by exact isMap)] at keys
      have stays : q.ctx.frame = .map := by
        unfold Parser.setValue at first
        rcases ctx : (p.pushKey k).ctx with values | entries
        · rw [ctx] at first
          cases first
          change p.ctx = _ at ctx
          rw [ctx] at isMap
          cases isMap
        · rw [ctx] at first
          cases first
          rfl
      exact (ih stays set).trans keys
    all_goals
      rw [first] at set
      cases set

theorem processInteger_keys (processed : p.processInteger u it = .ok p') :
    p'.keys = if p.ctx.frame = .map ∧ KnownSuffix u it.val then p.keys.tail else p.keys := by
  unfold Parser.processInteger at processed
  dsimp only at processed
  split at processed
  · cases processed
  · cases processed
  · next num parsed =>
    have isSome := applySuffix_isSome
      (u.loweredTrim (it.val.drop ((runes it.val).takeWhile u.isDigit).length)) num
    split at processed
    · next value applied =>
      have known : KnownSuffix u it.val := by
        rw [applied] at isSome
        exact of_decide_eq_true isSome.symm
      rw [setValue_keys processed]
      simp only [known, and_true]
    · next applied =>
      have unknown : ¬ KnownSuffix u it.val := by
        rw [applied] at isSome
        exact of_decide_eq_false isSome.symm
      cases processed
      rw [if_neg fun takes => unknown takes.2]

theorem processItem_keys (fits : Fits p shape) (steps : shape.step it.typ = some shape')
    (processed : p.processItem u env parse it = .ok p') :
    p'.keys = keysAfter u shape.frames it p.keys := by
  have frame := fits.frame
  have isOpen := (Shape.step_ended steps).1
  have closes {inner : Frame} {frames : List Frame} (inside : shape.frames = inner :: frames)
      (closed : (p.popContext.bind fun popped => popped.setValue p.ctx.value) = .ok p') :
      p'.keys = if innermost shape.frames.tail = .map then p.keys.tail else p.keys := by
    obtain ⟨_, awaiting, ended⟩ := shape
    subst inside
    cases isOpen
    obtain ⟨popped, pop, fits', -⟩ := fits.close
    have keys : popped.keys = p.keys := by
      unfold Parser.popContext at pop
      split at pop
      · cases pop
      · cases pop
        rfl
    rw [pop] at closed
    rw [setValue_keys closed, fits'.frame, keys]
    rfl
  unfold Parser.processItem at processed
  unfold keysAfter
  rw [← frame]
  cases typ : it.typ <;> simp only [typ, Shape.step, isOpen, Bool.false_eq_true, if_false] at processed steps ⊢
  case itemError => cases processed
  case itemString => exact setValue_keys processed
  case itemInteger => exact processInteger_keys processed
  case itemBool =>
    split at processed
    · exact setValue_keys processed
    · split at processed
      · exact setValue_keys processed
      · cases processed
  case itemFloat =>
    split at processed
    · cases processed
    · cases processed
    · exact setValue_keys processed
  case itemDatetime =>
    split at processed
    · cases processed
    · exact setValue_keys processed
  case itemVariable =>
    rcases looked : p.lookupVariable env parse it.val with (_ | value) | _ | _ | _ <;>
      rw [looked] at processed
    case ok.some => exact setValue_keys processed
    all_goals cases processed
  case itemArrayEnd | itemMapEnd =>
    split at steps
    · next frames inside => exact closes inside processed
    · cases steps
  case itemInclude =>
    split at steps
    · next isMap =>
      split at processed
      · exact setAll_keys (frame.trans isMap.1) processed
      all_goals cases processed
    · cases steps
  all_goals
    cases processed
    rfl

/-- An item keeps shape and keys in step. -/
theorem Nested.step (nested : Nested shape nest) (steps : shape.step it.typ = some shape') :
    Nested shape' (nest.step it) := by
  have isOpen := (Shape.step_ended steps).1
  obtain ⟨awaits, outer, inMap⟩ := nested
  unfold Nest.step
  cases typ : it.typ <;> simp only [typ, Shape.step, isOpen, Bool.false_eq_true, if_false] at steps ⊢
  case itemKey =>
    split at steps
    · next isMap =>
      cases steps
      exact ⟨rfl, outer, fun _ => isMap.1⟩
    · cases steps
  case itemString | itemBool | itemInteger | itemFloat | itemDatetime | itemVariable =>
    split at steps
    · cases steps
      exact ⟨rfl, outer, (by rintro ⟨⟩)⟩
    · cases steps
  case itemArrayStart | itemMapStart =>
    split at steps
    · next wanting =>
      cases steps
      rw [wanting] at awaits
      exact ⟨rfl, congrArg₂ List.cons awaits outer, (by rintro ⟨⟩)⟩
    · cases steps
  case itemArrayEnd | itemMapEnd =>
    split at steps
    · next frames inside =>
      cases steps
      rw [inside] at outer
      refine ⟨rfl, ?_, (by rintro ⟨⟩)⟩
      rw [List.map_tail, outer]
      rfl
    · cases steps
  case itemInclude =>
    split at steps
    · cases steps
      exact ⟨awaits, outer, inMap⟩
    · cases steps
  case itemCommentStart | itemText =>
    split at steps
    · cases steps
    · cases steps
      exact ⟨awaits, outer, inMap⟩
  case itemEOF =>
    split at steps
    · cases steps
      exact ⟨awaits, outer, inMap⟩
    · cases steps
  case itemError =>
    cases steps
    exact ⟨awaits, outer, inMap⟩
  case itemNIL => cases steps

section

variable {nest' : Nest} {extra : Nat}

/-- Keys that are not touched. -/
theorem Keeps.stay (keeps : Keeps p nest extra) (keys : p'.keys = p.keys)
    (same : nest'.keys = nest.keys) : Keeps p' nest' extra := by
  refine ⟨?_, ?_⟩
  · rw [keys, same]
    exact keeps.length
  · rw [keys, same]
    exact keeps.eq

/-- A key that is taken. -/
theorem Keeps.take {key : Bytes} (keeps : Keeps p nest extra) (keys : p'.keys = p.keys.tail)
    (first : nest.keys = key :: nest'.keys) : Keeps p' nest' extra := by
  have length := keeps.length
  rw [first, List.length_cons] at length
  refine ⟨?_, fun none => ?_⟩
  · rw [keys, List.length_tail]
    omega
  · rw [keys, keeps.eq none, first]
    rfl

/-- A key that is left behind. -/
theorem Keeps.leave {key : Bytes} (keeps : Keeps p nest extra) (keys : p'.keys = p.keys)
    (first : nest.keys = key :: nest'.keys) : Keeps p' nest' (extra + 1) := by
  have length := keeps.length
  rw [first, List.length_cons] at length
  refine ⟨?_, nofun⟩
  rw [keys]
  omega

/-- A value takes the key that waits, or leaves it behind. -/
theorem Keeps.value {outer : List (Option Bytes)} {awaiting : Option Bytes} {takes : Prop}
    [Decidable takes] (keeps : Keeps p ⟨awaiting, outer⟩ extra)
    (keys : p'.keys = if awaiting.isSome = true ∧ takes then p.keys.tail else p.keys) :
    ∃ more, Keeps p' ⟨none, outer⟩ (extra + more) ∧
      (more = 0 ↔ ¬ (awaiting.isSome = true ∧ ¬ takes)) := by
  rcases awaiting with _ | key
  · rw [if_neg (by simp)] at keys
    exact ⟨0, keeps.stay keys rfl, by simp⟩
  · by_cases taken : takes
    · rw [if_pos ⟨rfl, taken⟩] at keys
      exact ⟨0, keeps.take keys rfl, by simp [taken]⟩
    · rw [if_neg fun took => taken took.2] at keys
      exact ⟨1, keeps.leave keys rfl, by simp [taken]⟩

/-- The end of a container takes its key; one that still waits inside is left behind. -/
theorem Keeps.close {outer : List (Option Bytes)} {awaiting key : Option Bytes}
    (keeps : Keeps p ⟨awaiting, key :: outer⟩ extra)
    (keys : p'.keys = if key.isSome = true then p.keys.tail else p.keys) :
    ∃ more, Keeps p' ⟨none, outer⟩ (extra + more) ∧ (more = 0 ↔ ¬ awaiting.isSome = true) := by
  have inside (extra : Nat) (keeps : Keeps p ⟨none, key :: outer⟩ extra) :
      Keeps p' ⟨none, outer⟩ extra := by
    rcases key with _ | key
    · exact keeps.stay keys rfl
    · exact keeps.take keys rfl
  rcases awaiting with _ | left
  · exact ⟨0, inside extra keeps, by simp⟩
  · exact ⟨1, inside (extra + 1) (keeps.leave rfl rfl), by simp⟩

/-- An item keeps the keys, and one more if it leaves one behind. -/
theorem Keeps.step (keeps : Keeps p nest extra) (nested : Nested shape nest) (fits : Fits p shape)
    (steps : shape.step it.typ = some shape')
    (processed : p.processItem u env parse it = .ok p') :
    ∃ more, Keeps p' (nest.step it) (extra + more) ∧ (more = 0 ↔ ¬ Drops u nest it) := by
  have keys := processItem_keys fits steps processed
  have isOpen := (Shape.step_ended steps).1
  obtain ⟨awaits, outer, inMap⟩ := nested
  obtain ⟨awaiting, below⟩ := nest
  dsimp only at awaits outer
  have wants (wanting : shape = .wanting shape.frames) :
      (innermost shape.frames = .map) = (awaiting.isSome = true) := by
    rw [wanting] at awaits
    rw [awaits]
    exact (decide_eq_true_eq).symm
  have closes {inner : Frame} {frames : List Frame} (inside : shape.frames = inner :: frames)
      (keys : p'.keys = if innermost shape.frames.tail = .map then p.keys.tail else p.keys) :
      ∃ key rest, below = key :: rest ∧ ∃ more, Keeps p' ⟨none, rest⟩ (extra + more) ∧
        (more = 0 ↔ ¬ awaiting.isSome = true) := by
    rw [inside] at outer keys
    rcases below with _ | ⟨key, rest⟩
    · cases outer
    · rw [List.map_cons, inMaps, List.cons.injEq] at outer
      refine ⟨key, rest, rfl, keeps.close (keys.trans ?_)⟩
      exact if_congr (by rw [outer.1, decide_eq_true_eq, List.tail_cons]) rfl rfl
  unfold Nest.step Drops
  unfold keysAfter at keys
  cases typ : it.typ <;>
    simp only [typ, Shape.step, isOpen, Bool.false_eq_true, if_false] at keys steps ⊢
  case itemKey =>
    split at steps
    · next isMap =>
      have none : awaiting = none := by
        rw [← awaits] at isMap
        simpa using isMap.2
      subst none
      refine ⟨0, ⟨?_, fun zero => ?_⟩, by simp⟩
      · rw [keys, List.length_cons, keeps.length]
        exact Nat.add_right_comm _ _ _
      · rw [keys, keeps.eq zero]
        rfl
    · cases steps
  case itemInteger =>
    split at steps
    · next wanting =>
      simp only [wants wanting] at keys
      simpa using keeps.value keys
    · cases steps
  case itemString | itemBool | itemFloat | itemDatetime | itemVariable =>
    split at steps
    · next wanting =>
      simp only [wants wanting] at keys
      simpa using @Keeps.value p p' extra below awaiting True _ keeps (by simpa using keys)
    · cases steps
  case itemArrayStart | itemMapStart =>
    refine ⟨0, keeps.stay keys ?_, by simp⟩
    cases awaiting <;> rfl
  case itemArrayEnd =>
    split at steps
    · next frames inside =>
      -- no key waits inside an array
      have none : awaiting.isSome = false := by
        rw [awaits, Bool.eq_false_iff]
        intro waits
        have isMap := inMap waits
        rw [inside] at isMap
        cases isMap
      obtain ⟨key, rest, rfl, kept⟩ := closes inside keys
      simpa [none] using kept
    · cases steps
  case itemMapEnd =>
    split at steps
    · next frames inside =>
      obtain ⟨key, rest, rfl, kept⟩ := closes inside keys
      simpa using kept
    · cases steps
  all_goals exact ⟨0, keeps.stay keys rfl, by simp⟩

end

/-- The parser, the lexer's shape and the keys that wait. -/
structure InStep (p : Parser) (shape : Shape) (nest : Nest) (extra : Nat) : Prop where
  fits : Fits p shape
  nested : Nested shape nest
  keeps : Keeps p nest extra

theorem InStep.init (fp : Bytes) : InStep (Parser.init fp) (.filled []) ⟨none, []⟩ 0 where
  fits := .init fp
  nested := ⟨rfl, rfl, nofun⟩
  keeps := ⟨rfl, fun _ => rfl⟩

section

variable {extra : Nat} {final : Shape} {items : List Item}

theorem InStep.next (inStep : InStep p shape nest extra) (steps : shape.step it.typ = some shape')
    (processed : p.processItem u env parse it = .ok p') :
    ∃ more, InStep p' shape' (nest.step it) (extra + more) ∧ (more = 0 ↔ ¬ Drops u nest it) := by
  obtain ⟨fits, nested, keeps⟩ := inStep
  have taken := @Fits.processItem p shape u env parse it shape' fits steps
  rw [processed] at taken
  obtain ⟨more, kept, count⟩ := keeps.step nested fits steps processed
  exact ⟨more, ⟨taken.1, nested.step steps, kept⟩, count⟩

/-- A key waits after a key, and after nothing else. -/
theorem Nested.awaiting_step (nested : Nested shape nest) (steps : shape.step it.typ = some shape')
    (notLast : ¬ it.typ.isLast) :
    (nest.step it).awaiting.isSome = decide (it.typ = .itemKey) := by
  have isOpen := (Shape.step_ended steps).1
  have awaits := nested.awaiting
  unfold Nest.step
  cases typ : it.typ <;>
    simp only [typ, Shape.step, isOpen, Bool.false_eq_true, if_false] at steps ⊢
  case itemError => exact absurd (Or.inr typ) notLast
  case itemEOF => exact absurd (Or.inl typ) notLast
  case itemInclude =>
    split at steps
    · next isMap =>
      rw [awaits]
      simpa using isMap.2
    · cases steps
  case itemText | itemCommentStart =>
    split at steps
    · cases steps
    · next waits =>
      rw [awaits]
      simpa using waits
  case itemNIL => cases steps
  all_goals rfl

/-- The numbers of keys there were at the starts of the open containers. -/
def heights : List (Option Bytes) → List Nat
  | [] => []
  | key :: outer => (key :: outer).reduceOption.length :: heights outer

theorem Keeps.heights_step (keeps : Keeps p nest 0) (it : Item) :
    it.typ.opened p.keys.length (heights nest.outer) = heights (nest.step it).outer := by
  have keys := keeps.length
  obtain ⟨awaiting, outer⟩ := nest
  unfold ItemType.opened Nest.step
  cases it.typ
  case itemArrayStart | itemMapStart =>
    dsimp only
    rw [heights, keys]
    cases awaiting <;> rfl
  case itemArrayEnd | itemMapEnd => cases outer <;> rfl
  all_goals rfl

/-- Where no key waits, the keys are those of the open containers. -/
theorem Nested.heights_head (nested : Nested shape nest) (keeps : Keeps p nest 0)
    (quiet : ¬ nest.awaiting.isSome = true) :
    (shape.frames = [] → p.keys = []) ∧
      ∀ frame frames, shape.frames = frame :: frames →
        (heights nest.outer).head? = some p.keys.length := by
  have keys := keeps.eq rfl
  have outer := nested.outer
  obtain ⟨awaiting, below⟩ := nest
  rcases awaiting with _ | key
  · rw [keys]
    refine ⟨fun closed => ?_, fun frame frames inside => ?_⟩
    · rw [closed] at outer
      cases List.map_eq_nil_iff.mp outer
      rfl
    · rw [inside] at outer
      cases below with
      | nil => cases outer
      | cons key below => rfl
  · exact absurd rfl quiet

/-- Where every key is taken, each item finds the keys that wait and no others. -/
theorem InStep.kept (inStep : InStep p shape nest 0) (run : shape.run items = some final)
    (taken : KeysTakenFrom u nest.awaiting.isSome items) :
    KeepsHeights u env parse (heights nest.outer) p items ∧
      KeepsOwnKeys u env parse nest p items := by
  induction items generalizing p shape nest with
  | nil => exact ⟨trivial, trivial⟩
  | cons it items ih =>
    obtain ⟨mid, steps, run⟩ := Shape.of_run_cons run
    obtain ⟨now, later⟩ := taken
    have keys := inStep.keeps.eq rfl
    have noDrop : ¬ Drops u nest it := by
      rintro ⟨waits, mapEnd | ⟨integer, unknown⟩⟩
      · exact (now waits).1 mapEnd
      · exact unknown ((now waits).2.2 integer)
    have rest (p' : Parser) (processed : p.processItem u env parse it = .ok p') :
        KeepsHeights u env parse (heights (nest.step it).outer) p' items ∧
          KeepsOwnKeys u env parse (nest.step it) p' items := by
      obtain ⟨more, next, count⟩ := inStep.next steps processed
      rw [count.mpr noDrop] at next
      refine ih next run ?_
      by_cases last : it.typ.isLast
      · rw [Shape.run_ended ((Shape.step_ended steps).2.mpr last) run]
        trivial
      · rw [inStep.nested.awaiting_step steps last]
        exact later
    have isOpen := (Shape.step_ended steps).1
    refine ⟨⟨?_, ?_, fun p' processed => ?_⟩, keys, fun p' processed => (rest p' processed).2⟩
    · intro last
      have quiet : ¬ nest.awaiting.isSome = true := fun waits => (now waits).2.1 last
      rw [last, Shape.step, isOpen] at steps
      refine (inStep.nested.heights_head inStep.keeps quiet).1 ?_
      by_contra inside
      simp [inside] at steps
    · intro mapEnd
      have quiet : ¬ nest.awaiting.isSome = true := fun waits => (now waits).1 mapEnd
      rw [mapEnd, Shape.step, isOpen, if_neg Bool.false_ne_true] at steps
      split at steps
      · next frames inside =>
        exact (inStep.nested.heights_head inStep.keeps quiet).2 _ _ inside
      · cases steps
    · rw [inStep.keeps.heights_step it]
      exact (rest p' processed).1

/-- Where the keys are kept, none is left behind. -/
theorem InStep.taken {opened : List Nat} {m : Mapping} (inStep : InStep p shape nest extra)
    (run : shape.run items = some final)
    (accepted : p.processItems u env parse items = .ok m)
    (kept : KeepsHeights u env parse opened p items) :
    extra = 0 ∧ KeysTakenFrom u nest.awaiting.isSome items := by
  induction items generalizing p shape nest extra opened with
  | nil => cases accepted
  | cons it items ih =>
    obtain ⟨mid, steps, run⟩ := Shape.of_run_cons run
    obtain ⟨atEnd, -, goesOn⟩ := kept
    rw [Parser.processItems] at accepted
    split at accepted
    · next last =>
      have length := inStep.keeps.length
      rw [atEnd last, List.length_nil] at length
      rw [Shape.run_ended ((Shape.step_ended steps).2.mpr (Or.inl last)) run]
      refine ⟨by omega, fun waits => ?_, trivial⟩
      obtain ⟨key, isKey⟩ := Option.isSome_iff_exists.mp waits
      simp only [Nest.keys, isKey, Option.toList_some, List.singleton_append, List.length_cons]
        at length
      omega
    · next notEOF =>
      rcases processed : p.processItem u env parse it with p' | _ | _ | _ <;>
        rw [processed] at accepted
      case ok =>
        obtain ⟨more, next, count⟩ := inStep.next steps processed
        obtain ⟨none, later⟩ := ih next run accepted (goesOn p' processed)
        have noDrop := count.mp (by omega)
        refine ⟨by omega, fun waits => ⟨?_, notEOF, ?_⟩, ?_⟩
        · exact fun mapEnd => noDrop ⟨waits, Or.inl mapEnd⟩
        · intro integer
          by_contra unknown
          exact noDrop ⟨waits, Or.inr ⟨integer, unknown⟩⟩
        · have notLast : ¬ it.typ.isLast := by
            rintro (last | error)
            · exact notEOF last
            · obtain ⟨text, failed⟩ := @processItem_error u env p it error parse
              rw [failed] at processed
              cases processed
          rw [← inStep.nested.awaiting_step steps notLast]
          exact later
      all_goals cases accepted

end

end

/-- The items of a small text. -/
def nestedItems : List Item :=
  [⟨.itemKey, bytesOf "a", 1⟩, ⟨.itemMapStart, [], 1⟩, ⟨.itemKey, bytesOf "b", 2⟩,
    ⟨.itemInteger, bytesOf "1", 2⟩, ⟨.itemMapEnd, [], 3⟩, ⟨.itemEOF, [], 3⟩]

/-- For a text that is accepted: when a map closes the keys are as many as when it was opened, and
none are left at the end, exactly if no key is followed by the end of its map or of the text, or by
an integer whose suffix is not known; and then every value is stored under its own key. -/
theorem keys_kept_iff (u : Unicode) (env : Env) (turns : Nat) (data fp : Bytes) (m : Mapping)
    (accepted : parse u env turns data fp = .ok m) :
    ∃ items, lexAll u turns [] (Scan.init data) = .ended items ∧
      (Parser.init fp).processItems u env (parse u env turns) items = .ok m ∧
      (KeepsHeights u env (parse u env turns) [] (Parser.init fp) items ↔ KeysTaken u items) ∧
      (KeysTaken u items →
        KeepsOwnKeys u env (parse u env turns) ⟨none, []⟩ (Parser.init fp) items) := by
  obtain ⟨items, ended, processed⟩ := items_of_parse accepted
  obtain ⟨final, run⟩ := (Standing.init u data).run
    (fun lx state reached => (reached.closed ⟨turns, ended⟩).2) (by exact ended)
  refine ⟨items, ended, processed, ⟨fun kept => ?_, fun taken => ?_⟩, fun taken => ?_⟩
  · exact ((InStep.init fp).taken run processed kept).2
  · exact ((InStep.init fp).kept run taken).1
  · exact ((InStep.init fp).kept run taken).2

/-- A map in a map, where every key has its value. -/
theorem keys_kept_nested :
    KeysTaken noTables nestedItems ∧ ∀ env,
      parse noTables env 60 (bytesOf "a \x7b\nb=1\n\x7d") [] =
        .ok [(bytesOf "a", .map [(bytesOf "b", .int 1)])] ∧
      KeepsHeights noTables env (parse noTables env 60) [] (Parser.init []) nestedItems := by
  have taken : KeysTaken noTables nestedItems := by decide
  have ended : lexAll noTables 60 [] (Scan.init (bytesOf "a \x7b\nb=1\n\x7d")) = .ended nestedItems := by
    decide
  refine ⟨taken, fun env => ?_⟩
  have accepted := @accepted_of_items noTables env _ _ _
    [(bytesOf "a", .map [(bytesOf "b", .int 1)])] ended rfl
  obtain ⟨items, ended', -, kept, -⟩ := keys_kept_iff noTables env 60 _ _ _ accepted
  rw [ended] at ended'
  cases ended'
  exact ⟨accepted, kept.mpr taken⟩

/-- A key of an inner map that has no value gets the inner map itself, and its own key is left. A
key at the end of the text is left, and so is one before an integer with an unknown suffix. -/
theorem keys_left_behind :
    (∀ u env, parseText u env 40 (bytesOf "a \x7b\n foo\n\x7d\n") = .ok [(bytesOf "foo", .map [])] ∧
      ∀ items, lexAll u 40 [] (Scan.init (bytesOf "a \x7b\n foo\n\x7d\n")) = .ended items →
        ¬ KeepsHeights u env (parse u env 40) [] (Parser.init []) items) ∧
    (∀ u env, parseText u env 40 (bytesOf "foo") = .ok []) ∧
    ∀ u env, parseText u env 40 (bytesOf "x=1kbb") = .ok [] := by
  have inner (u : Unicode) : lexAll u 40 [] (Scan.init (bytesOf "a \x7b\n foo\n\x7d\n")) =
      .ended [⟨.itemKey, bytesOf "a", 1⟩, ⟨.itemMapStart, [], 1⟩, ⟨.itemKey, bytesOf "foo", 2⟩,
        ⟨.itemMapEnd, [], 3⟩, ⟨.itemEOF, [], 4⟩] :=
    ends_ascii (by decide) 40 (by decide)
  refine ⟨fun u env => ⟨accepted_of_items (inner u) rfl, fun items ended kept => ?_⟩,
    fun u env => ?_, fun u env => ?_⟩
  · rw [inner u] at ended
    cases ended
    have closed := (((kept.2.2 _ rfl).2.2 _ rfl).2.2 _ rfl).2.1 rfl
    cases closed
  · exact accepted_of_items (@ends_ascii u _ [⟨.itemKey, bytesOf "foo", 1⟩, ⟨.itemEOF, [], 1⟩]
      (by decide) 40 (by decide)) rfl
  · exact accepted_of_items (@ends_ascii u _ [⟨.itemKey, bytesOf "x", 1⟩,
      ⟨.itemInteger, bytesOf "1kbb", 1⟩, ⟨.itemEOF, [], 1⟩] (by decide) 40 (by decide)) rfl

end Hnatsd.Conf
