import Hnatsd.Conf.Parser
import Hnatsd.Conf.Proofs.LexingEnds

/-!
# The stacks of the parser

The contexts of the parser are the containers that the items leave open, and for each of them that
stands in a map a key is kept. So no item finds a stack empty, whatever the items are that a lexer
sends.
-/

namespace Hnatsd.Conf

open Hnatsd.Misc Lexer

variable {frames : List Frame} {causes : Panic → Prop}

def Ctx.frame : Ctx → Frame
  | .array _ => .array
  | .map _ => .map

/-- The open containers that a key waits for: those that stand in a map. -/
def pendingKeys : List Frame → Nat
  | [] => 0
  | _ :: frames => (if innermost frames = .map then 1 else 0) + pendingKeys frames

/-- The keys a shape has use for. -/
def Shape.keys (shape : Shape) : Nat := pendingKeys shape.frames + (if shape.awaiting then 1 else 0)

/-- The contexts are the open containers, and no key is missing. -/
structure Fits (p : Parser) (shape : Shape) : Prop where
  ctxs : p.ctxs.map Ctx.frame = shape.frames ++ [.map]
  keys : shape.keys ≤ p.keys.length

/-- The texts that an item makes the parser parse: the value of an environment variable, or an
included file. -/
def References (env : Env) (fp : Bytes) (it : Item) (data fp' : Bytes) : Prop :=
  (it.typ = .itemVariable ∧ bcryptPrefix.isPrefixOf it.val = false ∧
    ∃ vStr, env.lookupEnv it.val = some vStr ∧ data = pkText vStr ∧ fp' = []) ∨
  (it.typ = .itemInclude ∧ env.readFile (env.join fp it.val) = .ok data ∧
    fp' = env.dir (env.join fp it.val))

section

variable {p : Parser} {shape : Shape}

theorem Fits.frame (fits : Fits p shape) : p.ctx.frame = innermost shape.frames := by
  have ctxs := fits.ctxs
  rw [Parser.ctxs, List.map_cons] at ctxs
  cases frames : shape.frames with
  | nil =>
    rw [frames] at ctxs
    exact (List.cons.inj ctxs).1
  | cons frame rest =>
    rw [frames] at ctxs
    exact (List.cons.inj ctxs).1

theorem Fits.init (fp : Bytes) : Fits (Parser.init fp) (.filled []) := ⟨rfl, Nat.zero_le _⟩

/-- A value finds its place where the shape wants one. -/
theorem Fits.setValue (fits : Fits p (.wanting frames)) (val : Value) :
    ∃ p', p.setValue val = .ok p' ∧ Fits p' (.filled frames) ∧ p'.fp = p.fp := by
  have frame := fits.frame
  have ctxs := fits.ctxs
  have keys := fits.keys
  rw [Parser.ctxs, List.map_cons] at ctxs
  unfold Parser.setValue
  rcases ctx : p.ctx with values | entries
  · refine ⟨_, rfl, ⟨?_, ?_⟩, rfl⟩
    · rw [ctx] at ctxs
      exact ctxs
    · exact Nat.le_trans (Nat.le_add_right _ _) keys
  · rw [ctx] at frame
    have isMap : innermost frames = .map := frame.symm
    rcases stacked : p.keys with _ | ⟨key, below⟩
    · rw [stacked] at keys
      simp [Shape.keys, Shape.wanting, isMap] at keys
    · refine ⟨_, rfl, ⟨?_, ?_⟩, rfl⟩
      · rw [ctx] at ctxs
        exact ctxs
      · rw [stacked] at keys
        simpa [Shape.keys, Shape.wanting, Shape.filled, isMap] using keys

/-- A container that is closed becomes a value of the one around it. -/
theorem Fits.close {frame : Frame} {awaiting : Bool}
    (fits : Fits p ⟨frame :: frames, awaiting, false⟩) :
    ∃ popped, p.popContext = .ok popped ∧ Fits popped (.wanting frames) ∧ popped.fp = p.fp := by
  have ctxs := fits.ctxs
  rw [Parser.ctxs, List.map_cons, List.cons_append] at ctxs
  have below := (List.cons.inj ctxs).2
  unfold Parser.popContext
  rcases outer : p.outer with _ | ⟨ctx, outer'⟩
  · rw [outer] at below
    simp at below
  · refine ⟨_, rfl, ⟨?_, ?_⟩, rfl⟩
    · rw [outer] at below
      exact below
    · have keys := fits.keys
      have waits : (Shape.wanting frames).keys = pendingKeys (frame :: frames) := by
        simp [Shape.keys, Shape.wanting, pendingKeys, Nat.add_comm]
      rw [waits]
      exact Nat.le_trans (Nat.le_add_right _ _) keys

/-- The entries of an included file find their place in a map. -/
theorem Fits.setAll (fits : Fits p (.filled frames))
    (isMap : innermost frames = .map) (m : Mapping) :
    ∃ p', p.setAll m = .ok p' ∧ Fits p' (.filled frames) ∧ p'.fp = p.fp := by
  induction m generalizing p with
  | nil => exact ⟨p, rfl, fits, rfl⟩
  | cons entry m ih =>
    obtain ⟨k, v⟩ := entry
    have pushed : Fits (p.pushKey k) (.wanting frames) := by
      refine ⟨fits.ctxs, ?_⟩
      have keys := fits.keys
      simpa [Shape.keys, Shape.wanting, Shape.filled, isMap, Parser.pushKey] using keys
    obtain ⟨q, set, fitsQ, fpQ⟩ := pushed.setValue v
    obtain ⟨p', all, fits', fp'⟩ := ih fitsQ
    refine ⟨p', ?_, fits', fp'.trans fpQ⟩
    rw [Parser.setAll, set]
    exact all

/-- Where an item is a value, the shape wanted one. -/
theorem Shape.of_step_scalar {shape' : Shape} {typ : ItemType} (scalar : typ.isScalar = true)
    (steps : shape.step typ = some shape') :
    shape = .wanting shape.frames ∧ shape' = .filled shape.frames := by
  have isOpen := (Shape.step_ended steps).1
  cases typ <;> simp [ItemType.isScalar] at scalar <;>
    simp only [Shape.step, isOpen, Bool.false_eq_true, if_false] at steps <;> split at steps <;>
    cases steps <;> exact ⟨‹_›, rfl⟩

variable {u : Unicode} {env : Env} {parse : Bytes → Bytes → Outcome Mapping} {it : Item}

/-- What is set aside for an item: if the parser goes on the stacks fit, and it does not panic but
for one of the causes given. -/
def Taken (fp : Bytes) (shape : Shape) (causes : Panic → Prop) : Outcome Parser → Prop
  | .ok p => Fits p shape ∧ p.fp = fp
  | .panic cause => causes cause
  | .error _ => True
  | .running => True

/-- The panics of the texts that an item refers to. -/
def Referred (env : Env) (parse : Bytes → Bytes → Outcome Mapping) (fp : Bytes) (it : Item)
    (cause : Panic) : Prop :=
  ∃ data fp', References env fp it data fp' ∧ parse data fp' = .panic cause

theorem Fits.taken_setValue
    (fits : Fits p (.wanting frames)) (val : Value) :
    Taken p.fp (.filled frames) causes (p.setValue val) := by
  obtain ⟨p', set, fits', fp⟩ := fits.setValue val
  rw [set]
  exact ⟨fits', fp⟩

theorem Fits.taken_close {frame : Frame} {awaiting : Bool} (fits : Fits p ⟨frame :: frames, awaiting, false⟩) (val : Value) :
    Taken p.fp (.filled frames) causes
      (p.popContext.bind fun popped => popped.setValue val) := by
  obtain ⟨popped, pop, fits', fp⟩ := fits.close
  rw [pop, ← fp]
  exact fits'.taken_setValue val

/-- A variable that is looked up is parsed at most from its environment value. -/
theorem lookupVariable_panics {cause : Panic} (isVariable : it.typ = .itemVariable)
    (panics : p.lookupVariable env parse it.val = .panic cause) :
    Referred env parse p.fp it cause := by
  unfold Parser.lookupVariable at panics
  split at panics
  · cases panics
  · next plain =>
    split at panics
    · cases panics
    · unfold lookupEnvironment at panics
      split at panics
      · cases panics
      · next vStr found =>
        have refers : References env p.fp it (pkText vStr) [] :=
          Or.inl ⟨isVariable, Bool.eq_false_iff.mpr plain, vStr, found, rfl, rfl⟩
        split at panics
        · cases panics
        · cases panics
        · next parsed =>
          cases panics
          exact ⟨_, _, refers, parsed⟩
        · cases panics

theorem Fits.taken_integer
    (fits : Fits p (.wanting frames)) :
    Taken p.fp (.filled frames) causes (p.processInteger u it) := by
  unfold Parser.processInteger
  dsimp only
  split
  · trivial
  · trivial
  · split
    · exact fits.taken_setValue _
    · -- a suffix that is not known leaves the key behind
      refine ⟨⟨fits.ctxs, ?_⟩, rfl⟩
      exact Nat.le_trans (Nat.le_add_right _ _) fits.keys

/-- The items of values. -/
theorem Fits.taken_scalar (fits : Fits p (.wanting frames))
    (scalar : it.typ.isScalar = true) :
    Taken p.fp (.filled frames) (Referred env parse p.fp it) (p.processItem u env parse it) := by
  unfold Parser.processItem
  cases typ : it.typ <;> simp only [typ, ItemType.isScalar] at scalar <;> dsimp only
  case itemString => exact fits.taken_setValue _
  case itemInteger => exact fits.taken_integer
  case itemFloat =>
    split
    · trivial
    · trivial
    · exact fits.taken_setValue _
  case itemBool =>
    split
    · exact fits.taken_setValue _
    · split
      · exact fits.taken_setValue _
      · trivial
  case itemDatetime =>
    split
    · trivial
    · exact fits.taken_setValue _
  case itemVariable =>
    rcases looked : p.lookupVariable env parse it.val with (_ | value) | _ | cause | _
    · trivial
    · exact fits.taken_setValue value
    · trivial
    · exact lookupVariable_panics typ looked
    · trivial
  all_goals cases scalar

/-- Every item that continues the shape is taken. -/
theorem Fits.processItem {shape' : Shape} (fits : Fits p shape)
    (steps : shape.step it.typ = some shape') :
    Taken p.fp shape' (Referred env parse p.fp it) (p.processItem u env parse it) := by
  by_cases scalar : it.typ.isScalar = true
  · obtain ⟨wanting, rfl⟩ := Shape.of_step_scalar scalar steps
    rw [wanting] at fits
    exact fits.taken_scalar scalar
  have isOpen := (Shape.step_ended steps).1
  obtain ⟨frames, awaiting, ended⟩ := shape
  cases isOpen
  unfold Parser.processItem
  cases typ : it.typ <;> simp only [typ, ItemType.isScalar, not_true] at scalar <;>
    simp only [typ, Shape.step, Bool.false_eq_true, if_false] at steps <;> dsimp only
  case itemError => trivial
  case itemNIL => cases steps
  case itemEOF =>
    split at steps
    · cases steps
      exact ⟨⟨fits.ctxs, fits.keys⟩, rfl⟩
    · cases steps
  case itemKey =>
    split at steps
    · next isMap =>
      cases steps
      refine ⟨⟨fits.ctxs, ?_⟩, rfl⟩
      have keys := fits.keys
      simp only [Bool.not_eq_true] at isMap
      simpa [Shape.keys, isMap.2, Parser.pushKey] using keys
    · cases steps
  case itemText | itemCommentStart =>
    split at steps
    · cases steps
    · cases steps
      exact ⟨fits, rfl⟩
  case itemArrayStart | itemMapStart =>
    split at steps
    · next wanting =>
      cases steps
      rw [wanting] at fits
      refine ⟨⟨?_, ?_⟩, rfl⟩
      · exact congrArg (List.cons _) fits.ctxs
      · have keys := fits.keys
        simpa [Shape.keys, Shape.filled, Shape.wanting, pendingKeys, Nat.add_comm, Parser.pushContext]
          using keys
    · cases steps
  case itemArrayEnd | itemMapEnd =>
    split at steps
    · cases steps
      exact fits.taken_close _
    · cases steps
  case itemInclude =>
    split at steps
    · next isMap =>
      cases steps
      have waits : awaiting = false := by simpa using isMap.2
      subst waits
      rcases parsed : parseFileWith env parse (env.join p.fp it.val) with m | _ | cause | _
      · obtain ⟨p', all, fits', fp⟩ := fits.setAll isMap.1 m
        dsimp only
        rw [all]
        exact ⟨fits', fp⟩
      · trivial
      · unfold parseFileWith at parsed
        split at parsed
        · cases parsed
        · next data read =>
          exact ⟨_, _, Or.inr ⟨typ, read, rfl⟩, parsed⟩
      · trivial
    · cases steps

end

end Hnatsd.Conf
