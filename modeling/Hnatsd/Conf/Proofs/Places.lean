import Hnatsd.Conf.Proofs.Reading

/-!
# Where a state function stands

The items a lexer sends describe nested maps and arrays, and the state stack of the lexer says what
is still open. A `Shape` is what the items sent so far leave open; each state function stands in a
`Place`, and place, stack and shape agree (`Aligned`), as does what has been read of a number.
`Goes` is what one call of a state function then comes to: its items continue the shape, the next
state agrees with what they leave, and either the call has read on, or the next state is nearer to
one that reads on, or the call was made at the end of the input in a state that waits for a closing
rune.
-/

namespace Hnatsd.Conf

open Hnatsd.Misc

inductive Frame where
  | array
  | map
  deriving DecidableEq, Repr

/-- What the items sent so far leave open: the containers, the innermost first, whether a key waits
for its value, and whether the last item was sent. -/
structure Shape where
  frames : List Frame
  awaiting : Bool
  ended : Bool
  deriving DecidableEq, Repr

/-- The container that is filled; outside all others that is the mapping. -/
def innermost : List Frame → Frame
  | [] => .map
  | frame :: _ => frame

/-- The shape after a container has been given a value. -/
def Shape.filled (frames : List Frame) : Shape := ⟨frames, false, false⟩

/-- The shape where a value comes next. -/
def Shape.wanting (frames : List Frame) : Shape := ⟨frames, innermost frames = .map, false⟩

/-- What an item makes of the shape. In a map a value follows a key; a key may be left without one
at the end of its map. -/
def Shape.step (shape : Shape) (typ : ItemType) : Option Shape :=
  if shape.ended then none
  else
    match typ with
    | .itemError => some { shape with ended := true }
    | .itemEOF => if shape.frames = [] then some { shape with ended := true } else none
    | .itemKey =>
        if innermost shape.frames = .map ∧ ¬ shape.awaiting then some { shape with awaiting := true }
        else none
    | .itemString | .itemBool | .itemInteger | .itemFloat | .itemDatetime | .itemVariable =>
        if shape = .wanting shape.frames then some (.filled shape.frames)
        else none
    | .itemArrayStart =>
        if shape = .wanting shape.frames then
          some (.filled (.array :: shape.frames)) else none
    | .itemMapStart =>
        if shape = .wanting shape.frames then
          some (.filled (.map :: shape.frames)) else none
    | .itemArrayEnd =>
        match shape.frames with
        | .array :: frames => some (.filled frames)
        | _ => none
    | .itemMapEnd =>
        match shape.frames with
        | .map :: frames => some (.filled frames)
        | _ => none
    | .itemInclude =>
        if innermost shape.frames = .map ∧ ¬ shape.awaiting then some shape else none
    | .itemCommentStart | .itemText => if shape.awaiting then none else some shape
    | .itemNIL => none

/-- What a series of items makes of the shape. -/
def Shape.run (shape : Shape) (items : List Item) : Option Shape :=
  items.foldlM (fun shape it => shape.step it.typ) shape

theorem Shape.of_run_cons {shape shape' : Shape} {it : Item} {items : List Item}
    (run : shape.run (it :: items) = some shape') :
    ∃ mid, shape.step it.typ = some mid ∧ mid.run items = some shape' := by
  rw [Shape.run, List.foldlM_cons] at run
  exact Option.bind_eq_some_iff.mp run

/-- The items of values that are no containers. -/
def ItemType.isScalar : ItemType → Bool
  | .itemString | .itemBool | .itemInteger | .itemFloat | .itemDatetime | .itemVariable => true
  | _ => false

namespace Shape

/-- Where a value is wanted, it is taken. -/
theorem step_scalar {typ : ItemType} (scalar : typ.isScalar = true) (frames : List Frame) :
    (wanting frames).step typ = some (.filled frames) := by
  have taken : (if wanting frames = .wanting frames then some (filled frames)
      else none) = some (.filled frames) := if_pos rfl
  cases typ <;> first | exact taken | cases scalar

theorem step_container (frames : List Frame) :
    (wanting frames).step .itemArrayStart = some (.filled (.array :: frames)) ∧
      (wanting frames).step .itemMapStart = some (.filled (.map :: frames)) := by
  have taken (inner : List Frame) : (if wanting frames = .wanting frames then
      some (filled inner) else none) = some (.filled inner) := if_pos rfl
  exact ⟨taken _, taken _⟩

end Shape

/-- The state after a value of a container. -/
def Frame.valueEnd : Frame → StateFn
  | .array => .lexArrayValueEnd
  | .map => .lexMapValueEnd

/-- The states to return to, for a value inside these containers. -/
def returns : List Frame → List StateFn
  | [] => [.lexTopValueEnd]
  | frame :: frames => frame.valueEnd :: returns frames

/-- Runes that are all digits. -/
def IsDigits (u : Unicode) (rs : List Nat) : Prop := rs ≠ [] ∧ ∀ r ∈ rs, u.isDigit r = true

/-- The suffix of a number: a letter and any number of `b`. -/
def IsSuffix : List Nat → Prop
  | [] => True
  | r :: rs => isNumberSuffix r = true ∧ ∀ b ∈ rs, b = 98 ∨ b = 66

/-- The texts of integers: a sign perhaps, digits and a suffix perhaps. -/
def IntegerText (u : Unicode) (text : Bytes) : Prop :=
  ∃ sign digits suffix, Spells text (sign ++ digits ++ suffix) ∧ (sign = [] ∨ sign = [45]) ∧
    IsDigits u digits ∧ IsSuffix suffix

/-- Where a state function stands: at top level, at a key there or after it, in an include, before
a value, in a value, in a block, after a minus sign, in the digits of a number after `sign`, in its
suffix, before a value of an array or after it, between the entries of a map, after a key of a map,
at the end of a map, or in a comment. -/
inductive Place where
  | top | topKey | topKeyEnd | includes | fresh | value | block
  | minus | digits (sign : List Nat) | suffix
  | arrayValue | inArray | inMap | mapKeyEnd | mapEnd | comment
  deriving DecidableEq, Repr

def StateFn.place : StateFn → Place
  | .lexTop | .lexTopValueEnd => .top
  | .lexKeyStart | .lexDubQuotedKey | .lexQuotedKey | .lexKey => .topKey
  | .lexKeyEnd => .topKeyEnd
  | .lexIncludeStart | .lexIncludeQuotedString | .lexIncludeDubQuotedString | .lexIncludeString
  | .lexInclude => .includes
  | .lexValue | .lexNumberOrDateOrIPStart => .fresh
  | .lexQuotedString | .lexDubQuotedString | .lexString | .lexStringEscape | .lexStringBinary
  | .lexDateAfterYear | .lexFloatStart | .lexFloat | .lexIPAddr => .value
  | .lexBlock => .block
  | .lexNegNumberStart => .minus
  | .lexNumberOrDateOrIP => .digits []
  | .lexNegNumber => .digits [45]
  | .lexConvenientNumber => .suffix
  | .lexArrayValue => .arrayValue
  | .lexArrayValueEnd | .lexArrayEnd => .inArray
  | .lexMapKeyStart | .lexMapQuotedKey | .lexMapDubQuotedKey | .lexMapKey | .lexMapValueEnd => .inMap
  | .lexMapKeyEnd | .lexMapValue => .mapKeyEnd
  | .lexMapEnd => .mapEnd
  | .lexCommentStart | .lexComment => .comment
  | .lexSkip nextState => nextState.place

/-- Place, stack, shape and token agree, outside comments. Something comes before a block: this is
what its two calls of `backup` need. -/
def Place.Holds (u : Unicode) : Place → List StateFn → Nat → Bytes → Shape → Prop
  | .top, stack, _, _, shape => stack = [] ∧ shape = .filled []
  | .topKey, stack, _, _, shape => stack = returns [] ∧ shape = .filled []
  | .topKeyEnd, stack, _, token, shape => stack = returns [] ∧ shape = .wanting [] ∧ token = []
  | .includes, stack, _, _, shape => ∃ frames, innermost frames = .map ∧ stack = returns frames ∧
      shape = .filled frames
  | .fresh, stack, _, token, shape => ∃ frames, stack = returns frames ∧
      shape = .wanting frames ∧ token = []
  | .value, stack, _, _, shape => ∃ frames, stack = returns frames ∧ shape = .wanting frames
  | .block, stack, start, _, shape => ∃ frames, stack = returns frames ∧
      shape = .wanting frames ∧ 1 ≤ start
  | .minus, stack, _, token, shape => ∃ frames, stack = returns frames ∧
      shape = .wanting frames ∧ Spells token [45]
  | .digits sign, stack, _, token, shape => ∃ frames, stack = returns frames ∧
      shape = .wanting frames ∧ ∃ digits, Spells token (sign ++ digits) ∧ IsDigits u digits
  | .suffix, stack, _, token, shape => ∃ frames, stack = returns frames ∧
      shape = .wanting frames ∧ ∃ sign digits r rs, Spells token (sign ++ digits ++ r :: rs) ∧
        (sign = [] ∨ sign = [45]) ∧ IsDigits u digits ∧ IsSuffix (r :: rs)
  | .arrayValue, stack, _, token, shape => ∃ frames, stack = returns frames ∧
      shape = .filled (.array :: frames) ∧ token = []
  | .inArray, stack, _, _, shape => ∃ frames, stack = returns frames ∧
      shape = .filled (.array :: frames)
  | .inMap, stack, _, _, shape => ∃ frames, stack = returns frames ∧
      shape = .filled (.map :: frames)
  | .mapKeyEnd, stack, _, token, shape => ∃ frames, stack = returns frames ∧
      shape = .wanting (.map :: frames) ∧ token = []
  | .mapEnd, stack, _, _, shape => ∃ frames, stack = returns frames ∧
      (shape = .filled (.map :: frames) ∨ shape = .wanting (.map :: frames))
  | .comment, _, _, _, _ => False

/-- The states a comment goes back to. -/
def commentReturns : List StateFn :=
  [.lexTop, .lexArrayValue, .lexArrayValueEnd, .lexMapKeyStart, .lexMapValueEnd]

/-- `lexSkip` is about to drop the token. A comment has the state it goes back to on top of the
stack, and that state starts with a new token. -/
def Aligned (u : Unicode) (state : StateFn) (stack : List StateFn) (start : Nat) (token : Bytes)
    (shape : Shape) : Prop :=
  match state with
  | .lexSkip nextState => nextState.place.Holds u stack start [] shape
  | .lexCommentStart | .lexComment => ∃ s ∈ commentReturns, ∃ below, stack = s :: below ∧
      s.place.Holds u below start [] shape
  | state => state.place.Holds u stack start token shape

/-- The lexer stands in `state` after items that leave `shape`. -/
def Stands (u : Unicode) (lx : Lexer) (state : StateFn) (shape : Shape) : Prop :=
  Aligned u state lx.stack lx.start lx.token shape

section

variable {u : Unicode} {state : StateFn} {place : Place} {stack : List StateFn} {start : Nat}
  {token : Bytes} {shape : Shape}

theorem Place.Holds.not_comment (holds : place.Holds u stack start token shape) :
    place ≠ .comment := by
  rintro rfl
  exact holds

/-- Where a new token starts, the place says it all. -/
theorem Aligned.of_holds (holds : state.place.Holds u stack start [] shape) :
    Aligned u state stack start [] shape := by
  unfold Aligned
  split
  · exact holds
  · exact absurd rfl holds.not_comment
  · exact absurd rfl holds.not_comment
  · exact holds

/-- An item that starts later leaves the alignment as it is. -/
theorem Place.Holds.later {later : Nat} (holds : place.Holds u stack start token shape)
    (le : start ≤ later) : place.Holds u stack later token shape := by
  cases place with
  | block =>
    obtain ⟨frames, returning, wanting, pos⟩ := holds
    exact ⟨frames, returning, wanting, Nat.le_trans pos le⟩
  | _ => exact holds

theorem Place.Holds.not_ended (holds : place.Holds u stack start token shape) :
    shape.ended = false := by
  cases place with
  | top | topKey =>
    obtain ⟨-, rfl⟩ := holds
    rfl
  | topKeyEnd =>
    obtain ⟨-, rfl, -⟩ := holds
    rfl
  | includes =>
    obtain ⟨frames, -, -, rfl⟩ := holds
    rfl
  | value | inArray | inMap =>
    obtain ⟨frames, -, rfl⟩ := holds
    rfl
  | fresh | block | minus | digits | suffix | arrayValue | mapKeyEnd =>
    obtain ⟨frames, -, rfl, -⟩ := holds
    rfl
  | mapEnd =>
    obtain ⟨frames, -, rfl | rfl⟩ := holds <;> rfl
  | comment => exact holds.elim

theorem Aligned.not_ended (aligned : Aligned u state stack start token shape) :
    shape.ended = false := by
  unfold Aligned at aligned
  split at aligned
  · exact aligned.not_ended
  · obtain ⟨s, -, below, -, holds⟩ := aligned
    exact holds.not_ended
  · obtain ⟨s, -, below, -, holds⟩ := aligned
    exact holds.not_ended
  · exact aligned.not_ended

/-- No key waits where a comment starts. -/
theorem Place.Holds.not_awaiting {s : StateFn} (returning : s ∈ commentReturns)
    (holds : s.place.Holds u stack start token shape) : shape.awaiting = false := by
  simp only [commentReturns, List.mem_cons, List.not_mem_nil, or_false] at returning
  rcases returning with rfl | rfl | rfl | rfl | rfl
  · obtain ⟨-, rfl⟩ := holds
    rfl
  · obtain ⟨frames, -, rfl, -⟩ := holds
    rfl
  all_goals
    obtain ⟨frames, -, rfl⟩ := holds
    rfl

end

/-- After a value the lexer is back in the container around it. -/
theorem aligned_returns (u : Unicode) (frames : List Frame) (start : Nat) (token : Bytes) :
    ∃ state below, returns frames = state :: below ∧
      Aligned u state below start token (.filled frames) ∧
      (state = .lexTopValueEnd ∨ state = .lexArrayValueEnd ∨ state = .lexMapValueEnd) := by
  cases frames with
  | nil => exact ⟨_, _, rfl, ⟨rfl, rfl⟩, Or.inl rfl⟩
  | cons frame frames =>
    cases frame with
    | array => exact ⟨_, _, rfl, ⟨frames, rfl, rfl⟩, Or.inr (Or.inl rfl)⟩
    | map => exact ⟨_, _, rfl, ⟨frames, rfl, rfl⟩, Or.inr (Or.inr rfl)⟩

/-- How many calls at most are made, without reading on, before one that reads on or ends. Some
states do without the end of the input what they do only there, so the count depends on it. -/
def StateFn.rank (atEnd : Bool) : StateFn → Nat
  | .lexTop => if atEnd then 0 else 1
  | .lexTopValueEnd | .lexArrayValueEnd | .lexMapValueEnd => 1
  | .lexKeyStart => if atEnd then 2 else 0
  | .lexKey => if atEnd then 1 else 5
  | .lexKeyEnd => if atEnd then 0 else 4
  | .lexIncludeString | .lexString | .lexNumberOrDateOrIP | .lexConvenientNumber | .lexNegNumber
  | .lexFloat | .lexIPAddr | .lexArrayEnd | .lexMapEnd => 2
  | .lexInclude | .lexValue => 3
  | .lexIncludeStart | .lexArrayValue | .lexMapValue => 4
  | .lexMapKeyEnd => 5
  | .lexMapKey => 6
  | .lexMapKeyStart => if atEnd then 7 else 0
  | .lexComment => 8
  | .lexCommentStart => 9
  | .lexSkip nextState => nextState.rank atEnd + 1
  | _ => 0

/-- The states that read on until a closing rune and do not look for the end of the input. -/
def openStates : List StateFn :=
  [.lexDubQuotedKey, .lexQuotedKey, .lexIncludeQuotedString, .lexIncludeDubQuotedString,
    .lexMapQuotedKey, .lexMapDubQuotedKey, .lexMapKey, .lexQuotedString, .lexDubQuotedString,
    .lexBlock]

/-- How a call made in `state` gets on when it leaves the lexer at `pos` in `state'`. -/
def Progress (lx : Lexer) (state : StateFn) (pos : Nat) (state' : StateFn) : Prop :=
  lx.pos < pos ∨ (pos = lx.pos ∧ state'.rank lx.atEnd < state.rank lx.atEnd) ∨
    (pos = lx.pos ∧ lx.atEnd = true ∧ state' = state ∧ state ∈ openStates)

/-- What a call made with lexer `lx` in `state` comes to when its first items have made `shape`. -/
structure Goes (u : Unicode) (lx : Lexer) (state : StateFn) (shape : Shape) (result : Result) :
    Prop where
  ok : result.lx.Ok
  input : result.lx.input = lx.input
  forward : lx.pos ≤ result.lx.pos
  integers : ∀ it ∈ result.items, it.typ = .itemInteger → IntegerText u it.val
  continues : ∃ shape', shape.run result.items = some shape' ∧
    match result.state with
    | none => shape'.ended = true
    | some state' => Stands u result.lx state' shape' ∧ Progress lx state result.lx.pos state'

namespace Lexer

/-- A lexer that has come from another by reading. -/
structure From (lx lx' : Lexer) : Prop where
  ok : lx'.Ok
  input : lx'.input = lx.input
  forward : lx.pos ≤ lx'.pos

variable {u : Unicode} {lx lx' : Lexer} {state : StateFn} {shape : Shape}

namespace From

theorem refl (ok : lx.Ok) : From lx lx := ⟨ok, rfl, Nat.le_refl _⟩

section

variable (reads : From lx lx')
include reads

theorem skip : From lx lx'.skip :=
  ⟨reads.ok.skip, by rw [skip_input, reads.input], Nat.le_trans reads.forward (le_skip_pos lx')⟩

theorem seen : From lx lx'.seen := ⟨reads.ok.seen, reads.input, reads.forward⟩

theorem ignore : From lx lx'.ignore :=
  ⟨reads.ok.ignore, reads.input, reads.forward⟩

theorem push (s : StateFn) : From lx (lx'.push s) :=
  ⟨reads.ok.push s, reads.input, reads.forward⟩

theorem goto {state' : StateFn} (stands : Stands u lx' state' shape)
    (progress : Progress lx state lx'.pos state') : Goes u lx state shape (lx'.goto state') :=
  ⟨reads.ok, reads.input, reads.forward, nofun, shape, rfl, stands, progress⟩

theorem errorf (isOpen : shape.ended = false) (text : Bytes) :
    Goes u lx state shape (lx'.errorf text) := by
  refine ⟨reads.ok, reads.input, reads.forward, ?_, { shape with ended := true }, ?_, rfl⟩
  · rintro it (_ | ⟨_, ⟨⟩⟩) ⟨⟩
  · simp [Shape.run, Lexer.errorf, Shape.step, isOpen]

theorem emit {shape' : Shape} {typ : ItemType} {andThen : Lexer → Result}
    (integer : typ = .itemInteger → IntegerText u lx'.token)
    (steps : shape.step typ = some shape') (rest : Goes u lx state shape' (andThen lx'.ignore)) :
    Goes u lx state shape (lx'.emit typ andThen) := by
  obtain ⟨ok, input, forward, integers, shape'', run, goes⟩ := rest
  rw [reads.ok.emit]
  refine ⟨ok, input, forward, ?_, shape'', ?_, goes⟩
  · intro it mem isInteger
    rcases List.mem_cons.mp mem with rfl | later
    · exact integer isInteger
    · exact integers it later isInteger
  · rw [Shape.run] at run ⊢
    rw [Result.after, List.foldlM_cons, steps]
    exact run

theorem stop (ended : shape.ended = true) :
    Goes u lx state shape lx'.stop :=
  ⟨reads.ok, reads.input, reads.forward, nofun, shape, rfl, ended⟩

/-- Back to the container around a value. -/
theorem pop {frames : List Frame} (stack : lx'.stack = returns frames)
    (progress : lx.pos < lx'.pos ∨ (lx'.pos = lx.pos ∧ 1 < state.rank lx.atEnd)) :
    Goes u lx state (.filled frames) lx'.pop := by
  obtain ⟨s, below, returned, aligned, isEnd⟩ := aligned_returns u frames lx'.start lx'.token
  have popped : lx'.pop = { lx' with stack := below }.goto s := by
    rw [Lexer.pop, stack, returned]
  rw [popped]
  refine ⟨⟨reads.ok.start, reads.ok.pos, reads.ok.fault⟩, reads.input, reads.forward, nofun, _, rfl,
    aligned, ?_⟩
  rcases progress with read | ⟨stays, high⟩
  · exact Or.inl read
  · refine Or.inr (Or.inl ⟨stays, ?_⟩)
    have low : s.rank lx.atEnd = 1 := by
      rcases isEnd with rfl | rfl | rfl <;> rfl
    rw [low]
    exact high

/-- A comment starts. -/
theorem comment {s : StateFn} (returning : s ∈ commentReturns)
    (holds : s.place.Holds u lx'.stack lx'.start [] shape) (read : lx.pos < lx'.pos) :
    Goes u lx state shape (lx'.comment s) :=
  (reads.push s).goto ⟨s, returning, lx'.stack, rfl, holds⟩ (Or.inl read)

theorem slash {s : StateFn} {fallthrough : Lexer → Result} (returning : s ∈ commentReturns)
    (holds : s.place.Holds u lx'.stack lx'.start [] shape)
    (read : lx.pos < lx'.pos) (other : Goes u lx state shape (fallthrough lx'.seen)) :
    Goes u lx state shape (lx'.slash s fallthrough) := by
  simp only [Lexer.slash, next_eq, backup_skip]
  split
  · apply reads.skip.comment returning
    · rwa [skip_stack, skip_start]
    · exact Nat.lt_of_lt_of_le read (le_skip_pos lx')
  · exact other

end

end From

end Lexer

end Hnatsd.Conf
