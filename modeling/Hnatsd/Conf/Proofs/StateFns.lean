import Hnatsd.Conf.Proofs.Places

/-!
# What each state function does

One lemma for each state function (`goes_lexTop` and so on): from a lexer whose positions are in
order, in a place that agrees with its stack, the call goes on as `Goes` says. The one exception is
`lexString` at the end of the input with nothing read, where `isVariable` is out of range.
-/

namespace Hnatsd.Conf

open Hnatsd.Misc List

variable {typ : ItemType} {frames : List Frame} {sign : List Nat} {quote r : Nat}
  {self state : StateFn}

namespace Unicode

variable {u : Unicode}

theorem isSpace_ne (space : u.isSpace r = true) : r ≠ 0 := by
  rintro rfl
  simp [isSpace] at space

theorem isDigit_ne (digit : u.isDigit r = true) : r ≠ 0 := by
  rintro rfl
  simp [isDigit] at digit

theorem isDigit_valid (digit : u.isDigit r = true) : r ≠ runeError := by
  rintro rfl
  have beyond : ¬ runeError ≤ 0xFF := by decide
  rw [isDigit, if_neg beyond, u.digit_error] at digit
  cases digit

end Unicode

theorem isWhitespace_ne (white : isWhitespace r = true) : r ≠ 0 := by
  rintro rfl
  simp [isWhitespace] at white

theorem isKeySeparator_ne (separator : isKeySeparator r = true) : r ≠ 0 := by
  rintro rfl
  simp [isKeySeparator] at separator

theorem isNumberSuffix_ne (suffix : isNumberSuffix r = true) : r ≠ 0 := by
  rintro rfl
  simp [isNumberSuffix] at suffix

theorem isHexadecimal_ne (hex : isHexadecimal r = true) : r ≠ 0 := by
  rintro rfl
  simp [isHexadecimal] at hex

namespace Lexer

variable {u : Unicode} {lx : Lexer} {shape : Shape}

/-- A rune other than zero is read on. -/
theorem lt_of_rune (some : lx.rune ≠ 0) : lx.pos < lx.skip.pos := lt_skip_pos (atEnd_of_rune some)

theorem visible {c : Nat} [NeZero c] (is : lx.rune = c) : lx.rune ≠ 0 := is ▸ NeZero.ne c

theorem atEnd_or (lx : Lexer) : lx.pos < lx.skip.pos ∨ lx.skip.pos = lx.pos ∧ lx.atEnd = true := by
  rcases more : lx.atEnd with _ | _
  · exact Or.inl (lt_skip_pos more)
  · rw [atEnd, decide_eq_true_eq] at more
    rw [skip_of_end more]
    exact Or.inr ⟨rfl, rfl⟩

/-- What is read at the end of the input as well gets on if the count goes down there. -/
theorem progress_skip (lower : state.rank true < self.rank true) :
    Progress lx self lx.skip.pos state := by
  rcases atEnd_or lx with read | ⟨stays, done⟩
  · exact Or.inl read
  · exact Or.inr (Or.inl ⟨stays, by rwa [done]⟩)

theorem progress_open (isOpen : self ∈ openStates) : Progress lx self lx.skip.pos self := by
  rcases atEnd_or lx with read | ⟨stays, done⟩
  · exact Or.inl read
  · exact Or.inr (Or.inr ⟨stays, done, rfl, isOpen⟩)

namespace Ok

variable (ok : lx.Ok)

include ok

theorem reads : From lx lx.skip := (From.refl ok).skip

/-- The rune belongs to the item, or is dropped by `lexSkip`. -/
theorem read (some : lx.rune ≠ 0)
    (aligned : Aligned u state lx.stack lx.start lx.skip.token shape) :
    Goes u lx self shape (lx.skip.goto state) :=
  ok.reads.goto (by rwa [Stands, skip_stack, skip_start]) (Or.inl (lt_of_rune some))

/-- A new item starts behind the rune. -/
theorem pass (some : lx.rune ≠ 0) (aligned : Aligned u state lx.stack lx.skip.pos [] shape) :
    Goes u lx self shape (lx.skip.ignore.goto state) :=
  ok.reads.ignore.goto (by rwa [Stands, ignore_token, ignore_stack, skip_stack])
    (Or.inl (lt_of_rune some))

/-- The rune is left to another state. -/
theorem leave (stands : Stands u lx state shape)
    (lower : state.rank lx.atEnd < self.rank lx.atEnd) :
    Goes u lx self shape (lx.seen.goto state) :=
  (From.refl ok).seen.goto stands (Or.inr (Or.inl ⟨rfl, lower⟩))

/-- The rune is left to the first state of a value, which goes back to the end of a value in `frame`. -/
theorem value (frame : Frame) (stack : lx.stack = returns frames) (empty : lx.token = [])
    (lower : StateFn.lexValue.rank lx.atEnd < self.rank lx.atEnd) :
    Goes u lx self (.wanting (frame :: frames)) ((lx.seen.push frame.valueEnd).goto .lexValue) :=
  ((From.refl ok).seen.push _).goto
    ⟨frame :: frames, congrArg (frame.valueEnd :: ·) stack, rfl, empty⟩
    (Or.inr (Or.inl ⟨rfl, lower⟩))

theorem comment (some : lx.rune ≠ 0) (returning : state ∈ commentReturns)
    (holds : state.place.Holds u lx.stack lx.start [] shape) :
    Goes u lx self shape (lx.skip.comment state) :=
  ok.reads.comment returning (by rwa [skip_stack, skip_start]) (lt_of_rune some)

theorem slash {other : Lexer → Result} (some : lx.rune ≠ 0) (returning : state ∈ commentReturns)
    (holds : state.place.Holds u lx.stack lx.start [] shape)
    (falls : Goes u lx self shape (other lx.skip.seen)) :
    Goes u lx self shape (lx.skip.slash state other) :=
  ok.reads.slash returning (by rwa [skip_stack, skip_start]) (lt_of_rune some) falls

/-- After a `/` that starts no comment. -/
theorem readSeen (some : lx.rune ≠ 0)
    (aligned : Aligned u state lx.stack lx.start lx.skip.token shape) :
    Goes u lx self shape (lx.skip.seen.goto state) :=
  ok.reads.seen.goto (by rwa [Stands, seen_stack, seen_start, skip_stack, skip_start])
    (Or.inl (lt_of_rune some))

/-- The end of an item before the rune read, back to the container around the value. -/
theorem endBefore (integer : typ = .itemInteger → IntegerText u lx.token)
    (stack : lx.stack = returns frames) (steps : shape.step typ = some (.filled frames))
    (high : 1 < state.rank lx.atEnd) : Goes u lx state shape (lx.skip.endBefore typ) := by
  rw [Lexer.endBefore, backup_skip]
  apply (From.refl ok).seen.emit integer steps
  exact (From.refl ok).seen.ignore.pop stack (Or.inr ⟨rfl, high⟩)

/-- The end of an item before the quote read, which is passed over. -/
theorem endQuoted (plain : typ ≠ .itemInteger) (stack : lx.stack = returns frames)
    (steps : shape.step typ = some (.filled frames)) (read : lx.rune ≠ 0) :
    Goes u lx state shape (lx.skip.endQuoted typ) := by
  rw [Lexer.endQuoted, backup_skip]
  apply (From.refl ok).seen.emit (fun integer => absurd integer plain) steps
  apply (From.refl ok).seen.ignore.skip.ignore.pop
  · simpa using stack
  · exact Or.inl (by simpa using lt_of_rune read)

end Ok

/-- A call in this state goes on as `Goes` says, wherever the lexer stands in it. -/
def GoesOn (u : Unicode) (state : StateFn) : Prop :=
  ∀ lx shape, lx.Ok → Stands u lx state shape → Goes u lx state shape (state.call u lx)

theorem goes_lexTop : GoesOn u .lexTop := by
  rintro lx _ ok ⟨stack, rfl⟩
  rw [StateFn.call, lexTop, next_eq]
  simp only [backup_skip]
  split_ifs with space hash slash zero
  · exact ok.read (Unicode.isSpace_ne space) ⟨stack, rfl⟩
  · exact ok.comment (visible hash) (by decide) ⟨stack, rfl⟩
  · refine ok.slash (visible slash) (by decide) ⟨stack, rfl⟩ ?_
    rw [topEOF]
    split
    · exact ok.reads.seen.errorf rfl _
    · exact ok.reads.seen.emit (by nofun) rfl (ok.reads.seen.ignore.stop rfl)
  · rw [topEOF]
    split
    · exact ok.reads.errorf rfl _
    · exact ok.reads.emit (by nofun) rfl (ok.reads.ignore.stop rfl)
  · have more := atEnd_of_rune zero
    refine ((From.refl ok).seen.push _).goto ⟨congrArg _ stack, rfl⟩ ?_
    exact Or.inr (Or.inl ⟨rfl, by rw [more]; decide⟩)

theorem goes_lexTopValueEnd : GoesOn u .lexTopValueEnd := by
  rintro lx _ ok ⟨stack, rfl⟩
  rw [StateFn.call, lexTopValueEnd, next_eq]
  dsimp only
  split_ifs with hash slash white newline
  · exact ok.comment (visible hash) (by decide) ⟨stack, rfl⟩
  · exact ok.slash (visible slash) (by decide) ⟨stack, rfl⟩ (ok.readSeen (visible slash) ⟨stack, rfl⟩)
  · exact ok.read (isWhitespace_ne white) ⟨stack, rfl⟩
  · exact ok.reads.ignore.goto ⟨by rw [ignore_stack, skip_stack, stack], rfl⟩
      (progress_skip (by decide))
  · exact ok.reads.errorf rfl _

theorem goes_lexKeyStart : GoesOn u .lexKeyStart := by
  rintro lx _ ok ⟨stack, rfl⟩
  rw [StateFn.call, lexKeyStart, peek_eq]
  simp only [seen_skip]
  split_ifs with separator space double single
  · exact (From.refl ok).seen.errorf rfl _
  · exact ok.read (Unicode.isSpace_ne space) ⟨stack, rfl⟩
  · exact ok.read (visible double) ⟨stack, rfl⟩
  · exact ok.read (visible single) ⟨stack, rfl⟩
  · refine (From.refl ok).seen.ignore.skip.goto ⟨by simpa using stack, rfl⟩ ?_
    rw [ignore_skip, seen_skip]
    exact progress_skip (by decide)

/-- A state that waits for a closing rune stands where it stood. -/
theorem stands_skip (isOpen : self ∈ openStates) (stands : Stands u lx self shape) :
    Stands u lx.skip self shape := by
  unfold Stands at stands ⊢
  rw [skip_stack, skip_start]
  simp only [openStates, mem_cons, not_mem_nil, or_false] at isOpen
  rcases isOpen with rfl | rfl | rfl | rfl | rfl | rfl | rfl | rfl | rfl | rfl <;> exact stands

/-- The four states that read a quoted key. -/
theorem goes_quotedKey {keyEnd : StateFn} {shape' : Shape} (ok : lx.Ok)
    (stands : Stands u lx self shape) (isOpen : self ∈ openStates) (shows : quote ≠ 0)
    (steps : shape.step .itemKey = some shape') (after : keyEnd.place.Holds u lx.stack lx.start [] shape') :
    Goes u lx self shape (quotedKey quote self keyEnd lx) := by
  have reads := From.refl ok
  rw [quotedKey, peek_eq]
  simp only [seen_skip]
  split_ifs with closing
  · apply reads.seen.emit (by nofun) steps
    refine reads.seen.ignore.skip.goto ?_ (Or.inl ?_)
    · show keyEnd.place.Holds u lx.seen.ignore.skip.stack lx.seen.ignore.skip.start [] shape'
      simpa using after.later ok.start
    · simpa using lt_of_rune (closing ▸ shows)
  · exact reads.skip.goto (stands_skip isOpen stands) (progress_open isOpen)

theorem goes_topQuotedKey (ok : lx.Ok) (stands : Stands u lx self shape)
    (holds : Place.topKey.Holds u lx.stack lx.start lx.token shape)
    (isOpen : self ∈ openStates) (shows : quote ≠ 0) :
    Goes u lx self shape (quotedKey quote self .lexKeyEnd lx) := by
  obtain ⟨stack, rfl⟩ := holds
  exact goes_quotedKey ok stands isOpen shows rfl ⟨stack, rfl, rfl⟩

theorem goes_mapQuotedKey (ok : lx.Ok) (stands : Stands u lx self shape)
    (holds : Place.inMap.Holds u lx.stack lx.start lx.token shape)
    (isOpen : self ∈ openStates) (shows : quote ≠ 0) :
    Goes u lx self shape (quotedKey quote self .lexMapKeyEnd lx) := by
  obtain ⟨frames, stack, rfl⟩ := holds
  exact goes_quotedKey ok stands isOpen shows rfl ⟨frames, stack, rfl, rfl⟩

theorem goes_keyCheckKeyword {fallThrough : StateFn} {push : Option StateFn} {shape' : Shape}
    (ok : lx.Ok) (steps : shape.step .itemKey = some shape')
    (after : Stands u lx.seen.ignore fallThrough shape')
    (including : Place.includes.Holds u (push.toList ++ lx.stack) lx.start [] shape)
    (lower : fallThrough.rank lx.atEnd < self.rank lx.atEnd)
    (high : 4 < self.rank lx.atEnd) :
    Goes u lx self shape (keyCheckKeyword u lx.seen fallThrough push) := by
  have reads := From.refl ok
  rw [keyCheckKeyword, ok.seen.slice]
  dsimp only
  split_ifs
  · cases push with
    | none => exact reads.seen.ignore.goto including (Or.inr (Or.inl ⟨rfl, high⟩))
    | some s => exact (reads.seen.ignore.push s).goto including (Or.inr (Or.inl ⟨rfl, high⟩))
  · exact reads.seen.emit (by nofun) steps
      (reads.seen.ignore.goto after (Or.inr (Or.inl ⟨rfl, lower⟩)))

theorem goes_lexKey : GoesOn u .lexKey := by
  rintro lx _ ok ⟨stack, rfl⟩
  have reads := From.refl ok
  have after : Stands u lx.seen.ignore .lexKeyEnd (.wanting []) := ⟨stack, rfl, ignore_token _⟩
  have lower : StateFn.lexKeyEnd.rank lx.atEnd < StateFn.lexKey.rank lx.atEnd := by
    cases lx.atEnd <;> decide
  rw [StateFn.call, lexKey, peek_eq]
  simp only [seen_skip]
  split_ifs with space ending
  · have more := atEnd_of_rune (Unicode.isSpace_ne space)
    exact goes_keyCheckKeyword ok rfl after ⟨[], rfl, stack, rfl⟩ lower
      (by rw [more]; decide)
  · exact reads.seen.emit (by nofun) rfl (reads.seen.ignore.goto after (Or.inr (Or.inl ⟨rfl, lower⟩)))
  · refine ok.read (fun zero => ?_) ⟨stack, rfl⟩
    simp [zero] at ending

theorem goes_lexKeyEnd : GoesOn u .lexKeyEnd := by
  rintro lx _ ok ⟨stack, rfl, empty⟩
  rw [StateFn.call, lexKeyEnd, next_eq]
  simp only [backup_skip]
  split_ifs with space separator zero
  · exact ok.read (Unicode.isSpace_ne space) ⟨stack, rfl, rfl⟩
  · exact ok.read (isKeySeparator_ne separator) ⟨[], stack, rfl, rfl⟩
  · exact ok.reads.emit (by nofun) rfl (ok.reads.ignore.stop rfl)
  · exact ok.leave ⟨[], stack, rfl, empty⟩ (by rw [atEnd_of_rune zero]; decide)

theorem goes_lexIncludeStart : GoesOn u .lexIncludeStart := by
  rintro lx _ ok ⟨frames, inMap, stack, rfl⟩
  rw [StateFn.call, lexIncludeStart, next_eq]
  simp only [backup_skip]
  split_ifs with white
  · exact ok.read (isWhitespace_ne white) ⟨frames, inMap, stack, rfl⟩
  · exact ok.leave ⟨frames, inMap, stack, rfl⟩ (by simp [StateFn.rank])

/-- The four states that read a quoted text. -/
theorem goes_quotedText
    (ok : lx.Ok) (stands : Stands u lx self shape) (isOpen : self ∈ openStates)
    (shows : quote ≠ 0) (plain : typ ≠ .itemInteger) (stack : lx.stack = returns frames)
    (steps : shape.step typ = some (.filled frames)) :
    Goes u lx self shape (quotedText quote self typ lx) := by
  rw [quotedText, next_eq]
  dsimp only
  split_ifs with closing
  · exact ok.endQuoted plain stack steps (closing ▸ shows)
  · exact ok.reads.goto (stands_skip isOpen stands) (progress_open isOpen)

theorem Shape.step_include (inMap : innermost frames = .map) :
    (Shape.filled frames).step .itemInclude = some (.filled frames) := by
  simp [Shape.step, Shape.filled, inMap]

theorem goes_includeQuoted (ok : lx.Ok) (stands : Stands u lx self shape)
    (holds : Place.includes.Holds u lx.stack lx.start lx.token shape)
    (isOpen : self ∈ openStates) (shows : quote ≠ 0) :
    Goes u lx self shape (quotedText quote self .itemInclude lx) := by
  obtain ⟨frames, inMap, stack, rfl⟩ := holds
  exact goes_quotedText ok stands isOpen shows (by decide) stack (Shape.step_include inMap)

theorem goes_stringQuoted (ok : lx.Ok) (stands : Stands u lx self shape)
    (holds : Place.value.Holds u lx.stack lx.start lx.token shape)
    (isOpen : self ∈ openStates) (shows : quote ≠ 0) :
    Goes u lx self shape (quotedText quote self .itemString lx) := by
  obtain ⟨frames, stack, rfl⟩ := holds
  exact goes_quotedText ok stands isOpen shows (by decide) stack (Shape.step_scalar rfl frames)

theorem goes_lexIncludeString : GoesOn u .lexIncludeString := by
  rintro lx _ ok ⟨frames, inMap, stack, rfl⟩
  rw [StateFn.call, lexIncludeString, next_eq]
  dsimp only
  split_ifs with ending closing
  · exact ok.endBefore (by nofun) stack (Shape.step_include inMap) (by simp [StateFn.rank])
  · exact ok.endQuoted (by decide) stack (Shape.step_include inMap) (visible closing)
  · refine ok.read (fun zero => ?_) ⟨frames, inMap, stack, rfl⟩
    simp [zero] at ending

theorem goes_lexInclude : GoesOn u .lexInclude := by
  rintro lx _ ok ⟨frames, inMap, stack, rfl⟩
  rw [StateFn.call, lexInclude, next_eq]
  simp only [backup_skip]
  split_ifs with single double
  · exact ok.pass (visible single) ⟨frames, inMap, stack, rfl⟩
  · exact ok.pass (visible double) ⟨frames, inMap, stack, rfl⟩
  iterate 6 exact ok.reads.errorf rfl _
  exact ok.leave ⟨frames, inMap, stack, rfl⟩ (by simp [StateFn.rank])

theorem goes_lexValue : GoesOn u .lexValue := by
  rintro lx _ ok ⟨frames, stack, rfl, empty⟩
  have here : lx.skip.stack = returns frames := by rw [skip_stack, stack]
  rw [StateFn.call, lexValue, next_eq]
  simp only [backup_skip]
  split_ifs with white array map single double minus block digit
  · exact ok.read (isWhitespace_ne white) ⟨frames, stack, rfl, rfl⟩
  · apply ok.reads.ignore.emit (by nofun) (Shape.step_container frames).1
    exact ok.reads.ignore.ignore.goto ⟨frames, here, rfl, ignore_token _⟩
      (Or.inl (lt_of_rune (visible array)))
  · apply ok.reads.ignore.emit (by nofun) (Shape.step_container frames).2
    exact ok.reads.ignore.ignore.goto ⟨frames, here, rfl⟩ (Or.inl (lt_of_rune (visible map)))
  · exact ok.pass (visible single) ⟨frames, stack, rfl⟩
  · exact ok.pass (visible double) ⟨frames, stack, rfl⟩
  · have sign : Spells lx.skip.token [45] := by
      have spelled := @Ok.spells lx [] ok (by rw [empty]; exact .nil) (visible minus)
        (by rw [minus]; decide)
      rwa [minus] at spelled
    exact ok.read (visible minus) ⟨frames, stack, rfl, sign⟩
  · exact ok.pass (visible block)
      ⟨frames, stack, rfl, Nat.lt_of_le_of_lt (Nat.zero_le _) (lt_of_rune (visible block))⟩
  · exact ok.leave ⟨frames, stack, rfl, empty⟩ (by simp [StateFn.rank])
  · exact ok.reads.errorf rfl _
  · exact ok.reads.errorf rfl _
  · exact ok.leave ⟨frames, stack, rfl⟩ (by simp [StateFn.rank])

theorem goes_lexArrayValue : GoesOn u .lexArrayValue := by
  rintro lx _ ok ⟨frames, stack, rfl, empty⟩
  rw [StateFn.call, lexArrayValue, next_eq]
  simp only [backup_skip]
  split_ifs with space hash slash comma closing
  · exact ok.read (Unicode.isSpace_ne space) ⟨frames, stack, rfl, rfl⟩
  · exact ok.comment (visible hash) (by decide) ⟨frames, stack, rfl, rfl⟩
  · exact ok.slash (visible slash) (by decide) ⟨frames, stack, rfl, rfl⟩
      (ok.reads.seen.errorf rfl _)
  · exact ok.reads.errorf rfl _
  · exact ok.read (visible closing) ⟨frames, stack, rfl⟩
  · exact ok.value .array stack empty (by simp [StateFn.rank])

theorem goes_lexArrayValueEnd : GoesOn u .lexArrayValueEnd := by
  rintro lx _ ok ⟨frames, stack, rfl⟩
  rw [StateFn.call, lexArrayValueEnd, next_eq]
  dsimp only
  split_ifs with white hash slash comma closing
  · exact ok.read (isWhitespace_ne white) ⟨frames, stack, rfl⟩
  · exact ok.comment (visible hash) (by decide) ⟨frames, stack, rfl⟩
  · exact ok.slash (visible slash) (by decide) ⟨frames, stack, rfl⟩
      (ok.readSeen (visible slash) ⟨frames, stack, rfl, rfl⟩)
  · refine ok.read (fun zero => ?_) ⟨frames, stack, rfl, rfl⟩
    simp [zero, isNL] at comma
  · exact ok.read (visible closing) ⟨frames, stack, rfl⟩
  · exact ok.reads.errorf rfl _

theorem goes_lexArrayEnd : GoesOn u .lexArrayEnd := by
  rintro lx _ ok ⟨frames, stack, rfl⟩
  have reads := (From.refl ok).ignore
  exact reads.emit (by nofun) rfl (reads.ignore.pop stack (Or.inr ⟨rfl, by simp [StateFn.rank]⟩))

theorem goes_lexMapKeyStart : GoesOn u .lexMapKeyStart := by
  rintro lx _ ok ⟨frames, stack, rfl⟩
  rw [StateFn.call, lexMapKeyStart, peek_eq]
  simp only [seen_skip]
  split_ifs with separator space closing hash slash single double
  · exact (From.refl ok).seen.errorf rfl _
  · exact ok.read (Unicode.isSpace_ne space) ⟨frames, stack, rfl⟩
  · exact ok.read (visible closing) ⟨frames, stack, Or.inl rfl⟩
  · exact ok.comment (visible hash) (by decide) ⟨frames, stack, rfl⟩
  · refine ok.slash (visible slash) (by decide) ⟨frames, stack, rfl⟩ ?_
    refine ok.reads.seen.ignore.skip.goto ⟨frames, by simpa using stack, rfl⟩ (Or.inl ?_)
    rw [ignore_skip, seen_skip]
    exact Nat.lt_of_lt_of_le (lt_of_rune (visible slash)) (le_skip_pos lx.skip)
  · exact ok.read (visible single) ⟨frames, stack, rfl⟩
  · exact ok.read (visible double) ⟨frames, stack, rfl⟩
  · refine (From.refl ok).seen.ignore.skip.goto ⟨frames, by simpa using stack, rfl⟩ ?_
    rw [ignore_skip, seen_skip]
    exact progress_skip (by decide)

theorem goes_lexMapKey : GoesOn u .lexMapKey := by
  rintro lx _ ok ⟨frames, stack, rfl⟩
  have reads := From.refl ok
  have after : Stands u lx.seen.ignore .lexMapKeyEnd (.wanting (.map :: frames)) :=
    ⟨frames, stack, rfl, ignore_token _⟩
  rw [StateFn.call, lexMapKey, peek_eq]
  simp only [seen_skip]
  split_ifs with space separator
  · exact goes_keyCheckKeyword ok rfl after ⟨.map :: frames, rfl, congrArg _ stack, rfl⟩
      (by simp [StateFn.rank]) (by simp [StateFn.rank])
  · exact reads.seen.emit (by nofun) rfl
      (reads.seen.ignore.goto after (Or.inr (Or.inl ⟨rfl, by simp [StateFn.rank]⟩)))
  · exact reads.skip.goto ⟨frames, by rw [skip_stack, stack], rfl⟩ (progress_open (by decide))

theorem goes_lexMapKeyEnd : GoesOn u .lexMapKeyEnd := by
  rintro lx _ ok ⟨frames, stack, rfl, empty⟩
  rw [StateFn.call, lexMapKeyEnd, next_eq]
  simp only [backup_skip]
  split_ifs with space separator
  · exact ok.read (Unicode.isSpace_ne space) ⟨frames, stack, rfl, rfl⟩
  · exact ok.read (isKeySeparator_ne separator) ⟨frames, stack, rfl, rfl⟩
  · exact ok.leave ⟨frames, stack, rfl, empty⟩ (by simp [StateFn.rank])

theorem goes_lexMapValue : GoesOn u .lexMapValue := by
  rintro lx _ ok ⟨frames, stack, rfl, empty⟩
  rw [StateFn.call, lexMapValue, next_eq]
  simp only [backup_skip]
  split_ifs with space comma closing
  · exact ok.read (Unicode.isSpace_ne space) ⟨frames, stack, rfl, rfl⟩
  · exact ok.reads.errorf rfl _
  · exact ok.read (visible closing) ⟨frames, stack, Or.inr rfl⟩
  · exact ok.value .map stack empty (by simp [StateFn.rank])

theorem goes_lexMapValueEnd : GoesOn u .lexMapValueEnd := by
  rintro lx _ ok ⟨frames, stack, rfl⟩
  rw [StateFn.call, lexMapValueEnd, next_eq]
  dsimp only
  split_ifs with white hash slash terminator closing
  · exact ok.read (isWhitespace_ne white) ⟨frames, stack, rfl⟩
  · exact ok.comment (visible hash) (by decide) ⟨frames, stack, rfl⟩
  · exact ok.slash (visible slash) (by decide) ⟨frames, stack, rfl⟩
      (ok.readSeen (visible slash) ⟨frames, stack, rfl⟩)
  · refine ok.read (fun zero => ?_) ⟨frames, stack, rfl⟩
    simp [zero, isNL] at terminator
  · exact ok.read (visible closing) ⟨frames, stack, Or.inl rfl⟩
  · exact ok.reads.errorf rfl _

theorem goes_lexMapEnd : GoesOn u .lexMapEnd := by
  rintro lx shape ok ⟨frames, stack, eq⟩
  have reads := (From.refl ok).ignore
  have steps : shape.step .itemMapEnd = some (.filled frames) := by
    rcases eq with rfl | rfl <;> rfl
  exact reads.emit (by nofun) steps (reads.ignore.pop stack (Or.inr ⟨rfl, by simp [StateFn.rank]⟩))

/-- Going back to the state below keeps what has happened. -/
theorem pop_fault (lx : Lexer) : lx.pop.lx.fault = lx.fault := by
  unfold pop
  split <;> rfl

/-- Without anything read, `isVariable` looks behind the input. -/
theorem lexString_fault (ok : lx.Ok) (done : lx.atEnd = true) (empty : lx.start = lx.pos) :
    (lexString u lx).lx.fault = some .variableIndex := by
  rw [atEnd, decide_eq_true_eq] at done
  have nothing : lx.seen.slice = ([], lx.seen) := by
    rw [ok.seen.slice, seen_token, token, empty, Nat.sub_self, take_zero]
  have behind : lx.seen.isVariable = (false, lx.seen.raise .variableIndex) := by
    rw [isVariable, seen_input, seen_start, empty, getElem?_eq_none done]
  have ends : lexString u lx = endString u lx.seen := by
    rw [lexString, next_eq]
    simp only [backup_skip, rune_of_end done]
    rfl
  have string : endString u lx.seen = (lx.seen.raise .variableIndex).emit .itemString pop := by
    rw [endString, isBool, nothing]
    simp only [behind]
    rfl
  have sliced : (lx.seen.raise .variableIndex).slice = ([], lx.seen.raise .variableIndex) := by
    have still : (lx.seen.raise .variableIndex).pos - (lx.seen.raise .variableIndex).start = 0 := by
      exact Nat.sub_eq_zero_of_le (Nat.le_of_eq empty.symm)
    rw [slice, if_pos ⟨ok.start, ok.pos⟩, still, take_zero]
  rw [ends, string, emit, sliced]
  simp only [Result.after, pop_fault, raise, seen_fault, ok.fault]
  rfl

theorem goes_endString (ok : lx.Ok) (stack : lx.stack = returns frames)
    (plain : lx.rune ≠ 36) (inside : ¬ (lx.atEnd = true ∧ lx.start = lx.pos)) :
    Goes u lx .lexString (.wanting frames) (endString u lx.seen) := by
  have reads := (From.refl ok).seen
  have ends {lx' : Lexer} {typ : ItemType} (reads : From lx lx') (here : lx'.stack = returns frames)
      (stays : lx'.pos = lx.pos) (plain : typ ≠ .itemInteger) (scalar : typ.isScalar = true) :
      Goes u lx .lexString (.wanting frames) (lx'.emit typ pop) :=
    reads.emit (fun integer => absurd integer plain) (Shape.step_scalar scalar frames)
      (reads.ignore.pop here (Or.inr ⟨stays, by simp [StateFn.rank]⟩))
  rw [endString, isBool, ok.seen.slice]
  dsimp only
  split
  · exact ends reads stack rfl (by decide) rfl
  rw [isVariable]
  split
  · next behind =>
    rw [seen_input, seen_start, List.getElem?_eq_none_iff] at behind
    have := ok.start
    have := ok.pos
    exact absurd ⟨by rw [atEnd, decide_eq_true_eq]; omega, by omega⟩ inside
  · next b found =>
    rw [seen_input, seen_start] at found
    by_cases dollar : b = 36
    · simp only [dollar, if_true]
      -- a dollar that has not been read would be the rune that ends the string
      have apart : lx.start ≠ lx.pos := by
        intro empty
        rw [empty] at found
        obtain ⟨more, eq⟩ := List.getElem?_eq_some_iff.mp found
        apply plain
        rw [rune_of_more more, drop_eq_getElem_cons more, eq, dollar]
        rfl
      have := ok.start
      exact ends ⟨⟨by dsimp only [seen_start, seen_pos]; omega, ok.pos, ok.fault⟩, rfl, Nat.le_refl _⟩
        stack rfl (by decide) rfl
    · simp only [dollar, if_false]
      exact ends reads stack rfl (by decide) rfl

theorem goes_lexString (ok : lx.Ok) (stands : Stands u lx .lexString shape)
    (inside : ¬ (lx.atEnd = true ∧ lx.start = lx.pos)) :
    Goes u lx .lexString shape (lexString u lx) := by
  obtain ⟨frames, stack, rfl⟩ := stands
  rw [lexString, next_eq]
  simp only [backup_skip]
  split_ifs with escape ending closing
  · exact ok.read (visible escape) ⟨frames, stack, rfl⟩
  · refine goes_endString ok stack ?_ inside
    intro dollar
    rw [dollar] at ending
    exact absurd ending (by decide)
  · exact ok.endQuoted (by decide) stack (Shape.step_scalar rfl frames) (visible closing)
  · refine ok.read (fun zero => ?_) ⟨frames, stack, rfl⟩
    simp [zero] at ending

/-- Going back twice from a `)` and reading once is going back once: whatever stands before an
ASCII byte, reading there takes one byte. -/
theorem seen_backup_skip (closing : lx.rune = blockEnd) (before : 1 ≤ lx.pos) :
    lx.seen.backup.skip = lx.seen := by
  have ascii : lx.rune < 0x80 := by rw [closing]; decide
  obtain ⟨found, width⟩ := ascii_of_rune ascii (atEnd_of_rune (visible closing))
  obtain ⟨more, byte⟩ := List.getElem?_eq_some_iff.mp found
  have seenWidth : lx.seen.width = 1 := width
  have single : (decodeRune (lx.input.drop (lx.pos - 1))).2 = 1 := by
    have cut : lx.input.drop (lx.pos - 1) =
        [lx.input[lx.pos - 1]] ++ 41 :: lx.input.drop (lx.pos + 1) := by
      rw [drop_eq_getElem_cons (by omega), Nat.sub_add_cancel before,
        drop_eq_getElem_cons more, byte, closing]
      rfl
    have le := @decodeRune_le_of_ascii [lx.input[lx.pos - 1]] (lx.input.drop (lx.pos + 1)) 41
      (by simp) (by decide)
    have ge := @decodeRune_pos (lx.input.drop (lx.pos - 1)) (by rw [cut]; simp)
    rw [cut] at ge ⊢
    rw [length_singleton] at le
    omega
  have back := @backup_of_le lx.seen (by rw [seenWidth]; exact before)
  rw [seenWidth, seen_pos, seen_input] at back
  have line : (if lx.input[lx.pos - 1]? = some 10 then
      (if lx.input[lx.pos - 1]? = some 10 then lx.line - 1 else lx.line) + 1 else
      if lx.input[lx.pos - 1]? = some 10 then lx.line - 1 else lx.line) = lx.line := by
    split_ifs <;> omega
  rw [back, skip_of_more (by dsimp only; omega)]
  simp only [seen, width, single, Nat.sub_add_cancel before, line]

/-- A call of `lexBlock` that is not made at the very start. -/
theorem lexBlock_eq (before : 1 ≤ lx.pos) : lexBlock lx =
    if lx.rune = blockEnd then
      if lx.seen.backup.rune ≠ 10 then lx.skip.goto .lexBlock
      else if lx.skip.rune = 10 ∨ lx.skip.rune = 0 then
        lx.skip.seen.backup.emit .itemString fun lx => lx.skip.ignore.pop
      else lx.skip.seen.goto .lexBlock
    else lx.skip.goto .lexBlock := by
  rw [lexBlock, next_eq]
  dsimp only
  split
  · next closing =>
    rw [backup_skip, next_eq, seen_backup_skip closing before]
    dsimp only
    rw [seen_skip, next_eq]
    dsimp only
    rw [backup_skip]
  · rfl

/-- The end of a block: `lx` stands at the `)`, after which comes a new line or nothing. -/
theorem goes_blockEnd (ok : lx.Ok) (stack : lx.stack = returns frames)
    (closing : lx.rune = blockEnd) (ending : lx.skip.rune = 10 ∨ lx.skip.rune = 0) :
    Goes u lx .lexBlock (.wanting frames)
      (lx.skip.seen.backup.emit .itemString fun lx => lx.skip.ignore.pop) := by
  obtain ⟨found, width⟩ := ascii_of_rune (by rw [closing]; decide) (atEnd_of_rune (visible closing))
  have read : lx.skip.pos = lx.pos + 1 := by rw [skip_pos, width]
  -- the rune looked at has one byte, or none at the end of the input
  have looked : lx.skip.seen.width ≤ 1 := by
    show lx.skip.skip.width ≤ 1
    rcases more : lx.skip.atEnd with _ | _
    · exact Nat.le_of_eq (ascii_of_rune (by omega) more).2
    · rw [atEnd, decide_eq_true_eq] at more
      rw [skip_of_end more]
      exact Nat.zero_le 1
  have back := @backup_of_le lx.skip.seen (by rw [seen_pos]; omega)
  have pos : lx.skip.seen.backup.pos = lx.pos + 1 - lx.skip.seen.width := by
    rw [back, seen_pos, read]
  have fault : lx.skip.seen.backup.fault = none := by
    rw [back]
    exact ok.skip.fault
  have reads : From lx lx.skip.seen.backup := by
    refine ⟨⟨?_, ?_, fault⟩, by simp, by omega⟩
    · have := ok.start
      rw [pos, backup_start, seen_start, skip_start]
      omega
    · have := ok.skip.pos
      rw [skip_input] at this
      rw [pos, backup_input, seen_input, skip_input]
      omega
  apply reads.emit (by rintro ⟨⟩) (Shape.step_scalar rfl frames)
  apply reads.ignore.skip.ignore.pop
  · simpa using stack
  · -- either the `)` itself is passed over now, or it has been left behind
    left
    rw [ignore_pos, ignore_skip]
    rcases Nat.lt_or_ge lx.pos lx.skip.seen.backup.pos with behind | there
    · exact Nat.lt_of_lt_of_le behind (le_skip_pos _)
    · have same : lx.skip.seen.backup.rune = lx.rune := by
        apply rune_congr
        · simp
        · omega
      exact Nat.lt_of_le_of_lt (by omega) (lt_of_rune (visible (same.trans closing)))

theorem goes_lexBlock : GoesOn u .lexBlock := by
  rintro lx _ ok ⟨frames, stack, rfl, before⟩
  have start := ok.start
  rw [StateFn.call, lexBlock_eq (by omega)]
  split_ifs with closing inside ending
  · exact ok.read (visible closing) ⟨frames, stack, rfl, before⟩
  · exact goes_blockEnd ok stack closing ending
  · exact ok.readSeen (visible closing) ⟨frames, stack, rfl, before⟩
  · exact ok.reads.goto ⟨frames, by rw [skip_stack, stack], rfl, by rwa [skip_start]⟩
      (progress_open (by decide))

theorem goes_lexStringEscape : GoesOn u .lexStringEscape := by
  rintro lx _ ok ⟨frames, stack, rfl⟩
  rw [StateFn.call, lexStringEscape, next_eq]
  dsimp only
  split_ifs with hex plain
  · exact ok.read (visible hex) ⟨frames, stack, rfl⟩
  · exact ok.read (by omega) ⟨frames, stack, rfl⟩
  · exact ok.reads.errorf rfl _

theorem goes_lexStringBinary : GoesOn u .lexStringBinary := by
  rintro lx _ ok ⟨frames, stack, rfl⟩
  show Goes u lx .lexStringBinary _ (if ¬ isHexadecimal lx.rune then lx.skip.notHexadecimal lx.rune
    else if ¬ isHexadecimal lx.skip.rune then lx.skip.skip.notHexadecimal lx.skip.rune
    else lx.skip.skip.goto .lexString)
  split_ifs with first second
  · have read : lx.pos < lx.skip.pos := lt_of_rune (isHexadecimal_ne first)
    exact ok.reads.skip.goto ⟨frames, by rw [skip_stack, skip_stack, stack], rfl⟩
      (Or.inl (Nat.lt_of_lt_of_le read (le_skip_pos lx.skip)))
  · exact ok.reads.skip.errorf rfl _
  · exact ok.reads.errorf rfl _

/-- The two states at the first digit of a number; `sign` is what has been read of it. -/
theorem goes_numberStart (ok : lx.Ok)
    (stack : lx.stack = returns frames) (spelled : Spells lx.token sign)
    (after : (Place.digits sign).Holds u lx.stack lx.start lx.skip.token (.wanting frames) →
      Aligned u state lx.stack lx.start lx.skip.token (.wanting frames)) :
    Goes u lx self (.wanting frames) (numberStart u state lx) := by
  rw [numberStart, next_eq]
  dsimp only
  split_ifs with digit
  · have some := Unicode.isDigit_ne digit
    refine ok.read some (after ⟨frames, stack, rfl, [lx.rune], ?_, ?_⟩)
    · exact ok.spells spelled some (Unicode.isDigit_valid digit)
    · exact ⟨by simp, forall_mem_singleton.mpr digit⟩
  · exact ok.reads.errorf rfl _
  · exact ok.reads.errorf rfl _

/-- One more digit. -/
theorem holds_digit (ok : lx.Ok)
    (holds : (Place.digits sign).Holds u lx.stack lx.start lx.token shape)
    (digit : u.isDigit lx.rune = true) :
    (Place.digits sign).Holds u lx.stack lx.start lx.skip.token shape := by
  obtain ⟨frames, stack, wanting, digits, spelled, nonempty, all⟩ := holds
  refine ⟨frames, stack, wanting, digits ++ [lx.rune], ?_, by simp, ?_⟩
  · rw [← append_assoc]
    exact ok.spells spelled (Unicode.isDigit_ne digit) (Unicode.isDigit_valid digit)
  · intro r mem
    rcases mem_append.mp mem with earlier | last
    · exact all r earlier
    · rw [mem_singleton.mp last]
      exact digit

theorem isNumberSuffix_ascii (suffix : isNumberSuffix r = true) : r < 0x80 := by
  simp only [isNumberSuffix, Bool.or_eq_true, beq_iff_eq] at suffix
  omega

/-- The first letter of the suffix. -/
theorem holds_suffix (ok : lx.Ok) (signed : sign = [] ∨ sign = [45])
    (holds : (Place.digits sign).Holds u lx.stack lx.start lx.token shape)
    (suffix : isNumberSuffix lx.rune = true) :
    Place.suffix.Holds u lx.stack lx.start lx.skip.token shape := by
  obtain ⟨frames, stack, wanting, digits, spelled, isDigits⟩ := holds
  have ascii := isNumberSuffix_ascii suffix
  refine ⟨frames, stack, wanting, sign, digits, lx.rune, [], ?_, signed, isDigits, suffix, by simp⟩
  exact ok.spells spelled (isNumberSuffix_ne suffix) (by rw [runeError]; omega)

/-- What stands in these places is the text of an integer. -/
theorem integerText_digits (signed : sign = [] ∨ sign = [45])
    (holds : (Place.digits sign).Holds u lx.stack lx.start lx.token shape) :
    IntegerText u lx.token := by
  obtain ⟨frames, -, -, digits, spelled, isDigits⟩ := holds
  exact ⟨sign, digits, [], by rwa [append_nil], signed, isDigits, trivial⟩

theorem goes_lexNumberOrDateOrIP : GoesOn u .lexNumberOrDateOrIP := by
  intro lx shape ok holds
  obtain ⟨frames, stack, rfl, -⟩ := id holds
  rw [StateFn.call, lexNumberOrDateOrIP, next_eq]
  dsimp only
  split_ifs with dash year digit dot suffix
  · exact ok.reads.errorf rfl _
  · exact ok.read (visible dash) ⟨frames, stack, rfl⟩
  · exact ok.read (Unicode.isDigit_ne digit) (holds_digit ok holds digit)
  · exact ok.read (visible dot) ⟨frames, stack, rfl⟩
  · exact ok.read (isNumberSuffix_ne suffix) (holds_suffix ok (Or.inl rfl) holds suffix)
  · exact ok.endBefore (fun _ => integerText_digits (Or.inl rfl) holds) stack
      (Shape.step_scalar rfl frames) (by simp [StateFn.rank])

theorem goes_lexConvenientNumber : GoesOn u .lexConvenientNumber := by
  rintro lx _ ok ⟨frames, stack, rfl, sign, digits, r, rs, spelled, signed, isDigits, letter, bs⟩
  rw [StateFn.call, lexConvenientNumber, next_eq]
  dsimp only
  split_ifs with b
  · have more : Spells lx.skip.token (sign ++ digits ++ r :: (rs ++ [lx.rune])) := by
      have next := ok.spells spelled (by omega) (by rw [runeError]; omega)
      rwa [append_assoc, cons_append] at next
    refine ok.read (by omega)
      ⟨frames, stack, rfl, sign, digits, r, _, more, signed, isDigits, letter, ?_⟩
    intro c mem
    rcases mem_append.mp mem with earlier | last
    · exact bs c earlier
    · rw [mem_singleton.mp last]
      exact b
  · exact ok.endBefore (fun _ => ⟨sign, digits, r :: rs, spelled, signed, isDigits, letter, bs⟩)
      stack (Shape.step_scalar rfl frames) (by simp [StateFn.rank])

/-- The rest of a date, after what has been read of it. -/
theorem goes_dateLoop {formats : List Nat} {lx' : Lexer} (reads : From lx lx')
    (stack : lx'.stack = returns frames) (visible : ∀ f ∈ formats, f ≠ 0)
    (read : lx.pos < lx'.pos ∨ formats ≠ []) :
    Goes u lx .lexDateAfterYear (.wanting frames) (dateLoop u formats lx') := by
  induction formats generalizing lx' with
  | nil =>
    rw [dateLoop]
    apply reads.emit (by nofun) (Shape.step_scalar rfl frames)
    exact reads.ignore.pop stack (Or.inl (read.resolve_right fun more => more rfl))
  | cons f formats ih =>
    have rest (some : lx'.rune ≠ 0) :
        Goes u lx .lexDateAfterYear (.wanting frames) (dateLoop u formats lx'.skip) := by
      apply ih reads.skip (by rw [skip_stack, stack])
      · intro f mem
        exact visible f (mem_cons_of_mem _ mem)
      · exact Or.inl (Nat.lt_of_le_of_lt reads.forward (lt_of_rune some))
    rw [dateLoop, next_eq]
    dsimp only
    split_ifs with anyDigit digit differs
    · exact rest (Unicode.isDigit_ne digit)
    · exact reads.skip.errorf rfl _
    · exact reads.skip.errorf rfl _
    · rw [ne_eq, not_not] at differs
      exact rest (differs ▸ visible f mem_cons_self)

theorem goes_lexDateAfterYear : GoesOn u .lexDateAfterYear := by
  rintro lx _ ok ⟨frames, stack, rfl⟩
  exact goes_dateLoop (From.refl ok) stack (by decide) (Or.inr (by decide))

theorem goes_lexNegNumber : GoesOn u .lexNegNumber := by
  intro lx shape ok holds
  obtain ⟨frames, stack, rfl, -⟩ := id holds
  rw [StateFn.call, lexNegNumber, next_eq]
  dsimp only
  split_ifs with digit dot suffix
  · exact ok.read (Unicode.isDigit_ne digit) (holds_digit ok holds digit)
  · exact ok.read (visible dot) ⟨frames, stack, rfl⟩
  · exact ok.read (isNumberSuffix_ne suffix) (holds_suffix ok (Or.inr rfl) holds suffix)
  · exact ok.endBefore (fun _ => integerText_digits (Or.inr rfl) holds) stack
      (Shape.step_scalar rfl frames) (by simp [StateFn.rank])

theorem goes_lexFloatStart : GoesOn u .lexFloatStart := by
  rintro lx _ ok ⟨frames, stack, rfl⟩
  rw [StateFn.call, lexFloatStart, next_eq]
  dsimp only
  split_ifs with digit
  · exact ok.read (Unicode.isDigit_ne digit) ⟨frames, stack, rfl⟩
  · exact ok.reads.errorf rfl _

theorem goes_lexFloat : GoesOn u .lexFloat := by
  rintro lx _ ok ⟨frames, stack, rfl⟩
  rw [StateFn.call, lexFloat, next_eq]
  dsimp only
  split_ifs with digit dot
  · exact ok.read (Unicode.isDigit_ne digit) ⟨frames, stack, rfl⟩
  · exact ok.read (visible dot) ⟨frames, stack, rfl⟩
  · exact ok.endBefore (by nofun) stack (Shape.step_scalar rfl frames) (by simp [StateFn.rank])

theorem goes_lexIPAddr : GoesOn u .lexIPAddr := by
  rintro lx _ ok ⟨frames, stack, rfl⟩
  rw [StateFn.call, lexIPAddr, next_eq]
  dsimp only
  split_ifs with part
  · refine ok.read (fun zero => ?_) ⟨frames, stack, rfl⟩
    simp [zero, Unicode.isDigit] at part
  · exact ok.endBefore (by nofun) stack (Shape.step_scalar rfl frames) (by simp [StateFn.rank])

theorem goes_lexCommentStart : GoesOn u .lexCommentStart := by
  rintro lx shape ok ⟨s, returning, below, stack, holds⟩
  have reads := (From.refl ok).ignore
  have steps : shape.step .itemCommentStart = some shape := by
    simp [Shape.step, holds.not_ended, holds.not_awaiting returning]
  rw [StateFn.call, lexCommentStart]
  exact reads.emit (by rintro ⟨⟩) steps (reads.ignore.goto ⟨s, returning, below, stack, holds.later ok.start⟩
    (Or.inr (Or.inl ⟨rfl, by simp [StateFn.rank]⟩)))

theorem goes_lexComment : GoesOn u .lexComment := by
  rintro lx shape ok ⟨s, returning, below, stack, holds⟩
  rw [StateFn.call, lexComment, peek_eq]
  simp only [seen_skip]
  split_ifs with ending
  · have steps : shape.step .itemText = some shape := by
      simp [Shape.step, holds.not_ended, holds.not_awaiting returning]
    apply (From.refl ok).seen.emit (by rintro ⟨⟩) steps
    have popped : lx.seen.ignore.pop = { lx.seen.ignore with stack := below }.goto s := by
      rw [pop, ignore_stack, seen_stack, stack]
    have low : s.rank lx.atEnd < StateFn.lexComment.rank lx.atEnd := by
      have all : ∀ s ∈ commentReturns, ∀ done : Bool, s.rank done < StateFn.lexComment.rank done := by
        decide
      exact all s returning lx.atEnd
    have back : Stands u { lx.seen.ignore with stack := below } s shape := by
      have same : ({ lx.seen.ignore with stack := below } : Lexer).token = [] := ignore_token lx.seen
      rw [Stands, same]
      exact .of_holds (holds.later ok.start)
    rw [popped]
    exact ⟨⟨Nat.le_refl _, ok.pos, ok.fault⟩, rfl, Nat.le_refl _, (by rintro _ ⟨⟩), shape, rfl, back,
      Or.inr (Or.inl ⟨rfl, low⟩)⟩
  · refine ok.read (fun zero => ?_) ⟨s, returning, below, stack, holds⟩
    simp [zero] at ending

theorem goes_lexSkip (nextState : StateFn) : GoesOn u (.lexSkip nextState) := by
  intro lx shape ok stands
  have holds : nextState.place.Holds u lx.stack lx.start [] shape := stands
  have there : Stands u lx.ignore nextState shape := by
    rw [Stands, ignore_token]
    exact .of_holds (holds.later ok.start)
  exact (From.refl ok).ignore.goto there (Or.inr (Or.inl ⟨rfl, by simp [StateFn.rank]⟩))

/-- A state function that would look behind the input for a variable. -/
def EmptyAtEnd (lx : Lexer) (state : StateFn) : Prop :=
  state = .lexString ∧ lx.atEnd = true ∧ lx.start = lx.pos

theorem goes_call (u : Unicode) (ok : lx.Ok)
    (stands : Stands u lx state shape) (inside : ¬ EmptyAtEnd lx state) :
    Goes u lx state shape (state.call u lx) := by
  cases state with
  | lexTop => exact goes_lexTop _ _ ok stands
  | lexTopValueEnd => exact goes_lexTopValueEnd _ _ ok stands
  | lexKeyStart => exact goes_lexKeyStart _ _ ok stands
  | lexDubQuotedKey | lexQuotedKey =>
    exact goes_topQuotedKey ok stands stands (by decide) (by decide)
  | lexKey => exact goes_lexKey _ _ ok stands
  | lexKeyEnd => exact goes_lexKeyEnd _ _ ok stands
  | lexIncludeStart => exact goes_lexIncludeStart _ _ ok stands
  | lexIncludeQuotedString | lexIncludeDubQuotedString =>
    exact goes_includeQuoted ok stands stands (by decide) (by decide)
  | lexIncludeString => exact goes_lexIncludeString _ _ ok stands
  | lexInclude => exact goes_lexInclude _ _ ok stands
  | lexValue => exact goes_lexValue _ _ ok stands
  | lexArrayValue => exact goes_lexArrayValue _ _ ok stands
  | lexArrayValueEnd => exact goes_lexArrayValueEnd _ _ ok stands
  | lexArrayEnd => exact goes_lexArrayEnd _ _ ok stands
  | lexMapKeyStart => exact goes_lexMapKeyStart _ _ ok stands
  | lexMapQuotedKey | lexMapDubQuotedKey =>
    exact goes_mapQuotedKey ok stands stands (by decide) (by decide)
  | lexMapKey => exact goes_lexMapKey _ _ ok stands
  | lexMapKeyEnd => exact goes_lexMapKeyEnd _ _ ok stands
  | lexMapValue => exact goes_lexMapValue _ _ ok stands
  | lexMapValueEnd => exact goes_lexMapValueEnd _ _ ok stands
  | lexMapEnd => exact goes_lexMapEnd _ _ ok stands
  | lexQuotedString | lexDubQuotedString =>
    exact goes_stringQuoted ok stands stands (by decide) (by decide)
  | lexString => exact goes_lexString ok stands fun empty => inside ⟨rfl, empty⟩
  | lexBlock => exact goes_lexBlock _ _ ok stands
  | lexStringEscape => exact goes_lexStringEscape _ _ ok stands
  | lexStringBinary => exact goes_lexStringBinary _ _ ok stands
  | lexNumberOrDateOrIPStart =>
    obtain ⟨frames, stack, rfl, empty⟩ := stands
    exact goes_numberStart ok stack (by rw [empty]; exact .nil) fun holds => holds
  | lexNegNumberStart =>
    obtain ⟨frames, stack, rfl, spelled⟩ := stands
    exact goes_numberStart ok stack spelled fun holds => holds
  | lexNumberOrDateOrIP => exact goes_lexNumberOrDateOrIP _ _ ok stands
  | lexConvenientNumber => exact goes_lexConvenientNumber _ _ ok stands
  | lexDateAfterYear => exact goes_lexDateAfterYear _ _ ok stands
  | lexNegNumber => exact goes_lexNegNumber _ _ ok stands
  | lexFloatStart => exact goes_lexFloatStart _ _ ok stands
  | lexFloat => exact goes_lexFloat _ _ ok stands
  | lexIPAddr => exact goes_lexIPAddr _ _ ok stands
  | lexCommentStart => exact goes_lexCommentStart _ _ ok stands
  | lexComment => exact goes_lexComment _ _ ok stands
  | lexSkip nextState => exact goes_lexSkip nextState _ _ ok stands

/-- The one call that panics. -/
theorem call_fault (u : Unicode) (ok : lx.Ok) (empty : EmptyAtEnd lx state) :
    (state.call u lx).lx.fault = some .variableIndex := by
  obtain ⟨rfl, done, nothing⟩ := empty
  exact lexString_fault ok done nothing

end Lexer

end Hnatsd.Conf
