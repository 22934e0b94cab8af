import Hnatsd.Conf.Proofs.Keys

/-!
# Block strings

`key (`, a body, and a `)` on a line of its own. The test for that line goes back over the last rune
read twice, and at the end of the input that rune has no width, so there the `)` stays in the value.
-/

namespace Hnatsd.Conf

open Hnatsd.Misc Lexer List

/-- A line of the text. -/
def HasLine (line text : Bytes) : Prop :=
  ∃ front back, text = front ++ line ++ back ∧ (front = [] ∨ ∃ f, front = f ++ [10]) ∧
    (back = [] ∨ ∃ b, back = 10 :: b)

variable {u : Unicode} {lx : Lexer} {before tok rest : Bytes} {stack : List StateFn}

/-- What comes before a `)` is looked at by its last byte. -/
theorem rune_before {front : Bytes} {last : UInt8} (here : (Spot.mk before tok (41 :: rest) stack).At lx)
    (read : before ++ tok = front ++ [last]) : lx.seen.backup.rune = 10 ↔ last = 10 := by
  have width : lx.seen.width = 1 := by
    have rune := here.rune rfl (by decide)
    exact (ascii_of_rune (by rw [rune]; decide) (atEnd_of_rune (by rw [rune]; decide))).2
  have pos : lx.pos = front.length + 1 := by
    have length := congrArg List.length read
    rw [length_append, length_append, length_singleton] at length
    rw [here.pos, ← length]
  have back := @backup_of_le lx.seen (by rw [width, seen_pos]; omega)
  have backPos : lx.seen.backup.pos = front.length := by
    rw [back, width, seen_pos]
    dsimp only
    omega
  have rest' : lx.seen.backup.input.drop lx.seen.backup.pos = last :: 41 :: rest := by
    rw [backup_input, seen_input, backPos, here.input]
    dsimp only
    rw [read, append_assoc, drop_left, singleton_append]
  have more : lx.seen.backup.pos < lx.seen.backup.input.length := by
    by_contra done
    rw [drop_eq_nil_of_le (Nat.not_lt.mp done)] at rest'
    cases rest'
  rw [rune_of_more more, rest', decodeRune_eq_ascii (by decide)]
  exact ⟨fun eq => UInt8.toNat_inj.mp eq, fun eq => by rw [eq]; rfl⟩

/-- A `)` inside the body is read over. -/
theorem reads_paren {front : Bytes} {last c : UInt8} (read : before ++ tok = front ++ [last])
    (inside : last ≠ 10 ∨ (c ≠ 10 ∧ c ≠ 0)) :
    Reads u .lexBlock ⟨before, tok, 41 :: c :: rest, stack⟩ [] .lexBlock
      ⟨before, tok ++ [41], c :: rest, stack⟩ := by
  apply Reads.goto
  intro lx here
  have nonempty : 1 ≤ lx.pos := by
    have length := congrArg List.length read
    rw [length_append, length_append, length_singleton] at length
    rw [here.pos]
    dsimp only
    omega
  have there := here.skip rfl (by decide)
  have rune : lx.rune = blockEnd := here.rune rfl (by decide)
  show ∃ lx' : Lexer, lexBlock lx = lx'.goto .lexBlock ∧ _
  rw [lexBlock_eq nonempty, if_pos rune]
  by_cases newLine : last = 10
  · rw [if_neg (not_not.mpr ((rune_before here read).mpr newLine))]
    obtain ⟨notNL, notNul⟩ := inside.resolve_left (not_not.mpr newLine)
    have later : lx.skip.rune = (decodeRune (c :: rest)).1 := there.rune_eq (by simp)
    have other : ¬ (lx.skip.rune = 10 ∨ lx.skip.rune = 0) := by
      rw [later, decodeRune_eq_ascii (by decide), decodeRune_eq_ascii (by decide)]
      rintro (nl | nul)
      · exact notNL (UInt8.toNat_inj.mp nl)
      · exact notNul (UInt8.toNat_inj.mp nul)
    rw [if_neg other]
    exact ⟨_, rfl, there.seen⟩
  · rw [if_pos (mt (rune_before here read).mp newLine)]
    exact ⟨_, rfl, there⟩

/-- Any other byte is read over as part of its rune. -/
theorem call_lexBlock_other (other : lx.rune ≠ blockEnd) :
    StateFn.lexBlock.call u lx = lx.skip.goto .lexBlock := by
  rw [StateFn.call, lexBlock, next_eq]
  dsimp only
  rw [if_neg other]

theorem reads_segment {text : Bytes} (noParen : 41 ∉ text) :
    Reads u .lexBlock ⟨before, tok, text ++ 41 :: rest, stack⟩ [] .lexBlock
      ⟨before, tok ++ text, 41 :: rest, stack⟩ := by
  apply reads_over (by decide)
  rintro lx ⟨b, mem, read⟩
  apply call_lexBlock_other
  rcases read with same | ⟨-, wide⟩
  · rw [same]
    intro paren
    have eq : b.toNat = (41 : UInt8).toNat := paren
    rw [UInt8.toNat_inj.mp eq] at mem
    exact noParen mem
  · intro paren
    rw [paren] at wide
    revert wide
    decide

/-- The body up to the closing line. -/
theorem reads_body {done todo tail : Bytes} (noNul : 0 ∉ done ++ todo)
    (noLine : ¬ HasLine [41] (done ++ todo)) (ends : ∃ b, done ++ todo = b ++ [10]) :
    Reads u .lexBlock ⟨before ++ [40], done, todo ++ 41 :: tail, stack⟩ [] .lexBlock
      ⟨before ++ [40], done ++ todo, 41 :: tail, stack⟩ := by
  induction size : todo.length using Nat.strong_induction_on generalizing done todo with
  | _ n ih =>
  by_cases paren : 41 ∈ todo
  · -- up to the first parenthesis, over it, and on
    obtain ⟨text, todo', rfl, noParen⟩ := eq_append_cons_of_mem paren
    obtain ⟨c, todo', rfl⟩ : ∃ c more, todo' = c :: more := by
      obtain ⟨b, ends⟩ := ends
      rcases todo' with _ | ⟨c, more⟩
      · rw [← append_assoc] at ends
        have last := (append_inj' ends rfl).2
        cases last
      · exact ⟨c, more, rfl⟩
    have whole : done ++ (text ++ 41 :: c :: todo') = (done ++ text ++ [41]) ++ c :: todo' := by simp
    have segment : Reads u .lexBlock
        ⟨before ++ [40], done, (text ++ 41 :: c :: todo') ++ 41 :: tail, stack⟩ [] .lexBlock
        ⟨before ++ [40], done ++ text, 41 :: c :: (todo' ++ 41 :: tail), stack⟩ := by
      rw [append_assoc, cons_append, cons_append]
      exact reads_segment noParen
    obtain ⟨front, last, read, inside⟩ : ∃ front last, before ++ [40] ++ (done ++ text) =
        front ++ [last] ∧ (last ≠ 10 ∨ (c ≠ 10 ∧ c ≠ 0)) := by
      have notNul : c ≠ 0 := by
        rintro rfl
        exact noNul (by simp)
      rcases eq_nil_or_concat (done ++ text) with empty | ⟨d, last, eq⟩
      · exact ⟨before, 40, by rw [empty, append_nil], Or.inl (by decide)⟩
      · rw [concat_eq_append] at eq
        refine ⟨before ++ [40] ++ d, last, by rw [eq, ← append_assoc], ?_⟩
        by_cases newLine : last = 10
        · refine Or.inr ⟨?_, notNul⟩
          rintro rfl
          refine noLine ⟨done ++ text, 10 :: todo', by simp, Or.inr ⟨d, ?_⟩, Or.inr ⟨todo', rfl⟩⟩
          rw [eq, newLine]
        · exact Or.inl newLine
    have passed := @reads_paren u (before ++ [40]) (done ++ text) (todo' ++ 41 :: tail) stack front
      last c read inside
    have shorter : (c :: todo').length < n := by
      rw [length_append, length_cons] at size
      omega
    rw [whole] at noNul noLine ends ⊢
    exact (segment.trans passed).trans (ih _ shorter noNul noLine ends rfl)
  · exact reads_segment paren

/-- The call that sees the closing line. -/
theorem lexBlock_closing {body : Bytes}
    (here : (Spot.mk (before ++ [40]) body (41 :: rest) stack).At lx) (ends : ∃ b, body = b ++ [10])
    (last : lx.skip.rune = 10 ∨ lx.skip.rune = 0) :
    lexBlock lx = lx.skip.seen.backup.emit .itemString fun lx => lx.skip.ignore.pop := by
  obtain ⟨b, rfl⟩ := ends
  have rune : lx.rune = blockEnd := here.rune rfl (by decide)
  have pos : 1 ≤ lx.pos := by
    rw [here.pos]
    simp only [length_append, length_singleton]
    omega
  have newLine := (rune_before here (append_assoc _ _ _).symm).mpr rfl
  rw [lexBlock_eq pos, if_pos rune, if_neg (not_not.mpr newLine), if_pos last]

/-- The closing line with a new line after it: the value is the body. -/
theorem reads_blockEnd {body more : Bytes} {s : StateFn} (ends : ∃ b, body = b ++ [10]) :
    Reads u .lexBlock ⟨before ++ [40], body, 41 :: 10 :: more, s :: stack⟩ [(.itemString, body)] s
      ⟨before ++ [40] ++ body ++ [41], [], 10 :: more, stack⟩ := by
  apply Reads.emit (by decide)
  intro lx here
  have there := here.skip rfl (by decide)
  have newLine : lx.skip.rune = 10 := there.rune rfl (by decide)
  have width : lx.skip.seen.width = 1 :=
    (ascii_of_rune (by rw [newLine]; decide) (atEnd_of_rune (by rw [newLine]; decide))).2
  have pos : lx.skip.pos = lx.pos + 1 := by
    rw [there.pos, here.pos]
    simp only [length_append, length_singleton, Nat.add_assoc]
  have back := @backup_of_le lx.skip.seen (by rw [width, seen_pos]; omega)
  have atEnd : (Spot.mk (before ++ [40]) body (41 :: 10 :: more) (s :: stack)).At
      lx.skip.seen.backup := by
    refine ⟨?_, ?_, ?_, ?_, ?_⟩
    · rw [backup_input, seen_input, skip_input, here.input]
    · rw [backup_start, seen_start, skip_start, here.start]
    · rw [back, width, seen_pos, pos, ← here.pos]
      rfl
    · rw [backup_stack, seen_stack, skip_stack, here.stack]
    · rw [back]
      exact there.fault
  have after := (atEnd.ignore.skip rfl (by decide)).ignore
  obtain ⟨lx', popped, arrived⟩ := after.pop rfl
  refine ⟨lx', lx.skip.seen.backup.line, ?_, arrived⟩
  show lexBlock lx = _
  rw [lexBlock_closing here ends (Or.inl newLine), atEnd.emit, popped]

/-- The closing line at the end of the input: its `)` is part of the value. -/
theorem reads_blockEOF {body : Bytes} {s : StateFn} (ends : ∃ b, body = b ++ [10]) :
    Reads u .lexBlock ⟨before ++ [40], body, [41], s :: stack⟩ [(.itemString, body ++ [41])] s
      ⟨before ++ [40] ++ (body ++ [41]), [], [], stack⟩ := by
  apply Reads.emit (by decide)
  intro lx here
  have there := here.skip rfl (by decide)
  have nothing : lx.skip.rune = 0 := there.rune_end rfl
  have all : lx.skip.input.length ≤ lx.skip.pos := by
    rw [there.pos, there.input]
    simp only [append_nil, length_append]
    exact Nat.le_refl _
  have width : lx.skip.seen.width = 0 := by
    rw [Lexer.seen, skip_of_end all]
  have back := @backup_of_le lx.skip.seen (by rw [width]; exact Nat.zero_le _)
  have atEnd : (Spot.mk (before ++ [40]) (body ++ [41]) [] (s :: stack)).At lx.skip.seen.backup := by
    refine ⟨?_, ?_, ?_, ?_, ?_⟩
    · rw [backup_input, seen_input, there.input]
    · rw [backup_start, seen_start, there.start]
    · rw [back, width, seen_pos, there.pos]
      rfl
    · rw [backup_stack, seen_stack, there.stack]
    · rw [back]
      exact there.fault
  have after := (atEnd.ignore.skip_end rfl).ignore
  rw [Spot.drop, Spot.drop, append_nil] at after
  obtain ⟨lx', popped, arrived⟩ := after.pop rfl
  refine ⟨lx', lx.skip.seen.backup.line, ?_, arrived⟩
  show lexBlock lx = _
  rw [lexBlock_closing here ends (Or.inr nothing), atEnd.emit, popped]

/-- The key and the opening parenthesis. -/
theorem reads_blockStart {key : Bytes} (isKey : IsKey key) :
    Reads u .lexTop ⟨[], [], key ++ bytesOf " (" ++ rest, []⟩ [(.itemKey, key)] .lexBlock
      ⟨key ++ [32] ++ [40], [], rest, [.lexTopValueEnd]⟩ := by
  have blank : Reads u .lexKeyEnd ⟨key, [], 32 :: 40 :: rest, [.lexTopValueEnd]⟩ [] .lexKeyEnd
      ⟨key ++ [32], [], 40 :: rest, [.lexTopValueEnd]⟩ := by
    have skipped := @reads_skip u .lexKeyEnd .lexKeyEnd key [] (40 :: rest) [.lexTopValueEnd] 32
      (by decide) ?_
    · rw [append_nil] at skipped
      exact skipped
    · intro lx read
      rw [StateFn.call, lexKeyEnd, next_eq, read]
      rfl
  have value : Reads u .lexKeyEnd ⟨key ++ [32], [], 40 :: rest, [.lexTopValueEnd]⟩ [] .lexValue
      ⟨key ++ [32], [], 40 :: rest, [.lexTopValueEnd]⟩ := by
    apply reads_ahead (by decide)
    intro lx read
    rw [StateFn.call, lexKeyEnd, next_eq]
    dsimp only
    rw [read, backup_skip]
    rfl
  have block : Reads u .lexValue ⟨key ++ [32], [], 40 :: rest, [.lexTopValueEnd]⟩ [] .lexBlock
      ⟨key ++ [32] ++ [40], [], rest, [.lexTopValueEnd]⟩ := by
    have opened := @reads_ignore u .lexValue .lexBlock (key ++ [32]) [] rest [.lexTopValueEnd] 40
      (by decide) ?_
    · rw [append_nil] at opened
      exact opened
    · intro lx read
      rw [StateFn.call, lexValue, next_eq, read]
      rfl
  have start : Reads u .lexTop ⟨[], [], key ++ bytesOf " (" ++ rest, []⟩ [(.itemKey, key)] .lexKeyEnd
      ⟨key, [], 32 :: 40 :: rest, [.lexTopValueEnd]⟩ := by
    rw [append_assoc]
    exact reads_key isKey
  exact ((start.trans blank).trans value).trans block

theorem Spot.at_lex (input : Bytes) : (Spot.mk [] [] input []).At (lex input) :=
  ⟨rfl, rfl, rfl, rfl, rfl⟩

/-- Reading from the start of a text is what `nextItem` does. -/
theorem Reads.lexAll {s : StateFn} {input : Bytes} {told : List (ItemType × Bytes)} {spot : Spot}
    (reads : Reads u .lexTop ⟨[], [], input, []⟩ told s spot) :
    ∃ turns items, Conf.lexAll u turns [] (Scan.init input) = .running items ∧
      items.map Item.told = told := by
  obtain ⟨lx', items, ⟨turns, reaches⟩, told, -⟩ := reads (lex input) (Spot.at_lex input)
  refine ⟨turns + 0, items, ?_, told⟩
  exact reaches 0 []

/-- The first two items of a text that starts with a block string: the key, and as the value the
body if a new line follows the closing `)`, and the body with that `)` at the end of the input. -/
theorem block_string_items (u : Unicode) (key body : Bytes) (isKey : IsKey key) (noNul : 0 ∉ body)
    (noLine : ¬ HasLine (bytesOf ")") body) (ends : ∃ b, body = b ++ [10]) :
    (∀ more, ∃ turns items, lexAll u turns []
      (Scan.init (key ++ bytesOf " (" ++ (body ++ bytesOf ")" ++ 10 :: more))) = .running items ∧
        items.map Item.told = [(.itemKey, key), (.itemString, body)]) ∧
    ∃ turns items, lexAll u turns [] (Scan.init (key ++ bytesOf " (" ++ (body ++ bytesOf ")"))) =
      .running items ∧ items.map Item.told = [(.itemKey, key), (.itemString, body ++ bytesOf ")")] := by
  have start (rest : Bytes) := @reads_blockStart u rest key isKey
  have middle (tail : Bytes) := @reads_body u (key ++ [32]) [.lexTopValueEnd] [] body tail noNul noLine
    ends
  refine ⟨fun more => ?_, ?_⟩
  · have closed := @reads_blockEnd u (key ++ [32]) [] body more .lexTopValueEnd ends
    have reads := ((start _).trans (middle (10 :: more))).trans closed
    rw [append_assoc body]
    exact reads.lexAll
  · exact (((start _).trans (middle [])).trans (reads_blockEOF ends)).lexAll

/-- The key `k`, and a body of one new line. -/
theorem small_block : IsKey (bytesOf "k") ∧ 0 ∉ bytesOf "\n" ∧
    ¬ HasLine (bytesOf ")") (bytesOf "\n") ∧ ∃ b, bytesOf "\n" = b ++ [10] := by
  refine ⟨⟨by decide, all_eq_true.mp rfl, by decide⟩, by decide, ?_, [], rfl⟩
  rintro ⟨front, back, eq, -⟩
  have mem : 41 ∈ bytesOf "\n" := by
    rw [eq]
    exact mem_append_left _ (mem_append_right _ (by decide))
  revert mem
  decide

theorem block_string_items_small : ∃ turns items, lexAll noTables turns []
    (Scan.init (bytesOf "k" ++ bytesOf " (" ++ (bytesOf "\n" ++ bytesOf ")" ++ 10 :: []))) =
      .running items ∧
    items.map Item.told = [(.itemKey, bytesOf "k"), (.itemString, bytesOf "\n")] := by
  obtain ⟨isKey, noNul, noLine, ends⟩ := small_block
  exact (block_string_items noTables (bytesOf "k") (bytesOf "\n") isKey noNul noLine ends).1 []

/-- At the end of the input the closing parenthesis becomes part of the value. -/
theorem block_string_at_end :
    (IsKey (bytesOf "k") ∧ 0 ∉ bytesOf "\n" ∧ ¬ HasLine (bytesOf ")") (bytesOf "\n") ∧
      ∃ b, bytesOf "\n" = b ++ [10]) ∧
    ∀ u, lexAll u 15 [] (Scan.init (bytesOf "k" ++ bytesOf " (" ++ (bytesOf "\n" ++ bytesOf ")"))) =
      .ended [⟨.itemKey, bytesOf "k", 1⟩, ⟨.itemString, bytesOf "\n)", 2⟩, ⟨.itemEOF, [], 2⟩] :=
  ⟨small_block, fun _ => ends_ascii (by decide) 15 (by decide)⟩

end Hnatsd.Conf
