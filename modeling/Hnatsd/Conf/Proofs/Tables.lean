import Hnatsd.Conf.Proofs.NoPanic

/-!
# ASCII texts

What the tables of package `unicode` say does not matter for a text that is ASCII: the package
decides these runes by itself. So such a text can be lexed with any tables.
-/

namespace Hnatsd.Conf

open Hnatsd.Misc Lexer List

/-- Tables that are empty. -/
def noTables : Unicode where
  digit _ := false
  space _ := false
  lower := id
  digit_error := rfl

def IsAscii (text : Bytes) : Prop := ∀ b ∈ text, b < 0x80

instance (text : Bytes) : Decidable (IsAscii text) := decidableBAll _ text

/-- What becomes of an ASCII letter in lower case. -/
def lowerLetter (r : Nat) : Nat := if 65 ≤ r ∧ r ≤ 90 then r + 32 else r

variable {u : Unicode} {lx : Lexer}

theorem isSpace_ascii {r : Nat} (ascii : r < 0x80) : u.isSpace r = noTables.isSpace r := by
  have latin : r ≤ 0xFF := by omega
  rw [Unicode.isSpace, Unicode.isSpace, if_pos latin, if_pos latin]

theorem isDigit_ascii {r : Nat} (ascii : r < 0x80) : u.isDigit r = noTables.isDigit r := by
  have latin : r ≤ 0xFF := by omega
  rw [Unicode.isDigit, Unicode.isDigit, if_pos latin, if_pos latin]

theorem runesLoop_ascii {text : Bytes} (ascii : IsAscii text) (fuel : Nat) :
    runesLoop fuel text = (text.take fuel).map UInt8.toNat := by
  induction fuel generalizing text with
  | zero => rfl
  | succ fuel ih =>
    cases text with
    | nil => rfl
    | cons b rest =>
      rw [IsAscii, forall_mem_cons] at ascii
      rw [runesLoop, decodeRune_ascii ascii.1, drop_one, tail_cons, ih ascii.2,
        take_succ_cons, map_cons]

theorem runes_ascii {text : Bytes} (ascii : IsAscii text) : runes text = text.map UInt8.toNat := by
  rw [runes, runesLoop_ascii ascii, take_length]

theorem lowered_ascii {text : Bytes} (ascii : IsAscii text) :
    u.lowered text = text.map fun b => lowerLetter b.toNat := by
  rw [Unicode.lowered, runes_ascii ascii, map_map]
  apply map_congr_left
  intro b mem
  have small : b.toNat ≤ 0x7F := by
    have := UInt8.lt_iff_toNat_lt.mp (ascii b mem)
    have eq : (0x80 : UInt8).toNat = 0x80 := rfl
    omega
  exact if_pos small

theorem lowersTo_ascii {text : Bytes} (ascii : IsAscii text) (word : String) :
    u.lowersTo text word = noTables.lowersTo text word := by
  rw [Unicode.lowersTo, Unicode.lowersTo, lowered_ascii ascii, lowered_ascii ascii]

namespace Lexer

theorem rune_ascii (ascii : IsAscii lx.input) : lx.rune < 0x80 := by
  rcases Nat.lt_or_ge lx.pos lx.input.length with more | done
  · have first : lx.input[lx.pos] < 0x80 := ascii _ (getElem_mem more)
    rw [rune_of_more more, drop_eq_getElem_cons more, decodeRune_ascii first]
    exact UInt8.lt_iff_toNat_lt.mp first
  · rw [rune_of_end done]
    decide

theorem slice_ascii (ascii : IsAscii lx.input) : IsAscii lx.slice.1 := by
  unfold slice
  split
  · intro b mem
    exact ascii b (mem_of_mem_drop (mem_of_mem_take mem))
  · nofun

section

variable (ascii : IsAscii lx.input)
include ascii

theorem keyCheckKeyword_ascii (fallThrough : StateFn)
    (push : Option StateFn) :
    keyCheckKeyword u lx fallThrough push = keyCheckKeyword noTables lx fallThrough push := by
  unfold keyCheckKeyword
  dsimp only
  rw [lowersTo_ascii (slice_ascii ascii)]

theorem endString_ascii : endString u lx = endString noTables lx := by
  have bool : isBool u lx = isBool noTables lx := by
    unfold isBool
    dsimp only
    simp only [lowersTo_ascii (slice_ascii ascii)]
  rw [endString, endString, bool]

theorem numberStart_ascii (state : StateFn) :
    numberStart u state lx = numberStart noTables state lx := by
  rw [numberStart, numberStart, next_eq]
  dsimp only
  rw [isDigit_ascii (rune_ascii ascii)]

theorem dateLoop_ascii (formats : List Nat) :
    dateLoop u formats lx = dateLoop noTables formats lx := by
  induction formats generalizing lx with
  | nil => rfl
  | cons f formats ih =>
    have later := @ih lx.skip (by rwa [skip_input])
    rw [dateLoop, dateLoop, next_eq]
    dsimp only
    rw [isDigit_ascii (rune_ascii ascii), later]

end

end Lexer

/-- A state function does with the empty tables what it does with any other. -/
theorem call_ascii (ascii : IsAscii lx.input) (state : StateFn) :
    state.call u lx = state.call noTables lx := by
  have space := isSpace_ascii (u := u) (rune_ascii ascii)
  have digit := isDigit_ascii (u := u) (rune_ascii ascii)
  cases state <;> dsimp only [StateFn.call]
  case lexTop =>
    rw [lexTop, lexTop, next_eq]
    dsimp only
    rw [space]
  case lexKeyStart =>
    rw [lexKeyStart, lexKeyStart, peek_eq]
    dsimp only
    rw [space]
  case lexInclude =>
    rw [lexInclude, lexInclude, next_eq]
    dsimp only
    rw [digit]
  case lexKey =>
    rw [lexKey, lexKey, peek_eq]
    dsimp only
    rw [space, keyCheckKeyword_ascii (by exact ascii)]
  case lexKeyEnd =>
    rw [lexKeyEnd, lexKeyEnd, next_eq]
    dsimp only
    rw [space]
  case lexValue =>
    rw [lexValue, lexValue, next_eq]
    dsimp only
    rw [digit]
  case lexArrayValue =>
    rw [lexArrayValue, lexArrayValue, next_eq]
    dsimp only
    rw [space]
  case lexMapKeyStart =>
    rw [lexMapKeyStart, lexMapKeyStart, peek_eq]
    dsimp only
    rw [space]
  case lexMapKey =>
    rw [lexMapKey, lexMapKey, peek_eq]
    dsimp only
    rw [space, keyCheckKeyword_ascii (by exact ascii)]
  case lexMapKeyEnd =>
    rw [lexMapKeyEnd, lexMapKeyEnd, next_eq]
    dsimp only
    rw [space]
  case lexMapValue =>
    rw [lexMapValue, lexMapValue, next_eq]
    dsimp only
    rw [space]
  case lexString =>
    rw [lexString, lexString, next_eq]
    dsimp only
    rw [endString_ascii (by rwa [backup_input, skip_input])]
  case lexNumberOrDateOrIPStart => exact numberStart_ascii ascii _
  case lexNumberOrDateOrIP =>
    rw [lexNumberOrDateOrIP, lexNumberOrDateOrIP, next_eq]
    dsimp only
    rw [digit]
  case lexDateAfterYear => exact dateLoop_ascii ascii _
  case lexNegNumberStart => exact numberStart_ascii ascii _
  case lexNegNumber =>
    rw [lexNegNumber, lexNegNumber, next_eq]
    dsimp only
    rw [digit]
  case lexFloatStart =>
    rw [lexFloatStart, lexFloatStart, next_eq]
    dsimp only
    rw [digit]
  case lexFloat =>
    rw [lexFloat, lexFloat, next_eq]
    dsimp only
    rw [digit]
  case lexIPAddr =>
    rw [lexIPAddr, lexIPAddr, next_eq]
    dsimp only
    rw [digit]

/-- Lexing an ASCII text takes the same course with any tables. -/
theorem lexAll_ascii {data : Bytes} {scan : Scan} (ascii : IsAscii data)
    (scanned : Scanned u data scan) (turns : Nat) (seen : List Item) :
    lexAll u turns seen scan = lexAll noTables turns seen scan := by
  induction turns generalizing scan seen with
  | zero => rfl
  | succ turns ih =>
    have polled : scan.poll u = scan.poll noTables := by
      obtain ⟨lx, state, items⟩ := scan
      rcases items with _ | ⟨it, items⟩
      · rcases state with _ | state
        · rfl
        · have input := (scanned.reached state rfl).stands.2.1
          simp only [Scan.poll, @call_ascii u lx (by rwa [input]) state]
      · rfl
    have next := scanned.poll
    rw [lexAll, lexAll, ← polled]
    split
    · next it scan' item =>
      rw [item] at next
      rw [ih next.2]
    · next scan' called =>
      rw [called] at next
      exact ih next seen
    · rfl

/-- So that it ends with given items can be seen with the empty tables. -/
theorem ends_ascii {data : Bytes} {all : List Item} (ascii : IsAscii data) (turns : Nat)
    (ended : lexAll noTables turns [] (Scan.init data) = .ended all) :
    lexAll u turns [] (Scan.init data) = .ended all := by
  rw [lexAll_ascii ascii (Scanned.init u data), ended]

end Hnatsd.Conf
