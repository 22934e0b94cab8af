import Hnatsd.Misc.Bytes

/-!
# Runes

Reading a Go string rune by rune: `utf8.DecodeRuneInString`, with one byte of width for each byte
that starts no valid encoding. What a reader of ASCII syntax needs to know is that no ASCII byte is
ever hidden inside a longer rune.
-/

namespace Hnatsd.Misc
open List

variable {text : Bytes} {rs : List Nat} {b : UInt8}

/-- `utf8.RuneError`. -/
def runeError : Nat := 0xFFFD

/-- For a leading byte of a longer encoding: its size and the range of its second byte. -/
def leading (b : UInt8) : Option (Nat × UInt8 × UInt8) :=
  if b < 0xC2 then none
  else if b ≤ 0xDF then some (2, 0x80, 0xBF)
  else if b = 0xE0 then some (3, 0xA0, 0xBF)
  else if b = 0xED then some (3, 0x80, 0x9F)
  else if b ≤ 0xEF then some (3, 0x80, 0xBF)
  else if b = 0xF0 then some (4, 0x90, 0xBF)
  else if b ≤ 0xF3 then some (4, 0x80, 0xBF)
  else if b = 0xF4 then some (4, 0x80, 0x8F)
  else none

/-- `utf8.locb` to `utf8.hicb`. -/
def isTail (b : UInt8) : Bool := 0x80 ≤ b && b ≤ 0xBF

/-- `utf8.DecodeRuneInString`: the first rune and its width. -/
def decodeRune : Bytes → Nat × Nat
  | [] => (runeError, 0)
  | b :: rest =>
      if b < 0x80 then (b.toNat, 1)
      else
        match leading b, rest with
        | some (size, low, high), c :: rest =>
            if c < low ∨ high < c then (runeError, 1)
            else if size = 2 then (b.toNat % 32 * 64 + c.toNat % 64, 2)
            else
              match rest with
              | [] => (runeError, 1)
              | d :: rest =>
                  if ¬ isTail d then (runeError, 1)
                  else if size = 3 then
                    (b.toNat % 16 * 4096 + c.toNat % 64 * 64 + d.toNat % 64, 3)
                  else
                    match rest with
                    | [] => (runeError, 1)
                    | e :: _ =>
                        if ¬ isTail e then (runeError, 1)
                        else (b.toNat % 8 * 262144 + c.toNat % 64 * 4096 + d.toNat % 64 * 64 +
                          e.toNat % 64, 4)
        | _, _ => (runeError, 1)

/-- `string(r)` for a rune. -/
def encodeRune (r : Nat) : Bytes :=
  if r < 0x80 then [UInt8.ofNat r]
  else if r < 0x800 then [UInt8.ofNat (0xC0 + r / 64), UInt8.ofNat (0x80 + r % 64)]
  else if (0xD800 ≤ r ∧ r ≤ 0xDFFF) ∨ 0x10FFFF < r then [0xEF, 0xBF, 0xBD]
  else if r < 0x10000 then
    [UInt8.ofNat (0xE0 + r / 4096), UInt8.ofNat (0x80 + r / 64 % 64), UInt8.ofNat (0x80 + r % 64)]
  else
    [UInt8.ofNat (0xF0 + r / 262144), UInt8.ofNat (0x80 + r / 4096 % 64),
      UInt8.ofNat (0x80 + r / 64 % 64), UInt8.ofNat (0x80 + r % 64)]

/-- The runes that `range` goes through, for a text of at most that many bytes. -/
def runesLoop : Nat → Bytes → List Nat
  | 0, _ => []
  | _ + 1, [] => []
  | fuel + 1, b :: rest =>
      (decodeRune (b :: rest)).1 :: runesLoop fuel ((b :: rest).drop (decodeRune (b :: rest)).2)

def runes (text : Bytes) : List Nat := runesLoop text.length text

@[simp] theorem decodeRune_ascii (ascii : b < 0x80) (rest : Bytes) :
    decodeRune (b :: rest) = (b.toNat, 1) := by
  simp [decodeRune, ascii]

/-- What is read where an ASCII byte does not stand: no byte of it is ASCII. -/
structure WideRune (rest : Bytes) (read : Nat × Nat) : Prop where
  rune : 0x80 ≤ read.1
  pos : 1 ≤ read.2
  le : read.2 ≤ rest.length + 1
  bytes : ∀ c ∈ rest.take (read.2 - 1), 0x80 ≤ c

theorem WideRune.error (rest : Bytes) : WideRune rest (runeError, 1) :=
  ⟨by decide, Nat.le_refl 1, by simp, by simp⟩

/-- The sizes in terms of the leading byte; the second byte is such that no encoding is overlong. -/
theorem leading_cases {low high : UInt8} {size : Nat}
    (lead : leading b = some (size, low, high)) :
    0x80 ≤ low.toNat ∧ high.toNat ≤ 0xBF ∧
      (size = 2 ∧ 0xC2 ≤ b.toNat ∧ b.toNat ≤ 0xDF ∨
        size = 3 ∧ b.toNat ≤ 0xEF ∧ (b.toNat = 0xE0 ∧ low.toNat = 0xA0 ∨ 0xE1 ≤ b.toNat) ∨
        size = 4 ∧ b.toNat ≤ 0xF4 ∧ (b.toNat = 0xF0 ∧ low.toNat = 0x90 ∨ 0xF1 ≤ b.toNat)) := by
  simp only [leading, UInt8.lt_iff_toNat_lt, UInt8.le_iff_toNat_le, ← UInt8.toNat_inj] at lead
  split_ifs at lead <;> cases lead <;> simp_all <;> omega

theorem isTail_iff {c : UInt8} : isTail c = true ↔ 0x80 ≤ c ∧ c ≤ 0xBF := by
  simp [isTail]

theorem wideRune (wide : ¬ b < 0x80) (rest : Bytes) :
    WideRune rest (decodeRune (b :: rest)) := by
  rcases lead : leading b with _ | ⟨size, low, high⟩
  · simp only [decodeRune, if_neg wide, lead]
    exact WideRune.error rest
  obtain ⟨lowTail, highTail, bySize⟩ := leading_cases lead
  have second {c : UInt8} (inside : ¬ (c < low ∨ high < c)) :
      low.toNat ≤ c.toNat ∧ c.toNat ≤ high.toNat ∧ 0x80 ≤ c := by
    rw [not_or, UInt8.not_lt, UInt8.not_lt, UInt8.le_iff_toNat_le, UInt8.le_iff_toNat_le] at inside
    exact ⟨inside.1, inside.2, UInt8.le_iff_toNat_le.mpr (Nat.le_trans lowTail inside.1)⟩
  -- an encoding that breaks off is read as one byte
  rcases rest with _ | ⟨c, rest⟩
  · simp only [decodeRune, if_neg wide, lead]
    exact WideRune.error []
  by_cases inside : c < low ∨ high < c
  · simp only [decodeRune, if_neg wide, lead, if_pos inside]
    exact WideRune.error (c :: rest)
  obtain ⟨fromLow, toHigh, cTail⟩ := second inside
  by_cases two : size = 2
  · simp only [decodeRune, if_neg wide, lead, if_neg inside, if_pos two]
    exact ⟨by dsimp only; omega, by simp, by simp, by simpa using cTail⟩
  rcases rest with _ | ⟨d, rest⟩
  · simp only [decodeRune, if_neg wide, lead, if_neg inside, if_neg two]
    exact WideRune.error [c]
  by_cases dTail : isTail d = true
  swap
  · simp only [decodeRune, if_neg wide, lead, if_neg inside, if_neg two, if_pos dTail]
    exact WideRune.error (c :: d :: rest)
  have dWide := (isTail_iff.mp dTail).1
  by_cases three : size = 3
  · simp only [decodeRune, if_neg wide, lead, if_neg inside, if_neg two, dTail, not_true,
      if_false, if_pos three]
    exact ⟨by dsimp only; omega, by simp, by simp, by simpa using ⟨cTail, dWide⟩⟩
  rcases rest with _ | ⟨e, rest⟩
  · simp only [decodeRune, if_neg wide, lead, if_neg inside, if_neg two, dTail, not_true,
      if_false, if_neg three]
    exact WideRune.error [c, d]
  by_cases eTail : isTail e = true
  · simp only [decodeRune, if_neg wide, lead, if_neg inside, if_neg two, dTail, not_true,
      if_false, if_neg three, eTail]
    have eWide := (isTail_iff.mp eTail).1
    exact ⟨by dsimp only; omega, by simp, by simp, by simpa using ⟨cTail, dWide, eWide⟩⟩
  · simp only [decodeRune, if_neg wide, lead, if_neg inside, if_neg two, dTail, not_true,
      if_false, if_neg three, if_pos eTail]
    exact WideRune.error (c :: d :: e :: rest)

theorem decodeRune_pos {text : Bytes} (nonempty : text ≠ []) : 1 ≤ (decodeRune text).2 := by
  rcases text with _ | ⟨b, rest⟩
  · exact absurd rfl nonempty
  · by_cases ascii : b < 0x80
    · rw [decodeRune_ascii ascii]
    · exact (wideRune ascii rest).pos

theorem decodeRune_le (text : Bytes) : (decodeRune text).2 ≤ text.length := by
  rcases text with _ | ⟨b, rest⟩
  · exact Nat.le_refl 0
  · by_cases ascii : b < 0x80
    · rw [decodeRune_ascii ascii, length_cons]
      omega
    · exact (wideRune ascii rest).le

/-- A rune stops before the first ASCII byte that follows its first byte. -/
theorem decodeRune_le_of_ascii {body rest : Bytes} {mark : UInt8} (nonempty : body ≠ [])
    (ascii : mark < 0x80) : (decodeRune (body ++ mark :: rest)).2 ≤ body.length := by
  rcases body with _ | ⟨b, body⟩
  · exact absurd rfl nonempty
  rw [cons_append]
  by_cases first : b < 0x80
  · rw [decodeRune_ascii first, length_cons]
    omega
  by_contra long
  have wide := wideRune first (body ++ mark :: rest)
  have inside : mark ∈ (body ++ mark :: rest).take
      ((decodeRune (b :: (body ++ mark :: rest))).2 - 1) := by
    rw [mem_take_iff_getElem]
    refine ⟨body.length, ?_, by simp⟩
    rw [length_cons] at long
    rw [length_append, length_cons]
    omega
  exact UInt8.not_le.mpr ascii (wide.bytes mark inside)

/-- The rune read is ASCII exactly where an ASCII byte stands. -/
theorem decodeRune_eq_ascii {rest : Bytes} {r : Nat} (ascii : r < 0x80) :
    (decodeRune (b :: rest)).1 = r ↔ b.toNat = r := by
  by_cases first : b < 0x80
  · rw [decodeRune_ascii first]
  · have wide := (wideRune first rest).rune
    rw [UInt8.not_lt, UInt8.le_iff_toNat_le] at first
    have : (0x80 : UInt8).toNat = 0x80 := rfl
    omega

/-- A text that is made of the encodings of these runes, each of which is read as such whatever
comes after it. -/
inductive Spells : Bytes → List Nat → Prop
  | nil : Spells [] []
  | snoc {text piece : Bytes} {rs : List Nat} {r : Nat} (front : Spells text rs)
      (nonempty : piece ≠ []) (read : ∀ more, decodeRune (piece ++ more) = (r, piece.length)) :
      Spells (text ++ piece) (rs ++ [r])

/-- A rune that is read without an error is read from its own bytes. -/
theorem decodeRune_take (valid : (decodeRune text).1 ≠ runeError) (more : Bytes) :
    decodeRune (text.take (decodeRune text).2 ++ more) = decodeRune text := by
  rcases text with _ | ⟨b, rest⟩
  · exact absurd rfl valid
  by_cases wide : b < 0x80
  · simp [decodeRune_ascii wide]
  rcases lead : leading b with _ | ⟨size, low, high⟩
  · simp only [decodeRune, if_neg wide, lead] at valid
    exact absurd rfl valid
  rcases rest with _ | ⟨c, rest⟩
  · simp only [decodeRune, if_neg wide, lead] at valid
    exact absurd rfl valid
  by_cases inside : c < low ∨ high < c
  · simp only [decodeRune, if_neg wide, lead, if_pos inside] at valid
    exact absurd rfl valid
  by_cases two : size = 2
  · simp [decodeRune, wide, lead, inside, two]
  rcases rest with _ | ⟨d, rest⟩
  · simp only [decodeRune, if_neg wide, lead, if_neg inside, if_neg two] at valid
    exact absurd rfl valid
  by_cases dTail : isTail d = true
  swap
  · simp only [decodeRune, if_neg wide, lead, if_neg inside, if_neg two, if_pos dTail] at valid
    exact absurd rfl valid
  by_cases three : size = 3
  · simp [decodeRune, wide, lead, inside, dTail, three]
  rcases rest with _ | ⟨e, rest⟩
  · simp only [decodeRune, if_neg wide, lead, if_neg inside, if_neg two, dTail, not_true,
      if_false, if_neg three] at valid
    exact absurd rfl valid
  by_cases eTail : isTail e = true
  · simp [decodeRune, wide, lead, inside, two, dTail, three, eTail]
  · simp only [decodeRune, if_neg wide, lead, if_neg inside, if_neg two, dTail, not_true,
      if_false, if_neg three, if_pos eTail] at valid
    exact absurd rfl valid

namespace Spells

/-- What is read next is spelled by its own bytes. -/
theorem read {rest : Bytes} (front : Spells text rs) (more : rest ≠ [])
    (valid : (decodeRune rest).1 ≠ runeError) :
    Spells (text ++ rest.take (decodeRune rest).2) (rs ++ [(decodeRune rest).1]) := by
  have width := decodeRune_le rest
  have pos := decodeRune_pos more
  refine .snoc front ?_ fun tail => ?_
  · rw [Ne, take_eq_nil_iff]
    rintro (zero | empty)
    · omega
    · exact more empty
  · rw [decodeRune_take valid, length_take, Nat.min_eq_left width]

theorem length_le (spelled : Spells text rs) :
    rs.length ≤ text.length := by
  induction spelled with
  | nil => exact Nat.le_refl 0
  | snoc front nonempty read ih =>
    have := length_pos_iff.mpr nonempty
    simp only [length_append, length_singleton]
    omega

theorem runesLoop (spelled : Spells text rs) (more : Bytes)
    (fuel : Nat) (enough : text.length ≤ fuel) :
    runesLoop fuel (text ++ more) = rs ++ runesLoop (fuel - rs.length) more := by
  induction spelled generalizing more with
  | nil => rfl
  | @snoc text piece rs r front nonempty read ih =>
    have length := front.length_le
    rw [length_append] at enough
    have some := length_pos_iff.mpr nonempty
    rw [append_assoc, ih _ (by omega)]
    obtain ⟨left, eq⟩ : ∃ left, fuel - rs.length = left + 1 := ⟨fuel - rs.length - 1, by omega⟩
    obtain ⟨b, piece, rfl⟩ := exists_cons_of_ne_nil nonempty
    have rune := read more
    rw [cons_append] at rune ⊢
    rw [eq, Misc.runesLoop, rune, ← cons_append, drop_left, append_assoc]
    have rest : fuel - (rs ++ [r]).length = left := by
      rw [length_append, length_singleton]
      omega
    rw [rest]
    rfl

theorem runes (spelled : Spells text rs) : runes text = rs := by
  have loop := spelled.runesLoop [] text.length (Nat.le_refl _)
  rw [append_nil] at loop
  rw [Misc.runes, loop]
  cases text.length - rs.length <;> simp [Misc.runesLoop]

theorem of_ascii (ascii : ∀ b ∈ text, b < 0x80) :
    Spells text (text.map UInt8.toNat) := by
  induction text using reverseRecOn with
  | nil => exact .nil
  | append_singleton text b ih =>
    rw [forall_mem_append, forall_mem_singleton] at ascii
    rw [map_append, map_singleton]
    refine .snoc (ih ascii.1) (by simp) fun more => ?_
    rw [singleton_append, decodeRune_ascii ascii.2]
    rfl

/-- A text that spells two series of runes falls into two parts. -/
theorem split {text : Bytes} {rs rs' : List Nat} (spelled : Spells text (rs ++ rs')) :
    ∃ front back, text = front ++ back ∧ Spells front rs ∧ Spells back rs' := by
  induction rs' using reverseRecOn generalizing text with
  | nil =>
    rw [append_nil] at spelled
    exact ⟨text, [], (append_nil text).symm, spelled, .nil⟩
  | append_singleton rs' r ih =>
    rw [← append_assoc] at spelled
    generalize whole : rs ++ rs' ++ [r] = all at spelled
    cases spelled with
    | nil => simp at whole
    | @snoc before piece rs₀ r₀ front nonempty read =>
      obtain ⟨rfl, last⟩ := append_inj' whole rfl
      cases last
      obtain ⟨left, right, rfl, leftSpelled, rightSpelled⟩ := ih front
      exact ⟨left, right ++ piece, append_assoc _ _ _, leftSpelled,
        .snoc rightSpelled nonempty read⟩

/-- The bytes of ASCII runes are the runes. -/
theorem ascii (spelled : Spells text rs)
    (ascii : ∀ r ∈ rs, r < 0x80) : text.map UInt8.toNat = rs := by
  induction spelled with
  | nil => rfl
  | @snoc text piece rs r front nonempty read ih =>
    rw [forall_mem_append, forall_mem_singleton] at ascii
    obtain ⟨b, rest, rfl⟩ := exists_cons_of_ne_nil nonempty
    have first := read []
    rw [append_nil] at first
    have byte : b.toNat = r := (decodeRune_eq_ascii ascii.2).mp (congrArg Prod.fst first)
    have small : b < 0x80 := UInt8.lt_iff_toNat_lt.mpr (byte ▸ ascii.2)
    rw [decodeRune_ascii small] at first
    have single : rest = [] := by
      have length := congrArg Prod.snd first
      rw [length_cons] at length
      exact length_eq_zero_iff.mp (by omega)
    subst single
    rw [map_append, ih ascii.1, map_singleton, byte]

theorem eq_nil (spelled : Spells text []) : text = [] := by
  generalize whole : ([] : List Nat) = all at spelled
  cases spelled with
  | nil => rfl
  | snoc => simp at whole

/-- A rune outside ASCII starts with a byte outside ASCII. -/
theorem wide {r : Nat} (spelled : Spells text (r :: rs))
    (wide : 0x80 ≤ r) : ∃ b rest, text = b :: rest ∧ 0x80 ≤ b := by
  obtain ⟨front, back, rfl, first, -⟩ := @Spells.split text [r] rs spelled
  generalize whole : [r] = all at first
  cases first with
  | nil => cases whole
  | @snoc before piece rs₀ r₀ front nonempty read =>
    obtain ⟨rfl, last⟩ := @append_inj' _ [] [r] rs₀ [r₀] whole rfl
    cases last
    obtain rfl := front.eq_nil
    obtain ⟨b, rest, rfl⟩ := exists_cons_of_ne_nil nonempty
    refine ⟨b, rest ++ back, rfl, ?_⟩
    by_contra small
    rw [UInt8.not_le] at small
    have read := congrArg Prod.fst (read [])
    rw [append_nil, decodeRune_ascii small] at read
    have bound := UInt8.lt_iff_toNat_lt.mp small
    have eq : (0x80 : UInt8).toNat = 0x80 := rfl
    dsimp only at read
    omega

end Spells

end Hnatsd.Misc
