import Hnatsd.Conf.Proofs.Items
import Hnatsd.Conf.Proofs.Tables

/-!
# Integer literals

The lexer takes a sign, digits of any script and a letter with any number of `b`; the parser reads
ASCII digits, without a sign, and knows six suffixes. `integer_literals_iff` says for which literals
the number stored is the one written.
-/

namespace Hnatsd.Conf

open Hnatsd.Misc Lexer List

/-- The value of a digit; `wide` has those outside ASCII. -/
def digitValue (wide : Nat → Nat) (r : Nat) : Nat := if r < 0x80 then r - 48 else wide r

/-- The value of a series of digits after those of `n`. -/
def digitsFrom (wide : Nat → Nat) (n : Nat) (rs : List Nat) : Nat :=
  rs.foldl (fun n r => n * 10 + digitValue wide r) n

def digitsValue (wide : Nat → Nat) (rs : List Nat) : Nat := digitsFrom wide 0 rs

/-- What a suffix stands for, in any case. -/
def multiplier (suffix : List Nat) : Option Nat :=
  match suffix.map lowerLetter with
  | [] => some 1
  | [107] => some 1000
  | [107, 98] => some 1024
  | [109] => some (1000 ^ 2)
  | [109, 98] => some (1024 ^ 2)
  | [103] => some (1000 ^ 3)
  | [103, 98] => some (1024 ^ 3)
  | _ => none

/-- A literal with its parts. -/
structure Literal (u : Unicode) (text : Bytes) (sign digits suffix : List Nat) : Prop where
  spelled : Spells text (sign ++ digits ++ suffix)
  sign : sign = [] ∨ sign = [45]
  digits : IsDigits u digits
  suffix : IsSuffix suffix

/-- The number a literal stands for, if its suffix stands for anything. -/
def literalValue (wide : Nat → Nat) (sign digits suffix : List Nat) : Option Int :=
  (multiplier suffix).map fun (k : Nat) =>
    if sign = [] then ((digitsValue wide digits * k : Nat) : Int)
    else -((digitsValue wide digits * k : Nat) : Int)

/-- A literal is stored with its value, and refused if that does not fit or if it has none. -/
def StoredAs (value : Option Int) (p : Parser) (outcome : Outcome Parser) : Prop :=
  match value with
  | some v => if Fits64 v then outcome = p.setValue (.int v) else ∃ text, outcome = .error text
  | none => ∃ text, outcome = .error text

/-- The literals that `strconv.ParseInt` takes. -/
def Readable (wide : Nat → Nat) (sign digits : List Nat) : Prop :=
  sign = [] ∧ (∀ r ∈ digits, r < 0x80) ∧ digitsValue wide digits < 2 ^ 63

instance (wide : Nat → Nat) (sign digits : List Nat) : Decidable (Readable wide sign digits) :=
  inferInstanceAs (Decidable (_ ∧ _))

section

variable {u : Unicode} {wide : Nat → Nat} {p : Parser} {it : Item} {sign digits suffix : List Nat}

theorem le_digitsFrom (n : Nat) (rs : List Nat) : n ≤ digitsFrom wide n rs := by
  induction rs generalizing n with
  | nil => exact Nat.le_refl n
  | cons r rs ih =>
    have later := ih (n * 10 + digitValue wide r)
    rw [digitsFrom, foldl_cons]
    exact Nat.le_trans (by omega) later

/-- The loop of `strconv.ParseUint` over ASCII digits. -/
theorem parseUintLoop_digits {text : Bytes} {n : Nat}
    (ascii : ∀ r ∈ text.map UInt8.toNat, 48 ≤ r ∧ r ≤ 57) (small : n < 2 ^ 64) :
    parseUintLoop n text = if 2 ^ 64 ≤ digitsFrom wide n (text.map UInt8.toNat) then .error .errRange
      else .ok (digitsFrom wide n (text.map UInt8.toNat)) := by
  induction text generalizing n with
  | nil => exact (if_neg (Nat.not_le.mpr small)).symm
  | cons b text ih =>
    rw [map_cons, forall_mem_cons] at ascii
    have value : digitValue wide b.toNat = b.toNat - 48 := if_pos (by omega)
    have from' : digitsFrom wide n ((b :: text).map UInt8.toNat) =
        digitsFrom wide (n * 10 + (b.toNat - 48)) (text.map UInt8.toNat) := by
      rw [digitsFrom, map_cons, foldl_cons, value]
      rfl
    have inside : ¬ (b < 48 ∨ 57 < b) := by
      rw [UInt8.lt_iff_toNat_lt, UInt8.lt_iff_toNat_lt]
      have : (48 : UInt8).toNat = 48 := rfl
      have : (57 : UInt8).toNat = 57 := rfl
      omega
    rw [parseUintLoop, if_neg inside, from']
    split
    · next large =>
      rw [if_pos (Nat.le_trans large (le_digitsFrom _ _))]
    · next under => exact ih ascii.2 (Nat.not_le.mp under)

/-- A byte outside ASCII is refused, if the digits before it are not. -/
theorem parseUintLoop_wide (front rest : Bytes) {b : UInt8} (high : 0x80 ≤ b) (n : Nat) :
    ∃ e, parseUintLoop n (front ++ b :: rest) = .error e := by
  induction front generalizing n with
  | nil =>
    have above : 57 < b := UInt8.lt_of_lt_of_le (by decide) high
    exact ⟨.errSyntax, if_pos (Or.inr above)⟩
  | cons c front ih =>
    rw [cons_append, parseUintLoop]
    split
    · exact ⟨_, rfl⟩
    · split
      · exact ⟨_, rfl⟩
      · exact ih _

theorem suffix_letter {r : Nat} (isSuffix : IsSuffix suffix) (mem : r ∈ suffix) :
    r ∈ [107, 75, 109, 77, 103, 71, 98, 66] := by
  cases suffix with
  | nil => cases mem
  | cons first rest =>
    rcases mem_cons.mp mem with rfl | later
    · have letter := isSuffix.1
      simp only [isNumberSuffix, Bool.or_eq_true, beq_iff_eq] at letter
      simp only [mem_cons, not_mem_nil, or_false]
      omega
    · have b := isSuffix.2 r later
      simp only [mem_cons, not_mem_nil, or_false]
      omega

theorem suffix_plain (isSuffix : IsSuffix suffix) {r : Nat} (mem : r ∈ suffix) :
    u.isDigit r = false ∧ u.isSpace r = false ∧ u.toLower r = lowerLetter r := by
  have letter := suffix_letter isSuffix mem
  simp only [mem_cons, not_mem_nil, or_false] at letter
  rcases letter with rfl | rfl | rfl | rfl | rfl | rfl | rfl | rfl <;> exact ⟨rfl, rfl, rfl⟩

/-- The runes the parser counts as digits. -/
theorem takeWhile_digits (literal : Literal u it.val sign digits suffix) :
    (runes it.val).takeWhile u.isDigit = if sign = [] then digits else [] := by
  rw [literal.spelled.runes]
  rcases literal.sign with rfl | rfl
  · rw [if_pos rfl, nil_append, takeWhile_append_of_pos literal.digits.2]
    cases suffix with
    | nil => exact append_nil digits
    | cons r rs =>
      have letter := (suffix_plain (u := u) literal.suffix mem_cons_self).1
      rw [takeWhile_cons_of_neg (by rw [letter]; decide), append_nil]
  · rw [if_neg (by decide)]
    rfl

theorem loweredTrim_suffix {text : Bytes} (spelled : Spells text suffix) (isSuffix : IsSuffix suffix) :
    u.loweredTrim text = suffix.map lowerLetter := by
  have trim (rs : List Nat) (sub : ∀ r ∈ rs, r ∈ suffix) : rs.dropWhile u.isSpace = rs := by
    cases rs with
    | nil => rfl
    | cons r rs =>
      have plain := (suffix_plain (u := u) isSuffix (sub r mem_cons_self)).2.1
      rw [dropWhile_cons_of_neg (by rw [plain]; decide)]
  rw [Unicode.loweredTrim, spelled.runes, trim suffix fun _ mem => mem, trim suffix.reverse,
    reverse_reverse]
  · exact map_congr_left fun r mem => (suffix_plain isSuffix mem).2.2
  · intro r mem
    exact mem_reverse.mp mem

/-- What `ParseInt` makes of the digits. -/
theorem parseInt_digits {text : Bytes} (nonempty : digits ≠ []) (spelled : text.map UInt8.toNat = digits)
    (ascii : ∀ r ∈ digits, 48 ≤ r ∧ r ≤ 57) :
    parseInt text = if 2 ^ 63 ≤ digitsValue wide digits then .error .errRange
      else .ok (digitsValue wide digits) := by
  have some : text ≠ [] := by
    rintro rfl
    exact nonempty spelled.symm
  subst spelled
  have loop := @parseUintLoop_digits wide text 0 ascii (by decide)
  change _ = if 2 ^ 64 ≤ digitsValue wide (text.map UInt8.toNat) then _ else _ at loop
  rw [parseInt, if_neg some, loop]
  by_cases huge : 2 ^ 64 ≤ digitsValue wide (text.map UInt8.toNat)
  · rw [if_pos huge, if_pos (Nat.le_trans (by decide) huge)]
  · rw [if_neg huge]
    rfl

theorem mul64_of_lt {a b : Nat} (fits : a * b < 2 ^ 63) : mul64 a b = (a * b : Nat) := by
  rw [mul64, ← Nat.cast_mul]
  exact wrap64_of_bounds (by omega) (by omega)

/-- The suffixes the parser knows are those with a meaning, and the product is right if it fits. -/
theorem applySuffix_multiplier (suffix : List Nat) (n : Nat) :
    match multiplier suffix with
    | none => applySuffix (suffix.map lowerLetter) n = none
    | some k => ∃ v, applySuffix (suffix.map lowerLetter) n = some v ∧
        (n * k < 2 ^ 63 → v = (n * k : Nat)) := by
  have twice (c : Nat) (fits : n * c ^ 2 < 2 ^ 63) (pos : 0 < c) :
      mul64 (mul64 n c) c = (n * c ^ 2 : Nat) := by
    have assoc : n * c ^ 2 = n * c * c := by ring
    rw [assoc] at fits ⊢
    rw [mul64_of_lt (Nat.lt_of_le_of_lt (Nat.le_mul_of_pos_right _ pos) fits), mul64_of_lt fits]
  have thrice (c : Nat) (fits : n * c ^ 3 < 2 ^ 63) (pos : 0 < c) :
      mul64 (mul64 (mul64 n c) c) c = (n * c ^ 3 : Nat) := by
    have assoc : n * c ^ 3 = n * c ^ 2 * c := by ring
    rw [assoc] at fits ⊢
    rw [twice c (Nat.lt_of_le_of_lt (Nat.le_mul_of_pos_right _ pos) fits) pos, mul64_of_lt fits]
  unfold multiplier
  generalize suffix.map lowerLetter = letters
  unfold applySuffix
  split_ifs with plain k kb m mb g gb
  · subst plain
    exact ⟨n, rfl, fun _ => by rw [Nat.mul_one]⟩
  · subst k
    exact ⟨_, rfl, mul64_of_lt⟩
  · subst kb
    exact ⟨_, rfl, mul64_of_lt⟩
  · subst m
    exact ⟨_, rfl, fun fits => twice 1000 fits (by decide)⟩
  · subst mb
    exact ⟨_, rfl, fun fits => twice 1024 fits (by decide)⟩
  · subst g
    exact ⟨_, rfl, fun fits => thrice 1000 fits (by decide)⟩
  · subst gb
    exact ⟨_, rfl, fun fits => thrice 1024 fits (by decide)⟩
  · split
    · rfl
    · next unknown k' found =>
      exfalso
      split at found
      · exact plain rfl
      · exact k rfl
      · exact kb rfl
      · exact m rfl
      · exact mb rfl
      · exact g rfl
      · exact gb rfl
      · cases found

/-- Where all digits are ASCII, counting runes cuts the text between digits and suffix. -/
theorem Literal.cut {text : Bytes} (literal : Literal u text [] digits suffix)
    (ascii : ∀ r ∈ digits, r < 0x80) :
    parseInt (text.take digits.length) = (if 2 ^ 63 ≤ digitsValue wide digits then .error .errRange
      else .ok (digitsValue wide digits)) ∧ Spells (text.drop digits.length) suffix := by
  have spelled := literal.spelled
  rw [nil_append] at spelled
  obtain ⟨front, back, rfl, digitsSpelled, suffixSpelled⟩ := spelled.split
  have bytes := digitsSpelled.ascii ascii
  have length : digits.length = front.length := by rw [← bytes, length_map]
  have decimal : ∀ r ∈ digits, 48 ≤ r ∧ r ≤ 57 := by
    intro r mem
    have digit := literal.digits.2 r mem
    have latin : r ≤ 0xFF := by have := ascii r mem; omega
    simpa [Unicode.isDigit, latin] using digit
  rw [length, take_left, drop_left]
  exact ⟨parseInt_digits literal.digits.1 bytes decimal, suffixSpelled⟩

/-- A literal that can be read is stored as its digits times what its suffix stands for, in 64
bits; with a suffix that stands for nothing it is passed over. -/
theorem processInteger_readable (literal : Literal u it.val sign digits suffix)
    (readable : Readable wide sign digits) :
    match multiplier suffix with
    | none => p.processInteger u it = .ok p
    | some k => ∃ v, p.processInteger u it = p.setValue (.int v) ∧
        (digitsValue wide digits * k < 2 ^ 63 → v = (digitsValue wide digits * k : Nat)) := by
  obtain ⟨rfl, ascii, small⟩ := readable
  have count := takeWhile_digits literal
  obtain ⟨parsed, suffixSpelled⟩ := @Literal.cut u wide digits suffix it.val literal ascii
  rw [if_pos rfl] at count
  rw [if_neg (Nat.not_le.mpr small)] at parsed
  have processed (result : Option Int)
      (applied : applySuffix (suffix.map lowerLetter) (digitsValue wide digits) = result) :
      p.processInteger u it = result.elim (.ok p) fun num => p.setValue (.int num) := by
    unfold Parser.processInteger
    dsimp only
    rw [count, parsed]
    dsimp only
    rw [loweredTrim_suffix suffixSpelled literal.suffix, applied]
    cases result <;> rfl
  have suffixed := applySuffix_multiplier suffix (digitsValue wide digits)
  rcases known : multiplier suffix with _ | k
  · rw [known] at suffixed
    exact processed none suffixed
  · rw [known] at suffixed
    obtain ⟨v, applied, product⟩ := suffixed
    exact ⟨v, processed (some v) applied, product⟩

/-- Digits outside ASCII take more than a byte, so that the bytes cut off have one that is no
digit. -/
theorem Literal.cut_wide {text : Bytes} (literal : Literal u text [] digits suffix)
    (wide : ¬ ∀ r ∈ digits, r < 0x80) : ∃ e, parseInt (text.take digits.length) = .error e := by
  have spelled := literal.spelled
  rw [nil_append] at spelled
  rcases found : digits.find? (fun r => decide (0x80 ≤ r)) with _ | r
  · rw [find?_eq_none] at found
    refine absurd (fun r mem => ?_) wide
    simpa using found r mem
  · obtain ⟨isWide, front, back, rfl, before⟩ := find?_eq_some_iff_append.mp found
    rw [append_assoc, cons_append] at spelled
    obtain ⟨text₁, text₂, rfl, frontSpelled, rest⟩ := spelled.split
    obtain ⟨b, more, rfl, high⟩ := rest.wide (by simpa using isWide)
    have bytes := frontSpelled.ascii (by simpa using before)
    have length : (front ++ r :: back).length = text₁.length + (back.length + 1) := by
      rw [← bytes, length_append, length_map, length_cons]
    obtain ⟨e, failed⟩ := parseUintLoop_wide text₁ (more.take back.length) high 0
    refine ⟨e, ?_⟩
    rw [length, take_length_add_append, take_succ_cons, parseInt, if_neg (by simp), failed]

/-- What the parser does with digits that it cannot read. -/
theorem processInteger_refused (literal : Literal u it.val sign digits suffix)
    (refused : ¬ Readable wide sign digits) : ∃ text, p.processInteger u it = .error text := by
  have failed (e : NumError) (parsed : parseInt (it.val.take
      ((runes it.val).takeWhile u.isDigit).length) = .error e) :
      ∃ text, p.processInteger u it = .error text := by
    unfold Parser.processInteger
    dsimp only
    rw [parsed]
    cases e <;> exact ⟨_, rfl⟩
  rw [takeWhile_digits literal] at failed
  rcases literal.sign with rfl | rfl
  · rw [if_pos rfl] at failed
    by_cases ascii : ∀ r ∈ digits, r < 0x80
    · have large : 2 ^ 63 ≤ digitsValue wide digits := by
        by_contra small
        exact refused ⟨rfl, ascii, Nat.not_le.mp small⟩
      have parsed := (@Literal.cut u wide digits suffix it.val literal ascii).1
      rw [if_pos large] at parsed
      exact failed _ parsed
    · obtain ⟨e, parsed⟩ := literal.cut_wide ascii
      exact failed e parsed
  · rw [if_neg (by decide)] at failed
    exact failed .errSyntax rfl

theorem setValue_ne_error (val : Value) (text : Bytes) : p.setValue val ≠ .error text := by
  unfold Parser.setValue
  split
  · nofun
  · split <;> nofun

/-- The literals that the lexer sends. -/
theorem Sent.literal {data : Bytes} (sent : Sent u data it) (integer : it.typ = .itemInteger) :
    ∃ sign digits suffix, Literal u it.val sign digits suffix := by
  obtain ⟨lx, state, reached, fine, mem⟩ := sent
  obtain ⟨ok, -, shape, stands⟩ := reached.stands
  have result := goes_call u ok stands (inside_of_fine ok fine)
  obtain ⟨sign, digits, suffix, spelled, isSign, isDigits, isSuffix⟩ :=
    result.integers it mem integer
  exact ⟨sign, digits, suffix, spelled, isSign, isDigits, isSuffix⟩

end

/-- An integer literal that the lexer sends is stored with the value written, or refused where that
does not fit in 64 bits, exactly if: without a sign, with ASCII digits and a number that fits before
the suffix is applied, the suffix is a known one and the product fits too; and in all other cases,
which the parser always refuses, the value does not fit. -/
theorem integer_literals_iff (u : Unicode) (wide : Nat → Nat) (data : Bytes) (it : Item)
    (sent : Sent u data it) (integer : it.typ = .itemInteger) :
    (∃ sign digits suffix, Literal u it.val sign digits suffix) ∧
    ∀ sign digits suffix, Literal u it.val sign digits suffix → ∀ env parse p,
      (StoredAs (literalValue wide sign digits suffix) p (p.processItem u env parse it) ↔
        if Readable wide sign digits then
          ∃ k, multiplier suffix = some k ∧ digitsValue wide digits * k < 2 ^ 63
        else ∀ v, literalValue wide sign digits suffix = some v → ¬ Fits64 v) := by
  refine ⟨sent.literal integer, ?_⟩
  intro sign digits suffix literal env parse p
  have processed : p.processItem u env parse it = p.processInteger u it := by
    rw [Parser.processItem, integer]
  rw [processed]
  by_cases readable : Readable wide sign digits
  · rw [if_pos readable]
    have stored := @processInteger_readable u wide p it sign digits suffix literal readable
    rcases known : multiplier suffix with _ | k
    · rw [known] at stored
      dsimp only at stored
      rw [stored, literalValue, known]
      simp [StoredAs]
    · rw [known] at stored
      obtain ⟨v, stored, product⟩ := stored
      have value : literalValue wide sign digits suffix =
          some ((digitsValue wide digits * k : Nat) : Int) := by
        rw [literalValue, known, Option.map_some, if_pos readable.1]
      rw [stored, value]
      simp only [StoredAs, Option.some.injEq, exists_eq_left']
      split
      · next fits =>
        have small : digitsValue wide digits * k < 2 ^ 63 := by
          have := fits.2
          omega
        exact iff_of_true (by rw [product small]) small
      · next large =>
        refine iff_of_false ?_ fun small => large ⟨by omega, by omega⟩
        rintro ⟨text, failed⟩
        exact setValue_ne_error _ _ failed
  · rw [if_neg readable]
    obtain ⟨text, refused⟩ := @processInteger_refused u wide p it sign digits suffix literal readable
    rw [refused]
    rcases value : literalValue wide sign digits suffix with _ | v
    · simp [StoredAs]
    · simp only [StoredAs, Option.some.injEq, forall_eq']
      split
      · next fits =>
        refine iff_of_false ?_ fun large => large fits
        intro stored
        exact setValue_ne_error _ _ stored.symm
      · next large => exact iff_of_true ⟨text, rfl⟩ large

/-- The items of one entry with an integer. -/
def integerItems (text : Bytes) : List Item :=
  [⟨.itemKey, bytesOf "x", 1⟩, ⟨.itemInteger, text, 1⟩, ⟨.itemEOF, [], 1⟩]

/-- `8k` is stored as eight thousand. -/
theorem integer_literals_eight_k :
    Sent noTables (bytesOf "x=8k") ⟨.itemInteger, bytesOf "8k", 1⟩ ∧ ∀ env parse p,
      StoredAs (some 8000) p (p.processItem noTables env parse ⟨.itemInteger, bytesOf "8k", 1⟩) := by
  have ended : lexAll noTables 15 [] (Scan.init (bytesOf "x=8k")) =
      .ended (integerItems (bytesOf "8k")) := by
    decide
  have sent := (Scanned.init noTables (bytesOf "x=8k")).sent_of_ended (by simp) ended
    ⟨.itemInteger, bytesOf "8k", 1⟩ (by simp [integerItems])
  have literal : Literal noTables (bytesOf "8k") [] [56] [107] :=
    ⟨Spells.of_ascii (show IsAscii _ by decide), Or.inl rfl, ⟨by decide, by simp; rfl⟩, ⟨rfl, by simp⟩⟩
  refine ⟨sent, fun env parse p => ?_⟩
  exact ((integer_literals_iff noTables (fun _ => 0) _ _ sent rfl).2 _ _ _ literal env parse p).mpr
    ⟨1000, rfl, by decide⟩

/-- A negative number is refused, a product that does not fit wraps around, and a number with a
second `b` is passed over. -/
theorem integer_literals_fail :
    (∀ u env, parseText u env 23 (bytesOf "x=-5") =
      .error (bytesOf "Expected integer, but got '-5'.")) ∧
    (∀ u env, parseText u env 23 (bytesOf "x=9223372037g") =
      .ok [(bytesOf "x", .int (9223372037 * 1000 ^ 3 - 2 ^ 64))]) ∧
    ∀ u env, parseText u env 23 (bytesOf "x=1kbb") = .ok [] := by
  have parsed {data text : Bytes} {outcome : Outcome Parser} (u : Unicode) (env : Env)
      (ascii : IsAscii data) (ended : lexAll noTables 23 [] (Scan.init data) = .ended (integerItems text))
      (processed : ((Parser.init []).pushKey (bytesOf "x")).processInteger u
        ⟨.itemInteger, text, 1⟩ = outcome) (returned : outcome ≠ .running) :
      parseText u env 23 data = outcome.bind fun p => .ok p.mapping := by
    have items : (Parser.init []).processItems u env (parse u env 0) (integerItems text) =
        outcome.bind fun p => .ok p.mapping := by
      rw [← processed]
      rfl
    have below := @below_parse u env 23 data _ (ends_ascii ascii 23 ended) 0 []
    rw [items] at below
    refine below.eq ?_
    cases outcome with
    | running => exact absurd rfl returned
    | _ => nofun
  have wrapped (u : Unicode) : ((Parser.init []).pushKey (bytesOf "x")).processInteger u
      ⟨.itemInteger, bytesOf "9223372037g", 1⟩ = .ok ⟨.map [(bytesOf "x",
        .int (9223372037 * 1000 ^ 3 - 2 ^ 64))], [], [], []⟩ := by
    have cut : ((runes (bytesOf "9223372037g")).takeWhile u.isDigit).length = 10 := rfl
    have number : parseInt ((bytesOf "9223372037g").take 10) = .ok 9223372037 := by decide
    have suffix : u.loweredTrim ((bytesOf "9223372037g").drop 10) = [103] := rfl
    have product : applySuffix [103] 9223372037 = some (9223372037 * 1000 ^ 3 - 2 ^ 64) := by decide
    unfold Parser.processInteger
    dsimp only
    rw [cut, number, suffix]
    dsimp only
    rw [product]
    rfl
  refine ⟨fun u env => ?_, fun u env => ?_, fun u env => ?_⟩
  · exact @parsed _ (bytesOf "-5") (.error _) u env (by decide) (by decide) rfl (by nofun)
  · exact @parsed _ (bytesOf "9223372037g") (.ok _) u env (by decide) (by decide) (wrapped u)
      (by nofun)
  · exact @parsed _ (bytesOf "1kbb") (.ok _) u env (by decide) (by decide) rfl (by nofun)

end Hnatsd.Conf
