import Hnatsd.Server.Proofs.ParserReadBack

/-!
# How size fields are read

`parseSize` and `parseInt64` read every numeral below `2 ^ 63` as its value. From there on the loop
wraps, and the callers only refuse what comes out negative: a header that states more is accepted
with a smaller size whenever the residue is a size.
-/

namespace Hnatsd.Server
open Misc List

/-- At least one byte, all of them decimal digits. -/
def IsNumeral (d : Bytes) : Prop := d ≠ [] ∧ ∀ b ∈ d, 48 ≤ b ∧ b ≤ 57

instance (d : Bytes) : Decidable (IsNumeral d) :=
  @instDecidableAnd _ _ _ (decidableBAll _ _)

/-- The value that a field states if an `int64` has it, -1 for every other field. -/
def exactSize (d : Bytes) : Int :=
  if IsNumeral d ∧ decimalValue d < 2 ^ 63 then decimalValue d else -1

/-- A numeral that no `int64` has and whose residue is not -1 by accident. -/
def Wraps (d : Bytes) : Prop :=
  IsNumeral d ∧ 2 ^ 63 ≤ decimalValue d ∧ wrap64 (decimalValue d) ≠ -1

/-- The field of a header is a numeral, and the size is its value exactly if an `int64` has it;
otherwise it is smaller. -/
def SizeStated (pa : PubValues) : Prop :=
  IsNumeral pa.szb ∧ 0 ≤ pa.size ∧ pa.size ≤ decimalValue pa.szb ∧
    (pa.size = decimalValue pa.szb ↔ decimalValue pa.szb < 2 ^ 63)

theorem parseDigits_of_not_digits {d : Bytes} (other : ¬∀ b ∈ d, 48 ≤ b ∧ b ≤ 57) (n : Int) :
    parseDigits d n = -1 := by
  induction d generalizing n with
  | nil => exact absurd (forall_mem_nil _) other
  | cons b d ih =>
    rw [parseDigits]
    split_ifs with bad
    · rfl
    · rw [not_or, UInt8.not_lt, UInt8.not_lt] at bad
      exact ih (fun digits => other (forall_mem_cons.mpr ⟨bad, digits⟩)) _

theorem parseSize_eq (d : Bytes) :
    parseSize d = if IsNumeral d then wrap64 (decimalValue d) else -1 := by
  rw [parseSize]
  split_ifs with empty numeral numeral
  · exact absurd empty numeral.1
  · rfl
  · have zero : (0 : Int) = wrap64 (0 : Nat) := by decide
    rw [zero, parseDigits_wraps numeral.2]
    rfl
  · exact parseDigits_of_not_digits (fun digits => numeral ⟨empty, digits⟩) 0

theorem parseSize_exact_iff (d : Bytes) : parseSize d = exactSize d ↔ ¬Wraps d := by
  have fits := @wrap64_of_bounds (decimalValue d)
  rw [parseSize_eq, exactSize, Wraps]
  by_cases numeral : IsNumeral d
  · simp only [numeral, if_true, true_and]
    split_ifs <;> omega
  · simp [numeral]

theorem sizeStated_of_parsed {pa : PubValues} (parsed : pa.size = parseSize pa.szb ∧ 0 ≤ pa.size) :
    SizeStated pa := by
  obtain ⟨eq, nonneg⟩ := parsed
  rw [parseSize_eq] at eq
  split_ifs at eq with numeral
  · have bounds := wrap64_bounds (decimalValue pa.szb)
    have fits := @wrap64_of_bounds (decimalValue pa.szb)
    exact ⟨numeral, nonneg, by omega, by omega⟩
  · omega

/-- Exactly the numerals that wrap are misread, and the headers of PUB and MSG with such a size
field are the accepted ones whose size is not what they state. -/
theorem size_fields_exact_iff (d : Bytes) (cfg : ParserConfig) (mem : Heap UInt8) (pa : PubArg)
    (arg : Slice) (valid : mem.Valid arg) :
    (parseSize d = exactSize d ↔ ¬Wraps d) ∧ (parseInt64 d = exactSize d ↔ ¬Wraps d) ∧
      (∀ pa', processPub cfg mem pa arg = .ok pa' → SizeStated (pa'.values mem)) ∧
      ∀ pa', processMsgArgs mem arg = .ok pa' → SizeStated (pa'.values mem) := by
  refine ⟨parseSize_exact_iff d, parseSize_exact_iff d, fun pa' ok => ?_, fun pa' ok => ?_⟩
  · have read := processPub_values cfg pa valid
    rw [ok] at read
    exact sizeStated_of_parsed (pubHeader_parsed read.symm)
  · have read := processMsgArgs_values valid
    rw [ok] at read
    exact sizeStated_of_parsed (msgHeader_parsed read.symm)

set_option maxRecDepth 4000

/-- All of a memory of one array. -/
def wholeOf (text : Bytes) : Slice := ⟨0, 0, text.length, text.length, Nat.le_refl _⟩

/-- What `processPub` reads in a header that a new client sends. -/
def pubSize (header : String) : Option Int :=
  ((processPub ⟨.client, 1024, 1024, Grow.double⟩ ⟨[bytesOf header]⟩ ParseState.initial.pa
    (wholeOf (bytesOf header))).toOption).map (·.size)

/-- The header `a 5` has the size that it states. -/
theorem size_fields_exact_iff_five :
    parseSize (bytesOf "5") = exactSize (bytesOf "5") ∧
      ∃ pa, processMsgArgs ⟨[bytesOf "a 1 5"]⟩ (wholeOf (bytesOf "a 1 5")) = .ok pa ∧ pa.size = 5 ∧
        SizeStated (pa.values ⟨[bytesOf "a 1 5"]⟩) := by
  have all := size_fields_exact_iff (bytesOf "5") ⟨.client, 0, 0, Grow.double⟩ ⟨[bytesOf "a 1 5"]⟩
    ParseState.initial.pa (wholeOf (bytesOf "a 1 5")) ⟨by decide, by decide⟩
  exact ⟨by decide, _, rfl, rfl, all.2.2.2 _ rfl⟩

/-- `2 ^ 64 + 1` is read as 1, and a PUB that states it is accepted with that size. -/
theorem oversized_field_wraps :
    exactSize (bytesOf "18446744073709551617") = -1 ∧
      parseSize (bytesOf "18446744073709551617") = 1 ∧
      parseInt64 (bytesOf "18446744073709551617") = 1 ∧
      pubSize "a 18446744073709551617" = some 1 := by
  decide

end Hnatsd.Server
