import Hnatsd.Conf.Proofs.Cursor
import Hnatsd.Conf.Proofs.Tables

/-!
# Reading keys

A key of ASCII letters and digits, up to the blank after it, at top level and in a map.
-/

namespace Hnatsd.Conf

open Hnatsd.Misc Lexer

def isAlnum (b : UInt8) : Bool := (48 ≤ b && b ≤ 57) || (65 ≤ b && b ≤ 90) || (97 ≤ b && b ≤ 122)

/-- The keys that need no quotes and are not taken for the keyword. -/
structure IsKey (key : Bytes) : Prop where
  nonempty : key ≠ []
  plain : ∀ b ∈ key, isAlnum b = true
  notInclude : (key.map fun b => lowerLetter b.toNat) ≠ "include".toList.map Char.toNat

variable {u : Unicode} {key before tok rest : Bytes} {stack : List StateFn} {b : UInt8}

theorem isAlnum_iff : isAlnum b = true ↔ (48 ≤ b.toNat ∧ b.toNat ≤ 57) ∨
    (65 ≤ b.toNat ∧ b.toNat ≤ 90) ∨ (97 ≤ b.toNat ∧ b.toNat ≤ 122) := by
  simp only [isAlnum, Bool.or_eq_true, Bool.and_eq_true, decide_eq_true_eq, UInt8.le_iff_toNat_le,
    or_assoc]
  rfl

theorem ascii_of_alnum (alnum : isAlnum b = true) : b < 0x80 := by
  rw [isAlnum_iff] at alnum
  rw [UInt8.lt_iff_toNat_lt]
  have : (0x80 : UInt8).toNat = 0x80 := rfl
  omega

/-- What a rune of a key is not. -/
structure KeyRune (u : Unicode) (r : Nat) : Prop where
  space : u.isSpace r = false
  separator : isKeySeparator r = false
  ne : ∀ c ∈ [eof, dqStringStart, commentHashStart, sqStringStart, commentSlashStart, mapEnd], r ≠ c

theorem keyRune_of_alnum (alnum : isAlnum b = true) : KeyRune u b.toNat := by
  rw [isAlnum_iff] at alnum
  refine ⟨?_, ?_, ?_⟩
  · have latin : b.toNat ≤ 0xFF := by omega
    simp only [Unicode.isSpace, if_pos latin, Bool.or_eq_false_iff, beq_eq_false_iff_ne]
    omega
  · simp only [isKeySeparator, keySepEqual, keySepColon, Bool.or_eq_false_iff, beq_eq_false_iff_ne]
    omega
  · simp only [List.forall_mem_cons, List.not_mem_nil, false_implies, implies_true, and_true, eof,
      dqStringStart, commentHashStart, sqStringStart, commentSlashStart, mapEnd]
    omega

theorem IsKey.ascii (isKey : IsKey key) : IsAscii key := fun b mem => ascii_of_alnum (isKey.plain b mem)

/-- The keyword is looked for when a blank ends the key. -/
theorem keyCheckKeyword_of_key {lx : Lexer} {fallThrough : StateFn} {push : Option StateFn}
    (isKey : IsKey key) (here : (Spot.mk before key rest stack).At lx) :
    keyCheckKeyword u lx fallThrough push =
      (lx.ignore.goto fallThrough).after ⟨.itemKey, key, lx.line⟩ := by
  have other : u.lowersTo key "include" = false := by
    rw [Unicode.lowersTo, lowered_ascii isKey.ascii, beq_eq_false_iff_ne]
    exact isKey.notInclude
  rw [keyCheckKeyword, here.ok.slice, here.token]
  dsimp only
  rw [other, here.emit]
  rfl

/-- The rest of a key is read and sent. -/
theorem reads_keyRest {self keyEnd : StateFn} {push : Option StateFn} {key' : Bytes}
    (isKey : IsKey (b :: key'))
    (inside : ∀ lx, KeyRune u lx.rune → self.call u lx = lx.skip.goto self)
    (blank : ∀ lx, lx.rune = 32 → self.call u lx = keyCheckKeyword u lx.seen keyEnd push) :
    Reads u self ⟨before, [b], key' ++ 32 :: rest, stack⟩ [(.itemKey, b :: key')] keyEnd
      ⟨before ++ b :: key', [], 32 :: rest, stack⟩ := by
  have chunk : Reads u self ⟨before, [b], key' ++ 32 :: rest, stack⟩ [] self
      ⟨before, b :: key', 32 :: rest, stack⟩ := by
    apply reads_over (by decide)
    rintro lx ⟨c, mem, read | ⟨wide, -⟩⟩
    · apply inside
      rw [read]
      exact keyRune_of_alnum (isKey.plain c (List.mem_cons_of_mem _ mem))
    · have small := isKey.ascii c (List.mem_cons_of_mem _ mem)
      exact absurd wide (UInt8.not_le.mpr small)
  have sent : Reads u self ⟨before, b :: key', 32 :: rest, stack⟩ [(.itemKey, b :: key')] keyEnd
      ⟨before ++ b :: key', [], 32 :: rest, stack⟩ := by
    apply Reads.emit (by decide)
    intro lx here
    refine ⟨lx.seen.ignore, lx.seen.line, ?_, here.seen.ignore⟩
    rw [blank lx (here.rune rfl (by decide)), keyCheckKeyword_of_key isKey here.seen]
  exact chunk.trans sent

/-- A key at top level. -/
theorem reads_key (isKey : IsKey key) :
    Reads u .lexTop ⟨before, [], key ++ 32 :: rest, stack⟩ [(.itemKey, key)] .lexKeyEnd
      ⟨before ++ key, [], 32 :: rest, .lexTopValueEnd :: stack⟩ := by
  obtain ⟨b, key', rfl⟩ := List.exists_cons_of_ne_nil isKey.nonempty
  have alnum := isKey.plain b List.mem_cons_self
  have small := ascii_of_alnum alnum
  have rune : KeyRune u b.toNat := keyRune_of_alnum alnum
  have top : Reads u .lexTop ⟨before, [], b :: (key' ++ 32 :: rest), stack⟩ [] .lexKeyStart
      ⟨before, [], b :: (key' ++ 32 :: rest), .lexTopValueEnd :: stack⟩ := by
    apply reads_push small
    intro lx read
    rw [← read] at rune
    rw [StateFn.call, lexTop, next_eq]
    dsimp only
    rw [if_neg (by rw [rune.space]; decide), if_neg (rune.ne _ (by decide)),
      if_neg (rune.ne _ (by decide)), if_neg (rune.ne _ (by decide)), backup_skip]
  have first : Reads u .lexKeyStart ⟨before, [], b :: (key' ++ 32 :: rest), .lexTopValueEnd :: stack⟩ []
      .lexKey ⟨before, [b], key' ++ 32 :: rest, .lexTopValueEnd :: stack⟩ := by
    apply reads_first small
    intro lx read
    rw [← read] at rune
    rw [StateFn.call, lexKeyStart, peek_eq]
    dsimp only
    rw [if_neg (by rw [rune.separator]; decide), if_neg (by rw [rune.space]; decide),
      if_neg (rune.ne _ (by decide)), if_neg (rune.ne _ (by decide))]
  have keyRest : Reads u .lexKey ⟨before, [b], key' ++ 32 :: rest, .lexTopValueEnd :: stack⟩
      [(.itemKey, b :: key')] .lexKeyEnd
      ⟨before ++ b :: key', [], 32 :: rest, .lexTopValueEnd :: stack⟩ := by
    apply reads_keyRest isKey
    · intro lx rune
      rw [StateFn.call, lexKey, peek_eq]
      dsimp only
      rw [if_neg (by rw [rune.space]; decide), if_neg, seen_skip]
      rw [rune.separator, beq_eq_false_iff_ne.mpr (rune.ne eof (by decide))]
      decide
    · intro lx read
      show lexKey u lx = keyCheckKeyword u lx.seen .lexKeyEnd none
      rw [lexKey, peek_eq, read]
      rfl
  exact (top.trans first).trans keyRest

end Hnatsd.Conf
