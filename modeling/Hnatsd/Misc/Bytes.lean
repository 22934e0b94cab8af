import Mathlib

/-!
# Byte strings

Go strings and byte slices, where only the contents matter.
-/

namespace Hnatsd.Misc

abbrev Bytes := List UInt8

instance : LawfulBEq Bytes := List.instLawfulBEq

/-- The bytes of an ASCII string. -/
def bytesOf (s : String) : Bytes := s.toList.map (fun c => c.toNat.toUInt8)

/-- `bytes.Equal`, which takes a nil slice for an empty one. -/
def bytesEqual (a b : Option Bytes) : Bool := a.getD [] = b.getD []

/-- The key of the order of strings. -/
def bytesRank (b : Bytes) : List Nat := b.map UInt8.toNat

theorem bytesRank_inj {i j : Bytes} : bytesRank i = bytesRank j ↔ i = j :=
  (List.map_injective_iff.mpr fun _ _ => UInt8.toNat_inj.mp).eq_iff

theorem bytesRank_lt_iff {i j : Bytes} : bytesRank i < bytesRank j ↔ i < j := by
  unfold bytesRank
  induction i generalizing j with
  | nil => cases j <;> simp
  | cons a i ih =>
    cases j with
    | nil => simp
    | cons b j => simp [List.cons_lt_cons_iff, ih, UInt8.lt_iff_toNat_lt, UInt8.toNat_inj]

end Hnatsd.Misc
