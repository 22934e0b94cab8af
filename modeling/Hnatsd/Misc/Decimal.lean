import Hnatsd.Misc.Bytes

/-!
# Decimal numerals

What `%d` prints for a number that is not negative.
-/

namespace Hnatsd.Misc
open List

/-- The digits of `n` before those found already, last digit first. -/
def decimalLoop : Nat → Nat → Bytes → Bytes
  | 0, _, digits => digits
  | fuel + 1, n, digits =>
      let digits := UInt8.ofNat (48 + n % 10) :: digits
      if n < 10 then digits else decimalLoop fuel (n / 10) digits

def decimal (n : Nat) : Bytes := decimalLoop (n + 1) n []

theorem decimalLoop_spec (fuel n : Nat) (enough : n < fuel) (digits : Bytes) :
    ∃ front, decimalLoop fuel n digits = front ++ digits ∧ front ≠ [] ∧
      (∀ d ∈ front, 48 ≤ d ∧ d ≤ 57) ∧
      front.foldl (fun value d => value * 10 + (d.toNat - 48)) 0 = n := by
  induction fuel generalizing n digits with
  | zero => omega
  | succ fuel ih =>
    have isDigit : ∀ m < 10, 48 ≤ UInt8.ofNat (48 + m) ∧ UInt8.ofNat (48 + m) ≤ 57 ∧
        (UInt8.ofNat (48 + m)).toNat - 48 = m := by decide
    have digit := isDigit (n % 10) (Nat.mod_lt _ (by decide))
    simp only [decimalLoop]
    split_ifs with single
    · refine ⟨[UInt8.ofNat (48 + n % 10)], rfl, by simp, ?_, ?_⟩
      · exact forall_mem_singleton.mpr ⟨digit.1, digit.2.1⟩
      · have : n % 10 = n := Nat.mod_eq_of_lt single
        simp only [foldl_cons, foldl_nil]
        omega
    · obtain ⟨front, eq, nonempty, digits', value⟩ :=
        ih (n / 10) (by omega) (UInt8.ofNat (48 + n % 10) :: digits)
      refine ⟨front ++ [UInt8.ofNat (48 + n % 10)], ?_, by simp, ?_, ?_⟩
      · rw [eq, append_assoc, singleton_append]
      · intro d mem
        rcases mem_append.mp mem with earlier | last
        · exact digits' d earlier
        · rw [mem_singleton] at last
          exact last ▸ ⟨digit.1, digit.2.1⟩
      · rw [foldl_append, value, foldl_cons, foldl_nil]
        omega

theorem decimal_spec (n : Nat) : decimal n ≠ [] ∧ (∀ d ∈ decimal n, 48 ≤ d ∧ d ≤ 57) ∧
    (decimal n).foldl (fun value d => value * 10 + (d.toNat - 48)) 0 = n := by
  obtain ⟨front, eq, nonempty, digits, value⟩ := decimalLoop_spec (n + 1) n (Nat.lt_succ_self n) []
  rw [append_nil] at eq
  rw [decimal, eq]
  exact ⟨nonempty, digits, value⟩

theorem decimal_injective {m n : Nat} (same : decimal m = decimal n) : m = n := by
  rw [← (decimal_spec m).2.2, ← (decimal_spec n).2.2, same]

/-- A numeral ends where the first byte is that is not a digit. -/
theorem decimal_append_inj {m n : Nat} {mark : UInt8} (notDigit : 57 < mark) {rest rest' : Bytes}
    (same : decimal m ++ mark :: rest = decimal n ++ mark :: rest') : m = n ∧ rest = rest' := by
  have cut (k : Nat) (tail : Bytes) :
      (decimal k ++ mark :: tail).takeWhile (fun d => d ≤ 57) = decimal k := by
    rw [takeWhile_append_of_pos, takeWhile_cons_of_neg, append_nil]
    · simpa using notDigit
    · intro d mem
      exact decide_eq_true ((decimal_spec k).2.1 d mem).2
  have front := congrArg (takeWhile fun d => decide (d ≤ 57)) same
  rw [cut, cut] at front
  have number := decimal_injective front
  subst number
  exact ⟨rfl, (cons.inj (append_cancel_left same)).2⟩

end Hnatsd.Misc
