import MitoSync.RangedRead
/-!
# Numerals — `std::to_string`, and what reads it back

A numeral is one or more digits, no more than its number needs, and `decimal` reads the number back
(`decimal_numeral`).  So a numeral can be told from what stands around it by any character that is no digit.
-/
namespace Mito

/-- `std::to_string` of an unsigned number. -/
def numeral (n : Nat) : Str := Nat.toDigits 10 n

/-- `std::to_string` of a signed number. -/
def signedNumeral (n : Int) : Str := if n < 0 then '-' :: numeral n.natAbs else numeral n.natAbs

variable {n m : Nat}

theorem numeral_ne_nil (n : Nat) : numeral n ≠ [] := Nat.toDigits_ne_nil

theorem isDigit_of_mem_numeral {c : Char} (h : c ∈ numeral n) : c.isDigit = true :=
  Nat.isDigit_of_mem_toDigits (by decide) (by decide) h

theorem all_isDigit_numeral (n : Nat) : (numeral n).all Char.isDigit = true :=
  List.all_eq_true.2 fun _ h => isDigit_of_mem_numeral h

theorem dash_not_mem_numeral (n : Nat) : '-' ∉ numeral n :=
  fun h => absurd (isDigit_of_mem_numeral h) (by decide)

theorem length_numeral_le {k : Nat} (hk : 0 < k) (h : n < 10 ^ k) : (numeral n).length ≤ k :=
  (Nat.length_toDigits_le_iff (by decide) hk).2 h

/-- **A numeral is read back.** -/
theorem decimal_numeral (n : Nat) : decimal (numeral n) = n := Nat.ofDigitChars_ten_toDigits

theorem numeral_injective (h : numeral n = numeral m) : n = m := by
  have hread := congrArg decimal h
  rwa [decimal_numeral, decimal_numeral] at hread

end Mito
