import GoldenRom.Numeral
import Mathlib.Algebra.Group.Nat.Defs

/-!
# Lengths, digits and values of numerals

What the instructions that store decimal digits rely on: every digit lies below the base, and a
number below a power of the base fills exactly the padded length.  What whoever reads a numeral
relies on: the digits of a number have that number for their value, so no two numbers are
written alike.
-/

namespace GoldenRom.Numeral

/-- A digit is a remainder, so it lies below the base. -/
theorem digit_lt_of_mem_lastFirst {base fuel n digit : Nat} (hbase : 0 < base)
    (hmem : digit ∈ lastFirst base fuel n) : digit < base := by
  induction fuel generalizing n with
  | zero => cases hmem
  | succ fuel ih =>
      rw [lastFirst] at hmem
      split at hmem
      · cases hmem
      · rcases List.mem_cons.1 hmem with rfl | hrest
        · exact Nat.mod_lt n hbase
        · exact ih hrest

/-- Padding adds only zeros, so the bound on the digits survives it. -/
theorem digit_lt_of_mem_digits {base minimum n digit : Nat} (hbase : 0 < base)
    (hmem : digit ∈ digits base minimum n) : digit < base := by
  rw [digits_eq, List.leftpad, List.mem_append] at hmem
  rcases hmem with hpad | hown
  · rw [List.eq_of_mem_replicate hpad]
    exact hbase
  · exact digit_lt_of_mem_lastFirst hbase (List.mem_reverse.1 hown)

/-- A number below the power `k` of the base has at most `k` digits of its own. -/
theorem length_lastFirst_le {base k fuel n : Nat} (hn : n < base ^ k) :
    (lastFirst base fuel n).length ≤ k := by
  induction k generalizing fuel n with
  | zero =>
      obtain rfl : n = 0 := by simpa using hn
      rw [lastFirst_zero]
      exact Nat.le_refl 0
  | succ k ih =>
      cases fuel with
      | zero => exact Nat.zero_le _
      | succ fuel =>
          rw [lastFirst]
          split
          · exact Nat.zero_le _
          · have hquot : n / base < base ^ k := by
              rw [Nat.pow_succ, Nat.mul_comm] at hn
              exact Nat.div_lt_of_lt_mul hn
            rw [List.length_cons]
            exact Nat.succ_le_succ (ih hquot)

/-- A number below the power `minimum` of the base is written with exactly `minimum` digits. -/
theorem length_digits_of_lt {base minimum n : Nat} (hn : n < base ^ minimum) :
    (digits base minimum n).length = minimum := by
  have hown : (lastFirst base n n).length ≤ minimum := length_lastFirst_le hn
  rw [digits_eq, List.length_leftpad, List.length_reverse]
  exact Nat.max_eq_left hown

/-! ## Values -/

/-- One more digit at the end. -/
theorem value_concat (base : Nat) (ds : List Nat) (digit : Nat) :
    value base (ds ++ [digit]) = value base ds * base + digit := by
  rw [value, List.foldl_append]
  rfl

/-- Zeros in front do not count. -/
theorem value_replicate_append (base count : Nat) (ds : List Nat) :
    value base (List.replicate count 0 ++ ds) = value base ds := by
  induction count with
  | zero => rfl
  | succ count ih =>
      rw [List.replicate_succ, List.cons_append, ← ih]
      simp only [value, List.foldl_cons, Nat.zero_mul, Nat.zero_add]

theorem value_leftpad (base minimum : Nat) (ds : List Nat) :
    value base (ds.leftpad minimum 0) = value base ds :=
  value_replicate_append base _ ds

/-- Enough fuel writes all of a number. -/
theorem value_reverse_lastFirst {base fuel n : Nat} (hbase : 2 ≤ base) (hfuel : n ≤ fuel) :
    value base (lastFirst base fuel n).reverse = n := by
  induction fuel generalizing n with
  | zero =>
      obtain rfl := Nat.le_zero.1 hfuel
      rfl
  | succ fuel ih =>
      rw [lastFirst]
      split
      · rename_i hzero
        exact hzero.symm
      · rename_i hpos
        have hquot : n / base < n := Nat.div_lt_self (Nat.pos_of_ne_zero hpos) hbase
        rw [List.reverse_cons, value_concat, ih (by omega), Nat.mul_comm]
        exact Nat.div_add_mod n base

/-- **The digits of a number have that number for their value.** -/
theorem value_digits {base : Nat} (hbase : 2 ≤ base) (minimum n : Nat) :
    value base (digits base minimum n) = n := by
  rw [digits_eq, value_leftpad]
  exact value_reverse_lastFirst hbase (Nat.le_refl n)

end GoldenRom.Numeral
