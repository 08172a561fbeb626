import GoldenRom.Proofs.Effects
import Mathlib.Data.Nat.Digits.Lemmas

/-!
# Padded expansions

The digits that a machine stores and prints are the expansion of a number in a base, written
from the most significant digit on, with zeros in front where it is shorter than a least length.
The expansion of a number is unique, so a list of digits is recognized by its value and its
length.  Whoever stores digits may rely on the length alone: a register has three of them, and
the span that is checked for them has as many addresses.

## Main results

* `Numeral.digits_eq_leftpad`: extracting the digits one by one yields the expansion, for every
  number.
* `Numeral.eq_of_value_eq`: lists of digits of one length and one value are equal.
* `Numeral.digits_eq_iff_expansion`: what makes a list of digits the padded expansion of a
  number.
-/

namespace GoldenRom

namespace Numeral

variable {base : Nat}

/-! ## Extracting digits -/

/-- Fuel that is no less than the number does not run out: every round that takes a digit leaves
a smaller number. -/
theorem lastFirst_eq_digits {fuel n : Nat} (hbase : 1 < base) (hfuel : n ≤ fuel) :
    lastFirst base fuel n = Nat.digits base n := by
  induction fuel generalizing n with
  | zero =>
      obtain rfl := Nat.le_zero.1 hfuel
      rw [Nat.digits_zero, lastFirst]
  | succ fuel ih =>
      rw [lastFirst]
      split
      · rename_i hzero
        rw [hzero, Nat.digits_zero]
      · rename_i hpos
        have hquot : n / base < n := Nat.div_lt_self (Nat.pos_of_ne_zero hpos) hbase
        rw [ih (by omega), Nat.digits_def' hbase (Nat.pos_of_ne_zero hpos)]

theorem digits_eq_leftpad (hbase : 1 < base) (minimum n : Nat) :
    digits base minimum n = (Nat.digits base n).reverse.leftpad minimum 0 := by
  rw [digits_eq, lastFirst_eq_digits hbase (Nat.le_refl n)]

theorem length_digits (hbase : 1 < base) (minimum n : Nat) :
    (digits base minimum n).length = max minimum (Nat.digits base n).length := by
  rw [digits_eq_leftpad hbase, List.length_leftpad, List.length_reverse]

/-- A numeral that is longer than it has to be has no zero in front. -/
theorem head?_digits_ne_zero (hbase : 1 < base) {minimum n : Nat}
    (hlong : minimum < (digits base minimum n).length) :
    (digits base minimum n).head? ≠ some 0 := by
  rw [length_digits hbase] at hlong
  have hown : minimum < (Nat.digits base n).length := by omega
  have hpos : n ≠ 0 := by
    rintro rfl
    rw [Nat.digits_zero] at hown
    exact Nat.not_lt_zero minimum hown
  have hnopad : minimum - (Nat.digits base n).length = 0 := by omega
  rw [digits_eq_leftpad hbase, List.leftpad, List.length_reverse, hnopad, List.replicate_zero,
    List.nil_append, List.head?_reverse,
    List.getLast?_eq_some_getLast (Nat.digits_ne_nil_iff_ne_zero.2 hpos), Ne, Option.some.injEq]
  exact Nat.getLast_digit_ne_zero base hpos

/-! ## Lists of digits and their values -/

/-- Read from its end, a list of digits has the value that the library gives it. -/
theorem value_eq_ofDigits (base : Nat) (ds : List Nat) :
    value base ds = Nat.ofDigits base ds.reverse := by
  induction ds using List.reverseRecOn with
  | nil => rfl
  | append_singleton front digit ih =>
      rw [value_concat, ih, List.reverse_concat, Nat.ofDigits_cons, Nat.mul_comm, Nat.add_comm]

/-- Lists of digits of one length and one value are equal. -/
theorem eq_of_value_eq (hbase : 1 < base) {ds es : List Nat} (hlength : ds.length = es.length)
    (hds : ∀ digit ∈ ds, digit < base) (hes : ∀ digit ∈ es, digit < base)
    (hvalue : value base ds = value base es) : ds = es := by
  rw [value_eq_ofDigits, value_eq_ofDigits] at hvalue
  have hlength' : ds.reverse.length = es.reverse.length := by
    rw [List.length_reverse, List.length_reverse, hlength]
  refine List.reverse_injective (Nat.ofDigits_inj_of_len_eq hbase hlength' ?_ ?_ hvalue)
  · exact fun digit hmem => hds digit (List.mem_reverse.1 hmem)
  · exact fun digit hmem => hes digit (List.mem_reverse.1 hmem)

/-- **The padded expansion of a number.**  A list is the numeral of a number if and only if it
consists of digits, has the number for its value and is as long as the expansion or the least
length, whichever is more.  That no zero is in front of a list that is longer than it has to be
follows. -/
theorem digits_eq_iff_expansion (hbase : 1 < base) {minimum n : Nat} {ds : List Nat} :
    digits base minimum n = ds ↔
      (∀ digit ∈ ds, digit < base) ∧ value base ds = n ∧
        ds.length = max minimum (Nat.digits base n).length ∧
        (minimum < ds.length → ds.head? ≠ some 0) := by
  have hdigits : ∀ digit ∈ digits base minimum n, digit < base :=
    fun digit => digit_lt_of_mem_digits (Nat.lt_trans Nat.zero_lt_one hbase)
  constructor
  · rintro rfl
    exact ⟨hdigits, value_digits hbase minimum n, length_digits hbase minimum n,
      head?_digits_ne_zero hbase⟩
  · rintro ⟨hds, hvalue, hlength, -⟩
    refine eq_of_value_eq hbase ((length_digits hbase minimum n).trans hlength.symm)
      hdigits hds ?_
    rw [value_digits hbase, hvalue]

end Numeral

namespace State

/-! ## Digits of registers -/

/-- **Decimal numerals.**  The digits of a number are taken off one by one until nothing is left
of it, which takes no more rounds than the number is large.  What comes out is the one list of
digits up to nine that has the number for its value, fills the least length, is no longer than
the number needs beyond that, and then does not begin with a zero.  A register has three digits,
so where they may be stored there is an address for each of them. -/
theorem decimal_digits_padded :
    (∀ n fuel, n ≤ fuel → Numeral.lastFirst 10 fuel n = Numeral.lastFirst 10 n n) ∧
      (∀ minimum n ds, Numeral.digits 10 minimum n = ds ↔
        (∀ digit ∈ ds, digit ≤ 9) ∧ Numeral.value 10 ds = n ∧
          ds.length = max minimum (Nat.digits 10 n).length ∧
          (minimum < ds.length → ds.head? ≠ some 0)) ∧
      ∀ (s : State) (x : Register),
        (Numeral.digits 10 3 (s.register x).toNat).length = 3 ∧
          ∀ span after,
            checkSpan (Numeral.digits 10 3 (s.register x).toNat).length s = .ok span after →
            span = List.range' s.index.toNat 3 ∧
              span.length = (Numeral.digits 10 3 (s.register x).toNat).length := by
  refine ⟨fun n fuel hfuel => ?_, fun minimum n ds => ?_, fun s x => ?_⟩
  · rw [Numeral.lastFirst_eq_digits (by decide) hfuel,
      Numeral.lastFirst_eq_digits (by decide) (Nat.le_refl n)]
  · rw [Numeral.digits_eq_iff_expansion (by decide)]
    simp only [Nat.lt_succ_iff]
  · have hlength := Instruction.length_digits_toNat (s.register x)
    refine ⟨hlength, fun span after hspan => ?_⟩
    rw [hlength, checkSpan_eq] at hspan
    split at hspan
    · obtain ⟨rfl, -⟩ := EStateM.Result.ok.inj hspan
      rw [hlength, List.length_range']
      exact ⟨rfl, rfl⟩
    · cases hspan

/-- A state whose register V1 holds 7 and whose index points to the last three bytes in front of
the call stack. -/
def sevenAtEdge : State :=
  { initial.setRegister (Register.ofNat 1) 7 with index := 0xE9D }

theorem decimal_digits_padded_at_edge :
    Numeral.lastFirst 10 5000 4096 = Numeral.lastFirst 10 4096 4096 ∧
      Numeral.digits 10 3 4096 = [4, 0, 9, 6] ∧
      checkSpan (Numeral.digits 10 3 (sevenAtEdge.register (Register.ofNat 1)).toNat).length
          sevenAtEdge =
        .ok [0xE9D, 0xE9E, 0xE9F] sevenAtEdge ∧
      [0xE9D, 0xE9E, 0xE9F].length =
        (Numeral.digits 10 3 (sevenAtEdge.register (Register.ofNat 1)).toNat).length := by
  obtain ⟨hfuel, hdigits, hspan⟩ := decimal_digits_padded
  obtain ⟨hlength, hfills⟩ := hspan sevenAtEdge (Register.ofNat 1)
  have hcheck :
      checkSpan (Numeral.digits 10 3 (sevenAtEdge.register (Register.ofNat 1)).toNat).length
          sevenAtEdge =
        .ok [0xE9D, 0xE9E, 0xE9F] sevenAtEdge := by
    rw [hlength]
    rfl
  refine ⟨hfuel 4096 5000 (by decide), (hdigits 3 4096 [4, 0, 9, 6]).2 ⟨by decide, rfl, ?_, ?_⟩,
    hcheck, (hfills _ _ hcheck).2⟩
  · norm_num
  · exact fun _ => by decide

end State

end GoldenRom
