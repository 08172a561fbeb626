/-!
# Positional numerals

Every number that the bench prints is written with `Numeral.digits`: the digits of a number in a
base, the most significant first, padded with zeros to a least length.  The decimal digits that
an instruction stores in memory are the same digits, so one function serves the store and the
texts.

## Main definitions

* `Numeral.digits base minimum n`: the digits of `n`, none for zero apart from the padding.
* `Numeral.value base ds`: the number that a list of digits stands for.
* `Numeral.decimal`, `Numeral.hex`, `Numeral.hexUpper`: the written forms.
* `Numeral.address`: `0x` and at least four uppercase digits, the form of an address in a
  message.
-/

namespace GoldenRom.Numeral

/-- The digits of `n`, the least significant first and none for zero, as long as the fuel lasts.
A number is never smaller than its count of digits, so the number itself is fuel enough. -/
def lastFirst (base : Nat) : Nat → Nat → List Nat
  | 0, _ => []
  | fuel + 1, n => if n = 0 then [] else n % base :: lastFirst base fuel (n / base)

/-- The digits of `n` in the given base, the most significant first, padded with zeros to at
least `minimum` digits.  The zeros are put behind the digits, and then all of them are turned
round.  A list may have any length, so `minimum` may be any number. -/
def digits (base minimum n : Nat) : List Nat :=
  ((lastFirst base n n).rightpad minimum 0).reverse

/-- The number that a list of digits stands for, the most significant digit first. -/
def value (base : Nat) (ds : List Nat) : Nat :=
  ds.foldl (fun total digit => total * base + digit) 0

/-- The uppercase character of a digit below sixteen. -/
def upperDigit (digit : Nat) : Char :=
  (Nat.digitChar digit).toUpper

/-- A number in decimal, `0` for zero. -/
def decimal (n : Nat) : String :=
  String.ofList ((digits 10 1 n).map Nat.digitChar)

/-- A number in lowercase hexadecimal with at least `minimum` digits. -/
def hex (minimum n : Nat) : String :=
  String.ofList ((digits 16 minimum n).map Nat.digitChar)

/-- A number in uppercase hexadecimal with at least `minimum` digits. -/
def hexUpper (minimum n : Nat) : String :=
  String.ofList ((digits 16 minimum n).map upperDigit)

/-- The form of an address or an instruction word in a message: `0x` and at least four uppercase
digits. -/
def address (n : Nat) : String :=
  "0x" ++ hexUpper 4 n

/-- A text moved to the right end of a field of the given width; a longer text is kept whole. -/
def alignRight (width : Nat) (text : String) : String :=
  String.ofList (text.toList.leftpad width ' ')

@[simp] theorem lastFirst_zero (base fuel : Nat) : lastFirst base fuel 0 = [] := by
  cases fuel <;> simp [lastFirst]

/-- Padding behind before the digits are turned round is padding in front afterwards. -/
theorem digits_eq (base minimum n : Nat) :
    digits base minimum n = (lastFirst base n n).reverse.leftpad minimum 0 := by
  rw [digits, List.rightpad, List.leftpad, List.reverse_append, List.reverse_replicate,
    List.length_reverse]

/-- Zero has no digits of its own, so all of its numeral is padding. -/
@[simp] theorem digits_zero (base minimum : Nat) :
    digits base minimum 0 = List.replicate minimum 0 := by
  simp [digits_eq, List.leftpad]

@[simp] theorem value_nil (base : Nat) : value base [] = 0 := rfl

end GoldenRom.Numeral
