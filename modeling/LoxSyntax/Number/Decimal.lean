set_option autoImplicit false

/-! # Decimal numbers

A decimal is a whole number times a power of ten. It is what a numeral spells, before it is rounded
to a double, and what is looked for when a double is to be written. -/

namespace LoxSyntax

/-- The value of a digit from `0` to `9`. -/
def digitValue (c : Char) : Nat := c.toNat - '0'.toNat

/-- The number that a run of digits from `0` to `9` spells. -/
def digitsValue (digits : List Char) : Nat :=
  digits.foldl (fun value c => 10 * value + digitValue c) 0

/-- The number `coefficient * 10 ^ exponent`. -/
structure Decimal where
  coefficient : Nat
  exponent : Int := 0
  deriving DecidableEq, Repr

namespace Decimal

/-- The number with the given digits before and after the decimal point, times a power of ten.
    Exponents beyond four hundred more than there are digits all make it larger, or smaller, than
    any double, and are cut down to that. -/
def ofDigits (whole fraction : List Char) (exponent : Int) : Decimal :=
  let digits := whole ++ fraction
  let limit : Int := 400 + digits.length
  ⟨digitsValue digits, max (-limit) (min limit exponent) - fraction.length⟩

/-- The digits of the coefficient without the zeros at its end; a single zero for the number zero. -/
def significantDigits (d : Decimal) : List Char :=
  match ((Nat.toDigits 10 d.coefficient).reverse.dropWhile (· = '0')).reverse with
  | [] => ['0']
  | digits => digits

/-- Where the decimal point is, counted from the left of the coefficient's digits. -/
def pointPosition (d : Decimal) : Int :=
  (Nat.toDigits 10 d.coefficient).length + d.exponent

end Decimal

end LoxSyntax
