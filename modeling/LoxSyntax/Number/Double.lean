import LoxSyntax.Number.Decimal
set_option autoImplicit false

/-! # Double-precision numbers

The numbers of the language are binary floating-point numbers of 64 bits. The finite ones of one
sign are numbered by their size, from zero on: the `rank` of a number says how many are smaller.
The numbers with rank below `2 ^ 52` are the multiples of `2 ^ -1074` below `2 ^ -1022`; from there
on each block of `2 ^ 52` ranks covers the next power of two in equal steps. All arithmetic is
exact: a magnitude is a whole number of *units* of `2 ^ -1074`, and rounding is the rounding of one
quotient. -/

namespace LoxSyntax

-- Powers are written as `Nat.pow`, which means the same whatever else is imported.
/-- A double-precision number. -/
inductive Double
  | nan
  | infinite (negative : Bool)
  | finite (negative : Bool) (rank : Fin (2047 * Nat.pow 2 52))
  deriving DecidableEq

/-- The quotient rounded to the nearest whole number, a half to the even one. -/
def roundQuotient (num den : Nat) : Nat :=
  let quotient := num / den
  let rest := num % den
  if den < 2 * rest || (2 * rest = den && quotient % 2 = 1) then quotient + 1 else quotient

namespace Double

/-- How many units of `2 ^ -1074` the finite number of the given rank has. -/
def units (rank : Nat) : Nat :=
  if rank < Nat.pow 2 52 then rank
  else (Nat.pow 2 52 + rank % Nat.pow 2 52) * Nat.pow 2 (rank / Nat.pow 2 52 - 1)

/-- The rank of the number that is nearest to `num / den`, of two equally near ones the even one.
    A magnitude beyond the finite numbers gets a rank that none of them has. -/
def nearestRank (num den : Nat) : Nat :=
  let scaled := num * Nat.pow 2 1074
  let dropped := (scaled / den).log2 - 52
  dropped * Nat.pow 2 52 + roundQuotient scaled (den * Nat.pow 2 dropped)

/-- The number with the given sign and rank; infinite when the rank is beyond the finite numbers. -/
def ofRank (negative : Bool) (rank : Nat) : Double :=
  if h : rank < 2047 * Nat.pow 2 52 then .finite negative ⟨rank, h⟩ else .infinite negative

/-- The number zero. -/
def zero : Double := ofRank false 0

/-- The number one. -/
def one : Double := ofRank false (nearestRank 1 1)

/-- The number with the opposite sign. -/
def neg : Double → Double
  | .nan => .nan
  | .infinite negative => .infinite !negative
  | .finite negative rank => .finite (!negative) rank

/-- The double nearest to a decimal. -/
def ofDecimal (d : Decimal) : Double :=
  if 0 ≤ d.exponent then
    ofRank false (nearestRank (d.coefficient * Nat.pow 10 d.exponent.toNat) 1)
  else ofRank false (nearestRank d.coefficient (Nat.pow 10 (-d.exponent).toNat))

/-- The number itself, unless it is infinite. -/
def bounded? : Double → Option Double
  | .infinite _ => none
  | d => some d

/-- The double nearest to a whole number; `none` when its magnitude is beyond the finite doubles. -/
def ofInt? (n : Int) : Option Double :=
  (ofRank (decide (n < 0)) (nearestRank n.natAbs 1)).bounded?

/-- The whole number that the double is, when it is one. -/
def toInt? : Double → Option Int
  | .finite negative rank =>
    let magnitude : Nat := units rank / Nat.pow 2 1074
    if units rank % Nat.pow 2 1074 = 0 then some (if negative then -(magnitude : Int) else magnitude)
    else none
  | _ => none

end Double

end LoxSyntax
