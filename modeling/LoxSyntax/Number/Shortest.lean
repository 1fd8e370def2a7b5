import LoxSyntax.Number.Double
set_option autoImplicit false

/-! # The shortest decimal of a double

A double is written with the fewest digits that read back as it. Among decimals with `n` digits
only the two neighbours of the value can do so; the nearer one is preferred, and of two equally near
ones the even one. -/

namespace LoxSyntax.Double

/-- How many digits the value of the given rank has before the decimal point; for a value below one
    the negated number of zeros that follow the point. Every positive double exceeds `10 ^ -324`. -/
def leadingPlace (rank : Nat) : Int :=
  (Nat.toDigits 10 (units rank * Nat.pow 10 324 / Nat.pow 2 1074)).length - 324

/-- The two decimals with `n` digits around the value, the preferred one first. -/
def neighbours (rank n : Nat) : List Decimal :=
  let exponent := leadingPlace rank - n
  let num := if 0 ≤ exponent then units rank else units rank * Nat.pow 10 (-exponent).toNat
  let den := if 0 ≤ exponent then Nat.pow 2 1074 * Nat.pow 10 exponent.toNat else Nat.pow 2 1074
  let below := num / den
  let rest := num % den
  if 2 * rest < den || (2 * rest = den && below % 2 = 0) then
    [⟨below, exponent⟩, ⟨below + 1, exponent⟩]
  else
    [⟨below + 1, exponent⟩, ⟨below, exponent⟩]

/-- Does the decimal read back as the double of the given rank? -/
def readsBack (rank : Nat) (d : Decimal) : Bool :=
  ofDecimal d = ofRank false rank

/-- All digits of the value, which is a multiple of `2 ^ -1074 = 5 ^ 1074 * 10 ^ -1074`. -/
def exactDecimal (rank : Nat) : Decimal :=
  ⟨units rank * Nat.pow 5 1074, -1074⟩

/-- The decimal with the fewest digits that reads back. Seventeen digits are enough for every
    double; should they not be, the exact value would be taken. -/
def shortestDecimal (rank : Nat) : Decimal :=
  ((List.range' 1 17).findSome? fun n => (neighbours rank n).find? (readsBack rank)).getD
    (exactDecimal rank)

/-- A positive decimal in positional form: digits before and after the point, at least one of
    each. -/
def positional (digits : List Char) (point : Int) : List Char :=
  if point ≤ 0 then '0' :: '.' :: List.replicate (-point).toNat '0' ++ digits
  else if digits.length ≤ point then
    digits ++ List.replicate (point.toNat - digits.length) '0' ++ ['.', '0']
  else digits.take point.toNat ++ '.' :: digits.drop point.toNat

/-- A positive decimal in exponent form: one digit before the point, no point without digits after
    it, the sign of the exponent always and at least two digits of it. -/
def scientific (digits : List Char) (point : Int) : List Char :=
  let exponent := point - 1
  let mantissa :=
    match digits with
    | first :: second :: more => first :: '.' :: second :: more
    | _ => digits
  let places := Nat.toDigits 10 exponent.natAbs
  mantissa ++ 'e' :: (if exponent < 0 then '-' else '+') ::
    (List.replicate (2 - places.length) '0' ++ places)

/-- The text of a finite magnitude: positional from a ten-thousandth up to below `10 ^ 16`. -/
def magnitudeText (rank : Nat) : List Char :=
  let d := if rank = 0 then ⟨0, 0⟩ else shortestDecimal rank
  let digits := d.significantDigits
  let point := d.pointPosition
  if -4 < point && point ≤ 16 then positional digits point else scientific digits point

/-- The text of a double that reads back as it. -/
def shortest : Double → String
  | .nan => "nan"
  | .infinite negative => if negative then "-inf" else "inf"
  | .finite negative rank =>
    String.ofList (if negative then '-' :: magnitudeText rank else magnitudeText rank)

/-- The text of a double as the language shows it: all digits of a whole number and no point, the
    shortest text of any other. -/
def display (d : Double) : String :=
  match d.toInt? with
  | some n => toString n
  | none => d.shortest

end LoxSyntax.Double
