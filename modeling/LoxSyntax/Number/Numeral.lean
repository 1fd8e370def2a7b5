import LoxSyntax.Number.Double
import LoxSyntax.Text.CharClass
set_option autoImplicit false

/-! # Reading numerals

A numeral is a sign, digits with at most one decimal point among or around them, and an exponent,
of which only the digits are required; or one of the words for infinity and for no number. Digits
of every script count, single underscores may stand between digits, and blanks around the numeral
are skipped. -/

namespace LoxSyntax.Numeral

/-- The blanks around a numeral: those of the ASCII range less the information separators, and all
    blank characters beyond that range. -/
def isMargin (c : Char) : Bool :=
  if c.toNat < 0x80 then c = ' ' || (9 ≤ c.toNat && c.toNat ≤ 13) else isBlank c

/-- The character with a digit of another script replaced by the ASCII digit of its value. -/
def asciiDigit (c : Char) : Char :=
  if c.toNat < 0x80 then c
  else
    match decimalDigit? c with
    | some value => Char.ofNat ('0'.toNat + value)
    | none => c

/-- The text without what lies around it on both sides. -/
def trim (cs : List Char) : List Char :=
  ((cs.dropWhile isMargin).reverse.dropWhile isMargin).reverse

/-- Takes out underscores between two digits, the character before being `previous`; `none` when
    an underscore stands elsewhere. -/
def dropUnderscores (previous : Char) : List Char → Option (List Char)
  | [] => some []
  | '_' :: rest =>
    match rest with
    | next :: _ =>
      if previous.isDigit && next.isDigit then dropUnderscores '_' rest else none
    | [] => none
  | c :: rest => (dropUnderscores c rest).map (c :: ·)

/-- A sign in front of a text, true for minus, and what follows it. -/
def splitSign : List Char → Bool × List Char
  | '-' :: rest => (true, rest)
  | '+' :: rest => (false, rest)
  | cs => (false, cs)

/-- The power of ten that an exponent part gives, an empty one being none. -/
def exponent? : List Char → Option Int
  | [] => some 0
  | e :: rest =>
    let (negative, digits) := splitSign rest
    if (e = 'e' || e = 'E') && !digits.isEmpty && digits.all Char.isDigit then
      some (if negative then -(digitsValue digits : Int) else digitsValue digits)
    else none

/-- The decimal that an unsigned numeral of ASCII characters spells. -/
def decimal? (cs : List Char) : Option Decimal :=
  let whole := cs.takeWhile Char.isDigit
  let rest := cs.dropWhile Char.isDigit
  let (fraction, rest) :=
    match rest with
    | '.' :: more => (more.takeWhile Char.isDigit, more.dropWhile Char.isDigit)
    | _ => ([], rest)
  if whole.isEmpty && fraction.isEmpty then none
  else (exponent? rest).map (Decimal.ofDigits whole fraction ·)

/-- The magnitude that an unsigned numeral or a word for one spells. -/
def magnitude? (cs : List Char) : Option Double :=
  let word := String.ofList (cs.map Char.toLower)
  if word = "inf" || word = "infinity" then some (.infinite false)
  else if word = "nan" then some .nan
  else (decimal? cs).map Double.ofDecimal

/-- The double that a text spells. -/
def read? (text : String) : Option Double := do
  let cs := (trim text.toList).map asciiDigit
  let (negative, body) := splitSign (← dropUnderscores ' ' cs)
  let value ← magnitude? body
  return if negative then value.neg else value

end LoxSyntax.Numeral
