import LoxSyntax.Text.CharClass
set_option autoImplicit false

/-! # Quoted text

Texts are shown on one line between quotes, so that any character can be told from what surrounds
it. The quote is the single one, unless the text holds single quotes and no double ones. The quote
in use, the backslash and every character without a visible form are escaped; the others stand for
themselves. -/

namespace LoxSyntax

/-- The lower-case digits of `n` to base sixteen, at least `width` of them. -/
def hexDigits (width n : Nat) : List Char :=
  let digits := Nat.toDigits 16 n
  List.replicate (width - digits.length) '0' ++ digits

namespace Quoted

/-- The quote that encloses a text. -/
def mark (text : List Char) : Char :=
  if text.contains '\'' && !text.contains '"' then '"' else '\''

/-- How a character is written between quotes `quote`. -/
def escape (quote c : Char) : List Char :=
  if c = quote || c = '\\' then ['\\', c]
  else if c = '\n' then ['\\', 'n']
  else if c = '\r' then ['\\', 'r']
  else if c = '\t' then ['\\', 't']
  else if isPrintable c then [c]
  else if c.toNat < 0x100 then '\\' :: 'x' :: hexDigits 2 c.toNat
  else if c.toNat < 0x10000 then '\\' :: 'u' :: hexDigits 4 c.toNat
  else '\\' :: 'U' :: hexDigits 8 c.toNat

/-- The text between its quotes. -/
def encode (text : List Char) : List Char :=
  let quote := mark text
  quote :: text.flatMap (escape quote) ++ [quote]

end Quoted

/-- The text between quotes, on one line. -/
def quoted (text : String) : String :=
  String.ofList (Quoted.encode text.toList)

end LoxSyntax
