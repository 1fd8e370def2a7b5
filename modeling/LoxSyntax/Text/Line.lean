import LoxSyntax.Text.CharClass
set_option autoImplicit false

/-! # Lines as a reader sees them

A quoted line ends wherever an editor would break the text: at a line feed, a carriage return, the
two together, a vertical tab, a form feed, an information separator, the next-line control, or a
line or paragraph separator. A break at the very end of a text opens no further line. -/

namespace LoxSyntax

/-- The characters at which a text breaks into lines. -/
def lineBreakRanges : CharRanges :=
  [(0xa, 0xd), (0x1c, 0x1e), (0x85, 0x85), (0x2028, 0x2029)]

/-- Does a line end at this character? -/
def isLineBreak (c : Char) : Bool := lineBreakRanges.contains c

/-- The lines of a text, without what ends them. -/
def splitLines : List Char → List (List Char)
  | [] => []
  | '\r' :: '\n' :: rest => [] :: splitLines rest
  | c :: rest =>
    if isLineBreak c then [] :: splitLines rest
    else
      match splitLines rest with
      | [] => [[c]]
      | line :: lines => (c :: line) :: lines

/-- The lines of a text, without what ends them. -/
def textLines (text : String) : List String :=
  (splitLines text.toList).map String.ofList

/-- The line with the given number, counted from one; `none` when the text has no such line. -/
def lineAt? (text : String) (number : Int) : Option String :=
  if 1 ≤ number then (textLines text)[(number - 1).toNat]? else none

/-- A run of spaces. -/
def spaces (count : Nat) : String := String.ofList (List.replicate count ' ')

/-- Takes out each carriage return that a line feed follows. -/
def dropPairedReturns : List Char → List Char
  | [] => []
  | '\r' :: '\n' :: rest => '\n' :: dropPairedReturns rest
  | c :: rest => c :: dropPairedReturns rest

/-- Writes each carriage return and line feed in a row as a line feed, and so each carriage return
    that stands alone. -/
def unifyLineEnds : List Char → List Char
  | [] => []
  | '\r' :: '\n' :: rest => '\n' :: unifyLineEnds rest
  | c :: rest => (if c = '\r' then '\n' else c) :: unifyLineEnds rest

end LoxSyntax
