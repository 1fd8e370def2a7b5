import LoxSyntax.Host
import LoxSyntax.Text.Position
set_option autoImplicit false

/-! # Reading a configuration

A reader goes through the text of a document from its beginning and keeps the position that it has
reached, which is where a fault is reported. -/

namespace LoxSyntax.Toml

/-- A dotted key, as its parts. -/
abbrev Key := List String

/-- A key as it is shown in a message: its parts, quoted, in parentheses, with a comma after a part
    that stands alone. -/
def keyText (key : Key) : String :=
  match key with
  | [part] => "(" ++ quoted part ++ ",)"
  | parts => "(" ++ ", ".intercalate (parts.map quoted) ++ ")"

/-- What is wrong with a document, apart from where. -/
inductive Problem
  | invalidStatement
  | expectedNewline
  | expectedEquals
  | invalidKeyStart
  | invalidValue
  | invalidDate
  | invalidHex
  | notScalar
  | strayBackslash
  | unterminatedText
  | illegalCharacter (c : Char)
  | invalidCharacter (c : Char)
  | expectedMark (mark : String)
  | unclosedArray
  | unclosedInlineTable
  | unclosedTableHeader
  | unclosedArrayHeader
  | declaredTwice (key : Key)
  | redefined (key : Key)
  | immutable (key : Key)
  | overwritten
  | duplicateKey (part : String)
  deriving DecidableEq

/-- The words for a problem. -/
def Problem.message : Problem → String
  | .invalidStatement => "Invalid statement"
  | .expectedNewline => "Expected newline or end of document after a statement"
  | .expectedEquals => "Expected '=' after a key in a key/value pair"
  | .invalidKeyStart => "Invalid initial character for a key part"
  | .invalidValue => "Invalid value"
  | .invalidDate => "Invalid date or datetime"
  | .invalidHex => "Invalid hex value"
  | .notScalar => "Escaped character is not a Unicode scalar value"
  | .strayBackslash => "Unescaped '\\' in a string"
  | .unterminatedText => "Unterminated string"
  | .illegalCharacter c => "Illegal character " ++ quoted (String.singleton c)
  | .invalidCharacter c => "Found invalid character " ++ quoted (String.singleton c)
  | .expectedMark mark => "Expected " ++ quoted mark
  | .unclosedArray => "Unclosed array"
  | .unclosedInlineTable => "Unclosed inline table"
  | .unclosedTableHeader => "Expected ']' at the end of a table declaration"
  | .unclosedArrayHeader => "Expected ']]' at the end of an array declaration"
  | .declaredTwice key => "Cannot declare " ++ keyText key ++ " twice"
  | .redefined key => "Cannot redefine namespace " ++ keyText key
  | .immutable key => "Cannot mutate immutable namespace " ++ keyText key
  | .overwritten => "Cannot overwrite a value"
  | .duplicateKey part => "Duplicate inline table key " ++ quoted part

/-- Why a document cannot be read. -/
inductive Fault
  /-- The document is malformed at a position, or at its end. -/
  | malformed (problem : Problem) (place : Option Position)
  /-- A whole number is written with too many digits. -/
  | tooManyDigits (fault : Host.DigitFault)
  /-- There is no room for reading a value. -/
  | stackExhausted
  deriving DecidableEq

/-- The rest of a document and the position that it begins at. -/
structure Cursor where
  rest : List Char
  position : Position := .start

namespace Cursor

/-- The cursor after the next `count` characters. -/
def advance (c : Cursor) (count : Nat) : Cursor :=
  ⟨c.rest.drop count, c.position.advanceBy (c.rest.take count)⟩

/-- The place of a fault at the cursor: none at the end of the document. -/
def place (c : Cursor) : Option Position :=
  if c.rest.isEmpty then none else some c.position

end Cursor

/-- Something that is read from a document. -/
abbrev Reader := StateT Cursor (Except Fault)

namespace Reader

/-- Reports a problem at the current position. -/
def fail {α : Type} (problem : Problem) : Reader α := do
  throw (.malformed problem (← get).place)

/-- The character ahead, if any. -/
def peek : Reader (Option Char) := return (← get).rest.head?

/-- Passes over characters. -/
def skip (count : Nat) : Reader Unit := modify (·.advance count)

/-- Is the text ahead? -/
def sees (text : String) : Reader Bool := return text.toList.isPrefixOf (← get).rest

/-- Takes the characters ahead that have the property. -/
def takeWhile (p : Char → Bool) : Reader (List Char) := do
  let taken := (← get).rest.takeWhile p
  skip taken.length
  return taken

/-- Passes over the characters ahead that have the property. -/
def skipWhile (p : Char → Bool) : Reader Unit := do
  let _ ← takeWhile p

/-- Takes what a matcher finds ahead: a matcher gives a value and the text that is left. -/
def takeMatch {α : Type} (matcher : List Char → Option (α × List Char)) : Reader (Option α) := do
  let rest := (← get).rest
  match matcher rest with
  | none => return none
  | some (value, left) =>
    skip (rest.length - left.length)
    return some value

/-- Passes over spaces and tabs. -/
def skipBlanks : Reader Unit := skipWhile fun c => c = ' ' || c = '\t'

/-- Passes over spaces, tabs and line feeds. -/
def skipSpace : Reader Unit := skipWhile fun c => c = ' ' || c = '\t' || c = '\n'

end Reader

/-- Is it a control character other than the tab? -/
def isControl (c : Char) : Bool := (c.toNat < 0x20 || c.toNat = 0x7f) && c ≠ '\t'

namespace Reader

/-- Takes the characters up to a closing mark, which is left ahead. Without a closing mark the
    document is at fault at its end, before any forbidden character is. -/
def takeUpTo (mark : String) (forbidden : Char → Bool) : Reader (List Char) := do
  let rest := (← get).rest
  let rec before : List Char → Option (List Char)
    | [] => none
    | c :: cs =>
      if mark.toList.isPrefixOf (c :: cs) then some [] else (before cs).map (c :: ·)
  match before rest with
  | none => do
    skip rest.length
    fail (.expectedMark mark)
  | some content => do
    match content.dropWhile (!forbidden ·) with
    | [] => do
      skip content.length
      return content
    | c :: bad => do
      skip (content.length - (bad.length + 1))
      fail (.invalidCharacter c)

/-- Passes over a comment, if one is ahead, up to the end of its line. -/
def skipComment : Reader Unit := do
  if (← peek) = some '#' then
    skip 1
    let body := (← get).rest.takeWhile (· ≠ '\n')
    match body.dropWhile (!isControl ·) with
    | [] => skip body.length
    | c :: bad => do
      skip (body.length - (bad.length + 1))
      fail (.invalidCharacter c)

end Reader

end LoxSyntax.Toml
