import LoxSyntax.Text.Line
import LoxSyntax.Token.Basic
set_option autoImplicit false

/-! # Diagnostics

A diagnostic tells what is wrong and where: a message, a line and sometimes a column, the text that
was read and the name that the text goes by. Its report quotes the line and points at the column.
The place may be any number; what lies outside the text is reported with an empty line. -/

namespace LoxSyntax

/-- What is wrong, apart from where. -/
inductive Cause
  /-- A fault of no particular kind, in words of its own. -/
  | general (message : String)
  /-- A fault in dividing a text into tokens, in words of its own. -/
  | lexical (message : String)
  /-- A fault in reading tokens as expressions, in words of its own. -/
  | syntactic (message : String)
  | unexpectedCharacter (char : String)
  | unterminatedText
  | unexpectedToken (found : Token)
  | expectedToken (expected : String) (found : Token)
  | unexpectedEnd
  | nestedTooDeeply (found : Token) (limit : Int)
  | integerTooLarge (found : Token)
  deriving DecidableEq

/-- The words for a cause. -/
def Cause.message : Cause → String
  | .general message => message
  | .lexical message => message
  | .syntactic message => message
  | .unexpectedCharacter char => "unexpected character " ++ quoted char
  | .unterminatedText => "unterminated string"
  | .unexpectedToken found => "unexpected " ++ found.describe
  | .expectedToken expected found => "expected '" ++ expected ++ "', found " ++ found.describe
  | .unexpectedEnd => "unexpected end of input, expected an expression"
  | .nestedTooDeeply _ limit => s!"expression nested too deeply (limit {limit})"
  | .integerTooLarge _ => "int too large to convert to float"

/-- The name of a text that was not given one. -/
def unnamedInput : String := "<input>"

/-- A fault at a place in a text. -/
structure Diagnostic where
  cause : Cause
  line : Int
  column : Option Int := none
  source : String := ""
  filename : String := unnamedInput
  deriving DecidableEq

namespace Diagnostic

/-- What is wrong, in words. -/
def message (d : Diagnostic) : String := d.cause.message

/-- The line that a diagnostic quotes, empty when the text has no such line. -/
def quotedLine (d : Diagnostic) : String := (lineAt? d.source d.line).getD ""

/-- The name of the text, the line and the column, if known. -/
def location (d : Diagnostic) (filename : String) : String :=
  let line := s!"{filename}:{d.line}"
  match d.column with
  | none => line
  | some column => s!"{line}:{column}"

/-- The report on a diagnostic for a text of the given name: the message, the location, the quoted
    line behind its number and a bar, and a caret below the column. -/
def reportAs (d : Diagnostic) (filename : String) : String :=
  let number := toString d.line
  let gutter := spaces (number.length + 1)
  let quotedRow := s!"{number} | {d.quotedLine}"
  let caretRow :=
    match d.column with
    | none => ""
    | some column => s!"\n{gutter}| {spaces (column - 1).toNat}^"
  s!"error: {d.message}\n{gutter}--> {d.location filename}\n{gutter}|\n{quotedRow}{caretRow}"

/-- The report on a diagnostic, with the name that its text goes by. -/
def report (d : Diagnostic) : String := d.reportAs d.filename

end Diagnostic

end LoxSyntax
