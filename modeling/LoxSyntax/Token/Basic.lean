import LoxSyntax.Number.Numeral
import LoxSyntax.Number.Shortest
import LoxSyntax.Text.Line
import LoxSyntax.Text.Quoted
import LoxSyntax.Token.Kind
set_option autoImplicit false

/-! # Tokens

A token is a kind together with how it was spelled, the value that the spelling stands for, and the
line on which it began. The tokens of a text carry a double or a text as their value, if any; tokens
that are put together by hand may carry whole numbers and truth values as well. -/

namespace LoxSyntax

/-- The value that a token stands for. -/
inductive Literal
  | text (value : String)
  | number (value : Double)
  | integer (value : Int)
  | truth (value : Bool)
  deriving DecidableEq

/-- A value as it is shown in listings. -/
def Literal.shown : Literal → String
  | .text value => quoted value
  | .number value => value.shortest
  | .integer value => toString value
  | .truth value => if value then "True" else "False"

/-- A piece of a text that the grammar takes as a unit. The spelling of a text leaves out the quotes
    around it. -/
structure Token where
  kind : TokenKind
  lexeme : String
  literal : Option Literal
  line : Int
  deriving DecidableEq

namespace Token

/-- The token that ends the input. -/
def endOfInput (line : Int) : Token := ⟨.endOfInput, "", none, line⟩

/-- The token of a quoted text. -/
def ofText (content : String) (line : Int) : Token := ⟨.text, content, some (.text content), line⟩

/-- The token of a numeral; `none` when the spelling is no numeral. -/
def ofNumeral? (lexeme : String) (line : Int) : Option Token :=
  (Numeral.read? lexeme).map fun value => ⟨.number, lexeme, some (.number value), line⟩

/-- The token of a word: a reserved word, or else a name. -/
def ofWord (lexeme : String) (line : Int) : Token := ⟨TokenKind.ofWord lexeme, lexeme, none, line⟩

/-- Does the token end the input? -/
def isEnd (t : Token) : Bool := t.kind = .endOfInput

/-- What a reader calls the token. -/
def describe (t : Token) : String :=
  match t.kind with
  | .endOfInput => "end of input"
  | .text => "string \"" ++ t.lexeme ++ "\""
  | .number => "number " ++ t.lexeme
  | .identifier => "identifier '" ++ t.lexeme ++ "'"
  | _ => "'" ++ t.lexeme ++ "'"

/-- Kind, quoted spelling and value of a token on one line. -/
def summary (t : Token) : String :=
  let value :=
    match t.literal with
    | none => ""
    | some literal => " " ++ literal.shown
  t.kind.name ++ " " ++ quoted t.lexeme ++ value

/-- The token as a record with named fields. -/
def record (t : Token) : String :=
  let value :=
    match t.literal with
    | none => "None"
    | some literal => literal.shown
  s!"Token(type={t.kind.tag}, lexeme={quoted t.lexeme}, literal={value}, line={t.line})"

/-- One row of a listing: the line, in four places or more, and the summary. -/
def row (t : Token) : String :=
  let line := toString t.line
  spaces (4 - line.length) ++ line ++ " " ++ t.summary ++ "\n"

/-- A listing of tokens, one row each. -/
def listing (tokens : List Token) : String :=
  String.join (tokens.map row)

end Token

end LoxSyntax
