set_option autoImplicit false

/-! # Kinds of token

The alphabet of the grammar: punctuation and operators, which have one spelling each; names, texts
and numbers, which have many; the reserved words; and the end of the input. The kinds are numbered
from one in the order in which they stand here. -/

namespace LoxSyntax

/-- What a token is, apart from how it was spelled and where it stood. -/
inductive TokenKind
  | leftParen | rightParen | leftBrace | rightBrace | comma | dot | minus | plus | semicolon
  | slash | star | equal | equalEqual | bang | bangEqual | less | lessEqual | greater
  | greaterEqual
  | identifier | text | number
  | andWord | classWord | elseWord | falseWord | funWord | forWord | ifWord | nilWord | orWord
  | printWord | returnWord | superWord | thisWord | trueWord | varWord | whileWord
  | endOfInput
  deriving DecidableEq, Repr, Inhabited

namespace TokenKind

/-- All kinds, in their order. -/
def all : List TokenKind :=
  [.leftParen, .rightParen, .leftBrace, .rightBrace, .comma, .dot, .minus, .plus, .semicolon,
   .slash, .star, .equal, .equalEqual, .bang, .bangEqual, .less, .lessEqual, .greater,
   .greaterEqual, .identifier, .text, .number, .andWord, .classWord, .elseWord, .falseWord,
   .funWord, .forWord, .ifWord, .nilWord, .orWord, .printWord, .returnWord, .superWord,
   .thisWord, .trueWord, .varWord, .whileWord, .endOfInput]

/-- The number of a kind, counted from one. -/
def ordinal (kind : TokenKind) : Nat := kind.ctorIdx + 1

/-- The name of a kind in listings. -/
def name : TokenKind → String
  | .leftParen => "LEFT_PAREN"
  | .rightParen => "RIGHT_PAREN"
  | .leftBrace => "LEFT_BRACE"
  | .rightBrace => "RIGHT_BRACE"
  | .comma => "COMMA"
  | .dot => "DOT"
  | .minus => "MINUS"
  | .plus => "PLUS"
  | .semicolon => "SEMICOLON"
  | .slash => "SLASH"
  | .star => "STAR"
  | .equal => "EQUAL"
  | .equalEqual => "EQUAL_EQUAL"
  | .bang => "BANG"
  | .bangEqual => "BANG_EQUAL"
  | .less => "LESS"
  | .lessEqual => "LESS_EQUAL"
  | .greater => "GREATER"
  | .greaterEqual => "GREATER_EQUAL"
  | .identifier => "IDENTIFIER"
  | .text => "STRING"
  | .number => "NUMBER"
  | .andWord => "AND"
  | .classWord => "CLASS"
  | .elseWord => "ELSE"
  | .falseWord => "FALSE"
  | .funWord => "FUN"
  | .forWord => "FOR"
  | .ifWord => "IF"
  | .nilWord => "NIL"
  | .orWord => "OR"
  | .printWord => "PRINT"
  | .returnWord => "RETURN"
  | .superWord => "SUPER"
  | .thisWord => "THIS"
  | .trueWord => "TRUE"
  | .varWord => "VAR"
  | .whileWord => "WHILE"
  | .endOfInput => "EOF"

/-- The kind with a given name. -/
def ofName? (name : String) : Option TokenKind :=
  all.find? fun kind => kind.name = name

/-- The one spelling of a kind of punctuation or operator. -/
def symbol? : TokenKind → Option String
  | .leftParen => some "("
  | .rightParen => some ")"
  | .leftBrace => some "\x7b"
  | .rightBrace => some "\x7d"
  | .comma => some ","
  | .dot => some "."
  | .minus => some "-"
  | .plus => some "+"
  | .semicolon => some ";"
  | .slash => some "/"
  | .star => some "*"
  | .equal => some "="
  | .equalEqual => some "=="
  | .bang => some "!"
  | .bangEqual => some "!="
  | .less => some "<"
  | .lessEqual => some "<="
  | .greater => some ">"
  | .greaterEqual => some ">="
  | _ => none

/-- The reserved words. -/
def reservedWords : List (String × TokenKind) :=
  [("and", .andWord), ("class", .classWord), ("else", .elseWord), ("false", .falseWord),
   ("fun", .funWord), ("for", .forWord), ("if", .ifWord), ("nil", .nilWord), ("or", .orWord),
   ("print", .printWord), ("return", .returnWord), ("super", .superWord), ("this", .thisWord),
   ("true", .trueWord), ("var", .varWord), ("while", .whileWord)]

/-- The kind of a word: reserved, or else a name. -/
def ofWord (word : String) : TokenKind :=
  (reservedWords.lookup word).getD .identifier

/-- The words reserved for a kind. -/
def words (kind : TokenKind) : List String :=
  (reservedWords.filter (·.2 = kind)).map (·.1)

/-- A kind as it is shown where an operator has no spelling: its name and its number. -/
def tag (kind : TokenKind) : String :=
  s!"<TokenType.{kind.name}: {kind.ordinal}>"

/-- No two kinds share a name. -/
theorem ofName?_name (kind : TokenKind) : ofName? kind.name = some kind := by
  cases kind <;> decide

end TokenKind

end LoxSyntax
