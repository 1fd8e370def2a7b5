import LoxSyntax.Expr.Reader
set_option autoImplicit false

/-! # Tokens in the course of being read

A token cursor is a list of tokens together with how far it has been read: how many tokens have been
consumed, and how many groups and prefix operators count as open. Reading ends at the first token
that ends the input; what follows that token is never looked at, and a list without one is taken to
end after its last token. A fault leaves the cursor where it was found, with everything still open
that was open then, and a later reading starts from there. -/

namespace LoxSyntax

/-- Tokens in the course of being read: those before the end of the input, the token that ends it,
    and how far the reading has got. -/
structure TokenCursor where
  body : List Token
  stop : Token
  position : Nat := 0
  depth : Nat := 0
  deriving DecidableEq

namespace TokenCursor

/-- A cursor at the beginning of a list of tokens. Where no token ends the input, one is assumed on
    the line of the last token. -/
def ofTokens (tokens : List Token) : TokenCursor where
  body := tokens.takeWhile (!·.isEnd)
  stop := (tokens.find? (·.isEnd)).getD
    (Token.endOfInput ((tokens.getLast?.map (·.line)).getD 1))

/-- No token before the end of the input ends it. -/
theorem isEnd_of_mem_body {tokens : List Token} {t : Token} (h : t ∈ (ofTokens tokens).body) :
    t.isEnd = false := by
  have hall := List.all_takeWhile (p := fun t : Token => !t.isEnd) (l := tokens)
  simpa using List.all_eq_true.mp hall t h

/-- The tokens that have not been consumed. -/
def ahead (c : TokenCursor) : List Token := c.body.drop c.position

/-- How many more groups and prefix operators may be opened. -/
def room (c : TokenCursor) : Nat := maxNesting - c.depth

/-- The cursor after a reading of the tokens ahead. -/
def after {α : Type} (c : TokenCursor) (outcome : Outcome α) : TokenCursor :=
  { c with
    position := c.body.length - outcome.rest.length
    depth := c.depth + outcome.opened }

/-- Reads one expression. -/
def expression (c : TokenCursor) : Except SyntaxFault Expr × TokenCursor :=
  let outcome := readExpr c.room c.stop c.ahead
  (outcome.result, c.after outcome)

/-- Reads expressions to the end. Each consumes a token or more, so there are no more of them than
    tokens ahead. -/
def expressions (c : TokenCursor) : Except SyntaxFault (List Expr) × TokenCursor :=
  let outcome := readExprs c.room c.stop c.ahead.length c.ahead
  (outcome.result, c.after outcome)

/-- Reads one expression that has to reach to the end. -/
def single (c : TokenCursor) : Except SyntaxFault Expr × TokenCursor :=
  let outcome := readSingle c.room c.stop c.ahead
  (outcome.result, c.after outcome)

end TokenCursor

/-- The expressions that a list of tokens spells. -/
def parseTokens (tokens : List Token) : Except SyntaxFault (List Expr) :=
  (TokenCursor.ofTokens tokens).expressions.1

/-- The one expression that a list of tokens spells. -/
def parseSingle (tokens : List Token) : Except SyntaxFault Expr :=
  (TokenCursor.ofTokens tokens).single.1

end LoxSyntax
