import LoxSyntax.Diagnostic.Basic
import LoxSyntax.Expr.TokenCursor
import LoxSyntax.Lexeme.Scan
import LoxSyntax.Host
set_option autoImplicit false

/-! # Reading source texts

The two steps from a text to its expressions, with faults told as diagnostics. A fault within the
text has a line and a column; one among the tokens has the line of the token that it was found
at.

A diagnostic is told with its line. The lines of a text are few enough to be written by any host,
but tokens that are put together by hand may have any whole number as their line, so that what comes
of reading them depends on the host (`Host.parse`, `Host.parseExpression`). -/

namespace LoxSyntax

/-- The diagnostic for a fault in dividing a text into tokens. -/
def LocatedFault.diagnostic (f : LocatedFault) (source filename : String) : Diagnostic where
  cause :=
    match f.fault with
    | .unexpectedCharacter c => .unexpectedCharacter (String.singleton c)
    | .unterminatedText => .unterminatedText
  line := f.position.line
  column := some f.position.column
  source := source
  filename := filename

/-- What a fault among tokens is, apart from where. -/
def SyntaxFault.cause : SyntaxFault → Cause
  | .unexpected found => .unexpectedToken found
  | .unclosedGroup found => .expectedToken ")" found
  | .unexpectedEnd _ => .unexpectedEnd
  | .tooDeep found => .nestedTooDeeply found maxNesting
  | .tooLarge found => .integerTooLarge found

/-- The line of the token that a fault was found at. -/
def SyntaxFault.line : SyntaxFault → Int
  | .unexpected found | .unclosedGroup found | .tooDeep found | .tooLarge found => found.line
  | .unexpectedEnd line => line

/-- The diagnostic for a fault among tokens. -/
def SyntaxFault.diagnostic (f : SyntaxFault) (source filename : String) : Diagnostic where
  cause := f.cause
  line := f.line
  source := source
  filename := filename

/-- The tokens of a text. -/
def scanSource (source : String) (filename : String := unnamedInput) :
    Except Diagnostic (List Token) :=
  (scanText source).mapError (·.diagnostic source filename)

/-- The expressions of a list of tokens, which were taken from the given text. -/
def parseFrom (tokens : List Token) (source : String) (filename : String := unnamedInput) :
    Except Diagnostic (List Expr) :=
  (parseTokens tokens).mapError (·.diagnostic source filename)

/-- The expressions of a text. -/
def parseSource (source : String) (filename : String := unnamedInput) :
    Except Diagnostic (List Expr) := do
  parseFrom (← scanSource source filename) source filename

/-! ## Tokens that are put together by hand -/

/-- What is raised in place of a result when tokens are read. -/
inductive Raised
  /-- The tokens are refused, for the reason that is reported. -/
  | reported (d : Diagnostic)
  /-- A whole number is beyond the doubles. -/
  | overflow (found : Token)
  /-- The tokens are refused, but the line of the fault cannot be written in the report. -/
  | unwritableLine (fault : Host.DigitFault)
  deriving DecidableEq

/-- What is raised for a fault. A number beyond the doubles is not reported, and so its line is not
    written. -/
def SyntaxFault.raised (host : Host) (source filename : String) (f : SyntaxFault) : Raised :=
  match f with
  | .tooLarge found => .overflow found
  | f =>
    match host.writingFault? f.line with
    | some fault => .unwritableLine fault
    | none => .reported (f.diagnostic source filename)

namespace Host

/-- Reads the expressions of a list of tokens. -/
def parse (host : Host) (tokens : List Token) (source : String := "")
    (filename : String := unnamedInput) : Except Raised (List Expr) :=
  (parseTokens tokens).mapError (·.raised host source filename)

/-- Reads the one expression of a list of tokens. -/
def parseExpression (host : Host) (tokens : List Token) (source : String := "")
    (filename : String := unnamedInput) : Except Raised Expr :=
  (parseSingle tokens).mapError (·.raised host source filename)

end Host

/-! ## Results and refusals -/

section

variable {ε ε' α : Type} {g : ε → ε'} {x : Except ε α}

theorem mapError_eq_ok_iff {a : α} : x.mapError g = .ok a ↔ x = .ok a := by
  cases x with
  | error e => exact iff_of_false nofun nofun
  | ok b => exact ⟨fun h => congrArg _ (Except.ok.inj h), fun h => congrArg _ (Except.ok.inj h)⟩

theorem mapError_eq_error_iff {e' : ε'} :
    x.mapError g = .error e' ↔ ∃ e, x = .error e ∧ g e = e' := by
  cases x with
  | error e =>
    constructor
    · intro h
      exact ⟨e, rfl, Except.error.inj h⟩
    · rintro ⟨_, ⟨⟩, hmapped⟩
      exact congrArg Except.error hmapped
  | ok b =>
    refine iff_of_false nofun ?_
    rintro ⟨_, ⟨⟩, _⟩

end

variable {source filename : String} {tokens : List Token} {es : List Expr}

theorem scanSource_eq_ok_iff :
    scanSource source filename = .ok tokens ↔ scanText source = .ok tokens := mapError_eq_ok_iff

theorem parseFrom_eq_ok_iff :
    parseFrom tokens source filename = .ok es ↔ parseTokens tokens = .ok es := mapError_eq_ok_iff

/-- A text is read when it has tokens and these are read. -/
theorem parseSource_eq_ok_iff :
    parseSource source filename = .ok es ↔
      ∃ tokens, scanSource source filename = .ok tokens ∧ parseTokens tokens = .ok es := by
  unfold parseSource
  rcases scanSource source filename with d | found
  · refine iff_of_false nofun ?_
    rintro ⟨tokens, hscan, _⟩
    cases hscan
  · constructor
    · intro h
      exact ⟨found, rfl, parseFrom_eq_ok_iff.mp h⟩
    · rintro ⟨tokens, hscan, h⟩
      cases hscan
      exact parseFrom_eq_ok_iff.mpr h

namespace Host

variable {host : Host} {e : Expr} {x : Raised}

theorem parse_eq_error_iff :
    host.parse tokens source filename = .error x ↔
      ∃ f, parseTokens tokens = .error f ∧ f.raised host source filename = x :=
  mapError_eq_error_iff

theorem parseExpression_eq_error_iff :
    host.parseExpression tokens source filename = .error x ↔
      ∃ f, parseSingle tokens = .error f ∧ f.raised host source filename = x :=
  mapError_eq_error_iff

end Host

namespace SyntaxFault

variable {host : Host} {f : SyntaxFault}

theorem raised_of_writable (hsyntactic : ∀ t, f ≠ .tooLarge t)
    (hline : host.writingFault? f.line = none) :
    f.raised host source filename = .reported (f.diagnostic source filename) := by
  cases f with
  | tooLarge t => exact absurd rfl (hsyntactic t)
  | unexpected | unclosedGroup | unexpectedEnd | tooDeep => simp only [raised, hline]

theorem raised_of_unwritable {fault : Host.DigitFault} (hsyntactic : ∀ t, f ≠ .tooLarge t)
    (hline : host.writingFault? f.line = some fault) :
    f.raised host source filename = .unwritableLine fault := by
  cases f with
  | tooLarge t => exact absurd rfl (hsyntactic t)
  | unexpected | unclosedGroup | unexpectedEnd | tooDeep => simp only [raised, hline]

end SyntaxFault

end LoxSyntax
