import LoxSyntax.Lexeme.Scan
set_option autoImplicit false

/-! # Character by character

A pass reads whole lexemes. Here the same is done in steps that take one character at most: a `Walk`
is a place in a text between two characters, told by the number of characters in front of it and by
line and column, with the tokens found so far and the lexeme that the walk is in the middle of.
Nothing is presupposed about the text ahead: to take a character where there is none, or to make a
number of what is none, halts the walk.

The steps that take a lexeme (`TakesLexeme`) and those up to the next halt (`Runs`) have one ending
each, if any. -/

namespace LoxSyntax

/-! ## Walks and their steps -/

/-- What a walk is in the middle of. Where a lexeme began is the number of characters in front. -/
inductive Stage
  | between
  | comment
  /-- Behind the first character of a symbol, which may be all of it. -/
  | symbol (first : Char) (kind : TokenKind)
  /-- Behind the equals sign of a symbol. -/
  | longSymbol (first : Char) (kind : TokenKind)
  /-- Between the quotes of a text, behind the place where it was opened. -/
  | text (start : Nat) (opened : Position)
  /-- Behind the closing quote of a text. -/
  | closed (content : List Char) (line : Nat)
  | whole (start : Nat)
  | fraction (start : Nat)
  | word (start : Nat)
  deriving DecidableEq

/-- A place between two characters of a text, and what has been found in front of it. -/
structure Walk where
  text : List Char
  taken : Nat := 0
  position : Position := .start
  tokens : List Token := []
  stage : Stage := .between
  deriving DecidableEq

/-- Why a walk halts. -/
inductive Halt
  /-- The end of the text was reached. -/
  | finished
  | fault (fault : LocatedFault)
  /-- A character was to be taken where there is none. -/
  | pastEnd
  /-- A number was to be made of what is no numeral. -/
  | notNumeral (lexeme : String)
  deriving DecidableEq

/-- Why a walk halts where a pass has come to an end. -/
def Halt.ofPass : Except LocatedFault (List Token) → Halt
  | .ok _ => .finished
  | .error f => .fault f

namespace Walk

/-- A walk at the beginning of a text. -/
def ofText (text : String) : Walk := { text := text.toList }

variable (w : Walk)

/-- The characters ahead. -/
def ahead : List Char := w.text.drop w.taken

/-- The scan that stands where the walk does. -/
def scan : Scan := ⟨w.ahead, w.position, w.tokens⟩

/-- The character at a distance ahead, if the text has one there. -/
def peek (distance : Nat) : Option Char := w.text[w.taken + distance]?

/-- The characters between a place further back and the walk. -/
def since (start : Nat) : List Char := (w.text.take w.taken).drop start

/-- Goes on at the same place. -/
def goOn (stage : Stage) : Option Halt × Walk := (none, { w with stage })

/-- Halts. A walk that is taken up again starts between two lexemes. -/
def halt (halt : Halt) : Option Halt × Walk := (some halt, { w with stage := .between })

/-- Takes the character ahead. -/
def take (stage : Stage) : Option Halt × Walk :=
  match w.peek 0 with
  | none => w.halt .pastEnd
  | some c => (none, { w with taken := w.taken + 1, position := w.position.advance c, stage })

/-- Adds a token. -/
def emit (t : Token) : Option Halt × Walk :=
  (none, { w with tokens := w.tokens ++ [t], stage := .between })

/-- Adds the number that is spelled since a place. -/
def emitNumber (start : Nat) : Option Halt × Walk :=
  match Token.ofNumeral? (String.ofList (w.since start)) w.position.line with
  | none => w.halt (.notNumeral (String.ofList (w.since start)))
  | some t => w.emit t

/-- Begins a lexeme with the character ahead. -/
def startWith (c : Char) : Option Halt × Walk :=
  if isBlank c then w.take .between
  else if c = '/' && w.peek 1 = some '/' then w.goOn .comment
  else
    match symbolKind? c false with
    | some kind => w.take (.symbol c kind)
    | none =>
      if c = '"' then w.take (.text (w.taken + 1) w.position)
      else if c.isDigit then w.goOn (.whole w.taken)
      else if isLetter c then w.goOn (.word w.taken)
      else w.halt (.fault ⟨.unexpectedCharacter c, w.position⟩)

/-- One step: it takes a character, adds a token, or does neither. -/
def step : Option Halt × Walk :=
  match w.stage with
  | .between =>
    match w.peek 0 with
    | none =>
      (some .finished, { w with tokens := w.tokens ++ [Token.endOfInput w.position.line] })
    | some c => w.startWith c
  | .comment => if (w.peek 0).any (· ≠ '\n') then w.take .comment else w.goOn .between
  | .symbol first kind =>
    match symbolKind? first true with
    | some longer =>
      if w.peek 0 = some '=' && longer ≠ kind then w.take (.longSymbol first longer)
      else w.emit ⟨kind, String.ofList [first], none, w.position.line⟩
    | none => w.emit ⟨kind, String.ofList [first], none, w.position.line⟩
  | .longSymbol first kind => w.emit ⟨kind, String.ofList [first, '='], none, w.position.line⟩
  | .text start opened =>
    match w.peek 0 with
    | none => w.halt (.fault ⟨.unterminatedText, opened⟩)
    | some c =>
      if c = '"' then w.take (.closed (w.since start) opened.line) else w.take (.text start opened)
  | .closed content line => w.emit (Token.ofText (String.ofList content) line)
  | .whole start =>
    if (w.peek 0).any Char.isDigit then w.take (.whole start)
    else if w.peek 0 = some '.' && (w.peek 1).any Char.isDigit then w.take (.fraction start)
    else w.emitNumber start
  | .fraction start =>
    if (w.peek 0).any Char.isDigit then w.take (.fraction start) else w.emitNumber start
  | .word start =>
    if (w.peek 0).any isWordChar then w.take (.word start)
    else w.emit (Token.ofWord (String.ofList (w.since start)) w.position.line)

/-- The steps from a walk on up to the place between two lexemes that it reaches next, or up to a
    halt. -/
inductive TakesLexeme : Walk → Option Halt × Walk → Prop
  | returns {w v : Walk} (step : w.step = (none, v)) (between : v.stage = .between) :
      TakesLexeme w (none, v)
  | halts {w v : Walk} {halt : Halt} (step : w.step = (some halt, v)) :
      TakesLexeme w (some halt, v)
  | goesOn {w v : Walk} {ending : Option Halt × Walk} (step : w.step = (none, v))
      (inside : v.stage ≠ .between) (rest : TakesLexeme v ending) : TakesLexeme w ending

/-- The steps from a walk on up to a halt. -/
inductive Runs : Walk → Halt × Walk → Prop
  | halts {w v : Walk} {halt : Halt} (step : w.step = (some halt, v)) : Runs w (halt, v)
  | goesOn {w v : Walk} {ending : Halt × Walk} (step : w.step = (none, v)) (rest : Runs v ending) :
      Runs w ending

variable {w}

/-- The steps to take a lexeme end in one way. -/
theorem TakesLexeme.unique {e e' : Option Halt × Walk} (h : w.TakesLexeme e)
    (h' : w.TakesLexeme e') : e = e' := by
  induction h with
  | returns step between =>
    cases h' with
    | returns step' => exact step.symm.trans step'
    | halts step' => exact step.symm.trans step'
    | goesOn step' inside =>
      cases step.symm.trans step'
      exact absurd between inside
  | halts step =>
    cases h' with
    | returns step' => exact step.symm.trans step'
    | halts step' => exact step.symm.trans step'
    | goesOn step' => cases step.symm.trans step'
  | goesOn step inside rest ih =>
    cases h' with
    | returns step' between =>
      cases step.symm.trans step'
      exact absurd between inside
    | halts step' => cases step.symm.trans step'
    | goesOn step' _ rest' =>
      cases step.symm.trans step'
      exact ih rest'

theorem Runs.unique {e e' : Halt × Walk} (h : w.Runs e) (h' : w.Runs e') : e = e' := by
  induction h with
  | halts step =>
    cases h' with
    | halts step' =>
      cases step.symm.trans step'
      rfl
    | goesOn step' => cases step.symm.trans step'
  | goesOn step rest ih =>
    cases h' with
    | halts step' => cases step.symm.trans step'
    | goesOn step' rest' =>
      cases step.symm.trans step'
      exact ih rest'

/-- A run takes lexemes one after another. -/
theorem TakesLexeme.runs {v : Walk} {e : Halt × Walk} (h : w.TakesLexeme (none, v))
    (hv : v.Runs e) : w.Runs e := by
  generalize hending : ((none, v) : Option Halt × Walk) = ending at h
  induction h with
  | returns step =>
    cases hending
    exact .goesOn step hv
  | halts step => cases hending
  | goesOn step _ _ ih => exact .goesOn step (ih hending)

theorem TakesLexeme.runs_of_halt {v : Walk} {halt : Halt} (h : w.TakesLexeme (some halt, v)) :
    w.Runs (halt, v) := by
  generalize hending : ((some halt, v) : Option Halt × Walk) = ending at h
  induction h with
  | returns step => cases hending
  | halts step =>
    cases hending
    exact .halts step
  | goesOn step _ _ ih => exact .goesOn step (ih hending)

end Walk

end LoxSyntax
