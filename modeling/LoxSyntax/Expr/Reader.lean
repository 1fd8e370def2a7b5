import LoxSyntax.Expr.Basic
import LoxSyntax.Token.Basic
set_option autoImplicit false

/-! # Reading expressions

An expression is read from left to right, one token at a time. What has been opened and not yet
completed is kept as a stack of frames: open groups, prefix operators that wait for their operand,
and infix operators that wait for the right one. The reader is in one of two states: it expects an
operand, or it has just completed one. An operand is handed to the prefix operators in front of it
at once, and to infix operators when the token after it shows that they bind no looser.

The number of open groups and prefix operators is limited, so that trees stay shallow enough for
whoever walks them. -/

namespace LoxSyntax

/-- How many groups and prefix operators may be open at once. -/
def maxNesting : Nat := 100

/-- Why tokens are no expression. -/
inductive SyntaxFault
  /-- The token cannot begin an operand, or follows a complete expression. -/
  | unexpected (found : Token)
  /-- A group is open, its inside is complete, and the token does not close it. -/
  | unclosedGroup (found : Token)
  /-- The input ends on the given line where an operand is required. -/
  | unexpectedEnd (line : Int)
  /-- The token opens more groups and prefix operators than may be open. -/
  | tooDeep (found : Token)
  /-- The token's value is a whole number beyond the doubles. -/
  | tooLarge (found : Token)
  deriving DecidableEq

/-- Something that has been opened and not completed. -/
inductive Frame
  | group
  | prefixed (operator : TokenKind)
  | pending (left : Expr) (operator : TokenKind)
  deriving DecidableEq

/-- Does the frame count towards the limit? -/
def Frame.isNested : Frame → Bool
  | .pending _ _ => false
  | _ => true

/-- How many groups and prefix operators are open. -/
def nesting (stack : List Frame) : Nat := stack.countP Frame.isNested

/-- Where the reader of an expression stands; the innermost frame comes first. -/
inductive ReadState
  | needsOperand (stack : List Frame)
  | hasOperand (operand : Expr) (stack : List Frame)
  deriving DecidableEq

/-- What a token is where an operand is expected. -/
inductive OperandRole
  | leaf (value : Expr)
  | opens (frame : Frame)
  | tooLarge
  | none

/-- What the token is where an operand is expected. The spelling of a number does not matter, only
    its value. -/
def Token.operandRole (t : Token) : OperandRole :=
  match t.kind with
  | .number =>
    match t.literal with
    | some (.number value) => .leaf (.number value)
    | some (.integer value) =>
      match Double.ofInt? value with
      | some value => .leaf (.number value)
      | none => .tooLarge
    | some (.truth value) => .leaf (.number (if value then .one else .zero))
    | _ => .none
  | .text => .leaf (.text t.lexeme)
  | .trueWord => .leaf (.truth true)
  | .falseWord => .leaf (.truth false)
  | .nilWord => .leaf .nil
  | .identifier => .leaf (.name t.lexeme)
  | .leftParen => .opens .group
  | kind => if kind.isPrefixOperator then .opens (.prefixed kind) else .none

/-- Hands an operand to the prefix operators right in front of it. -/
def closePrefixes : Expr → List Frame → Expr × List Frame
  | operand, .prefixed operator :: stack => closePrefixes (.unary operator operand) stack
  | operand, stack => (operand, stack)

/-- Hands an operand to the infix operators in front of it that bind as tightly as `level` or
    tighter. -/
def closePending (level : Level) : Expr → List Frame → Expr × List Frame
  | operand, .pending left operator :: stack =>
    if level ≤ operator.infixLevel?.getD .primary then
      closePending level (.binary left operator operand) stack
    else (operand, .pending left operator :: stack)
  | operand, stack => (operand, stack)

/-- The state after an operand. -/
def complete (operand : Expr) (stack : List Frame) : ReadState :=
  let (operand, stack) := closePrefixes operand stack
  .hasOperand operand stack

/-- What came of reading: the result or the fault, the tokens that were not consumed, and how many
    groups and prefix operators are open. -/
structure Outcome (α : Type) where
  result : Except SyntaxFault α
  rest : List Token
  opened : Nat

/-- Reads an expression from a state on. Up to `room` groups and prefix operators may be open, and
    `stop` is the token that follows the last one. -/
def readFrom (room : Nat) (stop : Token) : ReadState → List Token → Outcome Expr
  | .needsOperand stack, [] => ⟨.error (.unexpectedEnd stop.line), [], nesting stack⟩
  | .needsOperand stack, t :: ts =>
    match t.operandRole with
    | .leaf value => readFrom room stop (complete value stack) ts
    | .opens frame =>
      if room < nesting (frame :: stack) then ⟨.error (.tooDeep t), ts, nesting (frame :: stack)⟩
      else readFrom room stop (.needsOperand (frame :: stack)) ts
    | .tooLarge => ⟨.error (.tooLarge t), ts, nesting stack⟩
    | .none => ⟨.error (.unexpected t), t :: ts, nesting stack⟩
  | .hasOperand operand stack, [] =>
    match closePending .equality operand stack with
    | (_, .group :: outer) => ⟨.error (.unclosedGroup stop), [], nesting (.group :: outer)⟩
    | (operand, outer) => ⟨.ok operand, [], nesting outer⟩
  | .hasOperand operand stack, t :: ts =>
    match t.kind.infixLevel? with
    | some level =>
      let (left, outer) := closePending level operand stack
      readFrom room stop (.needsOperand (.pending left t.kind :: outer)) ts
    | none =>
      match closePending .equality operand stack with
      | (inner, .group :: outer) =>
        if t.kind = .rightParen then readFrom room stop (complete (.group inner) outer) ts
        else ⟨.error (.unclosedGroup t), t :: ts, nesting (.group :: outer)⟩
      | (operand, outer) => ⟨.ok operand, t :: ts, nesting outer⟩

/-- Tokens are consumed from the front and never put back. -/
theorem rest_suffix_readFrom (room : Nat) (stop : Token) (state : ReadState) (ts : List Token) :
    (readFrom room stop state ts).rest <:+ ts := by
  fun_induction readFrom room stop state ts <;> simp_all [List.suffix_cons_iff]

/-- Reads the expression at the beginning of a list of tokens. -/
def readExpr (room : Nat) (stop : Token) (tokens : List Token) : Outcome Expr :=
  readFrom room stop (.needsOperand []) tokens

/-- Reads expressions to the end of a list of tokens, but no more than `count` of them. -/
def readExprs (room : Nat) (stop : Token) : Nat → List Token → Outcome (List Expr)
  | _, [] => ⟨.ok [], [], 0⟩
  | 0, tokens => ⟨.ok [], tokens, 0⟩
  | count + 1, tokens =>
    let first := readExpr room stop tokens
    match first.result with
    | .error fault => ⟨.error fault, first.rest, first.opened⟩
    | .ok e =>
      let more := readExprs room stop count first.rest
      { more with result := more.result.map (e :: ·) }

/-- Reads the one expression that a list of tokens spells. -/
def readSingle (room : Nat) (stop : Token) (tokens : List Token) : Outcome Expr :=
  let outcome := readExpr room stop tokens
  match outcome.result, outcome.rest with
  | .ok _, t :: _ => { outcome with result := .error (.unexpected t) }
  | _, _ => outcome

end LoxSyntax
