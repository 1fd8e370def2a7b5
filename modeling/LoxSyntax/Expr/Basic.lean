import LoxSyntax.Number.Double
import LoxSyntax.Token.Kind
set_option autoImplicit false

/-! # Expressions

Expressions are trees of operators over leaves. The operators are kinds of token. A tree may have
leaves of another type `φ`, which are no expressions; an expression proper has none of them.

The infix operators fall into four levels. An operator of a tighter level takes its operands before
one of a looser level does, and operators of one level take them from left to right. Prefix
operators bind tighter than all infix ones. -/

namespace LoxSyntax

/-- A tree of operators, with leaves of type `φ` besides those of the language. -/
inductive Tree (φ : Type)
  | number (value : Double)
  | text (value : String)
  | truth (value : Bool)
  | nil
  | name (spelling : String)
  | unary (operator : TokenKind) (operand : Tree φ)
  | binary (left : Tree φ) (operator : TokenKind) (right : Tree φ)
  | group (inner : Tree φ)
  | foreign (value : φ)
  deriving DecidableEq

/-- An expression: a tree with leaves of the language only. -/
abbrev Expr := Tree Empty

/-! ## Levels of precedence -/

/-- The levels of expressions, loosest first. -/
inductive Level
  | equality | comparison | term | factor | unary | primary
  deriving DecidableEq, Repr

namespace Level

/-- How tightly a level binds. -/
def tightness (level : Level) : Nat := level.ctorIdx

instance : LE Level := ⟨fun a b => a.tightness ≤ b.tightness⟩

instance : LT Level := ⟨fun a b => a.tightness < b.tightness⟩

instance (a b : Level) : Decidable (a ≤ b) :=
  inferInstanceAs (Decidable (a.tightness ≤ b.tightness))

instance (a b : Level) : Decidable (a < b) :=
  inferInstanceAs (Decidable (a.tightness < b.tightness))

end Level

namespace TokenKind

/-- The level of an infix operator. -/
def infixLevel? : TokenKind → Option Level
  | .bangEqual | .equalEqual => some .equality
  | .less | .lessEqual | .greater | .greaterEqual => some .comparison
  | .minus | .plus => some .term
  | .slash | .star => some .factor
  | _ => none

/-- Is it a prefix operator? -/
def isPrefixOperator : TokenKind → Bool
  | .bang | .minus => true
  | _ => false

end TokenKind

end LoxSyntax
