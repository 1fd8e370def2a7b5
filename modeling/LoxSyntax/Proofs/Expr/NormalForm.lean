import LoxSyntax.Expr.TokenCursor
import Mathlib.Order.Defs.LinearOrder
set_option autoImplicit false

/-! # Normal form

An expression can be flattened to what its tokens say to the grammar, its *terminals*. Flattening
forgets the tree, so that not every tree can be got back: a sum below a product has to stand in a
group. The trees that the grammar has are those in *normal form*, where each operand binds tightly
enough for the place it is in. A row of them can be told apart when no expression but the first
begins with a minus, which would be taken for an infix operator. -/

namespace LoxSyntax

/-! ## Terminals -/

/-- What a token says to the grammar: the value of a number, the content of a text, the spelling of
    a name, and nothing but the kind of any other token. -/
inductive Terminal
  | number (value : Double)
  | text (content : String)
  | name (spelling : String)
  | symbol (kind : TokenKind)
  deriving DecidableEq

/-- The double that a value stands for where a number is wanted. -/
def Literal.double? : Literal → Option Double
  | .number value => some value
  | .integer value => Double.ofInt? value
  | .truth value => some (if value then .one else .zero)
  | .text _ => none

/-- The terminal of a token. A numeral whose value is no double has nothing to say but its kind. -/
def Token.terminal (t : Token) : Terminal :=
  match t.kind with
  | .number => ((t.literal.bind Literal.double?).map Terminal.number).getD (.symbol .number)
  | .text => .text t.lexeme
  | .identifier => .name t.lexeme
  | kind => .symbol kind

namespace Token

theorem terminal_of_number {t : Token} (h : t.kind = .number) :
    t.terminal =
      ((t.literal.bind Literal.double?).map Terminal.number).getD (.symbol .number) := by
  simp only [terminal, h]

/-- All tokens but numbers, texts and names are told apart by their kinds alone. -/
theorem terminal_of_ne {t : Token} (hnumber : t.kind ≠ .number) (htext : t.kind ≠ .text)
    (hname : t.kind ≠ .identifier) : t.terminal = .symbol t.kind := by
  fun_cases terminal t with
  | case1 hkind => exact absurd hkind hnumber
  | case2 hkind => exact absurd hkind htext
  | case3 hkind => exact absurd hkind hname
  | case4 => rfl

theorem kind_of_terminal {t : Token} {kind : TokenKind} (h : t.terminal = .symbol kind) :
    t.kind = kind := by
  fun_cases terminal t with
  | case1 hkind =>
    rw [terminal_of_number hkind] at h
    cases hdouble : t.literal.bind Literal.double? with
    | none =>
      rw [hdouble] at h
      exact hkind.trans (Terminal.symbol.inj h)
    | some value =>
      rw [hdouble] at h
      cases h
  | case2 hkind => simp [terminal, hkind] at h
  | case3 hkind => simp [terminal, hkind] at h
  | case4 hnumber htext hname =>
    rw [terminal_of_ne hnumber htext hname] at h
    exact Terminal.symbol.inj h

end Token

/-- The expression that a terminal is all of. -/
def Terminal.leaf? : Terminal → Option Expr
  | .number value => some (.number value)
  | .text content => some (.text content)
  | .name spelling => some (.name spelling)
  | .symbol .trueWord => some (.truth true)
  | .symbol .falseWord => some (.truth false)
  | .symbol .nilWord => some .nil
  | .symbol _ => none

/-- A token is taken as a leaf when its terminal is one. -/
theorem Token.operandRole_eq_leaf_iff {t : Token} {e : Expr} :
    t.operandRole = .leaf e ↔ t.terminal.leaf? = some e := by
  fun_cases operandRole t with
  | case1 hkind value hliteral =>
    simp [terminal_of_number hkind, hliteral, Literal.double?, Terminal.leaf?]
  | case2 hkind value hliteral double hdouble =>
    rw [terminal_of_number hkind, hliteral, Option.bind_some, Literal.double?, hdouble]
    simp [Terminal.leaf?]
  | case3 hkind value hliteral hdouble =>
    rw [terminal_of_number hkind, hliteral, Option.bind_some, Literal.double?, hdouble]
    simp [Terminal.leaf?]
  | case4 hkind value hliteral =>
    simp [terminal_of_number hkind, hliteral, Literal.double?, Terminal.leaf?]
  | case5 hkind hnumber hinteger htruth =>
    rw [terminal_of_number hkind]
    cases hliteral : t.literal with
    | none => simp [Terminal.leaf?]
    | some literal =>
      cases literal with
      | text value => simp [Literal.double?, Terminal.leaf?]
      | number value => exact absurd hliteral (hnumber value)
      | integer value => exact absurd hliteral (hinteger value)
      | truth value => exact absurd hliteral (htruth value)
  | case6 hkind | case7 hkind | case8 hkind | case9 hkind | case10 hkind | case11 hkind =>
    simp [terminal, hkind, Terminal.leaf?]
  | case12 hnumber htext htrue hfalse hnil hname | case13 hnumber htext htrue hfalse hnil hname =>
    rw [terminal_of_ne hnumber htext hname]
    simp [Terminal.leaf?]

/-- A token opens something when it is a parenthesis or a prefix operator. -/
theorem Token.operandRole_eq_opens_iff {t : Token} {frame : Frame} :
    t.operandRole = .opens frame ↔
      t.kind = .leftParen ∧ frame = .group ∨
        t.kind.isPrefixOperator = true ∧ frame = .prefixed t.kind := by
  fun_cases operandRole t with
  | case11 hkind => simp [hkind, TokenKind.isPrefixOperator, eq_comm]
  | case12 _ _ _ _ _ _ hparen hoperator =>
    have hparen : t.kind ≠ .leftParen := hparen
    simp [hoperator, hparen, eq_comm (a := frame)]
  | case13 _ _ _ _ _ _ hparen hoperator =>
    have hparen : t.kind ≠ .leftParen := hparen
    simp [hoperator, hparen]
  | case1 hkind | case2 hkind | case3 hkind | case4 hkind | case5 hkind | case6 hkind
  | case7 hkind | case8 hkind | case9 hkind | case10 hkind =>
    simp [hkind, TokenKind.isPrefixOperator]

namespace Tree

/-- The terminals of an expression in the order of their tokens. -/
def terminals : Expr → List Terminal
  | number value => [.number value]
  | text value => [.text value]
  | truth value => [.symbol (if value then .trueWord else .falseWord)]
  | nil => [.symbol .nilWord]
  | name spelling => [.name spelling]
  | unary operator operand => .symbol operator :: operand.terminals
  | binary left operator right => left.terminals ++ .symbol operator :: right.terminals
  | group inner => .symbol .leftParen :: (inner.terminals ++ [.symbol .rightParen])

theorem terminals_ne_nil (e : Expr) : e.terminals ≠ [] := by
  cases e with
  | foreign value => exact value.elim
  | _ => simp [terminals]

end Tree

/-! ## Levels of expressions -/

instance : Preorder Level where
  le := (· ≤ ·)
  lt := (· < ·)
  le_refl a := Nat.le_refl a.tightness
  le_trans _ _ _ hab hbc := Nat.le_trans hab hbc
  lt_iff_le_not_ge _ _ := Nat.lt_iff_le_and_not_ge

theorem Level.equality_le (level : Level) : Level.equality ≤ level := Nat.zero_le _

theorem Level.unary_le_primary : Level.unary ≤ Level.primary := by decide

theorem Level.not_le_iff {a b : Level} : ¬a ≤ b ↔ b < a := Nat.not_le

/-- Prefix operators bind tighter than infix ones. -/
theorem TokenKind.infixLevel?_lt_unary {kind : TokenKind} {level : Level}
    (h : kind.infixLevel? = some level) : level < .unary := by
  cases kind <;> cases h <;> decide

namespace Tree

/-- The level of an expression: that of the operator it ends up at when read as a whole. -/
def level : Expr → Level
  | unary _ _ => .unary
  | binary _ operator _ => operator.infixLevel?.getD .primary
  | _ => .primary

/-- Does each operand bind tightly enough for its place? The left operand of an infix operator may
    be of the operator's own level, the right one may not; a prefix operator takes a prefix
    operator or a leaf or group. -/
def IsNormal : Expr → Prop
  | unary operator operand =>
    operator.isPrefixOperator = true ∧ .unary ≤ operand.level ∧ operand.IsNormal
  | binary left operator right =>
    (∃ level ∈ operator.infixLevel?, level ≤ left.level ∧ level < right.level) ∧
      left.IsNormal ∧ right.IsNormal
  | group inner => inner.IsNormal
  | _ => True

instance decidableIsNormal : (e : Expr) → Decidable e.IsNormal
  | unary _ operand =>
    have := decidableIsNormal operand
    inferInstanceAs (Decidable (_ ∧ _ ∧ _))
  | binary left _ right =>
    have := decidableIsNormal left
    have := decidableIsNormal right
    inferInstanceAs (Decidable (_ ∧ _ ∧ _))
  | group inner => decidableIsNormal inner
  | number _ | text _ | truth _ | nil | name _ => isTrue trivial

/-- The largest number of prefix operators and groups on a path from the root to a leaf. -/
def nestingDepth : Expr → Nat
  | unary _ operand => operand.nestingDepth + 1
  | binary left _ right => max left.nestingDepth right.nestingDepth
  | group inner => inner.nestingDepth + 1
  | _ => 0

end Tree

/-- A row of expressions that the grammar has: each of them in normal form and within the limit, and
    none but the first beginning with a minus. -/
structure IsProgram (limit : Nat) (es : List Expr) : Prop where
  normal : ∀ e ∈ es, e.IsNormal
  shallow : ∀ e ∈ es, e.nestingDepth ≤ limit
  separated : ∀ e ∈ es.tail, e.terminals.head? ≠ some (.symbol .minus)

theorem isProgram_nil (limit : Nat) : IsProgram limit [] :=
  ⟨by simp, by simp, by simp⟩

theorem IsProgram.tail {limit : Nat} {e : Expr} {es : List Expr} (h : IsProgram limit (e :: es)) :
    IsProgram limit es :=
  ⟨fun d hd => h.normal d (List.mem_cons_of_mem e hd),
    fun d hd => h.shallow d (List.mem_cons_of_mem e hd),
    fun d hd => h.separated d (List.mem_of_mem_tail hd)⟩

theorem IsProgram.concat {limit : Nat} {es : List Expr} {e : Expr} (h : IsProgram limit es)
    (hnormal : e.IsNormal) (hshallow : e.nestingDepth ≤ limit)
    (hminus : es ≠ [] → e.terminals.head? ≠ some (.symbol .minus)) :
    IsProgram limit (es ++ [e]) := by
  refine ⟨?_, ?_, ?_⟩
  · intro d hd
    rcases List.mem_append.mp hd with hd | hd
    · exact h.normal d hd
    · rwa [List.mem_singleton.mp hd]
  · intro d hd
    rcases List.mem_append.mp hd with hd | hd
    · exact h.shallow d hd
    · rwa [List.mem_singleton.mp hd]
  · intro d hd
    by_cases hes : es = []
    · simp [hes] at hd
    · rw [List.tail_append_of_ne_nil hes] at hd
      rcases List.mem_append.mp hd with hd | hd
      · exact h.separated d hd
      · rw [List.mem_singleton.mp hd]
        exact hminus hes

end LoxSyntax
