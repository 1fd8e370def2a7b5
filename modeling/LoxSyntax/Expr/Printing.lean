import LoxSyntax.Expr.Basic
import LoxSyntax.Number.Shortest
import LoxSyntax.Text.Quoted
set_option autoImplicit false

/-! # Printing expressions

The prefix form puts each operator in front of its operands, in parentheses. A tree has one when
all its operators have a spelling and none of its leaves is foreign; otherwise the first such node
is at fault.

The outline of a tree has one row for each node, a node before its children, and shows by its indent
how deep the node lies. An outline is written row by row: when a node cannot be printed, the rows
before it stay written.

Both ways to print go down a tree, one call for each level, and there may be no room for all levels.
A tree is then printed as if it were cut where the room ends.

The record form writes each node of an expression as a constructor with named fields. Unlike the
prefix form it shows every part of the expression, and so tells any two of them apart. -/

namespace LoxSyntax

/-! ## Prefix form -/

/-- Why a tree cannot be printed. -/
inductive PrintFault (φ : Type)
  /-- The operator is a kind of token without a spelling of its own. -/
  | noSymbol (kind : TokenKind)
  /-- The leaf is no expression. -/
  | foreign (value : φ)
  deriving DecidableEq

namespace Tree

variable {φ : Type}

/-- The spelling of an operator. -/
def operatorSymbol (kind : TokenKind) : Except (PrintFault φ) String :=
  match kind.symbol? with
  | some symbol => .ok symbol
  | none => .error (.noSymbol kind)

/-- The prefix form of a tree. -/
def prefixForm : Tree φ → Except (PrintFault φ) String
  | number value => .ok value.display
  | text value => .ok ("\"" ++ value ++ "\"")
  | truth value => .ok (if value then "true" else "false")
  | nil => .ok "nil"
  | name spelling => .ok spelling
  | unary operator operand => do
    let symbol ← operatorSymbol operator
    return "(" ++ symbol ++ " " ++ (← operand.prefixForm) ++ ")"
  | binary left operator right => do
    let symbol ← operatorSymbol operator
    return "(" ++ symbol ++ " " ++ (← left.prefixForm) ++ " " ++ (← right.prefixForm) ++ ")"
  | group inner => do
    return "(group " ++ (← inner.prefixForm) ++ ")"
  | foreign value => .error (.foreign value)

end Tree

/-! ## Outlines -/

/-- A text that was written, and the fault that kept it from going on, if any. -/
structure Written (ε : Type) where
  text : String := ""
  fault? : Option ε := none
  deriving DecidableEq

namespace Written

variable {ε : Type}

/-- Goes on with more text, unless a fault has ended it. -/
def andThen (first : Written ε) (more : Written ε) : Written ε :=
  match first.fault? with
  | some _ => first
  | none => { more with text := first.text ++ more.text }

/-- Text written after one another, up to the first fault. -/
def concat (parts : List (Written ε)) : Written ε :=
  parts.foldr andThen {}

/-- The text, if it was written to its end. -/
def complete (w : Written ε) : Except ε String :=
  match w.fault? with
  | some fault => .error fault
  | none => .ok w.text

end Written

namespace Tree

variable {φ : Type}

/-- One row of an outline. -/
def outlineRow (depth : Nat) (content : Except (PrintFault φ) String) :
    Written (PrintFault φ) :=
  match content with
  | .ok content => { text := String.ofList (List.replicate (2 * depth) ' ') ++ content ++ "\n" }
  | .error fault => { fault? := some fault }

/-- The outline of a tree that lies at the given depth. -/
def outlineAt (depth : Nat) : Tree φ → Written (PrintFault φ)
  | number value => outlineRow depth (.ok ("Number(" ++ value.display ++ ")"))
  | text value => outlineRow depth (.ok ("String(\"" ++ value ++ "\")"))
  | truth value => outlineRow depth (.ok (if value then "Bool(true)" else "Bool(false)"))
  | nil => outlineRow depth (.ok "Nil")
  | name spelling => outlineRow depth (.ok ("Variable(" ++ spelling ++ ")"))
  | unary operator operand =>
    (outlineRow depth ((operatorSymbol operator).map ("Unary " ++ ·))).andThen
      (operand.outlineAt (depth + 1))
  | binary left operator right =>
    (outlineRow depth ((operatorSymbol operator).map ("Binary " ++ ·))).andThen
      ((left.outlineAt (depth + 1)).andThen (right.outlineAt (depth + 1)))
  | group inner => (outlineRow depth (.ok "Grouping")).andThen (inner.outlineAt (depth + 1))
  | foreign value => outlineRow depth (.error (.foreign value))

/-- The outline of a list of trees. -/
def outline (trees : List (Tree φ)) : Written (PrintFault φ) :=
  Written.concat (trees.map (outlineAt 0))

end Tree

/-! ## Printing within bounds -/

/-- The leaves of a tree that may have been cut. -/
inductive CutLeaf (φ : Type)
  /-- A leaf of the tree. -/
  | own (value : φ)
  /-- What is left of a part for which there is no room. -/
  | cutOff
  deriving DecidableEq

namespace Tree

variable {φ : Type}

/-- The tree, or what is left of it where there is no room. -/
def orCutOff (room : Bool) (t : Tree (CutLeaf φ)) : Tree (CutLeaf φ) :=
  if room then t else .foreign .cutOff

/-- A tree that lies at the given depth, cut at the nodes for which there is no room. -/
def cut (room : Nat → Tree φ → Bool) (depth : Nat) : Tree φ → Tree (CutLeaf φ)
  | number value => orCutOff (room depth (number value)) (number value)
  | text value => orCutOff (room depth (text value)) (text value)
  | truth value => orCutOff (room depth (truth value)) (truth value)
  | nil => orCutOff (room depth nil) nil
  | name spelling => orCutOff (room depth (name spelling)) (name spelling)
  | unary operator operand =>
    orCutOff (room depth (unary operator operand))
      (unary operator (operand.cut room (depth + 1)))
  | binary left operator right =>
    orCutOff (room depth (binary left operator right))
      (binary (left.cut room (depth + 1)) operator (right.cut room (depth + 1)))
  | group inner => orCutOff (room depth (group inner)) (group (inner.cut room (depth + 1)))
  | foreign value => orCutOff (room depth (foreign value)) (foreign (.own value))

/-- The prefix form of a tree, as far as there is room. -/
def prefixFormWithin (room : Nat → Tree φ → Bool) (t : Tree φ) :
    Except (PrintFault (CutLeaf φ)) String :=
  (t.cut room 0).prefixForm

/-- The outline of a list of trees, as far as there is room. -/
def outlineWithin (room : Nat → Tree φ → Bool) (trees : List (Tree φ)) :
    Written (PrintFault (CutLeaf φ)) :=
  outline (trees.map (cut room 0))

end Tree

/-! ## Record form -/

/-- The record form of an expression. -/
def Tree.record : Expr → String
  | .number value => s!"Number(value={value.shortest})"
  | .text value => s!"String(value={quoted value})"
  | .truth true => "Bool(value=True)"
  | .truth false => "Bool(value=False)"
  | .nil => "Nil()"
  | .name spelling => s!"Variable(name={quoted spelling})"
  | .unary operator operand => s!"Unary(operator={operator.tag}, operand={operand.record})"
  | .binary left operator right =>
    s!"Binary(left={left.record}, operator={operator.tag}, right={right.record})"
  | .group inner => s!"Grouping(inner={inner.record})"

end LoxSyntax
