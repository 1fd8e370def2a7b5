import LoxSyntax.Proofs.Expr.Relabeling
set_option autoImplicit false

/-! # Lines do not matter to the reader

The reader of expressions looks at kinds, spellings and values. The lines of tokens it only passes
on, in the faults that it finds: tokens that differ in their lines alone are read as the same
expressions, or with the same fault but for its line. The main statement is
`parseTokens_congr_unplaced`. -/

namespace LoxSyntax

/-- The token without the line that it is on. -/
def Token.unplaced (t : Token) : Token := { t with line := 0 }

/-- The fault without the line that it is on. -/
def SyntaxFault.unplaced : SyntaxFault → SyntaxFault
  | .unexpected found => .unexpected found.unplaced
  | .unclosedGroup found => .unclosedGroup found.unplaced
  | .unexpectedEnd _ => .unexpectedEnd 0
  | .tooDeep found => .tooDeep found.unplaced
  | .tooLarge found => .tooLarge found.unplaced

/-- Taking the lines away changes nothing that the reader of expressions looks at. -/
def unplacing : Relabeling where
  token := Token.unplaced
  text := id
  line := fun _ => 0
  kind_token _ := rfl
  line_token _ := rfl
  operandRole_token t := (OperandRole.mapText_id t.operandRole).symm

theorem unplacing_result {x : Except SyntaxFault (List Expr)} :
    unplacing.result (List.map (Tree.mapText unplacing.text)) x =
      x.mapError SyntaxFault.unplaced := by
  have hfault : unplacing.fault = SyntaxFault.unplaced := by
    funext f
    cases f <;> rfl
  have htext : List.map (Tree.mapText (φ := Empty) unplacing.text) = id := by
    funext es
    exact List.map_id'' Tree.mapText_id es
  rw [Relabeling.result, hfault, htext]
  cases x <;> rfl

theorem Progress.read_unplaced (room : Nat) (stop : Token) (ts : List Token) :
    Progress.read room stop.unplaced {} (ts.map Token.unplaced) =
      (Progress.read room stop {} ts).mapError SyntaxFault.unplaced := by
  rw [← unplacing_result]
  exact Progress.read_relabel unplacing room {} stop ts

/-- The token that ends the input is the same one but for its line. -/
theorem stop_ofTokens_unplaced (ts : List Token) :
    (TokenCursor.ofTokens (ts.map Token.unplaced)).stop.unplaced =
      (TokenCursor.ofTokens ts).stop.unplaced := by
  simp only [TokenCursor.ofTokens, List.find?_map]
  have hsame : (fun t : Token => t.isEnd) ∘ Token.unplaced = fun t => t.isEnd := rfl
  rw [hsame]
  cases ts.find? (fun t => t.isEnd) <;> rfl

/-- Tokens are read the same without their lines, a fault told without its line. -/
theorem parseTokens_unplaced (ts : List Token) :
    (parseTokens (ts.map Token.unplaced)).mapError SyntaxFault.unplaced =
      (parseTokens ts).mapError SyntaxFault.unplaced := by
  have hbody : (TokenCursor.ofTokens (ts.map Token.unplaced)).body =
      (TokenCursor.ofTokens ts).body.map Token.unplaced := by
    simp only [TokenCursor.ofTokens, List.takeWhile_map]
    rfl
  rw [parseTokens_eq_read, parseTokens_eq_read, ← Progress.read_unplaced,
    ← Progress.read_unplaced, stop_ofTokens_unplaced, hbody, List.map_map]
  rfl

/-- Tokens that differ in their lines alone are read the same, but for the line of a fault. -/
theorem parseTokens_congr_unplaced {ts us : List Token}
    (h : ts.map Token.unplaced = us.map Token.unplaced) :
    (parseTokens ts).mapError SyntaxFault.unplaced =
      (parseTokens us).mapError SyntaxFault.unplaced := by
  rw [← parseTokens_unplaced ts, h, parseTokens_unplaced us]

end LoxSyntax
