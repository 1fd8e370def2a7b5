import LoxSyntax.Diagnostic.Source
import LoxSyntax.Proofs.Expr.Relabeling
import LoxSyntax.Proofs.Lexeme.Returns
set_option autoImplicit false

/-! # Line ends do not matter

A program may reach the reader with its carriage returns or without them: a file is read with its
line ends unified, a text that an editor sends is not. Both give the same, on the same lines and in
the same columns, but for the line ends inside quoted texts. -/

namespace LoxSyntax

/-- The cause, at other tokens. -/
def Cause.mapToken (f : Token → Token) : Cause → Cause
  | unexpectedToken found => unexpectedToken (f found)
  | expectedToken expected found => expectedToken expected (f found)
  | nestedTooDeeply found limit => nestedTooDeeply (f found) limit
  | integerTooLarge found => integerTooLarge (f found)
  | cause => cause

/-- The diagnostic for a text with its line ends unified: of the same kind and at the same place. -/
def Diagnostic.dropReturns (d : Diagnostic) : Diagnostic :=
  { d with
    cause := d.cause.mapToken Token.dropReturns
    source := LoxSyntax.dropReturns d.source }

theorem Token.operandRole_dropReturns (t : Token) :
    t.dropReturns.operandRole = t.operandRole.mapText LoxSyntax.dropReturns := by
  by_cases h : t.kind = .text
  · simp [dropReturns, operandRole, h, OperandRole.mapText, Tree.mapText]
  · rw [dropReturns_of_ne h]
    fun_cases operandRole t <;> simp_all [OperandRole.mapText, Frame.mapText, Tree.mapText]

/-- Unifying the line ends inside quoted texts changes nothing that the reader looks at. -/
def unifying : Relabeling where
  token := Token.dropReturns
  text := dropReturns
  line := id
  kind_token := Token.kind_dropReturns
  line_token := Token.line_dropReturns
  operandRole_token := Token.operandRole_dropReturns

/-- The fault at tokens with their line ends unified has the diagnostic of the fault for the text
    with its line ends unified. -/
theorem diagnostic_unifying (f : SyntaxFault) (source filename : String) :
    (unifying.fault f).diagnostic (dropReturns source) filename =
      (f.diagnostic source filename).dropReturns := by
  cases f <;> simp [Relabeling.fault, SyntaxFault.diagnostic, SyntaxFault.cause, SyntaxFault.line,
    Diagnostic.dropReturns, Cause.mapToken, unifying]

/-- The tokens of a text end with the end of the input. -/
theorem exists_stop_of_scanSource_eq_ok {source filename : String} {tokens : List Token}
    (h : scanSource source filename = .ok tokens) :
    ∃ stop ∈ tokens.getLast?, stop.isEnd = true := by
  rw [scanSource_eq_ok_iff] at h
  obtain ⟨ls, _, _, rfl⟩ := exists_lexemes_of_scanText_eq_ok h
  exact ⟨_, List.getLast?_concat .., rfl⟩

/-- A text in which no carriage return stands alone has the tokens and the expressions that it has
    with its line ends unified, in either of the ways there are, and the same faults at the same
    places. Only inside quoted texts the line ends stay what they are. -/
theorem scan_and_parse_dropReturns (source filename : String)
    (h : ReturnsPaired source.toList) :
    unifyLineEnds source.toList = (dropReturns source).toList ∧
      scanSource (dropReturns source) filename =
        ((scanSource source filename).map (List.map Token.dropReturns)).mapError
          Diagnostic.dropReturns ∧
      parseSource (dropReturns source) filename =
        ((parseSource source filename).map (List.map (Tree.mapText dropReturns))).mapError
          Diagnostic.dropReturns := by
  have hunify : unifyLineEnds source.toList = (dropReturns source).toList := by
    rw [unifyLineEnds_eq h, dropReturns, String.toList_ofList]
  have hscan : scanSource (dropReturns source) filename =
      ((scanSource source filename).map (List.map Token.dropReturns)).mapError
        Diagnostic.dropReturns := by
    rw [scanSource, scanSource, scanText_withoutReturns h]
    rcases scanText source with ⟨fault, position⟩ | tokens
    · cases fault <;> rfl
    · rfl
  refine ⟨hunify, hscan, ?_⟩
  simp only [parseSource]
  rw [hscan]
  rcases htokens : scanSource source filename with d | tokens
  · rfl
  · have hend := exists_stop_of_scanSource_eq_ok htokens
    show parseFrom (tokens.map unifying.token) _ _ =
      ((parseFrom tokens source filename).map _).mapError _
    rw [parseFrom, parseFrom, parseTokens_relabel unifying hend]
    rcases parseTokens tokens with f | es
    · exact congrArg Except.error (diagnostic_unifying f source filename)
    · rfl

/-- Carriage returns at the end of a comment, inside a quoted text and between tokens. -/
theorem parse_dropReturns_two_lines :
    let source := "a // b\r\n+ \"c\r\nd\"\r\n"
    let unified := "a // b\n+ \"c\nd\"\n"
    ReturnsPaired source.toList ∧ dropReturns source = unified ∧
      parseSource source = .ok [.binary (.name "a") .plus (.text "c\r\nd")] ∧
      parseSource unified = .ok [.binary (.name "a") .plus (.text "c\nd")] := by
  intro source unified
  have hpaired : ReturnsPaired source.toList := by decide +kernel
  have hunified : dropReturns source = unified := by decide +kernel
  have hparse : parseSource source = .ok [.binary (.name "a") .plus (.text "c\r\nd")] := by
    decide +kernel
  have htext : dropReturns "c\r\nd" = "c\nd" := by decide +kernel
  have h := (scan_and_parse_dropReturns source unnamedInput hpaired).2.2
  rw [hunified, hparse] at h
  refine ⟨hpaired, hunified, hparse, ?_⟩
  simpa [Except.map, Except.mapError, Tree.mapText, htext] using h

end LoxSyntax
