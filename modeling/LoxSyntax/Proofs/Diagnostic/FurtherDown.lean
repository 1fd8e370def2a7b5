import LoxSyntax.Diagnostic.Source
import LoxSyntax.Proofs.Lexeme.FaultPlace
import LoxSyntax.Proofs.Lexeme.Restart
import LoxSyntax.Proofs.Lexeme.TokenPlace
set_option autoImplicit false

/-! # Starting again at a line feed

Behind a text that has tokens and a line feed, dividing starts again. Whatever stands there has the
tokens that it has by itself, or the same fault in the same column, as many lines further down as
the text and the line feed take up (`scanSource_append_lineFeed`). -/

namespace LoxSyntax

/-- The diagnostic for a text that ends with the one it is about, some lines further down. -/
def Diagnostic.below (lines : Nat) (source : String) (d : Diagnostic) : Diagnostic :=
  { d with line := d.line + lines, source }

/-- A fault further down is diagnosed as it is by itself, but for the line and the text. -/
theorem LocatedFault.diagnostic_below (lines : Nat) (f : LocatedFault)
    (source whole filename : String) :
    (f.below lines).diagnostic whole filename =
      (f.diagnostic source filename).below lines whole :=
  rfl

/-- A text that stands below another one, which has tokens, has the tokens that it has by itself
    behind those of the other but the end of the input, or the diagnostic that it has by itself. Its
    tokens and its diagnostic are as many lines further down as the other text and the line feed
    between the two take up; nothing else about them changes. -/
theorem scanSource_append_lineFeed (a b filename : String) (tokens : List Token)
    (ha : scanSource a filename = .ok tokens) :
    ∃ before, tokens = before ++ [Token.endOfInput (1 + a.toList.count '\n' : Nat)] ∧
      (∀ more, scanSource b filename = .ok more →
        scanSource (a ++ "\n" ++ b) filename =
          .ok (before ++ more.map (Token.below (1 + a.toList.count '\n')))) ∧
      ∀ d, scanSource b filename = .error d →
        scanSource (a ++ "\n" ++ b) filename =
          .error (d.below (1 + a.toList.count '\n') (a ++ "\n" ++ b)) := by
  have hscan := scanSource_eq_ok_iff.mp ha
  obtain ⟨before, rfl, -⟩ := exists_body_of_scanText hscan
  refine ⟨before, rfl, fun more hb => ?_, fun d hb => ?_⟩
  · rw [scanSource_eq_ok_iff] at hb ⊢
    obtain ⟨body, rfl, -⟩ := exists_body_of_scanText hb
    exact scanText_append_lineFeed hscan hb
  · obtain ⟨f, hf, rfl⟩ := mapError_eq_error_iff.mp hb
    rw [scanSource, scanText_append_lineFeed_of_fault hscan hf, ← LocatedFault.diagnostic_below]
    rfl

/-- Below a text that ends with half a comparison and a comment, a quote that stays open. -/
theorem scanSource_append_lineFeed_open_quote :
    let a := "a <\n// \"b"
    let b := "= 1\n  \"c\n"
    let d : Diagnostic :=
      { cause := .unterminatedText, line := 2, column := some 3, source := b, filename := "f" }
    (scanSource a "f").map (List.map Token.kind) = .ok [.identifier, .less, .endOfInput] ∧
      scanSource b "f" = .error d ∧
      scanSource (a ++ "\n" ++ b) "f" =
        .error { d with line := 4, source := a ++ "\n" ++ b } := by
  intro a b d
  have ha : scanSource a "f" = .ok
      [⟨.identifier, "a", none, 1⟩, ⟨.less, "<", none, 1⟩, .endOfInput 2] := by decide +kernel
  have hb : scanSource b "f" = .error d := by decide +kernel
  obtain ⟨before, -, -, hfault⟩ := scanSource_append_lineFeed a b "f" _ ha
  have hlines : 1 + a.toList.count '\n' = 2 := by decide
  refine ⟨by rw [ha]; rfl, hb, ?_⟩
  rw [hfault d hb, hlines]
  rfl

end LoxSyntax
