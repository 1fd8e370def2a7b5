import LoxSyntax.Proofs.Lexeme.FaultPlace
set_option autoImplicit false

/-! # Passes after a fault

A scan that met a fault can be asked for further passes. In front of a character that begins no
lexeme it has not moved, and meets the same fault each time. The search for a closing quote has
taken it to the end of the text, though: nothing is left to be refused there, and each further pass
succeeds with the tokens in front of the quote. The main statement is `pass_after_fault`. -/

namespace LoxSyntax

namespace Scan

/-- The scan after a number of passes, whatever came of them. -/
def passes : Nat → Scan → Scan
  | 0, s => s
  | n + 1, s => passes n s.pass.2

/-- At the end of the text, a pass adds the end of the input. -/
theorem pass_exhausted (p : Position) (tokens : List Token) :
    pass ⟨[], p, tokens⟩ =
      (.ok (tokens ++ [.endOfInput p.line]), ⟨[], p, tokens ++ [.endOfInput p.line]⟩) := by
  have hpass := @pass_of_isDivision [] trivial p tokens
  simpa [tokensFrom] using hpass

theorem passes_exhausted (p : Position) (tokens : List Token) (n : Nat) :
    passes n ⟨[], p, tokens⟩ = ⟨[], p, tokens ++ List.replicate n (.endOfInput p.line)⟩ := by
  induction n generalizing tokens with
  | zero => simp [passes]
  | succ n ih =>
    rw [passes, pass_exhausted, ih, List.append_assoc]
    rfl

/-- A pass that does not move the scan is the last one that does anything. -/
theorem passes_of_fixed {s : Scan} (h : s.pass.2 = s) (n : Nat) : s.passes n = s := by
  induction n with
  | zero => rfl
  | succ n ih => rw [passes, h, ih]

/-- In front of a character that begins no lexeme, a pass meets the fault and does not move. -/
theorem pass_of_beginsNoLexeme {c : Char} (h : BeginsNoLexeme c) (rest : List Char) (p : Position)
    (tokens : List Token) :
    pass ⟨c :: rest, p, tokens⟩ =
      (.error ⟨.unexpectedCharacter c, p⟩, ⟨c :: rest, p, tokens⟩) := by
  have hread : Lexeme.read c rest = .error (.unexpectedCharacter c) :=
    Lexeme.read_eq_error_iff.mpr (Or.inl ⟨rfl, h⟩)
  have hpass := @pass_of_read_eq_error rest [] c _ trivial hread p tokens
  simpa [tokensFrom, stopAt] using hpass

end Scan

/-- After a fault, further passes meet the same fault when it is an unexpected character. After a
    quote that is not closed they succeed, with the tokens of the text in front of the quote and one
    end of the input for each pass. -/
theorem pass_after_fault (text : String) (f : LocatedFault) (h : scanText text = .error f)
    (n : Nat) :
    let later := ((Scan.ofText text).passes (n + 1)).pass.1
    (f.fault ≠ .unterminatedText → later = .error f) ∧
      (f.fault = .unterminatedText → ∃ before after tokens,
        text.toList = before ++ '"' :: after ∧
          scanText (String.ofList before) =
            .ok (tokens ++ [.endOfInput (1 + before.count '\n' : Nat)]) ∧
          later = .ok (tokens ++
            List.replicate (n + 1) (.endOfInput (1 + text.toList.count '\n' : Nat)))) := by
  obtain ⟨ls, c, rest, htext, hdivision, hread, hposition⟩ := exists_lexemes_of_scanText_eq_error h
  have hfirst := Scan.pass_of_read_eq_error hdivision hread .start []
  rw [← htext, ← hposition, List.nil_append] at hfirst
  have hnext : (Scan.ofText text).passes (n + 1) =
      Scan.passes n (Scan.stopAt f.fault f.position (c :: rest) (tokensFrom .start ls)) :=
    congrArg (fun result : Except LocatedFault (List Token) × Scan => Scan.passes n result.2) hfirst
  intro later
  rcases Lexeme.read_eq_error_iff.mp hread with ⟨hfault, hbegins⟩ | ⟨hfault, rfl, _⟩
  · refine ⟨fun _ => ?_, fun hopen => ?_⟩
    · have hpass := Scan.pass_of_beginsNoLexeme hbegins rest f.position (tokensFrom .start ls)
      simp only [later, hnext, hfault, Scan.stopAt]
      rw [Scan.passes_of_fixed (by rw [hpass]), hpass, ← hfault]
    · rw [hfault] at hopen
      cases hopen
  · refine ⟨fun hne => absurd hfault hne, fun _ => ?_⟩
    have hbefore := scanText_of_isDivision (@IsDivision.of_append _ [] _ hdivision)
    refine ⟨_, rest, _, htext, hbefore, ?_⟩
    have hline : (f.position.advanceBy ('"' :: rest)).line = 1 + text.toList.count '\n' := by
      rw [hposition, ← Position.advanceBy_append, ← htext, Position.line_advanceBy]
      rfl
    simp only [later, hnext, hfault, Scan.stopAt, Scan.passes_exhausted, Scan.pass_exhausted, hline]
    rw [List.append_assoc, ← List.replicate_succ']

/-- An unexpected character is met by each pass, as the first one did. -/
theorem pass_after_fault_twice :
    let f : LocatedFault := ⟨.unexpectedCharacter '@', ⟨2, 3⟩⟩
    scanText "a\n+ @" = .error f ∧ ((Scan.ofText "a\n+ @").passes 2).pass.1 = .error f :=
  have hscan : scanText "a\n+ @" = .error ⟨.unexpectedCharacter '@', ⟨2, 3⟩⟩ := by decide +kernel
  ⟨hscan, (pass_after_fault _ _ hscan 1).1 (by decide)⟩

/-- A quote that is not closed is met by the first pass only. -/
theorem pass_after_open_quote :
    scanText "1 \"a" = .error ⟨.unterminatedText, ⟨1, 3⟩⟩ ∧
      ((Scan.ofText "1 \"a").passes 1).pass.1 =
        .ok [⟨.number, "1", some (.number .one), 1⟩, .endOfInput 1] := by
  decide +kernel

end LoxSyntax
