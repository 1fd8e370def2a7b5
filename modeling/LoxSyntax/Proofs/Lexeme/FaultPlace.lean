import LoxSyntax.Diagnostic.Source
import LoxSyntax.Proofs.Lexeme.Uniqueness
import LoxSyntax.Proofs.Text.LineBreaks
set_option autoImplicit false

/-! # Where a text is refused

A text is refused at a character that begins no lexeme, or at a quote without another one after it.
What stands in front of that place is in order, and what stands behind it is not looked at, but for
the search for the other quote. The main statement is `scanSource_fault_place`. -/

namespace LoxSyntax

/-- The characters that symbols begin with. -/
def symbolFirsts : List Char :=
  ['(', ')', '\x7b', '\x7d', ',', '.', '-', '+', ';', '*', '!', '=', '<', '>', '/']

/-- Is the character neither blank nor one that a comment or the spelling of a token begins with? -/
def BeginsNoLexeme (c : Char) : Prop :=
  isBlank c = false ∧ isWordChar c = false ∧ c ∉ symbolFirsts ∧ c ≠ '"'

theorem symbolKind?_eq_none_iff {c : Char} {equalFollows : Bool} :
    symbolKind? c equalFollows = none ↔ c ∉ symbolFirsts := by
  constructor
  · intro h hmem
    have hall : symbolFirsts.all (fun d => (symbolKind? d equalFollows).isSome) = true := by
      cases equalFollows <;> decide
    have := List.all_eq_true.mp hall c hmem
    rw [h] at this
    cases this
  · intro h
    unfold symbolKind?
    split <;> first | rfl | exact absurd (by decide) h

namespace Lexeme

/-- Reading a lexeme fails at what begins none, and at a quote without another one after it. -/
theorem read_eq_error_iff {c : Char} {rest : List Char} {fault : LexicalFault} :
    read c rest = .error fault ↔
      fault = .unexpectedCharacter c ∧ BeginsNoLexeme c ∨
        fault = .unterminatedText ∧ c = '"' ∧ '"' ∉ rest := by
  constructor
  · fun_cases read c rest with
    | case1 | case2 | case3 | case5 | case6 | case7 => rintro ⟨⟩
    | case4 _ _ hquote hopen =>
      rintro ⟨⟩
      exact Or.inr ⟨rfl, hquote, by simpa using hopen⟩
    | case8 hblank _ hquote hdigit hletter hkind =>
      rintro ⟨⟩
      have hword : isWordChar c = false := by simp [isWordChar, hletter, hdigit]
      exact Or.inl ⟨rfl, by simpa using hblank, hword, symbolKind?_eq_none_iff.mp hkind, hquote⟩
  · rintro (⟨rfl, hblank, hword, hsymbol, hquote⟩ | ⟨rfl, rfl, hopen⟩)
    · obtain ⟨hletter, hdigit⟩ := Bool.or_eq_false_iff.mp hword
      have hslash : c ≠ '/' := by
        rintro rfl
        exact hsymbol (by decide)
      have hkind : symbolKind? c (rest.head? = some '=') = none :=
        symbolKind?_eq_none_iff.mpr hsymbol
      simp [read, hblank, hslash, hquote, hdigit, hletter, hkind]
    · have hblank : isBlank '"' = false := by decide
      simp [read, hblank, hopen]

theorem ne_point_of_read_eq_error {c : Char} {rest : List Char} {fault : LexicalFault}
    (h : read c rest = .error fault) : c ≠ '.' := by
  rintro rfl
  rcases read_eq_error_iff.mp h with ⟨_, hbegins⟩ | ⟨_, hquote, _⟩
  · exact hbegins.2.2.1 (by decide)
  · cases hquote

theorem isBlank_of_read_eq_error {c : Char} {rest : List Char} {fault : LexicalFault}
    (h : read c rest = .error fault) : isBlank c = false := by
  rcases read_eq_error_iff.mp h with ⟨_, hblank, _⟩ | ⟨_, rfl, _⟩
  · exact hblank
  · decide

end Lexeme

/-! ## The diagnostic of a fault -/

namespace LocatedFault

variable (fault : LexicalFault) (before : List Char) (source filename : String)

/-- The diagnostic of a fault that stands behind the given characters. -/
def diagnosticBehind : Diagnostic :=
  diagnostic ⟨fault, Position.start.advanceBy before⟩ source filename

theorem line_diagnosticBehind :
    (diagnosticBehind fault before source filename).line = (1 + before.count '\n' : Nat) :=
  congrArg Nat.cast (Position.line_advanceBy .start before)

theorem column_diagnosticBehind :
    (diagnosticBehind fault before source filename).column =
      some ((1 + (before.rtakeWhile (· ≠ '\n')).length : Nat) : Int) :=
  congrArg some (congrArg Nat.cast (Position.column_advanceBy_start before))

end LocatedFault

/-- A text is refused with the diagnostic of a fault behind well-divided lexemes. -/
theorem exists_lexemes_of_scanSource_eq_error {source filename : String} {d : Diagnostic}
    (h : scanSource source filename = .error d) :
    ∃ ls c after fault, source.toList = ls.flatMap Lexeme.spelling ++ c :: after ∧
      IsDivision (c :: after) ls ∧ Lexeme.read c after = .error fault ∧
      d = LocatedFault.diagnosticBehind fault (ls.flatMap Lexeme.spelling) source filename := by
  obtain ⟨⟨fault, position⟩, hscan, rfl⟩ := mapError_eq_error_iff.mp h
  obtain ⟨ls, c, after, hsource, hdivision, hread, rfl⟩ := exists_lexemes_of_scanText_eq_error hscan
  exact ⟨ls, c, after, fault, hsource, hdivision, hread, rfl⟩

theorem scanSource_of_read_eq_error {ls : List Lexeme} {c : Char} {after : List Char}
    {fault : LexicalFault} (h : IsDivision (c :: after) ls)
    (hread : Lexeme.read c after = .error fault) (filename : String) :
    let before := ls.flatMap Lexeme.spelling
    let source := String.ofList (before ++ c :: after)
    scanSource source filename =
      .error (LocatedFault.diagnosticBehind fault before source filename) := by
  intro before source
  rw [scanSource, scanText_of_read_eq_error h hread]
  rfl

/-- A text that is refused is refused at one place: what stands in front of it can be turned into
    tokens, its line and column are told, and any text that goes on from there is refused with the
    same words, or any such text without a further quote. -/
theorem scanSource_fault_place (source filename : String) (d : Diagnostic)
    (h : scanSource source filename = .error d) :
    ∃ before c after, source.toList = before ++ c :: after ∧
      (∃ tokens, scanText (String.ofList before) = .ok tokens) ∧
      d.line = (1 + before.count '\n' : Nat) ∧
      d.column = some ((1 + (before.rtakeWhile (· ≠ '\n')).length : Nat) : Int) ∧
      (d.cause = .unexpectedCharacter (String.singleton c) ∧ BeginsNoLexeme c ∧
          (∀ more name, scanSource (String.ofList (before ++ c :: more)) name =
            .error { d with source := String.ofList (before ++ c :: more), filename := name }) ∨
        d.cause = .unterminatedText ∧ c = '"' ∧ '"' ∉ after ∧
          ∀ more name, '"' ∉ more → scanSource (String.ofList (before ++ c :: more)) name =
            .error { d with source := String.ofList (before ++ c :: more), filename := name }) := by
  obtain ⟨ls, c, after, fault, hsource, hdivision, hread, rfl⟩ :=
    exists_lexemes_of_scanSource_eq_error h
  have hbefore := scanText_of_isDivision (@IsDivision.of_append _ [] _ hdivision)
  refine ⟨_, c, after, hsource, ⟨_, hbefore⟩, LocatedFault.line_diagnosticBehind ..,
    LocatedFault.column_diagnosticBehind .., ?_⟩
  -- a text that goes on from the fault is divided in the same way up to it
  have hdivided := hdivision.replace (Lexeme.ne_point_of_read_eq_error hread)
  rcases Lexeme.read_eq_error_iff.mp hread with ⟨rfl, hbegins⟩ | ⟨rfl, hquote, hopen⟩
  · refine Or.inl ⟨rfl, hbegins, fun more name => ?_⟩
    have hmore : Lexeme.read c more = .error (.unexpectedCharacter c) :=
      Lexeme.read_eq_error_iff.mpr (Or.inl ⟨rfl, hbegins⟩)
    rw [scanSource_of_read_eq_error (hdivided more) hmore]
    rfl
  · refine Or.inr ⟨rfl, hquote, hopen, fun more name hmoreOpen => ?_⟩
    have hmore : Lexeme.read c more = .error .unterminatedText :=
      Lexeme.read_eq_error_iff.mpr (Or.inr ⟨rfl, hquote, hmoreOpen⟩)
    rw [scanSource_of_read_eq_error (hdivided more) hmore]
    rfl

/-- A quote that stays open behind a comment with another one. -/
theorem scanSource_fault_place_after_comment :
    let source := "a //\"\n \"b\nc"
    let d : Diagnostic :=
      { cause := .unterminatedText, line := 2, column := some 2, source, filename := "f" }
    scanSource source "f" = .error d ∧
      ∃ before c after, source.toList = before ++ c :: after ∧
        (∃ tokens, scanText (String.ofList before) = .ok tokens) ∧
        d.line = (1 + before.count '\n' : Nat) ∧
        d.column = some ((1 + (before.rtakeWhile (· ≠ '\n')).length : Nat) : Int) ∧
        (d.cause = .unexpectedCharacter (String.singleton c) ∧ BeginsNoLexeme c ∧
            (∀ more name, scanSource (String.ofList (before ++ c :: more)) name =
              .error { d with source := String.ofList (before ++ c :: more), filename := name }) ∨
          d.cause = .unterminatedText ∧ c = '"' ∧ '"' ∉ after ∧
            ∀ more name, '"' ∉ more → scanSource (String.ofList (before ++ c :: more)) name =
              .error
                { d with source := String.ofList (before ++ c :: more), filename := name }) := by
  intro source d
  have hscan : scanSource source "f" = .error d := by decide +kernel
  exact ⟨hscan, scanSource_fault_place source "f" d hscan⟩

end LoxSyntax
