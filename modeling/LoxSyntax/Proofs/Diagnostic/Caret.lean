import LoxSyntax.Proofs.Lexeme.FaultPlace
set_option autoImplicit false

/-! # The caret of a report

The report on a diagnostic with a column ends in two rows: the quoted line behind its number and a
bar, and a caret behind a margin of the same width (`Diagnostic.report_rows`). Lines are numbered by
line feeds but quoted as a reader sees them. So the caret of a refused text stands below the
character at fault as long as the text breaks at line feeds only, up to the end of that line
(`report_caret_below_fault`); another line break in front of it makes the report quote a line that
need not hold the character. -/

namespace LoxSyntax

theorem lineFeed_not_mem_toString (n : Nat) : '\n' ∉ (toString (n : Int)).toList := by
  change '\n' ∉ (Nat.repr n).toList
  rw [Nat.toList_repr]
  intro hmem
  exact absurd (Nat.isDigit_of_mem_toDigits (by omega) (by omega) hmem) (by decide)

theorem lineFeed_not_mem_lineAround (before after : List Char) :
    '\n' ∉ dropReturn (lineAround before after) := by
  have hline : '\n' ∉ lineAround before after := by
    rw [lineAround, List.mem_append, not_or]
    refine ⟨fun hmem => ?_, fun hmem => ?_⟩
    · simpa using List.mem_rtakeWhile_imp hmem
    · simpa using List.mem_takeWhile_imp hmem
  unfold dropReturn
  split
  · exact fun hmem => hline ((List.dropLast_sublist _).subset hmem)
  · exact hline

namespace Diagnostic

/-- A report on a column ends in the quoted line and a row with a caret below that column. -/
theorem report_rows (d : Diagnostic) {column : Nat}
    (h : d.column = some ((1 + column : Nat) : Int)) :
    ∃ head, d.report.toList =
      head ++ '\n' :: ((toString d.line).toList ++ [' ', '|', ' '] ++ d.quotedLine.toList) ++
        '\n' :: (List.replicate ((toString d.line).length + 1) ' ' ++ ['|', ' '] ++
          List.replicate column ' ') ++ ['^'] := by
  have hpad : ((1 + column : Nat) - 1 : Int).toNat = column := by omega
  let gutter := spaces ((toString d.line).length + 1)
  refine ⟨s!"error: {d.message}\n{gutter}--> {d.location d.filename}\n{gutter}|".toList, ?_⟩
  -- the equation of `reportAs` takes long to derive
  delta report reportAs
  simp only [h, hpad, gutter, spaces, String.toList_append, toString]
  simp

/-- The quoted line, as the characters of a reader's line. -/
theorem toList_quotedLine (d : Diagnostic) {count : Nat} (h : d.line = (1 + count : Nat)) :
    d.quotedLine.toList = (splitLines d.source.toList).getD count [] := by
  have hpos : (1 : Int) ≤ (1 + count : Nat) := by omega
  have hindex : (((1 + count : Nat) : Int) - 1).toNat = count := by omega
  simp only [quotedLine, lineAt?, h, if_pos hpos, hindex, textLines, List.getElem?_map]
  cases hline : (splitLines d.source.toList)[count]? with
  | none => simp [hline]
  | some line => simp [hline]

/-- Where line and column are those of a character, the caret stands below it if the text breaks at
    line feeds only up to the end of the line. -/
theorem caret_below {d : Diagnostic} {before after : List Char} {c : Char}
    (hsource : d.source.toList = before ++ c :: after) (hreturn : c ≠ '\r') (hfeed : c ≠ '\n')
    (hline : d.line = (1 + before.count '\n' : Nat))
    (hcolumn : d.column = some ((1 + (before.rtakeWhile (· ≠ '\n')).length : Nat) : Int))
    (hbreaks : BreaksAtLineFeeds (before ++ (c :: after).takeWhile (· ≠ '\n'))) :
    ∃ head row margin, d.report.toList = head ++ '\n' :: row ++ '\n' :: margin ++ ['^'] ∧
      '\n' ∉ row ∧ '\n' ∉ margin ∧ '^' ∉ margin ∧
      row = (toString d.line).toList ++ [' ', '|', ' '] ++
        dropReturn (lineAround before (c :: after)) ∧
      row[margin.length]? = some c := by
  obtain ⟨head, hreport⟩ := report_rows d hcolumn
  rw [toList_quotedLine d hline, hsource, getD_splitLines hbreaks] at hreport
  refine ⟨head, _, _, hreport, ?_, by simp, by simp, rfl, ?_⟩
  · rw [List.mem_append, List.mem_append, not_or, not_or, hline]
    exact ⟨⟨lineFeed_not_mem_toString _, by simp⟩, lineFeed_not_mem_lineAround _ _⟩
  · -- the line goes on with the character after as many others as the margin is long
    have haround : dropReturn (lineAround before (c :: after)) =
        before.rtakeWhile (· ≠ '\n') ++ c :: dropReturn (after.takeWhile (· ≠ '\n')) := by
      rw [lineAround, List.takeWhile_cons_of_pos (by simpa using hfeed),
        dropReturn_append_cons hreturn]
    rw [haround, ← List.append_assoc]
    have hmargin : ∀ number start : List Char,
        (List.replicate (number.length + 1) ' ' ++ ['|', ' '] ++
            List.replicate start.length ' ').length =
          (number ++ [' ', '|', ' '] ++ start).length := by
      intro number start
      simp only [List.length_append, List.length_replicate, List.length_cons, List.length_nil]
    rw [← String.length_toList, hmargin, List.getElem?_append_right (Nat.le_refl _), Nat.sub_self]
    rfl

end Diagnostic

/-- The report on a refused text ends in the line with the character at fault, as line feeds divide
    the text, and a row with a caret below that character, if the text breaks at line feeds only up
    to the end of that line. -/
theorem report_caret_below_fault (source filename : String) (d : Diagnostic)
    (h : scanSource source filename = .error d) :
    ∃ before c after, source.toList = before ++ c :: after ∧
      (∃ tokens, scanText (String.ofList before) = .ok tokens) ∧
      (d.cause = .unexpectedCharacter (String.singleton c) ∨
        d.cause = .unterminatedText ∧ c = '"') ∧
      (BreaksAtLineFeeds (before ++ (c :: after).takeWhile (· ≠ '\n')) →
        ∃ head row margin, d.report.toList = head ++ '\n' :: row ++ '\n' :: margin ++ ['^'] ∧
          '\n' ∉ row ∧ '\n' ∉ margin ∧ '^' ∉ margin ∧
          row = (toString d.line).toList ++ [' ', '|', ' '] ++
            dropReturn (lineAround before (c :: after)) ∧
          row[margin.length]? = some c) := by
  obtain ⟨ls, c, after, fault, hsource, hdivision, hread, rfl⟩ :=
    exists_lexemes_of_scanSource_eq_error h
  have hbefore := scanText_of_isDivision (@IsDivision.of_append _ [] _ hdivision)
  have hblank := Lexeme.isBlank_of_read_eq_error hread
  have hfeed : c ≠ '\n' := by
    rintro rfl
    cases hblank.symm.trans isBlank_lineFeed
  have hreturn : c ≠ '\r' := by
    rintro rfl
    cases hblank.symm.trans isBlank_carriageReturn
  refine ⟨_, c, after, hsource, ⟨_, hbefore⟩, ?_, ?_⟩
  · rcases Lexeme.read_eq_error_iff.mp hread with ⟨rfl, _⟩ | ⟨rfl, hquote, _⟩
    · exact Or.inl rfl
    · exact Or.inr ⟨rfl, hquote⟩
  · exact Diagnostic.caret_below hsource hreturn hfeed (LocatedFault.line_diagnosticBehind ..)
      (LocatedFault.column_diagnosticBehind ..)

/-- A carriage return in front of a line feed and a tabulator in front of the character. -/
theorem report_caret_below_fault_behind_tabulator :
    let source := "a\r\n\t@ b\r\n"
    let d : Diagnostic :=
      { cause := .unexpectedCharacter "@", line := 2, column := some 2, source, filename := "f" }
    scanSource source "f" = .error d ∧ BreaksAtLineFeeds source.toList ∧
      ∃ before c after head row margin, source.toList = before ++ c :: after ∧
        d.report.toList = head ++ '\n' :: row ++ '\n' :: margin ++ ['^'] ∧ '\n' ∉ row ∧
        row = (toString d.line).toList ++ [' ', '|', ' '] ++
          dropReturn (lineAround before (c :: after)) ∧
        row[margin.length]? = some c := by
  intro source d
  have hscan : scanSource source "f" = .error d := by decide +kernel
  have hbreaks : BreaksAtLineFeeds source.toList := by decide
  refine ⟨hscan, hbreaks, ?_⟩
  obtain ⟨before, c, after, hsource, _, _, hcaret⟩ := report_caret_below_fault source "f" d hscan
  rw [hsource] at hbreaks
  obtain ⟨head, row, margin, hreport, hrow, _, _, hquoted, habove⟩ := hcaret hbreaks.to_line_end
  exact ⟨before, c, after, head, row, margin, hsource, hreport, hrow, hquoted, habove⟩

/-- Behind a form feed, the report quotes the empty line in front of it: the caret is in the column
    of the character, and below nothing. -/
theorem report_caret_below_nothing :
    let d : Diagnostic :=
      { cause := .unexpectedCharacter "%", line := 1, column := some 2, source := "\x0c%" }
    scanSource "\x0c%" = .error d ∧ d.quotedLine = "" ∧
      d.report = "error: unexpected character '%'\n  --> <input>:1:2\n  |\n1 | \n  |  ^" := by
  decide +kernel

end LoxSyntax
