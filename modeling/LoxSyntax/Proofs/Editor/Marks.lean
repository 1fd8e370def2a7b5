import LoxSyntax.Editor.Workspace
import LoxSyntax.Proofs.Diagnostic.Caret
import LoxSyntax.Proofs.Diagnostic.ReportedToken
import LoxSyntax.Proofs.Text.NumberedLines
set_option autoImplicit false

/-! # Marks and faults

A document that is not longer than an editor can count has at most one mark, and the mark is on the
fault: on the character that begins no lexeme, on the quote that stays open, or on the line on which
the reported token begins (`MarksFault`). The numbers of a mark are those of the lines that line
feeds divide the document into, which are a reader's lines if it breaks at line feeds only. All this
holds for every library that does what is documented of one
(`EditorInterface.validate_marks_fault`). -/

namespace LoxSyntax

/-- The range of one character of a line. -/
def MarkRange.ofCharacter (line character : Nat) : MarkRange Spot :=
  ⟨⟨line, character⟩, ⟨line, character + 1⟩⟩

/-- The range of a whole line of the given length. -/
def MarkRange.ofLine (line length : Nat) : MarkRange Spot := ⟨⟨line, 0⟩, ⟨line, length⟩⟩

/-- The numbers of a range. -/
def EditorInterface.spots (E : EditorInterface) (range : MarkRange E.Place) : MarkRange Spot :=
  ⟨E.spot range.first, E.spot range.last⟩

/-- The range marks what a diagnostic is about in the text. -/
inductive MarksFault (source : String) (d : Diagnostic) : MarkRange Spot → Prop
  | character {before after row : List Char} {c : Char}
      (split : source.toList = before ++ c :: after)
      (in_order : ∃ tokens, scanText (String.ofList before) = .ok tokens)
      (cause : d.cause = .unexpectedCharacter (String.singleton c) ∧ BeginsNoLexeme c ∨
        d.cause = .unterminatedText ∧ c = '"' ∧ '"' ∉ after)
      (row_at : (dividedLines source.toList)[before.count '\n']? = some row)
      (char_at : row[(before.rtakeWhile (· ≠ '\n')).length]? = some c) :
      MarksFault source d
        (.ofCharacter (before.count '\n') (before.rtakeWhile (· ≠ '\n')).length)
  | line {before row : List Char} {ts us : List Token} {t : Token}
      (tokens : scanText source = .ok (ts ++ t :: us))
      (cause : d.cause.Reports t)
      (place : BeginsBehind source ts t before)
      (row_at : (dividedLines source.toList)[before.count '\n']? = some row) :
      MarksFault source d (.ofLine (before.count '\n') row.length)

/-- A mark does not leave its document. -/
theorem MarksFault.inside {source : String} {d : Diagnostic} {range : MarkRange Spot}
    (h : MarksFault source d range) :
    ∃ row, (dividedLines source.toList)[range.first.line]? = some row ∧
      range.last.line = range.first.line ∧ range.first.character ≤ range.last.character ∧
      range.last.character ≤ row.length := by
  cases h with
  | character _ _ _ row_at char_at =>
    exact ⟨_, row_at, rfl, Nat.le_succ _, (List.getElem?_eq_some_iff.mp char_at).1⟩
  | line _ _ _ row_at => exact ⟨_, row_at, rfl, Nat.zero_le _, Nat.le_refl _⟩

/-! ## Ranges -/

namespace EditorInterface

section

variable {E : EditorInterface} (hE : E.IsDocumented) {d : Diagnostic} {line : Nat}

include hE

theorem exists_rangeOf_of_column {column : Nat} (hline : d.line = (1 + line : Nat))
    (hcolumn : d.column = some ((1 + column : Nat) : Int)) (hmaxLine : line ≤ maxSpot)
    (hmaxColumn : column + 1 ≤ maxSpot) :
    ∃ range, E.rangeOf d = .ok range ∧ E.spots range = .ofCharacter line column := by
  have hl : ((1 + line : Nat) : Int) - 1 = line := by omega
  have hfirst : ((1 + column : Nat) : Int) - 1 = column := by omega
  have hlast : ((1 + column : Nat) : Int) = (column + 1 : Nat) := by omega
  obtain ⟨first, hplace, hspot⟩ := hE.place_natCast line column hmaxLine (by omega)
  obtain ⟨last, hplace', hspot'⟩ := hE.place_natCast line (column + 1) hmaxLine hmaxColumn
  refine ⟨⟨first, last⟩, ?_, by rw [spots, hspot, hspot', MarkRange.ofCharacter]⟩
  simp only [rangeOf, hline, hcolumn, hl, hfirst]
  rw [hlast, hplace, hplace']
  rfl

theorem exists_rangeOf_of_line (hline : d.line = (1 + line : Nat)) (hcolumn : d.column = none)
    (hmaxLine : line ≤ maxSpot) (hmaxColumn : d.quotedLine.length ≤ maxSpot) :
    ∃ range, E.rangeOf d = .ok range ∧ E.spots range = .ofLine line d.quotedLine.length := by
  have hl : ((1 + line : Nat) : Int) - 1 = line := by omega
  obtain ⟨first, hplace, hspot⟩ := hE.place_natCast line 0 hmaxLine (Nat.zero_le maxSpot)
  obtain ⟨last, hplace', hspot'⟩ := hE.place_natCast line d.quotedLine.length hmaxLine hmaxColumn
  refine ⟨⟨first, last⟩, ?_, by rw [spots, hspot, hspot', MarkRange.ofLine]⟩
  simp only [rangeOf, hline, hcolumn, hl]
  rw [show E.place line 0 = .ok first from hplace, hplace']
  rfl

end

/-- The mark for a diagnostic, once it has a range. -/
def markOn {E : EditorInterface} (range : MarkRange E.Place) (d : Diagnostic) : Mark E.Place :=
  { range, message := d.message, severity := .error, sender := "loxfront" }

theorem marksOf_eq_error {E : EditorInterface} {source filename : String} {d : Diagnostic}
    {range : MarkRange E.Place} (hparse : parseSource source filename = .error d)
    (hrange : E.rangeOf d = .ok range) : E.marksOf source filename = .ok [markOn range d] := by
  simp only [marksOf, hparse, markOf, hrange]
  rfl

end EditorInterface

/-! ## The range of a refused text -/

namespace EditorInterface

section

variable {E : EditorInterface} (hE : E.IsDocumented) {source filename : String} {d : Diagnostic}
  (hlength : source.length ≤ maxSpot)

include hE hlength

/-- A fault among the characters of a text is marked by its character. -/
theorem range_of_scanSource_eq_error (h : scanSource source filename = .error d) :
    ∃ range, E.rangeOf d = .ok range ∧ MarksFault source d (E.spots range) := by
  obtain ⟨ls, c, after, fault, hsource, hdivision, hread, rfl⟩ :=
    exists_lexemes_of_scanSource_eq_error h
  generalize hbefore : ls.flatMap Lexeme.spelling = before at hsource ⊢
  have hscan := scanText_of_isDivision (@IsDivision.of_append _ [] _ hdivision)
  rw [hbefore] at hscan
  -- a character at fault is not blank, so that it is neither a line's end nor cut off at one
  have hblank := Lexeme.isBlank_of_read_eq_error hread
  have hfeed : c ≠ '\n' := by
    rintro rfl
    cases hblank.symm.trans isBlank_lineFeed
  have hreturn : c ≠ '\r' := by
    rintro rfl
    cases hblank.symm.trans isBlank_carriageReturn
  have hcount : before.count '\n' ≤ before.length := List.count_le_length
  have hcolumn : (before.rtakeWhile (· ≠ '\n')).length ≤ before.length :=
    (List.rtakeWhile_suffix _ _).length_le
  have hbound : before.length + 1 ≤ maxSpot := by
    rw [← String.length_toList, hsource, List.length_append, List.length_cons] at hlength
    omega
  obtain ⟨range, hrange, hspots⟩ := exists_rangeOf_of_column hE
    (LocatedFault.line_diagnosticBehind fault before source filename)
    (LocatedFault.column_diagnosticBehind fault before source filename) (by omega) (by omega)
  refine ⟨range, hrange, hspots ▸ ?_⟩
  have hline := getElem?_dividedLines before (c :: after)
  rw [← hsource] at hline
  refine .character hsource ⟨_, hscan⟩ ?_ hline ?_
  · rcases Lexeme.read_eq_error_iff.mp hread with ⟨rfl, hbegins⟩ | ⟨rfl, hquote, hopen⟩
    · exact Or.inl ⟨rfl, hbegins⟩
    · exact Or.inr ⟨rfl, hquote, hopen⟩
  · rw [dropReturn_lineAround_cons hreturn hfeed, List.getElem?_append_right (Nat.le_refl _),
      Nat.sub_self]
    rfl

/-- A fault among the tokens of a text is marked by the line on which the reported one begins. -/
theorem range_of_parseSource_eq_error {tokens : List Token}
    (hbreaks : BreaksAtLineFeeds source.toList)
    (hscan : scanSource source filename = .ok tokens)
    (h : parseSource source filename = .error d) :
    ∃ range, E.rangeOf d = .ok range ∧ MarksFault source d (E.spots range) := by
  obtain ⟨ts, t, us, before, htokens, hreports, hplace, hline, hcolumn, hsource⟩ :=
    exists_reported_token hscan h
  obtain ⟨after, hbehind⟩ := hplace.isPrefix
  have hsplit : source.toList = before ++ after := hbehind.symm
  -- the line that is quoted, a reader's line, is the one between line feeds
  have hnumbered := getElem?_dividedLines before after
  rw [← hsplit] at hnumbered
  have hquoted : d.quotedLine.toList = dropReturn (lineAround before after) := by
    rw [hsplit] at hbreaks
    rw [Diagnostic.toList_quotedLine d hline, hsource, hsplit, getD_splitLines hbreaks.to_line_end]
  have hquotedLength : d.quotedLine.length = (dropReturn (lineAround before after)).length := by
    rw [← hquoted, String.length_toList]
  have hlineLength := length_dropReturn_lineAround_le before after
  have hcount : before.count '\n' ≤ (before ++ after).length :=
    List.count_le_length.trans (List.prefix_append before after).length_le
  rw [← hsplit, String.length_toList] at hlineLength hcount
  obtain ⟨range, hrange, hspots⟩ :=
    exists_rangeOf_of_line hE hline hcolumn (by omega) (by omega)
  refine ⟨range, hrange, ?_⟩
  rw [hspots, hquotedLength]
  exact .line htokens hreports hplace hnumbered

/-- A text that an editor can count and that breaks at line feeds only is marked on its fault. -/
theorem exists_rangeOf_marksFault (hbreaks : BreaksAtLineFeeds source.toList)
    (h : parseSource source filename = .error d) :
    ∃ range, E.rangeOf d = .ok range ∧ MarksFault source d (E.spots range) := by
  rcases hscan : scanSource source filename with fault | tokens
  · rcases parseSource_eq_error_iff.mp h with hfault | ⟨_, hok, _⟩
    · exact range_of_scanSource_eq_error hE hlength hfault
    · rw [hscan] at hok
      cases hok
  · exact range_of_parseSource_eq_error hE hlength hbreaks hscan h

end

/-! ## What is published -/

/-- What is published on a document that an editor can count has no mark if and only if the document
    is a list of expressions, and otherwise has one mark, with the words for the fault, on it. -/
theorem validate_marks_fault (E : EditorInterface) (hE : E.IsDocumented) (s : E.State)
    (uri source : String) (hsource : E.source s uri = .ok source)
    (hlength : source.length ≤ maxSpot) (hbreaks : BreaksAtLineFeeds source.toList) :
    ∃ next marks, E.validate s uri = .ok next ∧
      E.published next = E.published s ++ [⟨uri, marks⟩] ∧
      (marks = [] ↔ ∃ es, parseSource source (documentName uri) = .ok es) ∧
      ∀ d, parseSource source (documentName uri) = .error d →
        ∃ mark, marks = [mark] ∧ mark.message = d.message ∧ mark.severity = .error ∧
          mark.sender = "loxfront" ∧ MarksFault source d (E.spots mark.range) := by
  cases hparse : parseSource source (documentName uri) with
  | ok es =>
    refine ⟨E.publish s ⟨uri, []⟩, [], ?_, hE.published_publish .., by simp, by simp⟩
    rw [validate, hsource]
    show (do let marks ← E.marksOf source (documentName uri); _) = _
    rw [marksOf, hparse]
    rfl
  | error d =>
    obtain ⟨range, hrange, hmarks⟩ := exists_rangeOf_marksFault hE hlength hbreaks hparse
    refine ⟨E.publish s ⟨uri, [markOn range d]⟩, [markOn range d], ?_, hE.published_publish ..,
      by simp, ?_⟩
    · rw [validate, hsource]
      show (do let marks ← E.marksOf source (documentName uri); _) = _
      rw [marksOf_eq_error hparse hrange]
      rfl
    · rintro _ ⟨⟩
      exact ⟨_, rfl, rfl, rfl, rfl, hmarks⟩

/-- The mark on a group that stays open is on the line of the token behind the text of two lines. -/
theorem validate_marks_fault_behind_text :
    let E := Workspace.interface
    let uri := "file:///a.lox"
    let source := "a\r\n(\"b\nc\" d\n"
    let w : Workspace := .store {} uri source
    let d : Diagnostic :=
      { cause := .expectedToken ")" ⟨.identifier, "d", none, 3⟩, line := 3, source,
        filename := "a.lox" }
    E.IsDocumented ∧ E.source w uri = .ok source ∧ source.length ≤ maxSpot ∧
      BreaksAtLineFeeds source.toList ∧ parseSource source (documentName uri) = .error d ∧
      ∃ next mark, E.validate w uri = .ok next ∧ E.published next = [⟨uri, [mark]⟩] ∧
        mark.message = "expected ')', found identifier 'd'" ∧
        MarksFault source d (E.spots mark.range) := by
  intro E uri source w d
  have hE : E.IsDocumented := Workspace.isDocumented_interface
  have hsource : E.source w uri = .ok source := hE.source_store_self {} uri source
  have hlength : source.length ≤ maxSpot := by decide
  have hbreaks : BreaksAtLineFeeds source.toList := by decide
  have hparse : parseSource source (documentName uri) = .error d := by decide +kernel
  obtain ⟨next, marks, hvalid, hpublished, -, hmarks⟩ :=
    validate_marks_fault E hE w uri source hsource hlength hbreaks
  obtain ⟨mark, rfl, hmessage, -, -, hfault⟩ := hmarks d hparse
  exact ⟨hE, hsource, hlength, hbreaks, hparse, next, mark, hvalid, hpublished, hmessage, hfault⟩

end EditorInterface

end LoxSyntax
