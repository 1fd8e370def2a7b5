import LoxSyntax.Proofs.Number.ShortestText
import LoxSyntax.Proofs.Text.LineBreaks
import LoxSyntax.Proofs.Text.QuotedText
import LoxSyntax.Token.Basic
import Mathlib
set_option autoImplicit false

/-! # Listings of tokens

A row of a listing is one line, for nothing in it breaks lines: spellings and texts are quoted, and
all else is made of letters, digits and marks. From left to right it tells the line of the token,
its kind, its spelling and its value (`Token.rowText_injective`). So a listing has one line for each
token and tells the tokens, which is the main statement, `listing_lossless`. -/

namespace LoxSyntax

/-! ## Whole numbers -/

/-- A whole number is written with digits, and with a minus in front perhaps. -/
theorem isDigit_or_minus_of_mem_toString {n : Int} {c : Char} (hc : c ∈ (toString n).toList) :
    c.isDigit = true ∨ c = '-' := by
  rw [Int.toString_eq_repr, Int.repr_eq_if] at hc
  split at hc
  · rw [Nat.toList_repr] at hc
    exact Or.inl ((isDigits_toDigits _).2 c hc)
  · rw [String.toList_append, Nat.toList_repr] at hc
    rcases List.mem_append.mp hc with hc | hc
    · exact Or.inr (List.mem_singleton.mp hc)
    · exact Or.inl ((isDigits_toDigits _).2 c hc)

theorem toString_ne_nil (n : Int) : (toString n).toList ≠ [] := by
  rw [Int.toString_eq_repr, Int.repr_eq_if]
  split
  · rw [Nat.toList_repr]
    exact (isDigits_toDigits _).1
  · simp

/-- What shows another mark is not the text of a whole number. -/
theorem ne_toString {text : String} (h : ∃ c ∈ text.toList, c ≠ '-' ∧ c.isDigit = false)
    (n : Int) : text ≠ toString n := by
  rintro rfl
  obtain ⟨c, hc, hminus, hdigit⟩ := h
  rcases isDigit_or_minus_of_mem_toString hc with hc | hc
  · rw [hdigit] at hc
    cases hc
  · exact hminus hc

theorem isNumberChar_of_mem_toString {n : Int} {c : Char} (hc : c ∈ (toString n).toList) :
    Numeral.isNumberChar c = true := by
  rcases isDigit_or_minus_of_mem_toString hc with hdigit | rfl
  · exact Numeral.isNumberChar_of_isDigit hdigit
  · rfl

/-! ## Values -/

theorem isLineBreak_of_isNumberChar {c : Char} (h : Numeral.isNumberChar c = true) :
    isLineBreak c = false := by
  have hrange := Numeral.toNat_of_isNumberChar h
  simp only [isLineBreak, CharRanges.contains, lineBreakRanges, List.any_cons, List.any_nil,
    Bool.or_false, Bool.or_eq_false_iff, Bool.and_eq_false_iff, decide_eq_false_iff_not]
  omega

/-- A quoted text is not made of the characters of numbers. -/
theorem quoted_ne_of_isNumberChar (s : String) {text : String}
    (h : ∀ c ∈ text.toList, Numeral.isNumberChar c = true) : quoted s ≠ text := by
  rintro rfl
  have hmark := h (Quoted.mark s.toList) (by simp [quoted, Quoted.encode])
  rcases Quoted.isQuote_mark s.toList with hquote | hquote
  · rw [hquote] at hmark
    cases hmark
  · rw [hquote] at hmark
    cases hmark

namespace Literal

/-- Values other than texts are shown with the characters of numbers. -/
theorem isNumberChar_of_mem_shown {l : Literal} (h : ∀ s, l ≠ .text s) :
    ∀ c ∈ l.shown.toList, Numeral.isNumberChar c = true := by
  cases l with
  | text s => exact absurd rfl (h s)
  | number value =>
    intro c hc
    rw [shown] at hc
    exact Double.isNumberChar_of_mem_shortest hc
  | integer value =>
    intro c hc
    rw [shown] at hc
    exact isNumberChar_of_mem_toString hc
  | truth value =>
    rw [← List.all_eq_true]
    cases value <;> decide

theorem staysOnLine_shown (l : Literal) : StaysOnLine l.shown.toList := by
  by_cases h : ∃ s, l = .text s
  · obtain ⟨s, rfl⟩ := h
    exact staysOnLine_quoted s
  · intro c hc
    exact isLineBreak_of_isNumberChar
      (isNumberChar_of_mem_shown (fun s heq => h ⟨s, heq⟩) c hc)

/-- No two values are shown in the same way. -/
theorem shown_injective : Function.Injective shown := by
  have hnumberTruth : ∀ (value : Double) (b : Bool), value.shortest ≠ shown (.truth b) := by
    intro value b h
    have hnone : Numeral.read? (shown (.truth b)) = none := by cases b <;> decide
    rw [← h, Double.read?_shortest] at hnone
    cases hnone
  have htruthInteger : ∀ (b : Bool) (n : Int), shown (.truth b) ≠ toString n := by
    intro b
    cases b with
    | false => exact ne_toString ⟨'F', by decide, by decide, by decide⟩
    | true => exact ne_toString ⟨'T', by decide, by decide, by decide⟩
  have hother : ∀ (s : String) {l : Literal}, (∀ s, l ≠ .text s) → quoted s ≠ l.shown :=
    fun s _ hl => quoted_ne_of_isNumberChar s (isNumberChar_of_mem_shown hl)
  intro a b h
  cases a with
  | text s =>
    cases b with
    | text t => exact congrArg text (quoted_injective h)
    | number | integer | truth => exact absurd h (hother s (by simp))
  | number value =>
    cases b with
    | text t => exact absurd h.symm (hother t (by simp))
    | number value' => exact congrArg number (Double.shortest_injective h)
    | integer n => exact absurd h (ne_toString value.exists_mem_shortest n)
    | truth b => exact absurd h (hnumberTruth value b)
  | integer n =>
    cases b with
    | text t => exact absurd h.symm (hother t (by simp))
    | number value => exact absurd h.symm (ne_toString value.exists_mem_shortest n)
    | integer n' => exact congrArg integer (Int.repr_injective h)
    | truth b => exact absurd h.symm (htruthInteger b n)
  | truth value =>
    cases b with
    | text t => exact absurd h.symm (hother t (by simp))
    | number value' => exact absurd h.symm (hnumberTruth value' value)
    | integer n => exact absurd h (htruthInteger value n)
    | truth value' => cases value <;> cases value' <;> first | rfl | simp [shown] at h

end Literal

/-! ## Rows -/

theorem TokenKind.name_injective : Function.Injective name := by
  intro kind kind' h
  have hfound := kind.ofName?_name
  rw [h, ofName?_name] at hfound
  exact (Option.some.inj hfound).symm

namespace Token

/-- The value of a token behind its quoted spelling. -/
def valueText (t : Token) : List Char :=
  match t.literal with
  | none => []
  | some literal => ' ' :: literal.shown.toList

/-- The row of a token without the line feed at its end. -/
def rowText (t : Token) : List Char :=
  List.replicate (4 - (toString t.line).length) ' ' ++
    ((toString t.line).toList ++ ' ' :: (t.kind.name.toList ++
      ' ' :: ((quoted t.lexeme).toList ++ t.valueText)))

theorem toList_row (t : Token) : t.row.toList = t.rowText ++ ['\n'] := by
  obtain ⟨kind, lexeme, literal, line⟩ := t
  cases literal <;> simp [row, summary, rowText, valueText, spaces]

theorem blank_not_mem_name (kind : TokenKind) : ' ' ∉ kind.name.toList := by
  cases kind <;> decide

theorem staysOnLine_name (kind : TokenKind) : StaysOnLine kind.name.toList := by
  simp only [StaysOnLine, ← Bool.not_eq_true', ← List.all_eq_true]
  cases kind <;> decide

theorem staysOnLine_rowText (t : Token) : StaysOnLine t.rowText := by
  have hvalue : StaysOnLine t.valueText := by
    unfold valueText
    split
    · simp [StaysOnLine]
    · next literal _ =>
      exact staysOnLine_cons.mpr ⟨by decide, literal.staysOnLine_shown⟩
  have hspaces : ∀ count, StaysOnLine (List.replicate count ' ') := by
    intro count c hc
    rw [List.eq_of_mem_replicate hc]
    decide
  simp only [rowText, staysOnLine_append, staysOnLine_cons]
  exact ⟨hspaces _, fun c hc => isLineBreak_of_isNumberChar (isNumberChar_of_mem_toString hc),
    by decide, staysOnLine_name _, by decide, staysOnLine_quoted _, hvalue⟩

theorem literal_eq_of_valueText_eq {t u : Token} (h : t.valueText = u.valueText) :
    t.literal = u.literal := by
  unfold valueText at h
  split at h
  · next hnone =>
    split at h
    · next hnone' => rw [hnone, hnone']
    · cases h
  · next literal hsome =>
    split at h
    · cases h
    · next literal' hsome' =>
      rw [hsome, hsome', Literal.shown_injective (String.toList_injective (List.cons.inj h).2)]

/-- A row tells the token. -/
theorem rowText_injective : Function.Injective rowText := by
  intro t u h
  unfold rowText at h
  have hhead : ∀ (n : Int) (rest : List Char),
      ∀ c ∈ ((toString n).toList ++ rest).head?, decide (c = ' ') = false := by
    intro n rest c hc
    rw [List.head?_append_of_ne_nil _ (toString_ne_nil n)] at hc
    have hchar := isNumberChar_of_mem_toString (List.mem_of_mem_head? hc)
    exact decide_eq_false (ne_of_class hchar rfl)
  have hblank : ∀ n : Int, ' ' ∉ (toString n).toList := by
    intro n hmem
    cases isNumberChar_of_mem_toString hmem
  obtain ⟨_, hline⟩ := append_inj_of_head? (p := (· = ' ')) (by simp) (by simp)
    (hhead t.line _) (hhead u.line _) h
  obtain ⟨hline, hkind⟩ := append_cons_inj_of_not_mem (hblank _) (hblank _) hline
  obtain ⟨hkind, hlexeme⟩ :=
    append_cons_inj_of_not_mem (blank_not_mem_name _) (blank_not_mem_name _) hkind
  obtain ⟨hlexeme, hvalue⟩ := quoted_append_injective hlexeme
  have hkind : t.kind = u.kind := TokenKind.name_injective (String.toList_injective hkind)
  have hliteral : t.literal = u.literal := literal_eq_of_valueText_eq hvalue
  have hline : t.line = u.line := by
    rw [String.toList_inj, Int.toString_eq_repr, Int.toString_eq_repr] at hline
    exact Int.repr_injective hline
  obtain ⟨kind, lexeme, literal, line⟩ := t
  obtain ⟨kind', lexeme', literal', line'⟩ := u
  rw [mk.injEq]
  exact ⟨hkind, hlexeme, hliteral, hline⟩

end Token

/-! ## Lines -/

theorem splitLines_append_lineFeed {line : List Char} (h : StaysOnLine line) (more : List Char) :
    splitLines (line ++ '\n' :: more) = line :: splitLines more := by
  induction line with
  | nil => rfl
  | cons c line ih =>
    obtain ⟨hc, hline⟩ := staysOnLine_cons.mp h
    rw [List.cons_append, splitLines_cons hc, ih hline]
    rfl

/-- The lines of a listing are its rows. -/
theorem splitLines_listing (tokens : List Token) :
    splitLines (Token.listing tokens).toList = tokens.map Token.rowText := by
  rw [Token.listing, String.toList_join, List.flatMap_map]
  induction tokens with
  | nil => rfl
  | cons t tokens ih =>
    rw [List.flatMap_cons, Token.toList_row, List.append_assoc, List.singleton_append,
      splitLines_append_lineFeed t.staysOnLine_rowText, ih, List.map_cons]

/-- A listing has one line for each token, in their order, wherever lines may break: its lines are
    the rows of the tokens, the line feeds at their ends left aside. No two lists of tokens have the
    same listing. -/
theorem listing_lossless :
    (∀ tokens, (textLines (Token.listing tokens)).map (· ++ "\n") = tokens.map Token.row) ∧
      Function.Injective Token.listing := by
  constructor
  · intro tokens
    rw [textLines, splitLines_listing, List.map_map, List.map_map]
    refine List.map_congr_left fun t _ => String.toList_injective ?_
    simp [Token.toList_row]
  · intro tokens tokens' h
    have hrows := splitLines_listing tokens
    rw [h, splitLines_listing] at hrows
    exact (Token.rowText_injective.list_map hrows).symm

end LoxSyntax
