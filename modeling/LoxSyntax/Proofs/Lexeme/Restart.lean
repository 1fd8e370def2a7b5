import LoxSyntax.Proofs.Lexeme.Uniqueness
set_option autoImplicit false

/-! # Texts one below the other

A line feed is part of no lexeme but a quoted text: it ends comments, words and numerals and goes on
with no symbol. So a text that can be turned into tokens is divided in the same way with a line feed
and another text behind it, and the other text is divided as it is by itself, further down: its
tokens, or its fault, are some lines below (`scanText_append_lineFeed`,
`scanText_append_lineFeed_of_fault`). -/

namespace LoxSyntax

namespace Lexeme

/-- A lexeme that ends in front of a text also does so when a line feed and more follow the text. -/
theorem EndsBefore.append_lineFeed {l : Lexeme} {front : List Char} (h : l.EndsBefore front)
    (more : List Char) : l.EndsBefore (front ++ '\n' :: more) := by
  have hhead : ∀ P : Char → Prop, P '\n' → (∀ c ∈ front.head?, P c) →
      ∀ c ∈ (front ++ '\n' :: more).head?, P c := by
    intro P hfeed hfront c hc
    rcases front with _ | ⟨d, front⟩
    · cases hc
      exact hfeed
    · exact hfront c hc
  cases l with
  | blank | text => trivial
  | comment body => exact hhead _ rfl h
  | symbol kind =>
    refine hhead _ ?_ h
    cases kind <;> decide
  | word letters => exact hhead _ (by decide) h
  | numeral whole fraction =>
    refine ⟨hhead _ (by decide) h.1, fun hnone hfraction => h.2 hnone ?_⟩
    rcases front with _ | ⟨c, front⟩
    · obtain ⟨hpoint, _⟩ := beginsFraction_cons_iff.mp hfraction
      cases hpoint
    · obtain ⟨hpoint, d, hd, hdigit⟩ := beginsFraction_cons_iff.mp hfraction
      rcases front with _ | ⟨e, front⟩
      · cases hd
        cases hdigit
      · exact beginsFraction_cons_iff.mpr ⟨hpoint, d, hd, hdigit⟩

end Lexeme

variable {ls ms : List Lexeme}

theorem IsDivision.append_lineFeed {front : List Char} (h : IsDivision front ls)
    (more : List Char) : IsDivision (front ++ '\n' :: more) ls := by
  induction ls with
  | nil => trivial
  | cons l ls ih =>
    obtain ⟨hwell, hends, hmore⟩ := h
    refine ⟨hwell, ?_, ih hmore⟩
    rw [← List.append_assoc]
    exact hends.append_lineFeed more

/-- A text and another one below it are divided as both are, up to a part of the second. -/
theorem IsDivision.append_blank {rest : List Char} (hls : IsDivision [] ls)
    (hms : IsDivision rest ms) : IsDivision rest (ls ++ .blank '\n' :: ms) := by
  refine isDivision_append.mpr ⟨?_, isBlank_lineFeed, trivial, hms⟩
  exact hls.append_lineFeed _

theorem toList_append_lineFeed {a b : String} {rest : List Char}
    (ha : a.toList = ls.flatMap Lexeme.spelling)
    (hb : b.toList = ms.flatMap Lexeme.spelling ++ rest) :
    (a ++ "\n" ++ b).toList = (ls ++ .blank '\n' :: ms).flatMap Lexeme.spelling ++ rest := by
  simp [ha, hb, Lexeme.spelling]

/-! ## Positions further down -/

/-- The place, some lines further down. -/
def Position.below (lines : Nat) (p : Position) : Position := { p with line := p.line + lines }

theorem Position.advanceBy_below (lines : Nat) (p : Position) (cs : List Char) :
    (p.below lines).advanceBy cs = (p.advanceBy cs).below lines := by
  induction cs generalizing p with
  | nil => rfl
  | cons c cs ih =>
    have hadvance : (p.below lines).advance c = (p.advance c).below lines := by
      by_cases hc : c = '\n'
      · simp only [advance, below, if_pos hc]
        congr 1
        omega
      · simp only [advance, below, if_neg hc]
    rw [advanceBy_cons, advanceBy_cons, hadvance, ih]

/-- Behind a text and a line feed, a text begins as many lines down as there have been. -/
theorem Position.advance_lineFeed (cs : List Char) :
    (start.advanceBy cs).advance '\n' = start.below (1 + cs.count '\n') := by
  simp only [advance, if_true, below, start, line_advanceBy]
  congr 1
  omega

/-- The fault, some lines further down. -/
def LocatedFault.below (lines : Nat) (f : LocatedFault) : LocatedFault :=
  { f with position := f.position.below lines }

/-! ## Tokens further down -/

/-- The token, some lines further down. -/
def Token.below (lines : Nat) (t : Token) : Token := { t with line := t.line + lines }

theorem Lexeme.token?_add (l : Lexeme) (line : Int) (lines : Nat) :
    l.token? (line + lines) = (l.token? line).map (Token.below lines) := by
  cases l <;> rfl

/-- Lexemes that begin some lines further down spell their tokens there. -/
theorem tokensFrom_below {p q : Position} {lines : Nat} (h : q.line = p.line + lines)
    (ls : List Lexeme) : tokensFrom q ls = (tokensFrom p ls).map (Token.below lines) := by
  induction ls generalizing p q with
  | nil => rfl
  | cons l ls ih =>
    have hline : (q.line : Int) = p.line + lines := by omega
    rw [tokensFrom, tokensFrom, List.map_append, hline, Lexeme.token?_add, ih]
    · cases l.token? p.line <;> rfl
    · rw [Position.line_advanceBy, Position.line_advanceBy]
      omega

/-- The tokens of a text and of another one below it are those of both, the latter further down. -/
theorem scanText_append_lineFeed {a b : String} {as bs : List Token} {stopA stopB : Token}
    (ha : scanText a = .ok (as ++ [stopA])) (hb : scanText b = .ok (bs ++ [stopB])) :
    scanText (a ++ "\n" ++ b) =
      .ok (as ++ (bs ++ [stopB]).map (Token.below (1 + a.toList.count '\n'))) := by
  obtain ⟨ls, hla, hdivisionA, htokensA⟩ := exists_lexemes_of_scanText_eq_ok ha
  obtain ⟨ms, hlb, hdivisionB, htokensB⟩ := exists_lexemes_of_scanText_eq_ok hb
  obtain ⟨rfl, _⟩ := List.append_inj' htokensA rfl
  rw [htokensB]
  have hdivision := hdivisionA.append_blank hdivisionB
  have hrest : b.toList = ms.flatMap Lexeme.spelling ++ [] := by rw [hlb, List.append_nil]
  have htext := toList_append_lineFeed hla hrest
  rw [List.append_nil] at htext
  have hbelow : tokensFrom ((Position.start.advanceBy a.toList).advance '\n') ms =
      (tokensFrom .start ms).map (Token.below (1 + a.toList.count '\n')) := by
    rw [Position.advance_lineFeed]
    exact tokensFrom_below rfl ms
  have hblank : tokensFrom (Position.start.advanceBy a.toList) (.blank '\n' :: ms) =
      (tokensFrom .start ms).map (Token.below (1 + a.toList.count '\n')) := hbelow
  have hcount : (a ++ "\n" ++ b).toList.count '\n' =
      1 + a.toList.count '\n' + b.toList.count '\n' := by
    simp
    omega
  have hscan := scanText_of_isDivision hdivision
  rw [← htext, String.ofList_toList, tokensFrom_append, ← hla, hblank, hcount] at hscan
  rw [hscan]
  simp [Token.below, Token.endOfInput]
  omega

/-- The fault of a text that stands below another one is the one that it has by itself, further
    down. -/
theorem scanText_append_lineFeed_of_fault {a b : String} {tokens : List Token} {f : LocatedFault}
    (ha : scanText a = .ok tokens) (hb : scanText b = .error f) :
    scanText (a ++ "\n" ++ b) = .error (f.below (1 + a.toList.count '\n')) := by
  obtain ⟨ls, hla, hdivisionA, -⟩ := exists_lexemes_of_scanText_eq_ok ha
  obtain ⟨ms, c, rest, hlb, hdivisionB, hread, hposition⟩ := exists_lexemes_of_scanText_eq_error hb
  have hscan := scanText_of_read_eq_error (hdivisionA.append_blank hdivisionB) hread
  have hplace : Position.start.advanceBy ((ls ++ .blank '\n' :: ms).flatMap Lexeme.spelling) =
      f.position.below (1 + a.toList.count '\n') := by
    rw [List.flatMap_append, List.flatMap_cons, Position.advanceBy_append, ← hla, Lexeme.spelling,
      List.singleton_append, Position.advanceBy_cons, Position.advance_lineFeed,
      Position.advanceBy_below, hposition]
  rw [← toList_append_lineFeed hla hlb, String.ofList_toList, hplace] at hscan
  exact hscan

end LoxSyntax
