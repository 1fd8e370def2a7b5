import LoxSyntax.Proofs.Lexeme.Division
set_option autoImplicit false

/-! # Tokens and gaps

What a text can hold: tokens, each spelled the way its kind is (`Token.IsWellFormed`) and as long as
the text allows (`Token.EndsBefore`), and gaps of blanks and comments between them. Lexemes that are
well formed and end where they should spell one or the other. -/

namespace LoxSyntax

/-! ## Gaps and well-formed tokens -/

/-- Blanks and comments in front of a text. A comment goes up to a line feed, which is no part of
    it, or to the end of the text. -/
inductive IsGap (following : List Char) : List Char → Prop
  | nil : IsGap following []
  | blank {c : Char} {gap : List Char} (isBlank : isBlank c = true) (more : IsGap following gap) :
      IsGap following (c :: gap)
  | comment {body gap : List Char} (oneLine : '\n' ∉ body)
      (ends : ∀ c ∈ (gap ++ following).head?, c = '\n') (more : IsGap following gap) :
      IsGap following ('/' :: '/' :: body ++ gap)

namespace Token

/-- The characters that a token is spelled by. -/
def source (t : Token) : List Char :=
  match t.kind with
  | .text => '"' :: t.lexeme.toList ++ ['"']
  | _ => t.lexeme.toList

/-- The tokens that can be spelled. -/
inductive IsWellFormed : Token → Prop
  | symbol {kind : TokenKind} {spelling : String} {line : Int}
      (spelled : kind.symbol? = some spelling) : IsWellFormed ⟨kind, spelling, none, line⟩
  | number {lexeme : String} {value : Double} {line : Int}
      (plain : IsPlainNumeral lexeme.toList) (read : Numeral.read? lexeme = some value) :
      IsWellFormed ⟨.number, lexeme, some (.number value), line⟩
  | text {content : String} {line : Int} (unquoted : '"' ∉ content.toList) :
      IsWellFormed (ofText content line)
  | word {letters : String} {line : Int} (isWord : IsWord letters.toList) :
      IsWellFormed (ofWord letters line)

/-- Does a token end in front of the given text, rather than go on with it? A text ends at its
    quote in any case. -/
def EndsBefore (following : List Char) (t : Token) : Prop :=
  match t.kind with
  | .text => True
  | .number =>
    (∀ c ∈ following.head?, c.isDigit = false) ∧
      ('.' ∉ t.lexeme.toList → ¬BeginsFraction following)
  | kind =>
    if kind.symbol?.isSome then ∀ c ∈ following.head?, kind.extension? ≠ some c
    else ∀ c ∈ following.head?, isWordChar c = false

end Token

/-! ## The token of a lexeme -/

/-- A word is a name or reserved, whatever its letters. -/
theorem TokenKind.ofWord_eq (word : String) :
    ofWord word = .identifier ∨ ∃ reserved, (reserved, ofWord word) ∈ reservedWords := by
  unfold ofWord
  cases hlookup : reservedWords.lookup word with
  | none => exact Or.inl rfl
  | some kind =>
    obtain ⟨before, after, hsplit, _⟩ := List.lookup_eq_some_iff.mp hlookup
    exact Or.inr ⟨word, by simp [hsplit]⟩

theorem TokenKind.ofWord_ne (word : String) :
    ofWord word ≠ .text ∧ ofWord word ≠ .number ∧ ofWord word ≠ .endOfInput ∧
      (ofWord word).symbol? = none := by
  have hreserved : ∀ entry ∈ reservedWords, entry.2 ≠ .text ∧ entry.2 ≠ .number ∧
      entry.2 ≠ .endOfInput ∧ entry.2.symbol? = none := by decide
  rcases ofWord_eq word with h | ⟨reserved, h⟩
  · simp [h, symbol?]
  · exact hreserved _ h

namespace Lexeme

variable {line : Int} {t : Token} {l : Lexeme} {following : List Char}

theorem line_of_token? (h : l.token? line = some t) : t.line = line := by
  cases l <;> cases h <;> rfl

/-- A plain numeral has the value that its characters are read as. -/
theorem read?_numeral {whole : List Char} {fraction : Option (List Char)}
    (h : (numeral whole fraction).IsWellFormed) :
    IsPlainNumeral (numeral whole fraction).spelling ∧
      Numeral.read? (String.ofList (numeral whole fraction).spelling) =
        some (Double.ofDecimal (Decimal.ofDigits whole (fraction.getD []) 0)) := by
  obtain ⟨hwhole, hfraction⟩ := h
  cases fraction with
  | none =>
    have hplain : IsPlainNumeral whole := Or.inl hwhole
    refine ⟨hplain, ?_⟩
    rw [spelling, Numeral.read?_plain hplain, Numeral.decimal?_digits hwhole, Option.map_some,
      Option.getD_none]
  | some digits =>
    have hdigits : IsDigits digits := hfraction digits rfl
    have hplain : IsPlainNumeral (whole ++ '.' :: digits) := Or.inr ⟨_, _, hwhole, hdigits, rfl⟩
    refine ⟨hplain, ?_⟩
    rw [spelling, Numeral.read?_plain hplain, Numeral.decimal?_point hwhole hdigits,
      Option.map_some, Option.getD_some]

theorem isWellFormed_token (h : l.token? line = some t) (hwell : l.IsWellFormed) :
    t.IsWellFormed := by
  cases l with
  | blank | comment => cases h
  | symbol kind =>
    cases h
    obtain ⟨spelling, hspelling⟩ := Option.isSome_iff_exists.mp hwell
    exact .symbol (by rw [hspelling, Option.getD_some])
  | text content =>
    cases h
    exact .text (by rw [String.toList_ofList]; exact hwell)
  | numeral whole fraction =>
    obtain ⟨hplain, hread⟩ := read?_numeral hwell
    cases h
    exact .number (by rw [String.toList_ofList]; exact hplain) hread
  | word letters =>
    cases h
    exact .word (by rw [String.toList_ofList]; exact hwell)

theorem source_token (h : l.token? line = some t) (hwell : l.IsWellFormed) :
    t.source = l.spelling := by
  cases l with
  | blank | comment => cases h
  | symbol kind =>
    cases h
    have hkind : kind ≠ .text := by
      rintro rfl
      cases hwell
    fun_cases Token.source <;> first | contradiction | rfl
  | text content =>
    cases h
    simp [Token.source, Token.ofText, spelling]
  | numeral whole fraction =>
    cases h
    exact String.toList_ofList
  | word letters =>
    cases h
    fun_cases Token.source with
    | case1 hkind => exact absurd hkind (TokenKind.ofWord_ne _).1
    | case2 => exact String.toList_ofList

end Lexeme

end LoxSyntax
