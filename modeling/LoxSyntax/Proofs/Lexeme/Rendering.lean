import LoxSyntax.Proofs.Expr.Lines
import LoxSyntax.Proofs.Lexeme.Layout
import LoxSyntax.Proofs.Lexeme.Uniqueness
set_option autoImplicit false

/-! # Texts with a given layout

Any row of well-formed tokens can be laid out as a text, with gaps of one's choice. Where each token
ends before what follows it, the text is turned back into these tokens
(`scanText_of_isSound`), and a blank after each token is enough for that. What the gaps are matters
to the lines of the tokens and to nothing else, so a text that is laid out anew keeps its tokens and
its expressions. The main statement is `scanText_complete`. -/

namespace LoxSyntax

/-! ## Lexemes of gaps and tokens -/

/-- A gap is a row of lexemes that spell no token. -/
theorem exists_lexemes_of_isGap {following gap : List Char} (h : IsGap following gap) :
    ∃ ls : List Lexeme, ls.flatMap Lexeme.spelling = gap ∧ IsDivision following ls ∧
      ∀ l ∈ ls, ∀ line, l.token? line = none := by
  induction h with
  | nil => exact ⟨[], rfl, trivial, by simp⟩
  | @blank c gap hblank _ ih =>
    obtain ⟨ls, hspelling, hdivision, hnone⟩ := ih
    refine ⟨.blank c :: ls, by simp [Lexeme.spelling, hspelling], ⟨hblank, trivial, hdivision⟩, ?_⟩
    exact List.forall_mem_cons.mpr ⟨fun _ => rfl, hnone⟩
  | @comment body gap hbody hends _ ih =>
    obtain ⟨ls, hspelling, hdivision, hnone⟩ := ih
    rw [← hspelling] at hends
    refine ⟨.comment body :: ls, by simp [Lexeme.spelling, hspelling],
      ⟨hbody, hends, hdivision⟩, ?_⟩
    exact List.forall_mem_cons.mpr ⟨fun _ => rfl, hnone⟩

theorem Token.endsBefore_symbol_iff {kind : TokenKind} (h : kind.symbol?.isSome = true)
    {spelling : String} {literal : Option Literal} {line : Int} {following : List Char} :
    EndsBefore following ⟨kind, spelling, literal, line⟩ ↔
      ∀ c ∈ following.head?, kind.extension? ≠ some c := by
  cases kind <;> simp [TokenKind.symbol?] at h <;> simp [EndsBefore, TokenKind.symbol?]

theorem Token.endsBefore_ofWord_iff {letters : String} {line : Int} {following : List Char} :
    (ofWord letters line).EndsBefore following ↔
      ∀ c ∈ following.head?, isWordChar c = false := by
  obtain ⟨htext, hnumber, _, hsymbol⟩ := TokenKind.ofWord_ne letters
  simp only [EndsBefore, ofWord]
  generalize TokenKind.ofWord letters = kind at htext hnumber hsymbol ⊢
  cases kind <;> simp_all

/-- A well-formed token is the token of a lexeme. -/
theorem Token.IsWellFormed.exists_lexeme {t : Token} (h : t.IsWellFormed) {following : List Char}
    (hends : t.EndsBefore following) :
    ∃ l : Lexeme, l.token? t.line = some t ∧ l.IsWellFormed ∧ l.EndsBefore following := by
  cases h with
  | @symbol kind spelling line spelled =>
    have hsymbol : kind.symbol?.isSome = true := by rw [spelled, Option.isSome_some]
    refine ⟨.symbol kind, ?_, hsymbol, (endsBefore_symbol_iff hsymbol).mp hends⟩
    rw [Lexeme.token?, spelled, Option.getD_some]
  | @number lexeme value line plain read =>
    -- the value that was read is the one that the lexeme gives its token
    have htoken : ∀ whole fraction, (Lexeme.numeral whole fraction).IsWellFormed →
        (Lexeme.numeral whole fraction).spelling = lexeme.toList →
        (Lexeme.numeral whole fraction).token? line =
          some ⟨.number, lexeme, some (.number value), line⟩ := by
      intro whole fraction hwell hspelling
      have hread := (Lexeme.read?_numeral hwell).2
      rw [hspelling, String.ofList_toList, read, Option.some.injEq] at hread
      rw [Lexeme.token?, hspelling, String.ofList_toList, hread]
    rcases plain with hwhole | ⟨whole, fraction, hwhole, hfraction, hlexeme⟩
    · have hwell : (Lexeme.numeral lexeme.toList none).IsWellFormed := ⟨hwhole, by simp⟩
      refine ⟨_, htoken _ _ hwell rfl, hwell, hends.1, fun _ => hends.2 fun hpoint => ?_⟩
      exact absurd (hwhole.2 '.' hpoint) (by decide)
    · have hwell : (Lexeme.numeral whole (some fraction)).IsWellFormed :=
        ⟨hwhole, by simpa using hfraction⟩
      exact ⟨_, htoken _ _ hwell hlexeme.symm, hwell, hends.1, by rintro ⟨⟩⟩
  | @text content line unquoted =>
    refine ⟨.text content.toList, ?_, unquoted, trivial⟩
    rw [Lexeme.token?, String.ofList_toList]
    rfl
  | @word letters line isWord =>
    refine ⟨.word letters.toList, ?_, isWord, endsBefore_ofWord_iff.mp hends⟩
    rw [Lexeme.token?, String.ofList_toList]
    rfl

theorem Token.IsWellFormed.onLine {t : Token} (h : t.IsWellFormed) (line : Int) :
    IsWellFormed { t with line } := by
  cases h with
  | symbol spelled => exact .symbol spelled
  | number plain read => exact .number plain read
  | text unquoted => exact .text unquoted
  | word isWord => exact .word isWord

/-! ## Layouts -/

theorem tokensFrom_eq_nil {ls : List Lexeme} (h : ∀ l ∈ ls, ∀ line, l.token? line = none)
    (p : Position) : tokensFrom p ls = [] := by
  induction ls generalizing p with
  | nil => rfl
  | cons l ls ih =>
    obtain ⟨hl, hls⟩ := List.forall_mem_cons.mp h
    simp [tokensFrom, hl, ih hls]

namespace Layout

variable {pieces : List (List Char × Token)} {gap tail : List Char} {t : Token}

theorem text_cons : (mk ((gap, t) :: pieces) tail).text =
    gap ++ (t.source ++ (mk pieces tail).text) := by
  simp [text]

/-- Behind its first token, a layout is one of the text from there on. -/
theorem IsSound.of_cons {line : Nat} (h : (Layout.mk ((gap, t) :: pieces) tail).IsSound line) :
    (Layout.mk pieces tail).IsSound (line + (gap ++ t.source).count '\n') := by
  refine ⟨h.tail, fun before gap' u after hsplit => ?_⟩
  obtain ⟨hgap, hu, hends, hline⟩ :=
    h.piece ((gap, t) :: before) gap' u after (congrArg ((gap, t) :: ·) hsplit)
  refine ⟨hgap, hu, hends, ?_⟩
  rw [hline, text_cons, ← List.append_assoc, List.count_append]
  omega

/-- A sound layout is one of a well-divided row of lexemes. -/
theorem IsSound.exists_lexemes {layout : Layout} {p : Position} (h : layout.IsSound p.line) :
    ∃ ls : List Lexeme, ls.flatMap Lexeme.spelling = layout.text ∧ IsDivision [] ls ∧
      tokensFrom p ls = layout.tokens := by
  obtain ⟨pieces, tail⟩ := layout
  induction pieces generalizing p with
  | nil =>
    obtain ⟨ls, hspelling, hdivision, hnone⟩ := exists_lexemes_of_isGap h.tail
    exact ⟨ls, hspelling, hdivision, tokensFrom_eq_nil hnone p⟩
  | cons piece pieces ih =>
    obtain ⟨gap, t⟩ := piece
    obtain ⟨hgap, ht, hends, hline⟩ := h.piece [] gap t pieces rfl
    obtain ⟨gaps, hgaps, hgapDivision, hnone⟩ := exists_lexemes_of_isGap hgap
    obtain ⟨l, htoken, hl, hlends⟩ := ht.exists_lexeme hends
    have hsource := Lexeme.source_token htoken hl
    have hmore := h.of_cons
    rw [← Position.line_advanceBy] at hmore
    obtain ⟨ls, hspelling, hdivision, htokens⟩ := ih hmore
    refine ⟨gaps ++ l :: ls, ?_, ?_, ?_⟩
    · rw [List.flatMap_append, List.flatMap_cons, hgaps, hspelling, text_cons, hsource]
    · refine isDivision_append.mpr ⟨?_, hl, ?_, hdivision⟩
      · rwa [List.flatMap_cons, hspelling, ← hsource, List.append_nil]
      · rwa [hspelling, List.append_nil]
    · have hplace : (p.advanceBy gap).line = t.line := by
        rw [Position.line_advanceBy, hline]
        simp [text]
      rw [tokensFrom_append, tokensFrom_eq_nil hnone, hgaps, List.nil_append, tokensFrom, hplace,
        htoken, ← Position.advanceBy_append, ← hsource, htokens]
      rfl

end Layout

/-- A text is turned into the tokens of each sound layout of it. -/
theorem scanText_of_isSound {layout : Layout} (h : layout.IsSound 1) :
    scanText (String.ofList layout.text) =
      .ok (layout.tokens ++ [Token.endOfInput (1 + layout.text.count '\n' : Nat)]) := by
  obtain ⟨ls, hspelling, hdivision, htokens⟩ := Layout.IsSound.exists_lexemes (p := .start) h
  rw [← hspelling, scanText_of_isDivision hdivision, htokens]

/-! ## Layouts with room between the tokens -/

namespace Layout

/-- The layout with each token on the line that it begins on, when the text begins on line one. -/
def placed (layout : Layout) : Layout where
  pieces := layout.pieces.mapIdx fun i (gap, t) =>
    (gap, { t with line := (1 + (mk (layout.pieces.take i) gap).text.count '\n' : Nat) })
  tail := layout.tail

/-- Tokens that can be spelled, with room between them: gaps of blanks and comments, each gap after
    a token beginning with a blank. A comment is closed, but for one at the very end, and the last
    gap may be empty. -/
structure IsSpaced (layout : Layout) : Prop where
  token : ∀ piece ∈ layout.pieces, piece.2.IsWellFormed
  gap : ∀ piece ∈ layout.pieces, ∀ following, IsGap following piece.1
  last : IsGap [] layout.tail
  apart : ∀ piece ∈ layout.pieces.tail, ∃ c ∈ piece.1.head?, isBlank c = true
  last_apart : layout.pieces ≠ [] → ∀ c ∈ layout.tail.head?, isBlank c = true

/-- What an update of each entry keeps, it keeps of the list. -/
theorem map_mapIdx_eq_map {α β : Type} {f : Nat → α → α} {g : α → β}
    (h : ∀ i a, g (f i a) = g a) (l : List α) : (l.mapIdx f).map g = l.map g := by
  induction l generalizing f with
  | nil => rfl
  | cons a l ih => simp [h, ih fun i => h (i + 1)]

/-- The lines of the tokens are no part of the text. -/
theorem text_mapIdx {f : Nat → List Char × Token → List Char × Token}
    (h : ∀ i piece, (f i piece).1 ++ (f i piece).2.source = piece.1 ++ piece.2.source)
    (pieces : List (List Char × Token)) (tail : List Char) :
    (Layout.mk (pieces.mapIdx f) tail).text = (Layout.mk pieces tail).text := by
  have hpieces := map_mapIdx_eq_map (g := fun piece => piece.1 ++ piece.2.source) h pieces
  simp only [text, List.flatMap_def, hpieces]

@[simp] theorem text_placed (layout : Layout) : layout.placed.text = layout.text := by
  rw [placed, text_mapIdx]
  exact fun _ _ => rfl

theorem tokens_placed (layout : Layout) :
    layout.placed.tokens.map Token.unplaced = layout.tokens.map Token.unplaced := by
  simp only [tokens, placed, List.map_map]
  rw [map_mapIdx_eq_map]
  exact fun _ _ => rfl

/-- Any token ends in front of a blank. -/
theorem endsBefore_of_isBlank (t : Token) {following : List Char}
    (h : ∀ c ∈ following.head?, isBlank c = true) : t.EndsBefore following := by
  have hword : ∀ c ∈ following.head?, isWordChar c = false := by
    intro c hc
    refine Bool.eq_false_iff.mpr fun hword => ?_
    have hblank := h c hc
    rw [isBlank_of_isWordChar hword] at hblank
    cases hblank
  have hsign : ∀ c ∈ following.head?, c ∉ ['=', '/', '.'] := by
    intro c hc hsign
    have hblank := h c hc
    have hnone : ['=', '/', '.'].all (fun d => !isBlank d) = true := by decide
    have := List.all_eq_true.mp hnone c hsign
    rw [hblank] at this
    cases this
  unfold Token.EndsBefore
  split
  · trivial
  · refine ⟨fun c hc => ?_, fun _ hfraction => ?_⟩
    · exact (Bool.or_eq_false_iff.mp (hword c hc)).2
    · obtain ⟨d, more, rfl, _⟩ := hfraction
      exact hsign '.' rfl (by decide)
  · split
    · intro c hc hextends
      refine hsign c hc ?_
      unfold TokenKind.extension? at hextends
      split at hextends <;> cases hextends <;> decide
    · exact hword

theorem IsSpaced.head?_text {layout : Layout} (h : layout.IsSpaced)
    {before after : List (List Char × Token)} {piece : List Char × Token}
    (hsplit : layout.pieces = before ++ piece :: after) :
    ∀ c ∈ (Layout.mk after layout.tail).text.head?, isBlank c = true := by
  intro c hc
  cases after with
  | nil =>
    refine h.last_apart (by simp [hsplit]) c ?_
    simpa [text] using hc
  | cons next after =>
    have hnext : next ∈ layout.pieces.tail := by
      rw [hsplit]
      cases before <;> simp
    obtain ⟨d, hd, hblank⟩ := h.apart next hnext
    obtain ⟨gap, hgap⟩ := List.head?_eq_some_iff.mp hd
    obtain ⟨gap', t⟩ := next
    obtain rfl : gap' = d :: gap := hgap
    rw [text_cons] at hc
    cases hc
    exact hblank

theorem IsSpaced.isSound_placed {layout : Layout} (h : layout.IsSpaced) :
    layout.placed.IsSound 1 := by
  refine ⟨h.last, fun before gap t after hsplit => ?_⟩
  -- the token stands where the layout has one that differs in its line at most
  obtain ⟨before', rest, hpieces, rfl, hrest⟩ := List.mapIdx_eq_append_iff.mp hsplit
  obtain ⟨⟨gap', u⟩, after', rfl, hpiece, rfl⟩ := List.mapIdx_eq_cons_iff.mp hrest
  obtain ⟨rfl, rfl⟩ := Prod.mk.inj hpiece
  have hmem : (gap', u) ∈ layout.pieces := by simp [hpieces]
  have hends := endsBefore_of_isBlank u (h.head?_text hpieces)
  refine ⟨h.gap _ hmem _, (h.token _ hmem).onLine _, ?_, ?_⟩
  · rw [text_mapIdx]
    · exact hends
    · exact fun _ _ => rfl
  · rw [text_mapIdx]
    · simp [hpieces]
    · exact fun _ _ => rfl

end Layout

/-- A text with room between its tokens is turned into these tokens, each on the line on which it
    begins. Any other text with the same tokens has the same expressions, or the same fault on
    another line. -/
theorem scanText_complete (layout : Layout) (h : layout.IsSpaced) :
    let tokens := layout.placed.tokens ++ [Token.endOfInput (1 + layout.text.count '\n' : Nat)]
    scanText (String.ofList layout.text) = .ok tokens ∧
      tokens.map Token.unplaced = (layout.tokens ++ [Token.endOfInput 0]).map Token.unplaced ∧
      ∀ (program : String) (ts : List Token), scanText program = .ok ts →
        ts.map Token.unplaced = (layout.tokens ++ [Token.endOfInput 0]).map Token.unplaced →
        (parseTokens tokens).mapError SyntaxFault.unplaced =
          (parseTokens ts).mapError SyntaxFault.unplaced := by
  intro tokens
  have hscan := scanText_of_isSound h.isSound_placed
  rw [Layout.text_placed] at hscan
  have htokens : tokens.map Token.unplaced =
      (layout.tokens ++ [Token.endOfInput 0]).map Token.unplaced := by
    rw [List.map_append, List.map_append, Layout.tokens_placed]
    rfl
  refine ⟨hscan, htokens, fun program ts _ hts => ?_⟩
  exact parseTokens_congr_unplaced (htokens.trans hts.symm)

/-- A quote in a comment, a comment in quotes, and a comment that the text ends in. -/
theorem scanText_complete_among_comments :
    let layout : Layout :=
      { pieces :=
          [(['/', '/', '"', '\n'], .ofWord "a" 0), (['\n'], ⟨.lessEqual, "<=", none, 0⟩),
            ([' ', '/', '/', '\n', '\t'], .ofText "//" 0)]
        tail := [' ', '/', '/'] }
    let tokens : List Token :=
      [⟨.identifier, "a", none, 2⟩, ⟨.lessEqual, "<=", none, 3⟩, .ofText "//" 4, .endOfInput 4]
    let program := "a<=\"//\""
    let ts : List Token :=
      [⟨.identifier, "a", none, 1⟩, ⟨.lessEqual, "<=", none, 1⟩, .ofText "//" 1, .endOfInput 1]
    layout.IsSpaced ∧ scanText (String.ofList layout.text) = .ok tokens ∧
      scanText program = .ok ts ∧
      (parseTokens tokens).mapError SyntaxFault.unplaced =
        (parseTokens ts).mapError SyntaxFault.unplaced := by
  intro layout tokens program ts
  have hspaced : layout.IsSpaced := by
    refine ⟨?_, ?_, ?_, ?_, ?_⟩
    · simp only [layout, List.forall_mem_cons]
      refine ⟨.word ⟨'a', [], rfl, by decide, by simp⟩, .symbol rfl, .text (by decide), by simp⟩
    · simp only [layout, List.forall_mem_cons]
      refine ⟨fun following => ?_, fun following => ?_, fun following => ?_, by simp⟩
      · exact @IsGap.comment _ ['"'] _ (by decide) (by simp) (.blank (by decide) .nil)
      · exact .blank (by decide) .nil
      · exact .blank (by decide)
          (@IsGap.comment _ [] _ (by decide) (by simp)
            (.blank (by decide) (.blank (by decide) .nil)))
    · exact .blank (by decide) (@IsGap.comment _ [] _ (by decide) (by simp) .nil)
    · simp only [layout, List.tail_cons, List.forall_mem_cons]
      exact ⟨⟨'\n', rfl, rfl⟩, ⟨' ', rfl, rfl⟩, by simp⟩
    · rintro _ c ⟨⟩
      rfl
  have hprogram : scanText program = .ok ts := by decide +kernel
  obtain ⟨hscan, _, hparse⟩ := scanText_complete layout hspaced
  exact ⟨hspaced, hscan, hprogram, hparse program ts hprogram rfl⟩

end LoxSyntax
