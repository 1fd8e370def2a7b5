import LoxSyntax.Lexeme.Scan
import LoxSyntax.Proofs.Lexeme.Spelling
set_option autoImplicit false

/-! # Layouts

A text that was turned into tokens can be got back from them and from what stands between them: it
is *laid out* as a gap in front of each token and one at the end. The layout of a row of lexemes is
put together from its end, each lexeme adding a token or making the first gap longer. The main
statement is `scanText_sound`. -/

namespace LoxSyntax

/-- A text cut at its tokens: each token with the gap in front of it, and the gap at the end. -/
structure Layout where
  pieces : List (List Char × Token) := []
  tail : List Char := []

namespace Layout

/-- The tokens of a layout. -/
def tokens (layout : Layout) : List Token := layout.pieces.map (·.2)

/-- The text that is laid out. -/
def text (layout : Layout) : List Char :=
  layout.pieces.flatMap (fun piece => piece.1 ++ piece.2.source) ++ layout.tail

/-- Everything is where it should be in a text that begins on the given line: with `front` and
    `behind` the characters before and after a token, the token is well formed, ends where `behind`
    begins, and is on the line that the line feeds in `front` give. -/
structure IsSound (line : Nat) (layout : Layout) : Prop where
  tail : IsGap [] layout.tail
  piece : ∀ before gap t after, layout.pieces = before ++ (gap, t) :: after →
    let front := (mk before gap).text
    let behind := (mk after layout.tail).text
    IsGap (t.source ++ behind) gap ∧ t.IsWellFormed ∧ t.EndsBefore behind ∧
      t.line = line + front.count '\n'

/-! ## One more lexeme -/

/-- The layout with one more token in front. -/
def push (t : Token) (layout : Layout) : Layout := ⟨([], t) :: layout.pieces, layout.tail⟩

/-- The layout with more characters in its first gap. -/
def skip (cs : List Char) : Layout → Layout
  | ⟨[], tail⟩ => ⟨[], cs ++ tail⟩
  | ⟨(gap, t) :: pieces, tail⟩ => ⟨(cs ++ gap, t) :: pieces, tail⟩

variable {layout : Layout} {line : Nat} {t : Token} {cs : List Char}

@[simp] theorem tokens_push : (layout.push t).tokens = t :: layout.tokens := rfl

@[simp] theorem text_push : (layout.push t).text = t.source ++ layout.text := by
  simp [push, text]

@[simp] theorem tokens_skip : (layout.skip cs).tokens = layout.tokens := by
  fun_cases skip cs layout <;> rfl

@[simp] theorem text_skip : (layout.skip cs).text = cs ++ layout.text := by
  fun_cases skip cs layout <;> simp [text]

theorem IsSound.push (h : layout.IsSound (line + t.source.count '\n')) (hwell : t.IsWellFormed)
    (hends : t.EndsBefore layout.text) (hline : t.line = line) :
    (layout.push t).IsSound line := by
  refine ⟨h.tail, fun before gap u after hsplit => ?_⟩
  cases before with
  | nil =>
    cases hsplit
    exact ⟨.nil, hwell, hends, by simpa [text] using hline⟩
  | cons piece before =>
    obtain ⟨rfl, hpieces⟩ := List.cons.inj hsplit
    obtain ⟨hgap, hu, hends, hfront⟩ := h.piece before gap u after hpieces
    refine ⟨hgap, hu, hends, ?_⟩
    rw [hfront]
    simp only [text, List.flatMap_cons, List.count_append, List.nil_append]
    omega

theorem IsSound.skip (h : layout.IsSound (line + cs.count '\n'))
    (hgap : ∀ following gap, gap ++ following = layout.text → IsGap following gap →
      IsGap following (cs ++ gap)) :
    (layout.skip cs).IsSound line := by
  fun_cases Layout.skip cs layout with
  | case1 tail =>
    refine ⟨hgap [] tail (by simp [text]) h.tail, fun before gap u after hsplit => ?_⟩
    simp at hsplit
  | case2 gap t pieces tail =>
    refine ⟨h.tail, fun before gap' u after hsplit => ?_⟩
    cases before with
    | nil =>
      cases hsplit
      obtain ⟨hfirst, hu, hends, hfront⟩ := h.piece [] gap t pieces rfl
      refine ⟨hgap _ gap (by simp [text]) hfirst, hu, hends, ?_⟩
      rw [hfront]
      simp only [text, List.flatMap_nil, List.count_append, List.nil_append]
      omega
    | cons piece before =>
      cases hsplit
      obtain ⟨hfirst, hu, hends, hfront⟩ := h.piece ((gap, t) :: before) gap' u after rfl
      refine ⟨hfirst, hu, hends, ?_⟩
      rw [hfront]
      simp only [text, List.flatMap_cons, List.count_append]
      omega

end Layout

/-! ## Layouts of lexemes -/

theorem Token.IsWellFormed.isEnd {t : Token} (h : t.IsWellFormed) : t.isEnd = false := by
  cases h with
  | symbol spelled =>
    apply decide_eq_false
    rintro rfl
    cases spelled
  | number => rfl
  | text => rfl
  | word => exact decide_eq_false (TokenKind.ofWord_ne _).2.2.1

end LoxSyntax
