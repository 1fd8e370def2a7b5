import LoxSyntax.Proofs.Lexeme.Layout
import LoxSyntax.Proofs.Lexeme.Uniqueness
set_option autoImplicit false

/-! # Where tokens begin

Each token of a text begins at one place of it: the text in front of that place is turned into the
tokens in front of this one, and the text up to the end of its spelling into these and the token
(`BeginsBehind`). The token that ends the input begins at the end of the text. -/

namespace LoxSyntax

/-- The token `t`, behind the tokens `ts`, begins behind the characters `before` of a text. -/
structure BeginsBehind (source : String) (ts : List Token) (t : Token) (before : List Char) :
    Prop where
  line : t.line = (1 + before.count '\n' : Nat)
  tokens_before : scanText (String.ofList before) = .ok (ts ++ [Token.endOfInput t.line])
  spelled : t.isEnd = false →
    (∃ after, source.toList = before ++ t.source ++ after) ∧
      scanText (String.ofList (before ++ t.source)) =
        .ok (ts ++ [t, Token.endOfInput (1 + (before ++ t.source).count '\n' : Nat)])
  at_end : t.isEnd = true → source.toList = before

/-- A token begins within its text. -/
theorem BeginsBehind.isPrefix {source : String} {ts : List Token} {t : Token} {before : List Char}
    (h : BeginsBehind source ts t before) : before <+: source.toList := by
  cases hend : t.isEnd with
  | true => exact ⟨[], by rw [h.at_end hend, List.append_nil]⟩
  | false =>
    obtain ⟨⟨after, hafter⟩, -⟩ := h.spelled hend
    exact ⟨t.source ++ after, by rw [hafter, List.append_assoc]⟩

/-- A token among those of a row of lexemes is spelled by one of them, and those in front of it by
    the lexemes in front. -/
theorem exists_lexeme_of_tokensFrom {p : Position} {ls : List Lexeme} {ts us : List Token}
    {t : Token} (h : tokensFrom p ls = ts ++ t :: us) :
    ∃ front l back, ls = front ++ l :: back ∧ tokensFrom p front = ts ∧
      l.token? (p.advanceBy (front.flatMap Lexeme.spelling)).line = some t := by
  induction ls generalizing p ts with
  | nil => exact absurd h.symm (by simp [tokensFrom])
  | cons l ls ih =>
    -- a blank or a remark in front has no token, so that `ts` may be empty without `l` spelling `t`
    have hfirst : l.token? p.line = some t ∧ ts = [] ∨
        ∃ more, ts = (l.token? p.line).toList ++ more ∧
          tokensFrom (p.advanceBy l.spelling) ls = more ++ t :: us := by
      rw [tokensFrom] at h
      cases htoken : l.token? p.line with
      | none =>
        rw [htoken] at h
        exact Or.inr ⟨ts, rfl, h⟩
      | some u =>
        rw [htoken] at h
        cases ts with
        | nil => exact Or.inl ⟨congrArg some (List.cons.inj h).1, rfl⟩
        | cons v more =>
          obtain ⟨rfl, hmore⟩ := List.cons.inj h
          exact Or.inr ⟨more, rfl, hmore⟩
    rcases hfirst with ⟨hl, rfl⟩ | ⟨more, rfl, hmore⟩
    · exact ⟨[], l, ls, rfl, rfl, hl⟩
    · obtain ⟨front, m, back, rfl, hfront, hm⟩ := ih hmore
      refine ⟨l :: front, m, back, rfl, by rw [tokensFrom, hfront], ?_⟩
      rwa [List.flatMap_cons, Position.advanceBy_append]

theorem isWellFormed_of_mem_tokensFrom {rest : List Char} {ls : List Lexeme}
    (h : IsDivision rest ls) (p : Position) : ∀ t ∈ tokensFrom p ls, t.IsWellFormed := by
  induction ls generalizing p with
  | nil => simp [tokensFrom]
  | cons l ls ih =>
    obtain ⟨hwell, _, hmore⟩ := h
    intro t ht
    rcases List.mem_append.mp ht with ht | ht
    · exact Lexeme.isWellFormed_token (Option.mem_toList.mp ht) hwell
    · exact ih hmore _ t ht

/-- The tokens of a text are well formed, up to the one that ends the input. -/
theorem exists_body_of_scanText {source : String} {tokens : List Token}
    (h : scanText source = .ok tokens) :
    ∃ body, tokens = body ++ [Token.endOfInput (1 + source.toList.count '\n' : Nat)] ∧
      ∀ t ∈ body, t.IsWellFormed := by
  obtain ⟨ls, _, hdivision, rfl⟩ := exists_lexemes_of_scanText_eq_ok h
  exact ⟨_, rfl, isWellFormed_of_mem_tokensFrom hdivision .start⟩

/-- A text may end behind any of its lexemes. -/
theorem IsDivision.of_front {ls ms : List Lexeme} (h : IsDivision [] (ls ++ ms)) :
    IsDivision [] ls :=
  @IsDivision.of_append _ [] _ (isDivision_append.mp h).1

/-- The token that a lexeme spells behind well-divided ones begins behind their characters. -/
theorem beginsBehind_of_lexeme {source : String} {front back : List Lexeme} {l : Lexeme} {t : Token}
    (hsource : source.toList = (front ++ l :: back).flatMap Lexeme.spelling)
    (hdivision : IsDivision [] (front ++ l :: back))
    (ht : l.token? (Position.start.advanceBy (front.flatMap Lexeme.spelling)).line = some t) :
    BeginsBehind source (tokensFrom .start front) t (front.flatMap Lexeme.spelling) := by
  have hwell : l.IsWellFormed := (isDivision_append.mp hdivision).2.1
  have htsource := Lexeme.source_token ht hwell
  have hline : t.line = (1 + (front.flatMap Lexeme.spelling).count '\n' : Nat) := by
    rw [Lexeme.line_of_token? ht, Position.line_advanceBy]
    rfl
  refine ⟨hline, ?_, fun _ => ⟨⟨back.flatMap Lexeme.spelling, ?_⟩, ?_⟩, fun hend => ?_⟩
  · rw [hline]
    exact scanText_of_isDivision hdivision.of_front
  · rw [hsource, htsource, List.flatMap_append, List.flatMap_cons, List.append_assoc]
  · have hshort : IsDivision [] (front ++ [l]) := by
      rw [List.append_cons] at hdivision
      exact hdivision.of_front
    have hspelling :
        (front ++ [l]).flatMap Lexeme.spelling = front.flatMap Lexeme.spelling ++ t.source := by
      rw [htsource, List.flatMap_append, List.flatMap_singleton]
    have htokens : tokensFrom .start (front ++ [l]) = tokensFrom .start front ++ [t] := by
      rw [tokensFrom_append, tokensFrom, ht]
      rfl
    rw [← hspelling, scanText_of_isDivision hshort, htokens, List.append_assoc]
    rfl
  · rw [(Lexeme.isWellFormed_token ht hwell).isEnd] at hend
    cases hend

/-- Each token of a text begins at a place of it. -/
theorem exists_beginsBehind {source : String} {ts us : List Token} {t : Token}
    (h : scanText source = .ok (ts ++ t :: us)) : ∃ before, BeginsBehind source ts t before := by
  obtain ⟨ls, hsource, hdivision, htokens⟩ := exists_lexemes_of_scanText_eq_ok h
  rcases List.eq_nil_or_concat us with rfl | ⟨vs, stop, rfl⟩
  · -- the last token is the one that ends the input
    obtain ⟨rfl, hstop⟩ := List.append_inj' htokens rfl
    obtain rfl := List.singleton_inj.mp hstop
    refine ⟨source.toList, rfl, ?_, nofun, fun _ => rfl⟩
    rw [String.ofList_toList]
    exact h
  · rw [List.concat_eq_append, ← List.cons_append, ← List.append_assoc] at htokens
    obtain ⟨hbody, -⟩ := List.append_inj' htokens rfl
    obtain ⟨front, l, back, rfl, rfl, ht⟩ := exists_lexeme_of_tokensFrom hbody.symm
    exact ⟨_, beginsBehind_of_lexeme hsource hdivision ht⟩

end LoxSyntax
