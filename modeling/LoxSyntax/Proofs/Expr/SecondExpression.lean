import LoxSyntax.Proofs.Expr.Completeness
import LoxSyntax.Proofs.Expr.OverlargeNumbers
import LoxSyntax.Proofs.Expr.StoppingPlace
set_option autoImplicit false

/-! # Where the second expression begins

Reading a single expression and reading all expressions begin with the same one, and part behind it.
That is in front of a token that is no infix operator, behind tokens that are a single expression by
themselves; there is one such place at most, and a second expression has to begin there
(`secondBegins_iff`). So whatever comes of reading all expressions tells what comes of reading a
single one (`Host.parseExpression_of_parse`). -/

namespace LoxSyntax

variable {room : Nat} {stop other : Token} {state : ReadState} {t : Token} {ts : List Token}
  {e : Expr}

/-! ## The end of the first expression -/

/-- The tokens of `first` are the expression `e` by themselves, and the token `t` that follows them
    in the list cannot go on with it. -/
structure SecondBegins (tokens first : List Token) (e : Expr) (t : Token) : Prop where
  split : first ++ [t] <+: tokens.takeWhile (!·.isEnd)
  complete : parseTokens first = .ok [e]
  separate : t.kind.infixLevel? = none

/-- An expression ends in front of a token where it could end with the input, unless the token is an
    infix operator. -/
theorem readFrom_cons_ends_iff :
    ((readFrom room stop state (t :: ts)).result = .ok e ∧
      (readFrom room stop state (t :: ts)).rest = t :: ts) ↔
    (readFrom room other state []).result = .ok e ∧ t.kind.infixLevel? = none := by
  constructor
  · rintro ⟨hresult, hrest⟩
    rcases readFrom_cons_cases room stop state t ts with
      ⟨next, _, hread⟩ | ⟨f, _, hread⟩ | ⟨operand, stack, d, outer, rfl, hlevel, hclose, hne, hread⟩
    · -- a token that has been taken is not ahead any more
      have hsuffix := rest_suffix_readFrom room stop next ts
      rw [← hread, hrest] at hsuffix
      exact absurd hsuffix.length_le (Nat.not_succ_le_self _)
    · rw [hread] at hresult
      cases hresult
    · rw [hread] at hresult
      refine ⟨?_, hlevel⟩
      simp only [readFrom, hclose]
      exact hresult
  · rintro ⟨hresult, hlevel⟩
    rcases state with stack | ⟨operand, stack⟩
    · cases hresult
    · rcases hclose : closePending .equality operand stack with ⟨d, outer⟩
      simp only [readFrom, hlevel, hclose] at hresult ⊢
      split at hresult
      · cases hresult
      · next hne heq =>
        cases heq
        exact ⟨hresult, rfl⟩

/-- The first expression ends in front of `t` when the tokens up to `t` are an expression and `t` is
    no infix operator. -/
theorem readExpr_append_ends_iff {first : List Token} :
    ((readExpr room stop (first ++ t :: ts)).result = .ok e ∧
      (readExpr room stop (first ++ t :: ts)).rest = t :: ts) ↔
    (readSingle room other first).result = .ok e ∧ t.kind.infixLevel? = none := by
  rw [readSingle_eq_ok_iff]
  constructor
  · rintro ⟨hresult, hrest⟩
    obtain ⟨next, hrun⟩ := Progress.exists_run_of_readFrom_eq_ok hresult ⟨[], hrest⟩
    rw [readExpr, Progress.readFrom_append_of_run (hrun [])] at hresult hrest
    have halone : readFrom room other (.needsOperand []) (first ++ []) =
        readFrom room other next [] := Progress.readFrom_append_of_run (hrun []) []
    rw [List.append_nil] at halone
    obtain ⟨hends, hlevel⟩ := readFrom_cons_ends_iff.mp ⟨hresult, hrest⟩
    rw [readExpr, halone]
    exact ⟨⟨hends, List.suffix_nil.mp (rest_suffix_readFrom ..)⟩, hlevel⟩
  · rintro ⟨⟨hresult, hrest⟩, hlevel⟩
    rw [readExpr, ← List.append_nil first] at hresult hrest
    obtain ⟨next, hrun⟩ := Progress.exists_run_of_readFrom_eq_ok hresult ⟨[], hrest⟩
    rw [Progress.readFrom_append_of_run (hrun [])] at hresult
    rw [readExpr, Progress.readFrom_append_of_run (hrun [])]
    exact readFrom_cons_ends_iff.mpr ⟨hresult, hlevel⟩

/-- What comes of reading the first expression of a list of tokens. -/
def firstOutcome (tokens : List Token) : Outcome Expr :=
  readExpr maxNesting (TokenCursor.ofTokens tokens).stop (TokenCursor.ofTokens tokens).body

section

variable {tokens first : List Token}

/-- Tokens that the list begins with, in front of its end, are read to the last. -/
theorem body_ofTokens_first {after : List Token}
    (h : (TokenCursor.ofTokens tokens).body = first ++ t :: after) :
    (TokenCursor.ofTokens first).body = first := by
  have hends := (exists_eq_append_of_body h).2
  exact List.takeWhile_eq_self_iff.mpr (by simpa using hends)

theorem parseTokens_eq_singleton_iff (h : (TokenCursor.ofTokens first).body = first) :
    parseTokens first = .ok [e] ↔
      (readSingle maxNesting (TokenCursor.ofTokens first).stop first).result = .ok e := by
  rw [← parseSingle_eq_ok_iff, parseSingle_eq_readSingle, h]

/-- A second expression has to begin at the token in front of which reading the first one ends. -/
theorem secondBegins_iff :
    SecondBegins tokens first e t ↔
      (firstOutcome tokens).result = .ok e ∧ ∃ after, (firstOutcome tokens).rest = t :: after ∧
        (TokenCursor.ofTokens tokens).body = first ++ t :: after := by
  constructor
  · rintro ⟨⟨after, hsplit⟩, hcomplete, hseparate⟩
    have hbody : (TokenCursor.ofTokens tokens).body = first ++ t :: after := by
      rw [List.append_cons]
      exact hsplit.symm
    rw [parseTokens_eq_singleton_iff (body_ofTokens_first hbody)] at hcomplete
    obtain ⟨hresult, hrest⟩ := readExpr_append_ends_iff.mpr ⟨hcomplete, hseparate⟩
    rw [← hbody] at hresult hrest
    exact ⟨hresult, after, hrest, hbody⟩
  · rintro ⟨hresult, after, hrest, hbody⟩
    rw [firstOutcome, hbody] at hresult hrest
    obtain ⟨hcomplete, hseparate⟩ := readExpr_append_ends_iff.mp ⟨hresult, hrest⟩
    refine ⟨⟨after, ?_⟩, ?_, hseparate⟩
    · rw [← List.append_cons]
      exact hbody.symm
    · rw [parseTokens_eq_singleton_iff (body_ofTokens_first hbody)]
      exact hcomplete

/-- There is one place at most where a second expression has to begin. -/
theorem SecondBegins.unique {first' : List Token} {e' : Expr} {t' : Token}
    (h : SecondBegins tokens first e t) (h' : SecondBegins tokens first' e' t') :
    first = first' ∧ e = e' ∧ t = t' := by
  obtain ⟨hresult, after, hrest, hbody⟩ := secondBegins_iff.mp h
  obtain ⟨hresult', after', hrest', hbody'⟩ := secondBegins_iff.mp h'
  obtain rfl := Except.ok.inj (hresult.symm.trans hresult')
  obtain ⟨rfl, rfl⟩ := List.cons.inj (hrest.symm.trans hrest')
  exact ⟨List.append_cancel_right (hbody.symm.trans hbody'), rfl, rfl⟩

end

/-! ## All expressions and a single one -/

section

variable {tokens : List Token} {f g : SyntaxFault}

/-- Expressions that were read spell the tokens in front of the end of the input. -/
theorem terminals_of_parseTokens {es : List Expr} (h : parseTokens tokens = .ok es) :
    (TokenCursor.ofTokens tokens).body.map Token.terminal = es.flatMap Tree.terminals := by
  rw [parseTokens_eq_read] at h
  exact ((read_eq_ok_iff_isProgram _).mp h).2

namespace SecondBegins

variable {first : List Token} (h : SecondBegins tokens first e t)

include h

/-- Reading all expressions goes on where a second one has to begin. -/
theorem exists_read_all : ∃ after count,
    (TokenCursor.ofTokens tokens).body = first ++ t :: after ∧
      Call.all.read maxNesting (TokenCursor.ofTokens tokens).stop
          (TokenCursor.ofTokens tokens).body =
        (readExprs maxNesting (TokenCursor.ofTokens tokens).stop count (t :: after)).map
          (e :: ·) := by
  obtain ⟨hresult, after, hrest, hbody⟩ := secondBegins_iff.mp h
  have hlength : (first ++ t :: after).length = first.length + after.length + 1 := by
    rw [List.length_append, List.length_cons, Nat.add_assoc]
  rw [firstOutcome, hbody] at hresult hrest
  refine ⟨after, first.length + after.length, hbody, ?_⟩
  rw [hbody, Call.read, hlength]
  exact readExprs_append_of_readExpr hresult hrest _

/-- The first expression spells the tokens in front of the second, and the second one begins with
    the token that is told. -/
theorem terminals {d : Expr} {es : List Expr} (hparse : parseTokens tokens = .ok (e :: d :: es)) :
    first.map Token.terminal = e.terminals ∧ d.terminals.head? = some t.terminal := by
  obtain ⟨after, _, hbody, _⟩ := h.exists_read_all
  have hfirst := terminals_of_parseTokens h.complete
  rw [body_ofTokens_first hbody, List.flatMap_singleton] at hfirst
  have hall := terminals_of_parseTokens hparse
  rw [hbody, List.map_append, List.flatMap_cons, hfirst] at hall
  have hrest := List.append_cancel_left hall
  refine ⟨hfirst, ?_⟩
  have hhead := congrArg List.head? hrest
  rw [List.flatMap_cons, List.head?_append_of_ne_nil _ d.terminals_ne_nil] at hhead
  exact hhead.symm

end SecondBegins

end

end LoxSyntax
