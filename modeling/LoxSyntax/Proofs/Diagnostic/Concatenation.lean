import LoxSyntax.Diagnostic.Source
import LoxSyntax.Proofs.Expr.Absorption
import LoxSyntax.Proofs.Lexeme.Layout
import LoxSyntax.Proofs.Lexeme.Restart
set_option autoImplicit false

/-! # Programs one below the other

Two programs, one below the other, are read as the expressions of both, unless the second begins
with a minus: behind an expression that is an infix operator, so that the last expression of the
first program takes in the first expression of the second. No other token goes on with an expression
and begins one as well. -/

namespace LoxSyntax

/-! ## Programs and their tokens -/

theorem isEnd_of_mem_tokensFrom {rest : List Char} {ls : List Lexeme} (h : IsDivision rest ls)
    (p : Position) : ∀ t ∈ tokensFrom p ls, t.isEnd = false := by
  induction ls generalizing p with
  | nil => simp [tokensFrom]
  | cons l ls ih =>
    obtain ⟨hwell, _, hmore⟩ := h
    intro t ht
    rcases List.mem_append.mp ht with ht | ht
    · exact (Lexeme.isWellFormed_token (Option.mem_toList.mp ht) hwell).isEnd
    · exact ih hmore _ t ht

/-- A text is read as the one program that flattens to its tokens. -/
theorem parseSource_eq_ok_iff_isProgram {source filename : String} {ts : List Token} {stop : Token}
    {es : List Expr} (hscan : scanSource source filename = .ok (ts ++ [stop])) :
    parseSource source filename = .ok es ↔
      IsProgram maxNesting es ∧ ts.map Token.terminal = es.flatMap Tree.terminals := by
  rw [scanSource_eq_ok_iff] at hscan
  obtain ⟨ls, _, hdivision, htokens⟩ := exists_lexemes_of_scanText_eq_ok hscan
  obtain ⟨rfl, hstop⟩ := List.append_inj' htokens rfl
  have hend : stop.isEnd = true := by
    rw [List.singleton_inj.mp hstop]
    rfl
  have hends := isEnd_of_mem_tokensFrom hdivision .start
  rw [← read_eq_ok_iff_isProgram stop, ← parseTokens_append_stop [] hends hend,
    parseSource_eq_ok_iff]
  simp [scanSource_eq_ok_iff, hscan]

/-- A text that is read has tokens, the last of which ends the input. -/
theorem exists_scanSource_of_parseSource {source filename : String} {es : List Expr}
    (h : parseSource source filename = .ok es) :
    ∃ ts stop, scanSource source filename = .ok (ts ++ [stop]) := by
  obtain ⟨tokens, hscan, _⟩ := parseSource_eq_ok_iff.mp h
  have htext := scanSource_eq_ok_iff.mp hscan
  obtain ⟨ls, _, _, rfl⟩ := exists_lexemes_of_scanText_eq_ok htext
  exact ⟨_, _, hscan⟩

theorem Token.terminal_eq_minus_iff {t : Token} :
    t.terminal = .symbol .minus ↔ t.kind = .minus := by
  refine ⟨Token.kind_of_terminal, fun h => ?_⟩
  simp [Token.terminal, h]

section

variable {ts : List Token} {es : List Expr}
  (h : ts.map Token.terminal = es.flatMap Tree.terminals)

include h

theorem eq_nil_iff_of_terminals : ts = [] ↔ es = [] := by
  constructor
  · rintro rfl
    rcases es with _ | ⟨e, es⟩
    · rfl
    · have hnil := (List.append_eq_nil_iff.mp h.symm).1
      exact absurd hnil e.terminals_ne_nil
  · rintro rfl
    exact List.map_eq_nil_iff.mp h

/-- The tokens begin with no minus when the first expression does not. -/
theorem head?_ne_minus_iff_of_terminals :
    (∀ t ∈ ts.head?, t.kind ≠ .minus) ↔
      ∀ e ∈ es.head?, e.terminals.head? ≠ some (.symbol .minus) := by
  rcases ts with _ | ⟨t, ts⟩
  · rw [(eq_nil_iff_of_terminals h).mp rfl]
    simp
  · rcases es with _ | ⟨e, es⟩
    · cases h
    · have hhead := congrArg List.head? h
      rw [List.flatMap_cons, List.head?_append_of_ne_nil _ e.terminals_ne_nil] at hhead
      simp [← hhead, ← Token.terminal_eq_minus_iff]

end

/-! ## Two programs -/

/-- Two programs, one below the other, are read as the expressions of both if and only if the first
    has no tokens or the second does not begin with a minus. Otherwise the last expression of the
    first program absorbs the first one of the second. -/
theorem parseSource_append_lineFeed (a b filename : String) (es ds : List Expr)
    (ha : parseSource a filename = .ok es) (hb : parseSource b filename = .ok ds) :
    ∃ as stopA bs stopB, scanSource a filename = .ok (as ++ [stopA]) ∧
      scanSource b filename = .ok (bs ++ [stopB]) ∧
      (parseSource (a ++ "\n" ++ b) filename = .ok (es ++ ds) ↔
        as = [] ∨ ∀ t ∈ bs.head?, t.kind ≠ .minus) ∧
      (¬(as = [] ∨ ∀ t ∈ bs.head?, t.kind ≠ .minus) →
        ∃ before last first after, es = before ++ [last] ∧ ds = first :: after ∧
          parseSource (a ++ "\n" ++ b) filename = .ok (before ++ last.absorb first :: after) ∧
          (last.absorb first).terminals = last.terminals ++ first.terminals) := by
  obtain ⟨as, stopA, hscanA⟩ := exists_scanSource_of_parseSource ha
  obtain ⟨bs, stopB, hscanB⟩ := exists_scanSource_of_parseSource hb
  obtain ⟨hprogramA, htermsA⟩ := (parseSource_eq_ok_iff_isProgram hscanA).mp ha
  obtain ⟨hprogramB, htermsB⟩ := (parseSource_eq_ok_iff_isProgram hscanB).mp hb
  have hscan : scanSource (a ++ "\n" ++ b) filename =
      .ok (as ++ bs.map (Token.below (1 + a.toList.count '\n')) ++
        [stopB.below (1 + a.toList.count '\n')]) := by
    rw [scanSource_eq_ok_iff] at hscanA hscanB ⊢
    rw [scanText_append_lineFeed hscanA hscanB, List.map_append, ← List.append_assoc]
    rfl
  have hterms : (as ++ bs.map (Token.below (1 + a.toList.count '\n'))).map Token.terminal =
      es.flatMap Tree.terminals ++ ds.flatMap Tree.terminals := by
    rw [List.map_append, List.map_map, ← htermsA, ← htermsB]
    rfl
  have hparse : ∀ cs, parseSource (a ++ "\n" ++ b) filename = .ok cs ↔ IsProgram maxNesting cs ∧
      es.flatMap Tree.terminals ++ ds.flatMap Tree.terminals = cs.flatMap Tree.terminals := by
    intro cs
    rw [← hterms]
    exact parseSource_eq_ok_iff_isProgram hscan
  refine ⟨as, stopA, bs, stopB, hscanA, hscanB, ?_, ?_⟩
  · rw [hparse, isProgram_append_iff hprogramA hprogramB, eq_nil_iff_of_terminals htermsA,
      head?_ne_minus_iff_of_terminals htermsB]
    simp
  · intro hminus
    rw [eq_nil_iff_of_terminals htermsA, head?_ne_minus_iff_of_terminals htermsB] at hminus
    push Not at hminus
    obtain ⟨hne, first, hfirst, hhead⟩ := hminus
    obtain ⟨after, rfl⟩ := List.head?_eq_some_iff.mp hfirst
    obtain ⟨before, last, hes⟩ := (List.eq_nil_or_concat es).resolve_left hne
    rw [List.concat_eq_append] at hes
    subst hes
    have hlast : last.IsNormal := hprogramA.normal last (by simp)
    have hfirst : first.IsNormal := hprogramB.normal first (List.mem_cons_self ..)
    obtain ⟨_, hjoined, _⟩ := Tree.absorb_spec hlast hfirst hhead
    have hprogram := isProgram_absorb hprogramA hprogramB hhead
    refine ⟨before, last, first, after, rfl, rfl, (hparse _).mpr ⟨hprogram, ?_⟩, hjoined⟩
    simp [hjoined]

/-- The comparison of the first line takes in the product of the second, but not the negation that
    follows it. -/
theorem parseSource_append_lineFeed_minus :
    parseSource "a b == c // d" = .ok [.name "a", .binary (.name "b") .equalEqual (.name "c")] ∧
      parseSource "-d * e !f" =
        .ok [.binary (.unary .minus (.name "d")) .star (.name "e"), .unary .bang (.name "f")] ∧
      parseSource ("a b == c // d" ++ "\n" ++ "-d * e !f") =
        .ok [.name "a",
          .binary (.name "b") .equalEqual
            (.binary (.name "c") .minus (.binary (.name "d") .star (.name "e"))),
          .unary .bang (.name "f")] := by
  have ha : parseSource "a b == c // d" =
      .ok [.name "a", .binary (.name "b") .equalEqual (.name "c")] := by decide +kernel
  have hb : parseSource "-d * e !f" =
      .ok [.binary (.unary .minus (.name "d")) .star (.name "e"), .unary .bang (.name "f")] := by
    decide +kernel
  refine ⟨ha, hb, ?_⟩
  obtain ⟨as, stopA, bs, stopB, hscanA, hscanB, hplain, habsorb⟩ :=
    parseSource_append_lineFeed _ _ _ _ _ ha hb
  have hkindsA : (scanSource "a b == c // d").map (List.map Token.kind) =
      .ok [.identifier, .identifier, .equalEqual, .identifier, .endOfInput] := by decide +kernel
  have hkindsB : (scanSource "-d * e !f").map (List.map Token.kind) =
      .ok [.minus, .identifier, .star, .identifier, .bang, .identifier, .endOfInput] := by
    decide +kernel
  have hminus : ¬(as = [] ∨ ∀ t ∈ bs.head?, t.kind ≠ .minus) := by
    rintro (rfl | hhead)
    · rw [hscanA] at hkindsA
      have hlength := congrArg List.length (Except.ok.inj hkindsA)
      cases hlength
    · rw [hscanB] at hkindsB
      rcases bs with _ | ⟨t, bs⟩
      · have hlength := congrArg List.length (Except.ok.inj hkindsB)
        cases hlength
      · exact hhead t rfl (List.cons.inj (Except.ok.inj hkindsB)).1
  obtain ⟨before, last, first, after, hes, hds, hparse, _⟩ := habsorb hminus
  have hconcat : [.name "a"] ++ [.binary (.name "b") .equalEqual (.name "c")] = before ++ [last] :=
    hes
  obtain ⟨rfl, hlast⟩ := List.append_inj' hconcat rfl
  obtain ⟨rfl, rfl⟩ := List.cons.inj hds
  obtain rfl := List.singleton_inj.mp hlast
  exact hparse

end LoxSyntax
