import LoxSyntax.Proofs.Diagnostic.Concatenation
import LoxSyntax.Proofs.Expr.OutlineRows
import LoxSyntax.Proofs.Lexeme.TokenPlace
set_option autoImplicit false

/-! # Expressions that a text holds

Not every tree can be the expression of a text. Operators stand where the grammar lets them, numbers
are magnitudes, a text holds no quote, and a name is a word that is not reserved
(`Tree.IsSource`). All nodes of such a tree can be printed, and the trees below it are of the
same kind. -/

namespace LoxSyntax

/-! ## Operators -/

/-- The kind that an operator is the spelling of. -/
def TokenKind.ofSymbol (symbol : List Char) : TokenKind :=
  (all.find? fun kind => kind.symbol?.map String.toList = some symbol).getD .endOfInput

theorem TokenKind.ofSymbol_of_symbol? {kind : TokenKind} {symbol : String}
    (h : kind.symbol? = some symbol) : ofSymbol symbol.toList = kind := by
  cases kind <;> cases h <;> decide

/-- Operators are made of marks of their own. -/
theorem TokenKind.chars_of_symbol? {kind : TokenKind} {symbol : String}
    (h : kind.symbol? = some symbol) :
    ' ' ∉ symbol.toList ∧ '\n' ∉ symbol.toList ∧ symbol.toList ≠ "group".toList := by
  cases kind <;> cases h <;> decide

theorem TokenKind.exists_symbol_of_isPrefixOperator {kind : TokenKind}
    (h : kind.isPrefixOperator = true) : ∃ symbol, kind.symbol? = some symbol := by
  cases kind <;> cases h <;> exact ⟨_, rfl⟩

theorem TokenKind.exists_symbol_of_infixLevel? {kind : TokenKind} {level : Level}
    (h : kind.infixLevel? = some level) : ∃ symbol, kind.symbol? = some symbol := by
  cases kind <;> cases h <;> exact ⟨_, rfl⟩

/-! ## Printing what was read -/

namespace Tree

/-- No node of an expression in normal form is at fault. -/
theorem firstFault?_of_isNormal {e : Expr} (h : e.IsNormal) (depth : Nat) :
    firstFault? (e.nodes depth) = none := by
  induction e generalizing depth with
  | unary operator operand ih =>
    obtain ⟨hoperator, _, hoperand⟩ := h
    obtain ⟨symbol, hsymbol⟩ := TokenKind.exists_symbol_of_isPrefixOperator hoperator
    rw [nodes, firstFault?_cons, ih hoperand, ownFault?, hsymbol]
    rfl
  | binary left operator right ihLeft ihRight =>
    obtain ⟨⟨level, hlevel, _⟩, hleft, hright⟩ := h
    obtain ⟨symbol, hsymbol⟩ := TokenKind.exists_symbol_of_infixLevel? hlevel
    rw [nodes, firstFault?_cons, firstFault?_append, ihLeft hleft, ihRight hright, ownFault?,
      hsymbol]
    rfl
  | group inner ih =>
    rw [nodes, firstFault?_cons, ih h]
    rfl
  | number | text | truth | nil | name => rfl
  | foreign value => exact value.elim

theorem exists_prefixForm {e : Expr} (h : e.IsNormal) : ∃ form, e.prefixForm = .ok form :=
  faultOf_eq_none_iff.mp ((faultOf_prefixForm e 0).trans (firstFault?_of_isNormal h 0))

/-- An outline of expressions in normal form is complete: it has the rows of all their nodes. -/
theorem outline_eq_rows {es : List Expr} (h : ∀ e ∈ es, e.IsNormal) :
    outline es = { text := String.join ((es.flatMap (nodes 0)).map row) } := by
  rw [outline_eq, concat_writtenRow]
  intro n hn
  obtain ⟨e, he, hn⟩ := List.mem_flatMap.mp hn
  exact firstFault?_eq_none_iff.mp (firstFault?_of_isNormal (h e he) 0) n hn

theorem outline_eq_text {es : List Expr} (h : ∀ e ∈ es, e.IsNormal) :
    outline es = { text := (outline es).text } := by
  rw [outline_eq_rows h]

end Tree

/-- The expressions of a text are in normal form. -/
theorem isNormal_of_parseSource {source filename : String} {es : List Expr}
    (h : parseSource source filename = .ok es) : ∀ e ∈ es, e.IsNormal := by
  obtain ⟨ts, stop, hscan⟩ := exists_scanSource_of_parseSource h
  exact ((parseSource_eq_ok_iff_isProgram hscan).mp h).1.normal

/-! ## Leaves -/

/-- Can a token of a text say this to the grammar? -/
def Terminal.IsSpelled : Terminal → Prop
  | number value => ∃ rank, value = Double.ofRank false rank
  | text content => '"' ∉ content.toList
  | name spelling => IsWord spelling.toList ∧ TokenKind.ofWord spelling = .identifier
  | symbol _ => True

theorem IsWord.isWordChar {cs : List Char} (h : IsWord cs) : ∀ c ∈ cs, isWordChar c = true := by
  obtain ⟨first, more, rfl, hfirst, hmore⟩ := h
  exact List.forall_mem_cons.mpr ⟨by rw [LoxSyntax.isWordChar, hfirst, Bool.true_or], hmore⟩

/-- A numeral without a sign is read as a magnitude. -/
theorem Numeral.exists_rank_of_read? {cs : List Char} {value : Double} (h : IsPlainNumeral cs)
    (hread : read? (String.ofList cs) = some value) :
    ∃ rank, value = Double.ofRank false rank := by
  rw [read?_plain h] at hread
  obtain ⟨d, _, rfl⟩ := Option.map_eq_some_iff.mp hread
  unfold Double.ofDecimal
  split
  · exact ⟨_, rfl⟩
  · exact ⟨_, rfl⟩

theorem Token.IsWellFormed.isSpelled {t : Token} (h : t.IsWellFormed) : t.terminal.IsSpelled := by
  cases h with
  | @symbol kind spelling line spelled =>
    have hsymbol : terminal ⟨kind, spelling, none, line⟩ = .symbol kind := by
      cases kind <;> first | rfl | cases spelled
    rw [hsymbol]
    trivial
  | @number lexeme value line plain read =>
    rw [← String.ofList_toList (s := lexeme)] at read
    exact Numeral.exists_rank_of_read? plain read
  | text unquoted => exact unquoted
  | @word letters line isWord =>
    obtain ⟨htext, hnumber, _⟩ := TokenKind.ofWord_ne letters
    by_cases hname : TokenKind.ofWord letters = .identifier
    · have hterminal : (ofWord letters line).terminal = .name letters := by
        simp [terminal, ofWord, hname]
      rw [hterminal]
      exact ⟨isWord, hname⟩
    · rw [terminal_of_ne hnumber htext hname]
      trivial

/-! ## Trees -/

namespace Tree

/-- The trees that a text can hold: the operators are those of the grammar, each leaf is spelled by
    a token. -/
structure IsSource (e : Expr) : Prop where
  normal : e.IsNormal
  spelled : ∀ x ∈ e.terminals, x.IsSpelled

theorem IsSource.unary {operator : TokenKind} {operand : Expr}
    (h : IsSource (.unary operator operand)) :
    (∃ symbol, operator.symbol? = some symbol) ∧ operand.IsSource := by
  obtain ⟨⟨hoperator, _, hnormal⟩, hspelled⟩ := h
  exact ⟨TokenKind.exists_symbol_of_isPrefixOperator hoperator, hnormal,
    fun x hx => hspelled x (List.mem_cons_of_mem _ hx)⟩

theorem IsSource.binary {left right : Expr} {operator : TokenKind}
    (h : IsSource (.binary left operator right)) :
    (∃ symbol, operator.symbol? = some symbol) ∧ left.IsSource ∧ right.IsSource := by
  obtain ⟨⟨⟨level, hlevel, _⟩, hleft, hright⟩, hspelled⟩ := h
  refine ⟨TokenKind.exists_symbol_of_infixLevel? hlevel, ⟨hleft, ?_⟩, ⟨hright, ?_⟩⟩
  · intro x hx
    exact hspelled x (List.mem_append_left _ hx)
  · intro x hx
    exact hspelled x (List.mem_append_right _ (List.mem_cons_of_mem _ hx))

theorem IsSource.group {inner : Expr} (h : IsSource (.group inner)) : inner.IsSource := by
  obtain ⟨hnormal, hspelled⟩ := h
  exact ⟨hnormal, fun x hx =>
    hspelled x (List.mem_cons_of_mem _ (List.mem_append_left _ hx))⟩

/-- The trees below one that a text can hold are such trees. -/
theorem IsSource.of_mem_nodes {e : Expr} (h : e.IsSource) {depth : Nat} {node : Nat × Expr}
    (hnode : node ∈ e.nodes depth) : node.2.IsSource := by
  induction e generalizing depth with
  | unary operator operand ih =>
    rcases List.mem_cons.mp hnode with rfl | hnode
    · exact h
    · exact ih h.unary.2 hnode
  | binary left operator right ihLeft ihRight =>
    obtain ⟨_, hleft, hright⟩ := h.binary
    rcases List.mem_cons.mp hnode with rfl | hnode
    · exact h
    rcases List.mem_append.mp hnode with hnode | hnode
    · exact ihLeft hleft hnode
    · exact ihRight hright hnode
  | group inner ih =>
    rcases List.mem_cons.mp hnode with rfl | hnode
    · exact h
    · exact ih h.group hnode
  | number | text | truth | nil | name =>
    rw [List.mem_singleton.mp hnode]
    exact h
  | foreign value => exact value.elim

variable {es : List Expr}

theorem isSource_of_mem_flatMap_nodes (h : ∀ e ∈ es, e.IsSource) :
    ∀ n ∈ es.flatMap (nodes 0), n.2.IsSource := by
  intro n hn
  obtain ⟨e, he, hn⟩ := List.mem_flatMap.mp hn
  exact (h e he).of_mem_nodes hn

/-- The outline of trees that a text can hold is complete, row after row. -/
theorem outline_of_isSource (h : ∀ e ∈ es, e.IsSource) :
    (outline es).fault? = none ∧
      (outline es).text.toList = (es.flatMap (nodes 0)).flatMap fun n => (row n).toList := by
  rw [outline_eq_rows fun e he => (h e he).normal]
  refine ⟨rfl, ?_⟩
  rw [String.toList_join, List.flatMap_map]

end Tree

/-- The expressions of a text are trees that a text can hold. -/
theorem isSource_of_parseSource {source filename : String} {es : List Expr}
    (h : parseSource source filename = .ok es) : ∀ e ∈ es, e.IsSource := by
  obtain ⟨ts, stop, hscan⟩ := exists_scanSource_of_parseSource h
  obtain ⟨hprogram, hterminals⟩ := (parseSource_eq_ok_iff_isProgram hscan).mp h
  obtain ⟨body, htokens, hbody⟩ := exists_body_of_scanText (scanSource_eq_ok_iff.mp hscan)
  obtain ⟨rfl, _⟩ := List.append_inj' htokens rfl
  intro e he
  refine ⟨hprogram.normal e he, ?_⟩
  intro x hx
  have hmem : x ∈ ts.map Token.terminal := by
    rw [hterminals]
    exact List.mem_flatMap.mpr ⟨e, he, hx⟩
  obtain ⟨t, ht, rfl⟩ := List.mem_map.mp hmem
  exact (hbody t ht).isSpelled

end LoxSyntax
