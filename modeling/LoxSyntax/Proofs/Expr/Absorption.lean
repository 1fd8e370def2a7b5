import LoxSyntax.Proofs.Expr.Completeness
set_option autoImplicit false

/-! # Expressions that go on

Behind a complete expression an infix operator and an operand make a larger one of it: the operator
takes as much to its left as binds tightly enough, and leaves the rest to the looser operators that
are there already (`Tree.attach`). An expression that begins with a minus goes on with the one in
front of it in this way, from its minus on, one infix operator after the other (`Tree.absorb`). -/

namespace LoxSyntax

theorem TokenKind.infixLevel?_le {operator : TokenKind} {own tight : Level}
    (hown : operator.infixLevel? = some own) (h : .unary ≤ tight) : own ≤ tight :=
  le_trans (le_of_lt (infixLevel?_lt_unary hown)) h

namespace Tree

/-- The expression with an infix operator and its right operand added at its end. -/
def attach (e : Expr) (operator : TokenKind) (right : Expr) : Expr :=
  match e with
  | binary left outer inner =>
    if operator.infixLevel?.getD .primary ≤ outer.infixLevel?.getD .primary then
      binary (binary left outer inner) operator right
    else binary left outer (inner.attach operator right)
  | e => binary e operator right

/-- The expression with another one added at its end, of which the minus at the beginning becomes
    an infix operator. -/
def absorb (e other : Expr) : Expr :=
  match other with
  | unary operator operand => e.attach operator operand
  | binary left operator right => (e.absorb left).attach operator right
  | other => other

variable {e other right : Expr} {operator : TokenKind} {own : Level}

theorem terminals_attach :
    (e.attach operator right).terminals = e.terminals ++ .symbol operator :: right.terminals := by
  fun_induction attach e operator right with
  | case1 left outer inner hle => rfl
  | case2 left outer inner hle ih => simp [terminals, ih]
  | case3 e hne => rfl

theorem nestingDepth_attach :
    (e.attach operator right).nestingDepth = max e.nestingDepth right.nestingDepth := by
  fun_induction attach e operator right with
  | case1 left outer inner hle => rfl
  | case2 left outer inner hle ih =>
    rw [nestingDepth, ih, nestingDepth]
    omega
  | case3 e hne => rfl

/-- What is no infix expression binds as tightly as a prefix operator does. -/
theorem unary_le_level (h : ∀ left operator right, e = binary left operator right → False) :
    .unary ≤ e.level := by
  cases e with
  | binary left operator right => exact (h left operator right rfl).elim
  | unary => exact le_refl _
  | foreign value => exact value.elim
  | _ => exact Level.unary_le_primary

/-- An operator that is added ends up as loose as it is, or as the expression if that is looser. -/
theorem level_attach (hown : operator.infixLevel? = some own) :
    (e.attach operator right).level = if own ≤ e.level then own else e.level := by
  fun_cases attach e operator right with
  | case1 left outer inner hle =>
    rw [hown, Option.getD_some] at hle
    simp [level, hown, hle]
  | case2 left outer inner hle =>
    rw [hown, Option.getD_some] at hle
    simp [level, hle]
  | case3 e hne =>
    have htight : own ≤ e.level := TokenKind.infixLevel?_le hown (unary_le_level hne)
    rw [if_pos htight, level, hown, Option.getD_some]

theorem isNormal_attach (h : e.IsNormal) (hright : right.IsNormal)
    (hown : operator.infixLevel? = some own) (htight : own < right.level) :
    (e.attach operator right).IsNormal := by
  fun_induction attach e operator right with
  | case1 left outer inner hle =>
    rw [hown, Option.getD_some] at hle
    exact ⟨⟨own, hown, hle, htight⟩, h, hright⟩
  | case2 left outer inner hle ih =>
    obtain ⟨⟨loose, hloose, hleft, hinner⟩, hnormal, hinnerNormal⟩ := h
    rw [Option.mem_def] at hloose
    rw [hown, hloose, Option.getD_some, Option.getD_some, Level.not_le_iff] at hle
    refine ⟨⟨loose, hloose, hleft, ?_⟩, hnormal, ih hinnerNormal⟩
    rw [level_attach hown]
    split
    · exact hle
    · exact hinner
  | case3 e hne =>
    exact ⟨⟨own, hown, TokenKind.infixLevel?_le hown (unary_le_level hne), htight⟩, h, hright⟩

/-! ## Absorbing an expression -/

/-- The first of the terminals of an infix expression is that of its left operand. -/
theorem head?_terminals_binary (left right : Expr) (operator : TokenKind) :
    (binary left operator right : Expr).terminals.head? = left.terminals.head? :=
  List.head?_append_of_ne_nil _ left.terminals_ne_nil

/-- An absorbed expression adds its terminals, and nothing is lost of either. -/
theorem absorb_spec (he : e.IsNormal) (h : other.IsNormal)
    (hminus : other.terminals.head? = some (.symbol .minus)) :
    (e.absorb other).IsNormal ∧
      (e.absorb other).terminals = e.terminals ++ other.terminals ∧
      (e.absorb other).nestingDepth ≤ max e.nestingDepth other.nestingDepth := by
  induction other with
  | unary operator operand _ =>
    obtain ⟨_, htight, hoperand⟩ := h
    cases hminus
    refine ⟨isNormal_attach he hoperand rfl ?_, terminals_attach, ?_⟩
    · exact lt_of_lt_of_le (by decide) htight
    · rw [absorb, nestingDepth_attach, nestingDepth]
      omega
  | binary left operator right ih _ =>
    obtain ⟨⟨own, hown, _, htight⟩, hleft, hright⟩ := h
    rw [head?_terminals_binary] at hminus
    obtain ⟨hnormal, hterminals, hdepth⟩ := ih hleft hminus
    refine ⟨isNormal_attach hnormal hright hown htight, ?_, ?_⟩
    · rw [absorb, terminals_attach, hterminals, terminals, List.append_assoc]
    · rw [absorb, nestingDepth_attach, nestingDepth]
      omega
  | truth value => cases value <;> cases hminus
  | foreign value => exact value.elim
  | number | text | nil | name | group => cases hminus

end Tree

/-! ## Programs in a row -/

variable {limit : Nat} {es ds : List Expr}

/-- Two programs make up one unless the second one begins with a minus behind an expression. -/
theorem isProgram_append_iff (hes : IsProgram limit es) (hds : IsProgram limit ds) :
    IsProgram limit (es ++ ds) ↔
      es = [] ∨ ∀ d ∈ ds.head?, d.terminals.head? ≠ some (.symbol .minus) := by
  constructor
  · intro h
    by_cases hempty : es = []
    · exact Or.inl hempty
    · refine Or.inr fun d hd => h.separated d ?_
      rw [List.tail_append_of_ne_nil hempty]
      exact List.mem_append_right _ (List.mem_of_mem_head? hd)
  · rintro (rfl | hhead)
    · exact hds
    · refine ⟨?_, ?_, ?_⟩
      · intro d hd
        exact (List.mem_append.mp hd).elim (hes.normal d) (hds.normal d)
      · intro d hd
        exact (List.mem_append.mp hd).elim (hes.shallow d) (hds.shallow d)
      · intro d hd
        have hmem : d ∈ es.tail ∨ d ∈ ds := by
          rcases es with _ | ⟨e, es⟩
          · exact Or.inr (List.mem_of_mem_tail hd)
          · exact List.mem_append.mp hd
        rcases hmem with hmem | hmem
        · exact hes.separated d hmem
        · rcases ds with _ | ⟨first, ds⟩
          · cases hmem
          · rcases List.mem_cons.mp hmem with rfl | hmem
            · exact hhead d rfl
            · exact hds.separated d hmem

theorem IsProgram.of_append (h : IsProgram limit (es ++ ds)) : IsProgram limit es := by
  refine ⟨fun d hd => h.normal d (List.mem_append_left _ hd),
    fun d hd => h.shallow d (List.mem_append_left _ hd), fun d hd => ?_⟩
  rcases es with _ | ⟨e, es⟩
  · cases hd
  · exact h.separated d (List.mem_append_left _ hd)

/-- An expression that begins with a minus is absorbed by the last one in front of it. -/
theorem isProgram_absorb {last first : Expr} (hes : IsProgram limit (es ++ [last]))
    (hds : IsProgram limit (first :: ds))
    (hminus : first.terminals.head? = some (.symbol .minus)) :
    IsProgram limit (es ++ last.absorb first :: ds) := by
  have hlast : last ∈ es ++ [last] := by simp
  have hfirst : first ∈ first :: ds := List.mem_cons_self ..
  obtain ⟨hnormal, hterminals, hdepth⟩ :=
    Tree.absorb_spec (hes.normal last hlast) (hds.normal first hfirst) hminus
  have hshallow : (last.absorb first).nestingDepth ≤ limit := by
    have hlastShallow := hes.shallow last hlast
    have hfirstShallow := hds.shallow first hfirst
    omega
  have hjoined : IsProgram limit (last.absorb first :: ds) :=
    ⟨List.forall_mem_cons.mpr ⟨hnormal, hds.tail.normal⟩,
      List.forall_mem_cons.mpr ⟨hshallow, hds.tail.shallow⟩, hds.separated⟩
  rw [isProgram_append_iff hes.of_append hjoined]
  rcases es with _ | ⟨e, es⟩
  · exact Or.inl rfl
  · right
    rintro _ ⟨⟩
    rw [hterminals, List.head?_append_of_ne_nil _ last.terminals_ne_nil]
    exact hes.separated last (by simp)

end LoxSyntax
