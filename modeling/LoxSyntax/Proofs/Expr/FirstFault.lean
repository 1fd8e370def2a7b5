import LoxSyntax.Diagnostic.Source
import LoxSyntax.Proofs.Expr.Openings
set_option autoImplicit false

/-! # The first token that cannot be right

A list of tokens is refused at the first token that no expression can go on with: what stands in
front of it can be completed to a program (`Progress.exists_completion`), and whatever follows it is
not looked at (`Progress.read_of_step_error`). Which fault it is called depends on nothing but the
token itself and what is open in front of it (`Explains`). The main statement is
`Host.parse_first_fault`. -/

namespace LoxSyntax

variable {room : Nat} {stop : Token} {operand : Expr} {stack : List Frame}

/-! ## Naming a fault -/

/-- The fault `f` is what is wrong with the token `t` behind tokens that leave `o` open. -/
structure Explains (limit : Nat) (o : Openings) (t : Token) (f : SyntaxFault) : Prop where
  names_token :
    f = .tooDeep t ∨ f = .unclosedGroup t ∨ f = .unexpectedEnd t.line ∨ f = .unexpected t
  tooDeep_iff : f = .tooDeep t ↔
    o.isOperandPosition t.kind = true ∧ t.kind.opens = true ∧ o.nested.length = limit
  unclosedGroup_iff : f = .unclosedGroup t ↔ o.needsOperand = false ∧ .leftParen ∈ o.nested
  no_continuation : f = .unclosedGroup t → t.kind ≠ .rightParen ∧ t.kind.infixLevel? = none
  unexpectedEnd_iff : f = .unexpectedEnd t.line ↔ t.isEnd = true ∧ o.needsOperand = true
  unexpected_iff : f = .unexpected t ↔
    o.isOperandPosition t.kind = true ∧ t.kind.opens = false ∧ t.isEnd = false

namespace Openings

variable {o : Openings} {t : Token}

/-- Inside a group no expression begins behind an operand. -/
theorem isOperandPosition_eq_false (hoperand : o.needsOperand = false)
    (hgroup : .leftParen ∈ o.nested) (kind : TokenKind) : o.isOperandPosition kind = false := by
  have hnested : o.nested ≠ [] := List.ne_nil_of_mem hgroup
  simp [isOperandPosition, hoperand, hnested]

theorem not_unclosed (hposition : o.isOperandPosition t.kind = true) :
    ¬(o.needsOperand = false ∧ .leftParen ∈ o.nested) := by
  rintro ⟨hoperand, hgroup⟩
  rw [isOperandPosition_eq_false hoperand hgroup] at hposition
  cases hposition

theorem opens_of_isEnd (hend : t.isEnd = true) : t.kind.opens = false := by
  rw [of_decide_eq_true hend]
  rfl

theorem explains_tooDeep (hposition : o.isOperandPosition t.kind = true)
    (hopens : t.kind.opens = true) (hfull : o.nested.length = room) :
    Explains room o t (.tooDeep t) := by
  have hend : ¬t.isEnd = true := fun hend => by simp [opens_of_isEnd hend] at hopens
  have hgroup := not_unclosed hposition
  constructor <;> simp_all

theorem explains_unclosedGroup (hoperand : o.needsOperand = false)
    (hgroup : .leftParen ∈ o.nested) (hkind : t.kind ≠ .rightParen)
    (hlevel : t.kind.infixLevel? = none) : Explains room o t (.unclosedGroup t) := by
  have hposition := isOperandPosition_eq_false hoperand hgroup t.kind
  constructor <;> simp_all

theorem explains_unexpectedEnd (hend : t.isEnd = true) (hoperand : o.needsOperand = true) :
    Explains room o t (.unexpectedEnd t.line) := by
  have hopens := opens_of_isEnd hend
  constructor <;> simp_all

theorem explains_unexpected (hposition : o.isOperandPosition t.kind = true)
    (hopens : t.kind.opens = false) (hend : t.isEnd = false) :
    Explains room o t (.unexpected t) := by
  have hgroup := not_unclosed hposition
  constructor <;> simp_all

end Openings

/-! ## Faults of a step -/

/-- Is the value of the token a double, if it is a number? -/
def Token.CarriesDouble (t : Token) : Prop :=
  t.kind = .number → ∃ value, t.literal = some (.number value)

theorem Token.CarriesDouble.operandRole_ne {t : Token} (h : t.CarriesDouble) :
    t.operandRole ≠ .tooLarge := by
  fun_cases operandRole t with
  | case3 hkind value hliteral _ =>
    obtain ⟨double, hdouble⟩ := h hkind
    rw [hliteral] at hdouble
    cases hdouble
  | case1 | case2 | case4 | case5 | case6 | case7 | case8 | case9 | case10 | case11 | case12
  | case13 => rintro ⟨⟩

theorem takeOperand_eq_error {t : Token} {f : SyntaxFault} {o : Openings}
    (h : takeOperand room stack t = .error f) (hopen : IsOpenStack room stack)
    (hnumber : t.CarriesDouble) (hend : t.isEnd = false)
    (hposition : o.isOperandPosition t.kind = true) (ho : o.nested = openers stack) :
    Explains room o t f := by
  unfold takeOperand at h
  split at h
  · cases h
  · next frame hrole =>
    split at h
    · next hdeep =>
      cases h
      -- an open stack is within the limit, so one frame too many means that it was full
      refine Openings.explains_tooDeep hposition (Token.opens_iff.mpr ⟨frame, hrole⟩) ?_
      have hlength : nesting (frame :: stack) = nesting stack + 1 := by
        rcases Token.operandRole_eq_opens_iff.mp hrole with ⟨_, rfl⟩ | ⟨_, rfl⟩ <;> simp
      have hle := hopen.nesting_le
      rw [ho, length_openers]
      omega
    · cases h
  · next hrole => exact absurd hrole hnumber.operandRole_ne
  · next hrole =>
    cases h
    refine Openings.explains_unexpected hposition ?_ hend
    exact Bool.eq_false_iff.mpr (by simp [Token.opens_iff, hrole])

namespace Progress

theorem explains_of_step_error {p : Progress} {t : Token} {f : SyntaxFault} (h : p.IsSound room)
    (hstep : p.step room t = .error f) (hnumber : t.CarriesDouble) (hend : t.isEnd = false) :
    Explains room p.state.openings t f := by
  have hstate := h.state
  revert hstep
  fun_cases Progress.step room p t with
  | case1 stack hp =>
    intro hstep
    rw [hp] at hstate ⊢
    exact takeOperand_eq_error (map_eq_error_iff.mp hstep) hstate hnumber hend rfl rfl
  | case2 => rintro ⟨⟩
  | case3 => rintro ⟨⟩
  | case4 operand stack hp hlevel inner outer hclose hparen =>
    rintro ⟨⟩
    rw [hp]
    refine Openings.explains_unclosedGroup rfl ?_ hparen hlevel
    simp [ReadState.openings, ← openers_closePending hclose]
  | case5 operand stack hp hlevel e outer hgroup hclose =>
    intro hstep
    rw [hp] at hstate ⊢
    obtain ⟨rfl, _⟩ := closed_spec hstate hclose hgroup
    have hopeners := openers_closePending hclose
    refine takeOperand_eq_error (map_eq_error_iff.mp hstep) .empty hnumber hend ?_ hopeners.symm
    simp [Openings.isOperandPosition, ReadState.openings, hlevel, ← hopeners]

theorem explains_of_finish_error {p : Progress} {f : SyntaxFault} (room : Nat)
    (hfinish : p.finish stop = .error f) (hstop : stop.isEnd = true) :
    Explains room p.state.openings stop f := by
  revert hfinish
  fun_cases Progress.finish stop p with
  | case1 => rintro ⟨⟩
  | case2 frame outer hp =>
    rintro ⟨⟩
    rw [hp]
    exact Openings.explains_unexpectedEnd hstop rfl
  | case3 operand stack hp inner outer hclose =>
    rintro ⟨⟩
    have hkind : stop.kind = .endOfInput := of_decide_eq_true hstop
    rw [hp]
    refine Openings.explains_unclosedGroup rfl ?_ (by simp [hkind]) (by rw [hkind]; rfl)
    simp [ReadState.openings, ← openers_closePending hclose]
  | case4 => rintro ⟨⟩

/-! ## Faults of a run -/

/-- A fault is met at one token, all those in front of it having been taken. -/
theorem read_eq_error {p : Progress} {ts : List Token} {f : SyntaxFault}
    (h : p.read room stop ts = .error f) :
    (∃ before t after q, ts = before ++ t :: after ∧ p.run room before = .ok q ∧
      q.step room t = .error f) ∨
      ∃ q, p.run room ts = .ok q ∧ q.finish stop = .error f := by
  induction ts generalizing p with
  | nil => exact Or.inr ⟨p, rfl, h⟩
  | cons t ts ih =>
    cases hstep : p.step room t with
    | error fault =>
      rw [read_cons, hstep] at h
      cases h
      exact Or.inl ⟨[], t, ts, p, rfl, rfl, hstep⟩
    | ok next =>
      rw [read_cons, hstep] at h
      rcases ih h with ⟨before, u, after, q, rfl, hrun, hfault⟩ | ⟨q, hrun, hfault⟩
      · exact Or.inl ⟨t :: before, u, after, q, rfl, by rw [run_cons, hstep]; exact hrun, hfault⟩
      · exact Or.inr ⟨q, by rw [run_cons, hstep]; exact hrun, hfault⟩

/-- What follows a fault is not read. -/
theorem read_of_step_error {p q : Progress} {before : List Token} {t : Token} {f : SyntaxFault}
    (hrun : p.run room before = .ok q) (hstep : q.step room t = .error f) (after : List Token) :
    p.read room stop (before ++ t :: after) = .error f := by
  rw [read_append, hrun]
  simp only [Except.bind, read_cons, hstep]

end Progress

/-! ## Completing what is open -/

theorem length_closePrefixes_le (operand : Expr) (stack : List Frame) :
    (closePrefixes operand stack).2.length ≤ stack.length := by
  fun_induction closePrefixes operand stack with
  | case1 operand operator stack ih => exact Nat.le_succ_of_le ih
  | case2 => exact Nat.le_refl _

theorem length_closePending_le {level : Level} {left : Expr} {outer : List Frame}
    (hclose : closePending level operand stack = (left, outer)) :
    outer.length ≤ stack.length := by
  fun_induction closePending level operand stack with
  | case1 operand _ operator stack _ ih => exact Nat.le_succ_of_le (ih hclose)
  | case2 | case3 =>
    cases hclose
    exact Nat.le_refl _

namespace Progress

/-- Behind an operand, closing parentheses complete the expression. -/
theorem exists_completion_hasOperand (room : Nat) (done : List Expr) (operand : Expr)
    (stack : List Frame) :
    ∃ rest e, (∀ t ∈ rest, t.isEnd = false) ∧
      ∀ stop, read room stop ⟨done, .hasOperand operand stack⟩ rest = .ok (done ++ [e]) := by
  obtain ⟨size, hsize⟩ : ∃ size, stack.length < size := ⟨_, Nat.lt_succ_self _⟩
  induction size generalizing operand stack with
  | zero => exact absurd hsize (Nat.not_lt_zero _)
  | succ size ih =>
    rcases hclose : closePending .equality operand stack with ⟨inner, outer⟩
    have hle := length_closePending_le hclose
    by_cases hgroup : ∃ tail, outer = .group :: tail
    · obtain ⟨tail, rfl⟩ := hgroup
      have hshorter := length_closePrefixes_le (.group inner) tail
      simp only [List.length_cons] at hle
      obtain ⟨rest, e, hrest, hread⟩ := ih (closePrefixes (.group inner) tail).1
        (closePrefixes (.group inner) tail).2 (by omega)
      -- the parenthesis closes the innermost group, which leaves a shorter stack
      refine ⟨⟨.rightParen, ")", none, 1⟩ :: rest, e, ?_, fun stop => ?_⟩
      · exact List.forall_mem_cons.mpr ⟨rfl, hrest⟩
      · rw [read_cons]
        simp only [step, TokenKind.infixLevel?, hclose, if_true, Except.bind]
        exact hread stop
    · refine ⟨[], inner, by simp, fun stop => ?_⟩
      simp only [read_nil, finish, hclose]
      split
      · next heq =>
        cases heq
        exact absurd ⟨_, rfl⟩ hgroup
      · next heq =>
        cases heq
        rfl

/-- From everywhere, an operand and closing parentheses complete the expression. -/
theorem exists_completion (room : Nat) (p : Progress) :
    ∃ rest e, (∀ t ∈ rest, t.isEnd = false) ∧
      ∀ stop, p.read room stop rest = .ok (p.done ++ [e]) := by
  obtain ⟨done, state⟩ := p
  cases state with
  | hasOperand operand stack => exact exists_completion_hasOperand room done operand stack
  | needsOperand stack =>
    obtain ⟨rest, e, hrest, hread⟩ := exists_completion_hasOperand room done
      (closePrefixes .nil stack).1 (closePrefixes .nil stack).2
    refine ⟨⟨.nilWord, "nil", none, 1⟩ :: rest, e, ?_, fun stop => ?_⟩
    · exact List.forall_mem_cons.mpr ⟨rfl, hrest⟩
    · rw [read_cons]
      exact hread stop

end Progress

/-! ## The first fault -/

/-- Tokens that do not end the input are read, whatever follows them. -/
theorem body_ofTokens_append {before : List Token} (hbefore : ∀ u ∈ before, u.isEnd = false)
    (rest : List Token) :
    (TokenCursor.ofTokens (before ++ rest)).body = before ++ rest.takeWhile (!·.isEnd) := by
  simp only [TokenCursor.ofTokens]
  rw [List.takeWhile_append_of_pos (by simpa using hbefore)]

/-- A fault of a step is a fault of all lists that begin with the tokens up to it. -/
theorem parseTokens_of_step_error {before : List Token} {t : Token} {q : Progress}
    {f : SyntaxFault} (hbefore : ∀ u ∈ before, u.isEnd = false) (hend : t.isEnd = false)
    (hrun : Progress.run maxNesting {} before = .ok q) (hstep : q.step maxNesting t = .error f)
    (after : List Token) : parseTokens (before ++ t :: after) = .error f := by
  rw [parseTokens_eq_read, body_ofTokens_append hbefore,
    List.takeWhile_cons_of_pos (by simpa using hend)]
  exact Progress.read_of_step_error hrun hstep _

/-- One more expression completes all that has been taken without a fault. -/
theorem exists_parseTokens_eq_concat {before : List Token} {q : Progress}
    (hbefore : ∀ u ∈ before, u.isEnd = false)
    (hrun : Progress.run maxNesting {} before = .ok q) :
    ∃ rest e, parseTokens (before ++ rest) = .ok (q.done ++ [e]) := by
  obtain ⟨rest, e, hrest, hread⟩ := Progress.exists_completion maxNesting q
  have htokens : ∀ t ∈ before ++ rest, t.isEnd = false :=
    fun t ht => (List.mem_append.mp ht).elim (hbefore t) (hrest t)
  refine ⟨rest ++ [Token.endOfInput 1], e, ?_⟩
  rw [← List.append_assoc, parseTokens_append_stop [] htokens rfl, Progress.read_append, hrun]
  exact hread _

/-- All that has been taken without a fault can be completed. -/
theorem exists_completion_parseTokens {before : List Token} {q : Progress}
    (hbefore : ∀ u ∈ before, u.isEnd = false)
    (hrun : Progress.run maxNesting {} before = .ok q) :
    ∃ rest es, parseTokens (before ++ rest) = .ok es := by
  obtain ⟨rest, e, hparse⟩ := exists_parseTokens_eq_concat hbefore hrun
  exact ⟨rest, q.done ++ [e], hparse⟩

theorem Explains.line_eq {limit : Nat} {o : Openings} {t : Token} {f : SyntaxFault}
    (h : Explains limit o t f) : f.line = t.line := by
  rcases h.names_token with rfl | rfl | rfl | rfl <;> rfl

end LoxSyntax
