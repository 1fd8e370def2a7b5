import LoxSyntax.Proofs.Expr.OpenFrames
set_option autoImplicit false

/-! # Soundness of reading

Whatever is read from a list of tokens is a program in normal form that flattens to these tokens.
The invariant of a reading (`Progress.IsSound`) says this of the expressions that are complete and
of the frames of the one that is not; `Progress.IsSound.step` and `Progress.IsSound.run` carry it
through a step and a run. -/

namespace LoxSyntax

variable {room : Nat} {stop : Token}

/-! ## Tokens that are taken -/

theorem Terminal.leaf?_spec {x : Terminal} {e : Expr} (h : x.leaf? = some e) :
    e.terminals = [x] ∧ e.IsNormal ∧ e.level = .primary ∧ e.nestingDepth = 0 := by
  unfold leaf? at h
  split at h <;> cases h <;> exact ⟨rfl, trivial, rfl, rfl⟩

theorem Token.terminal_of_isPrefixOperator {t : Token} (h : t.kind.isPrefixOperator = true) :
    t.terminal = .symbol t.kind := by
  apply Token.terminal_of_ne <;> rintro hkind <;> rw [hkind] at h <;> cases h

theorem Token.terminal_of_infixLevel? {t : Token} {level : Level}
    (h : t.kind.infixLevel? = some level) : t.terminal = .symbol t.kind := by
  apply Token.terminal_of_ne <;> rintro hkind <;> rw [hkind] at h <;> cases h

/-! ## States -/

namespace ReadState

/-- The terminals that the reader has taken for the expression it is in. -/
def terminals : ReadState → List Terminal
  | needsOperand stack => stackTerminals stack
  | hasOperand operand stack => stackTerminals stack ++ operand.terminals

@[simp] theorem terminals_needsOperand (stack : List Frame) :
    (needsOperand stack).terminals = stackTerminals stack := rfl

@[simp] theorem terminals_hasOperand (operand : Expr) (stack : List Frame) :
    (hasOperand operand stack).terminals = stackTerminals stack ++ operand.terminals := rfl

/-- The stack is open, and an operand that is complete has been handed to all prefix operators in
    front of it, but not yet to a pending one. -/
def IsSound (room : Nat) : ReadState → Prop
  | needsOperand stack => IsOpenStack room stack
  | hasOperand operand stack =>
    Holds room operand stack ∧ .unary ≤ operand.level ∧ IsSettled stack

end ReadState

theorem isSound_complete {operand : Expr} {stack : List Frame} (h : Holds room operand stack)
    (hlevel : .unary ≤ operand.level) : (complete operand stack).IsSound room :=
  ⟨h.closePrefixes, unary_le_level_closePrefixes hlevel, isSettled_closePrefixes⟩

theorem terminals_complete (operand : Expr) (stack : List Frame) :
    (complete operand stack).terminals = stackTerminals stack ++ operand.terminals :=
  terminals_closePrefixes

/-- A token that is taken in operand position is added to what the stack has taken. -/
theorem takeOperand_spec {stack : List Frame} {t : Token} {state : ReadState}
    (h : takeOperand room stack t = .ok state) (hopen : IsOpenStack room stack) :
    state.IsSound room ∧ state.terminals = stackTerminals stack ++ [t.terminal] := by
  unfold takeOperand at h
  split at h
  · next value hrole =>
    obtain ⟨hterminals, hnormal, hlevel, hdepth⟩ :=
      Terminal.leaf?_spec (Token.operandRole_eq_leaf_iff.mp hrole)
    have hunary : .unary ≤ value.level := hlevel ▸ Level.unary_le_primary
    cases h
    refine ⟨isSound_complete ⟨hopen, hnormal, admits_of_unary_le stack hunary, ?_⟩ hunary, ?_⟩
    · rw [hdepth, Nat.zero_add]
      exact hopen.nesting_le
    · rw [terminals_complete, hterminals]
  · next frame hrole =>
    split at h
    · cases h
    · next hdeep =>
      cases h
      rcases Token.operandRole_eq_opens_iff.mp hrole with ⟨hkind, rfl⟩ | ⟨hoperator, rfl⟩
      · rw [nesting_group, Nat.not_lt] at hdeep
        refine ⟨.group hdeep hopen, ?_⟩
        simp [ReadState.terminals, stackTerminals, Frame.terminals, Token.terminal, hkind]
      · rw [nesting_prefixed, Nat.not_lt] at hdeep
        refine ⟨.prefixed hoperator hdeep hopen, ?_⟩
        simp [ReadState.terminals, stackTerminals, Frame.terminals,
          Token.terminal_of_isPrefixOperator hoperator]
  · cases h
  · cases h

/-! ## Progress -/

namespace Progress

/-- The terminals of all that has been taken. -/
def terminals (p : Progress) : List Terminal := p.done.flatMap Tree.terminals ++ p.state.terminals

/-- What is complete is a program, what is not can still become an expression of it, and is known
    not to begin with a minus unless it is the first. -/
structure IsSound (room : Nat) (p : Progress) : Prop where
  state : p.state.IsSound room
  program : IsProgram room p.done
  begun : p.done ≠ [] → ∃ x ∈ p.state.terminals.head?, x ≠ .symbol .minus

theorem isSound_start : IsSound room {} :=
  ⟨.empty, isProgram_nil room, by simp⟩

/-- An expression that is complete can be added to those before it. -/
theorem IsSound.concat {p : Progress} {e : Expr} (h : p.IsSound room) (hnormal : e.IsNormal)
    (hshallow : e.nestingDepth ≤ room) (hterminals : e.terminals = p.state.terminals) :
    IsProgram room (p.done ++ [e]) := by
  refine h.program.concat hnormal hshallow fun hdone => ?_
  obtain ⟨first, hfirst, hminus⟩ := h.begun hdone
  rw [hterminals, Option.mem_def.mp hfirst]
  exact fun heq => hminus (Option.some.inj heq)

/-- A step that stays within the expression keeps the invariant. -/
theorem IsSound.extend {p : Progress} {state : ReadState} {x : Terminal} (h : p.IsSound room)
    (hstate : state.IsSound room) (hterminals : state.terminals = p.state.terminals ++ [x]) :
    IsSound room ⟨p.done, state⟩ := by
  refine ⟨hstate, h.program, fun hdone => ?_⟩
  obtain ⟨first, hfirst, hne⟩ := h.begun hdone
  refine ⟨first, ?_, hne⟩
  rw [hterminals, Option.mem_def, List.head?_append, Option.mem_def.mp hfirst]
  rfl

end Progress

/-! ## Operands that are complete -/

section

variable {operand : Expr} {stack : List Frame}

/-- An infix operator goes on with the operand that it closes. -/
theorem pending_spec {operator : TokenKind} {level : Level} {left : Expr} {outer : List Frame}
    (h : (ReadState.hasOperand operand stack).IsSound room)
    (hlevel : operator.infixLevel? = some level)
    (hclose : closePending level operand stack = (left, outer)) :
    IsOpenStack room (.pending left operator :: outer) ∧
      stackTerminals (.pending left operator :: outer) =
        stackTerminals stack ++ operand.terminals ++ [.symbol operator] := by
  obtain ⟨hholds, hunary, hsettled⟩ := h
  have hle : level ≤ operand.level :=
    le_trans (le_of_lt (TokenKind.infixLevel?_lt_unary hlevel)) hunary
  have hclosed := hholds.closePending hclose
  have htight := le_level_closePending hclose hle
  have hadmits := admits_closePending hclose hholds.open_stack hsettled
  refine ⟨.pending hlevel htight hclosed.normal hadmits hclosed.shallow hclosed.open_stack, ?_⟩
  rw [← terminals_closePending hclose, stackTerminals, Frame.terminals, List.append_assoc]

/-- A closing parenthesis makes a group of the expression inside. -/
theorem closeGroup_spec {inner : Expr} {outer : List Frame}
    (h : (ReadState.hasOperand operand stack).IsSound room)
    (hclose : closePending .equality operand stack = (inner, .group :: outer)) :
    (complete (.group inner) outer).IsSound room ∧
      (complete (.group inner) outer).terminals =
        stackTerminals stack ++ operand.terminals ++ [.symbol .rightParen] := by
  obtain ⟨hholds, _, _⟩ := h
  refine ⟨isSound_complete (hholds.closePending hclose).fill Level.unary_le_primary, ?_⟩
  rw [terminals_complete, ← terminals_closePending hclose]
  exact stackTerminals_fill_group

/-- An operand that has been handed to all pending operators is a whole expression, unless a group
    is open. -/
theorem closed_spec {e : Expr} {outer : List Frame}
    (h : (ReadState.hasOperand operand stack).IsSound room)
    (hclose : closePending .equality operand stack = (e, outer))
    (hgroup : ∀ rest, outer ≠ .group :: rest) :
    outer = [] ∧ e.IsNormal ∧ e.nestingDepth ≤ room ∧
      e.terminals = stackTerminals stack ++ operand.terminals := by
  obtain ⟨hholds, _, hsettled⟩ := h
  have hclosed := hholds.closePending hclose
  rcases hholds.closePending_equality hsettled hclose with rfl | ⟨rest, hrest⟩
  · exact ⟨rfl, hclosed.normal, hclosed.shallow, terminals_closePending hclose⟩
  · exact absurd hrest (hgroup rest)

end

/-! ## Steps and runs -/

namespace Progress

/-- One step takes its token and keeps the invariant. -/
theorem IsSound.step {p q : Progress} {t : Token} (h : p.IsSound room)
    (hstep : p.step room t = .ok q) :
    q.IsSound room ∧ q.terminals = p.terminals ++ [t.terminal] := by
  have hstate := h.state
  revert hstep
  fun_cases Progress.step room p t with
  | case1 stack hp =>
    intro hstep
    rw [hp] at hstate
    obtain ⟨state, htake, rfl⟩ := map_eq_ok_iff.mp hstep
    obtain ⟨hsound, hterminals⟩ := takeOperand_spec htake hstate
    exact ⟨h.extend hsound (by rw [hterminals, hp]; rfl), by simp [terminals, hterminals, hp]⟩
  | case2 operand stack hp level hlevel left outer hclose =>
    rintro ⟨⟩
    rw [hp] at hstate
    obtain ⟨hopen, hterminals⟩ := pending_spec hstate hlevel hclose
    rw [Token.terminal_of_infixLevel? hlevel]
    exact ⟨h.extend hopen (by rw [hp]; exact hterminals), by simp [terminals, hterminals, hp]⟩
  | case3 operand stack hp hlevel inner outer hclose hparen =>
    rintro ⟨⟩
    rw [hp] at hstate
    obtain ⟨hsound, hterminals⟩ := closeGroup_spec hstate hclose
    have ht : t.terminal = .symbol .rightParen := by simp [Token.terminal, hparen]
    rw [ht]
    exact ⟨h.extend hsound (by rw [hp]; exact hterminals), by simp [terminals, hterminals, hp]⟩
  | case4 => rintro ⟨⟩
  | case5 operand stack hp hlevel e outer hgroup hclose =>
    intro hstep
    rw [hp] at hstate
    obtain ⟨state, htake, rfl⟩ := map_eq_ok_iff.mp hstep
    obtain ⟨hsound, hterminals⟩ := takeOperand_spec htake .empty
    obtain ⟨_, hnormal, hshallow, he⟩ := closed_spec hstate hclose hgroup
    -- the token begins the next expression because it is no infix operator
    have hne : t.terminal ≠ .symbol .minus := by
      intro hminus
      rw [Token.kind_of_terminal hminus] at hlevel
      cases hlevel
    refine ⟨⟨hsound, h.concat hnormal hshallow (by rw [hp]; exact he), fun _ => ?_⟩, ?_⟩
    · exact ⟨t.terminal, by simp [hterminals], hne⟩
    · simp [terminals, hterminals, he, hp]

/-- A run takes its tokens and keeps the invariant. -/
theorem IsSound.run {p q : Progress} {ts : List Token} (h : p.IsSound room)
    (hrun : p.run room ts = .ok q) :
    q.IsSound room ∧ q.terminals = p.terminals ++ ts.map Token.terminal := by
  induction ts generalizing p with
  | nil =>
    cases hrun
    exact ⟨h, by simp⟩
  | cons t ts ih =>
    obtain ⟨p', hstep, hrest⟩ := bind_eq_ok_iff.mp hrun
    obtain ⟨hsound, hterminals⟩ := h.step hstep
    obtain ⟨hend, htaken⟩ := ih hsound hrest
    exact ⟨hend, by simp [htaken, hterminals]⟩

/-- At the end of the input all that was taken is a program. -/
theorem IsSound.finish {p : Progress} {es : List Expr} (h : p.IsSound room)
    (hfinish : p.finish stop = .ok es) :
    IsProgram room es ∧ es.flatMap Tree.terminals = p.terminals := by
  obtain ⟨done, state⟩ := p
  have hstate : state.IsSound room := h.state
  unfold Progress.finish at hfinish
  split at hfinish
  · next hnone =>
    cases hfinish
    cases hnone
    exact ⟨h.program, by simp [terminals]⟩
  · cases hfinish
  · next operand stack hoperand =>
    cases hoperand
    split at hfinish
    · cases hfinish
    · next e outer hgroup hclose =>
      cases hfinish
      obtain ⟨_, hnormal, hshallow, he⟩ := closed_spec hstate hclose hgroup
      exact ⟨h.concat hnormal hshallow he, by simp [terminals, he]⟩

end Progress

/-! ## Soundness -/

/-- What a list of tokens is read as is a program that flattens to its tokens up to the end of the
    input. -/
theorem parseTokens_sound (tokens : List Token) (es : List Expr) (h : parseTokens tokens = .ok es) :
    es.flatMap Tree.terminals = (tokens.takeWhile (!·.isEnd)).map Token.terminal ∧
      IsProgram maxNesting es := by
  rw [parseTokens_eq_read] at h
  obtain ⟨p, hrun, hfinish⟩ := bind_eq_ok_iff.mp h
  obtain ⟨hsound, htaken⟩ := Progress.isSound_start.run hrun
  obtain ⟨hprogram, hterminals⟩ := hsound.finish hfinish
  refine ⟨?_, hprogram⟩
  rw [hterminals, htaken]
  simp [Progress.terminals, TokenCursor.ofTokens]

/-- `-a * (b - !c) "d"`, with more tokens behind the end of the input. -/
theorem parseTokens_sound_two_expressions :
    let tokens : List Token :=
      [⟨.minus, "-", none, 1⟩, ⟨.identifier, "a", none, 1⟩, ⟨.star, "*", none, 1⟩,
        ⟨.leftParen, "(", none, 2⟩, ⟨.identifier, "b", none, 2⟩, ⟨.minus, "-", none, 2⟩,
        ⟨.bang, "!", none, 2⟩, ⟨.identifier, "c", none, 2⟩, ⟨.rightParen, ")", none, 3⟩,
        .ofText "d" 3, .endOfInput 4, ⟨.dot, ".", none, 4⟩]
    let es : List Expr :=
      [.binary (.unary .minus (.name "a")) .star
        (.group (.binary (.name "b") .minus (.unary .bang (.name "c")))), .text "d"]
    parseTokens tokens = .ok es ∧
      es.flatMap Tree.terminals = (tokens.takeWhile (!·.isEnd)).map Token.terminal ∧
      IsProgram maxNesting es :=
  ⟨rfl, parseTokens_sound _ _ rfl⟩

end LoxSyntax
