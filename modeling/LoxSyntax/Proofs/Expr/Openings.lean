import LoxSyntax.Proofs.Expr.Soundness
set_option autoImplicit false

/-! # What tokens leave open

Which groups and prefix operators are open behind a row of tokens, and whether an operand has to
follow, can be told from the kinds of the tokens without building any tree: `Openings.of` does so.
It agrees with the stack of the reader as long as the reader has met no fault
(`Progress.openings_run`). -/

namespace LoxSyntax

/-- Does a token of this kind open a group or a prefix operator where an operand is expected? -/
def TokenKind.opens (kind : TokenKind) : Bool := kind = .leftParen || kind.isPrefixOperator

/-- The tokens that opened the groups and prefix operators that are not complete, the innermost
    first, and whether an operand has to follow. -/
structure Openings where
  nested : List TokenKind := []
  needsOperand : Bool := true
  deriving DecidableEq

namespace Openings

/-- Is a token of the given kind in operand position? Outside all groups, a token that follows an
    operand and is no infix operator begins the next expression. -/
def isOperandPosition (o : Openings) (kind : TokenKind) : Bool :=
  o.needsOperand || (o.nested.isEmpty && kind.infixLevel?.isNone)

/-- What is open behind one more token. Completing an operand completes the prefix operators in
    front of it, and a parenthesis that closes the innermost group completes an operand. -/
def after (o : Openings) (kind : TokenKind) : Openings :=
  if o.isOperandPosition kind then
    if kind.opens then ⟨kind :: o.nested, true⟩
    else ⟨o.nested.dropWhile TokenKind.isPrefixOperator, false⟩
  else if kind.infixLevel?.isSome then ⟨o.nested, true⟩
  else ⟨o.nested.tail.dropWhile TokenKind.isPrefixOperator, false⟩

/-- What a row of tokens leaves open. -/
def of (tokens : List Token) : Openings := tokens.foldl (fun o t => o.after t.kind) {}

end Openings

/-! ## The stack of the reader -/

/-- The token that opened a frame, if the frame counts as open. -/
def Frame.opener? : Frame → Option TokenKind
  | .group => some .leftParen
  | .prefixed operator => some operator
  | .pending _ _ => none

/-- The tokens that opened the groups and prefix operators of a stack. -/
def openers (stack : List Frame) : List TokenKind := stack.filterMap Frame.opener?

variable {room : Nat} {operand : Expr} {stack : List Frame}

@[simp] theorem openers_nil : openers [] = [] := rfl

@[simp] theorem openers_group (outer : List Frame) :
    openers (.group :: outer) = .leftParen :: openers outer := rfl

@[simp] theorem openers_prefixed (operator : TokenKind) (outer : List Frame) :
    openers (.prefixed operator :: outer) = operator :: openers outer := rfl

@[simp] theorem openers_pending (left : Expr) (operator : TokenKind) (outer : List Frame) :
    openers (.pending left operator :: outer) = openers outer := rfl

theorem length_openers (stack : List Frame) : (openers stack).length = nesting stack := by
  induction stack with
  | nil => rfl
  | cons frame outer ih => cases frame <;> simp [ih]

theorem openers_closePending {level : Level} {left : Expr} {outer : List Frame}
    (hclose : closePending level operand stack = (left, outer)) :
    openers outer = openers stack := by
  fun_induction closePending level operand stack with
  | case1 operand _ operator stack _ ih => exact ih hclose
  | case2 | case3 =>
    cases hclose
    rfl

/-- No prefix operator waits below pending ones either. -/
theorem dropWhile_openers (hopen : IsOpenStack room stack) (h : IsSettled stack) :
    (openers stack).dropWhile TokenKind.isPrefixOperator = openers stack := by
  induction hopen with
  | empty => rfl
  | group _ _ _ => rfl
  | prefixed _ _ _ _ => exact absurd rfl (h _ _)
  | pending isInfix _ _ admitted _ _ ih =>
    exact ih (admitted.isSettled (TokenKind.infixLevel?_lt_unary isInfix))

theorem openers_closePrefixes (operand : Expr) (hopen : IsOpenStack room stack) :
    openers (closePrefixes operand stack).2 =
      (openers stack).dropWhile TokenKind.isPrefixOperator := by
  fun_induction closePrefixes operand stack with
  | case1 operand operator stack ih =>
    cases hopen with
    | prefixed isPrefix _ tail => simp [isPrefix, ih tail]
  | case2 operand stack hne =>
    exact (dropWhile_openers hopen fun operator outer heq => hne operator outer heq).symm

/-- What the reader has open. -/
def ReadState.openings : ReadState → Openings
  | .needsOperand stack => ⟨openers stack, true⟩
  | .hasOperand _ stack => ⟨openers stack, false⟩

theorem openings_complete (hopen : IsOpenStack room stack) :
    (complete operand stack).openings =
      ⟨(openers stack).dropWhile TokenKind.isPrefixOperator, false⟩ := by
  rw [← openers_closePrefixes operand hopen]
  rfl

/-! ## Steps and runs -/

theorem Token.opens_iff {t : Token} :
    t.kind.opens = true ↔ ∃ frame, t.operandRole = .opens frame := by
  simp only [operandRole_eq_opens_iff, TokenKind.opens, Bool.or_eq_true, decide_eq_true_eq]
  constructor
  · rintro (h | h)
    · exact ⟨.group, Or.inl ⟨h, rfl⟩⟩
    · exact ⟨.prefixed t.kind, Or.inr ⟨h, rfl⟩⟩
  · rintro ⟨frame, ⟨h, _⟩ | ⟨h, _⟩⟩
    · exact Or.inl h
    · exact Or.inr h

theorem openings_takeOperand {t : Token} {state : ReadState}
    (h : takeOperand room stack t = .ok state) (hopen : IsOpenStack room stack) :
    state.openings =
      if t.kind.opens then ⟨t.kind :: openers stack, true⟩
      else ⟨(openers stack).dropWhile TokenKind.isPrefixOperator, false⟩ := by
  unfold takeOperand at h
  split at h
  · next value hrole =>
    cases h
    have hopens : ¬t.kind.opens = true := by simp [Token.opens_iff, hrole]
    rw [if_neg hopens, openings_complete hopen]
  · next frame hrole =>
    split at h
    · cases h
    · cases h
      rw [if_pos (Token.opens_iff.mpr ⟨frame, hrole⟩)]
      rcases Token.operandRole_eq_opens_iff.mp hrole with ⟨hkind, rfl⟩ | ⟨_, rfl⟩
      · simp [ReadState.openings, hkind]
      · rfl
  · cases h
  · cases h

namespace Progress

theorem openings_step {p q : Progress} {t : Token} (h : p.IsSound room)
    (hstep : p.step room t = .ok q) : q.state.openings = p.state.openings.after t.kind := by
  have hstate := h.state
  revert hstep
  fun_cases Progress.step room p t with
  | case1 stack hp =>
    intro hstep
    rw [hp] at hstate ⊢
    obtain ⟨state, htake, rfl⟩ := map_eq_ok_iff.mp hstep
    rw [openings_takeOperand htake hstate]
    simp [Openings.after, Openings.isOperandPosition, ReadState.openings]
  | case2 operand stack hp level hlevel left outer hclose =>
    rintro ⟨⟩
    simp [hp, Openings.after, Openings.isOperandPosition, ReadState.openings, hlevel,
      openers_closePending hclose]
  | case3 operand stack hp hlevel inner outer hclose hparen =>
    rintro ⟨⟩
    rw [hp] at hstate
    rw [openings_complete (hstate.1.closePending hclose).fill.open_stack]
    simp [hp, Openings.after, Openings.isOperandPosition, ReadState.openings, hlevel,
      ← openers_closePending hclose]
  | case4 => rintro ⟨⟩
  | case5 operand stack hp hlevel e outer hgroup hclose =>
    intro hstep
    rw [hp] at hstate
    obtain ⟨state, htake, rfl⟩ := map_eq_ok_iff.mp hstep
    -- outside all groups the token begins the next expression on an empty stack
    obtain ⟨rfl, _⟩ := closed_spec hstate hclose hgroup
    rw [openings_takeOperand htake .empty]
    simp [hp, Openings.after, Openings.isOperandPosition, ReadState.openings, hlevel,
      ← openers_closePending hclose]

theorem openings_run {p q : Progress} {ts : List Token} (h : p.IsSound room)
    (hrun : p.run room ts = .ok q) :
    q.state.openings = ts.foldl (fun o t => o.after t.kind) p.state.openings := by
  induction ts generalizing p with
  | nil =>
    cases hrun
    rfl
  | cons t ts ih =>
    obtain ⟨p', hstep, hrest⟩ := bind_eq_ok_iff.mp hrun
    rw [List.foldl_cons, ← openings_step h hstep]
    exact ih (h.step hstep).1 hrest

/-- The stack of the reader tells what the tokens that have been taken leave open. -/
theorem openings_of_run {q : Progress} {ts : List Token} (hrun : run room {} ts = .ok q) :
    q.state.openings = Openings.of ts :=
  openings_run isSound_start hrun

end Progress

end LoxSyntax
