import LoxSyntax.Proofs.Expr.LeftOpen
set_option autoImplicit false

/-! # The depth counter

What is open when a reading ends has been told from the stack so far. Here it is counted along the
way: a counter is raised by one for each group and each prefix operator that is opened, is compared
with the limit when that happens, and is lowered by one for each of them that is completed. The
counter may start anywhere, as it does when an earlier reading has left something open. Reading with
the counter comes to the same as reading with the room that the counter leaves (`countFrom_eq`,
`countExprs_eq`, `countSingle_eq`). -/

namespace LoxSyntax

/-! ## Reading with a counter -/

/-- What came of reading with a counter: the result or the fault, the tokens that were not consumed,
    and where the counter stands. -/
structure Counted (α : Type) where
  result : Except SyntaxFault α
  rest : List Token
  depth : Nat

/-- The state after an operand. Each prefix operator that it completes lowers the counter. -/
def completeCounted : Nat → Expr → List Frame → Nat × ReadState
  | depth, operand, .prefixed operator :: stack =>
    completeCounted (depth - 1) (.unary operator operand) stack
  | depth, operand, stack => (depth, .hasOperand operand stack)

/-- Reads an expression from a state on, the counter standing at the given depth. -/
def countFrom (limit : Nat) (stop : Token) : Nat → ReadState → List Token → Counted Expr
  | depth, .needsOperand _, [] => ⟨.error (.unexpectedEnd stop.line), [], depth⟩
  | depth, .needsOperand stack, t :: ts =>
    match t.operandRole with
    | .leaf value =>
      let (depth, state) := completeCounted depth value stack
      countFrom limit stop depth state ts
    | .opens frame =>
      if limit < depth + 1 then ⟨.error (.tooDeep t), ts, depth + 1⟩
      else countFrom limit stop (depth + 1) (.needsOperand (frame :: stack)) ts
    | .tooLarge => ⟨.error (.tooLarge t), ts, depth⟩
    | .none => ⟨.error (.unexpected t), t :: ts, depth⟩
  | depth, .hasOperand operand stack, [] =>
    match closePending .equality operand stack with
    | (_, .group :: _) => ⟨.error (.unclosedGroup stop), [], depth⟩
    | (operand, _) => ⟨.ok operand, [], depth⟩
  | depth, .hasOperand operand stack, t :: ts =>
    match t.kind.infixLevel? with
    | some level =>
      let (left, outer) := closePending level operand stack
      countFrom limit stop depth (.needsOperand (.pending left t.kind :: outer)) ts
    | none =>
      match closePending .equality operand stack with
      | (inner, .group :: outer) =>
        if t.kind = .rightParen then
          let (depth, state) := completeCounted (depth - 1) (.group inner) outer
          countFrom limit stop depth state ts
        else ⟨.error (.unclosedGroup t), t :: ts, depth⟩
      | (operand, _) => ⟨.ok operand, t :: ts, depth⟩

/-- Reads the expression at the beginning of a list of tokens. -/
def countExpr (limit : Nat) (stop : Token) (depth : Nat) (tokens : List Token) : Counted Expr :=
  countFrom limit stop depth (.needsOperand []) tokens

/-- Reads expressions to the end of a list of tokens, but no more than `count` of them. -/
def countExprs (limit : Nat) (stop : Token) : Nat → Nat → List Token → Counted (List Expr)
  | _, depth, [] => ⟨.ok [], [], depth⟩
  | 0, depth, tokens => ⟨.ok [], tokens, depth⟩
  | count + 1, depth, tokens =>
    let first := countExpr limit stop depth tokens
    match first.result with
    | .error fault => ⟨.error fault, first.rest, first.depth⟩
    | .ok e =>
      let more := countExprs limit stop count first.depth first.rest
      { more with result := more.result.map (e :: ·) }

/-- Reads the one expression that a list of tokens spells. -/
def countSingle (limit : Nat) (stop : Token) (depth : Nat) (tokens : List Token) : Counted Expr :=
  let outcome := countExpr limit stop depth tokens
  match outcome.result, outcome.rest with
  | .ok _, t :: _ => { outcome with result := .error (.unexpected t) }
  | _, _ => outcome

/-! ## The counter and the stack -/

/-- The frames of a state. -/
def ReadState.stack : ReadState → List Frame
  | .needsOperand stack => stack
  | .hasOperand _ stack => stack

/-- An outcome, counted from the given depth on. -/
def Outcome.countedFrom {α : Type} (depth : Nat) (outcome : Outcome α) : Counted α :=
  ⟨outcome.result, outcome.rest, depth + outcome.opened⟩

theorem completeCounted_eq (depth : Nat) (operand : Expr) (stack : List Frame) :
    completeCounted (depth + nesting stack) operand stack =
      (depth + nesting (complete operand stack).stack, complete operand stack) := by
  simp only [complete]
  fun_induction closePrefixes operand stack with
  | case1 operand operator stack ih =>
    rw [completeCounted, nesting_prefixed, ← Nat.add_assoc, Nat.add_sub_cancel]
    exact ih
  | case2 operand stack hne =>
    rw [completeCounted]
    · rfl
    · exact hne

theorem nesting_closePending {level : Level} {operand left : Expr} {stack outer : List Frame}
    (hclose : closePending level operand stack = (left, outer)) :
    nesting outer = nesting stack := by
  rw [← length_openers, ← length_openers, openers_closePending hclose]

/-- As long as the counter stands above its start by what is open on the stack, it leaves as much
    room as the limit does above the start. -/
theorem countFrom_eq (limit : Nat) (stop : Token) (depth : Nat) (state : ReadState)
    (ts : List Token) :
    countFrom limit stop (depth + nesting state.stack) state ts =
      (readFrom (limit - depth) stop state ts).countedFrom depth := by
  fun_induction readFrom (limit - depth) stop state ts with
  | case1 stack => rfl
  | case2 stack t ts value hrole ih =>
    simp only [countFrom, hrole, ReadState.stack, completeCounted_eq]
    exact ih
  | case3 stack t ts frame hrole hdeep =>
    have hopen := nesting_of_opens hrole stack
    have hlimit : limit < depth + nesting stack + 1 := by omega
    show countFrom limit stop (depth + nesting stack) (.needsOperand stack) (t :: ts) = _
    simp only [countFrom, hrole, if_pos hlimit]
    rw [Outcome.countedFrom, hopen, Nat.add_assoc]
  | case4 stack t ts frame hrole hdeep ih =>
    have hopen := nesting_of_opens hrole stack
    have hlimit : ¬limit < depth + nesting stack + 1 := by omega
    simp only [ReadState.stack, hopen, ← Nat.add_assoc] at ih
    show countFrom limit stop (depth + nesting stack) (.needsOperand stack) (t :: ts) = _
    simp only [countFrom, hrole, if_neg hlimit]
    exact ih
  | case5 stack t ts hrole | case6 stack t ts hrole =>
    simp only [countFrom, hrole, ReadState.stack, Outcome.countedFrom]
  | case7 operand stack inner outer hclose =>
    simp only [countFrom, hclose, ReadState.stack, Outcome.countedFrom,
      nesting_closePending hclose]
  | case8 operand stack e outer hgroup hclose =>
    simp only [countFrom, hclose, ReadState.stack, Outcome.countedFrom,
      nesting_closePending hclose]
  | case9 operand stack t ts level hlevel left outer hclose ih =>
    simp only [ReadState.stack, nesting_pending, nesting_closePending hclose] at ih
    simp only [countFrom, hlevel, hclose, ReadState.stack]
    exact ih
  | case10 operand stack t ts hlevel inner outer hclose hparen ih =>
    have hstack : nesting stack = nesting outer + 1 := by
      rw [← nesting_closePending hclose, nesting_group]
    simp only [countFrom, hlevel, hclose, if_pos hparen, ReadState.stack, hstack, ← Nat.add_assoc,
      Nat.add_sub_cancel, completeCounted_eq]
    exact ih
  | case11 operand stack t ts hlevel inner outer hclose hparen =>
    simp only [countFrom, hlevel, hclose, if_neg hparen, ReadState.stack, Outcome.countedFrom,
      nesting_closePending hclose]
  | case12 operand stack t ts hlevel e outer hgroup hclose =>
    simp only [countFrom, hlevel, hclose, ReadState.stack, Outcome.countedFrom,
      nesting_closePending hclose]

theorem countExpr_eq (limit : Nat) (stop : Token) (depth : Nat) (ts : List Token) :
    countExpr limit stop depth ts = (readExpr (limit - depth) stop ts).countedFrom depth :=
  countFrom_eq limit stop depth (.needsOperand []) ts

/-- Expression after expression the counter is back where it was. -/
theorem countExprs_eq (limit : Nat) (stop : Token) (count depth : Nat) (ts : List Token) :
    countExprs limit stop count depth ts =
      (readExprs (limit - depth) stop count ts).countedFrom depth := by
  induction count generalizing ts with
  | zero => cases ts <;> rfl
  | succ count ih =>
    rcases ts with _ | ⟨t, ts⟩
    · rfl
    · simp only [countExprs, readExprs, countExpr_eq, Outcome.countedFrom]
      rcases readExpr_cases (limit - depth) stop (t :: ts) with
        ⟨e, used, rest, _, hresult, _⟩ | ⟨f, hresult, _⟩
      · simp only [hresult, Nat.add_zero, ih, Outcome.countedFrom]
      · simp only [hresult]

theorem countSingle_eq (limit : Nat) (stop : Token) (depth : Nat) (ts : List Token) :
    countSingle limit stop depth ts = (readSingle (limit - depth) stop ts).countedFrom depth := by
  simp only [countSingle, readSingle, countExpr_eq, Outcome.countedFrom]
  rcases readExpr (limit - depth) stop ts with ⟨_ | e, _ | ⟨t, rest⟩, opened⟩ <;> rfl

end LoxSyntax
