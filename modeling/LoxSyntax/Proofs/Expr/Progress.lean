import LoxSyntax.Proofs.Expr.NormalForm
set_option autoImplicit false

/-! # Reading token by token

`readFrom` and `readExprs` read one expression after another, each to its end. Here the same reading
is cut into steps of one token: a `Progress` holds the expressions that are complete and where the
reader stands in the next one, `Progress.step` takes one token, and `Progress.finish` takes the end
of the input. The token that ends an expression without closing or extending anything is the first
one of the next expression, and is taken by one step for both.

The main statement is `parseTokens_eq_read`: reading a list of tokens is running the steps over
those before the end of the input, and then finishing. -/

namespace LoxSyntax

/-! ## Results of steps -/

theorem map_eq_ok_iff {ε α β : Type} {f : α → β} {x : Except ε α} {b : β} :
    x.map f = .ok b ↔ ∃ a, x = .ok a ∧ f a = b := by
  cases x <;> simp [Except.map]

theorem map_eq_error_iff {ε α β : Type} {f : α → β} {x : Except ε α} {e : ε} :
    x.map f = .error e ↔ x = .error e := by
  cases x <;> simp [Except.map]

theorem bind_eq_ok_iff {ε α β : Type} {f : α → Except ε β} {x : Except ε α} {b : β} :
    x.bind f = .ok b ↔ ∃ a, x = .ok a ∧ f a = .ok b := by
  cases x <;> simp [Except.bind]

/-! ## Steps -/

/-- The expressions that are complete, and where the reader stands in the next one. -/
structure Progress where
  done : List Expr := []
  state : ReadState := .needsOperand []
  deriving DecidableEq

/-- The state after a token that stands where an operand is expected. -/
def takeOperand (room : Nat) (stack : List Frame) (t : Token) : Except SyntaxFault ReadState :=
  match t.operandRole with
  | .leaf value => .ok (complete value stack)
  | .opens frame =>
    if room < nesting (frame :: stack) then .error (.tooDeep t)
    else .ok (.needsOperand (frame :: stack))
  | .tooLarge => .error (.tooLarge t)
  | .none => .error (.unexpected t)

namespace Progress

/-- Takes one token. -/
def step (room : Nat) (p : Progress) (t : Token) : Except SyntaxFault Progress :=
  match p.state with
  | .needsOperand stack => (takeOperand room stack t).map (⟨p.done, ·⟩)
  | .hasOperand operand stack =>
    match t.kind.infixLevel? with
    | some level =>
      let (left, outer) := closePending level operand stack
      .ok ⟨p.done, .needsOperand (.pending left t.kind :: outer)⟩
    | none =>
      match closePending .equality operand stack with
      | (inner, .group :: outer) =>
        if t.kind = .rightParen then .ok ⟨p.done, complete (.group inner) outer⟩
        else .error (.unclosedGroup t)
      | (e, _) => (takeOperand room [] t).map (⟨p.done ++ [e], ·⟩)

/-- Takes the tokens of a list one by one. -/
def run (room : Nat) (p : Progress) (tokens : List Token) : Except SyntaxFault Progress :=
  tokens.foldlM (step room) p

/-- Takes the end of the input. -/
def finish (stop : Token) (p : Progress) : Except SyntaxFault (List Expr) :=
  match p.state with
  | .needsOperand [] => .ok p.done
  | .needsOperand (_ :: _) => .error (.unexpectedEnd stop.line)
  | .hasOperand operand stack =>
    match closePending .equality operand stack with
    | (_, .group :: _) => .error (.unclosedGroup stop)
    | (e, _) => .ok (p.done ++ [e])

variable {room : Nat} {stop : Token}

@[simp] theorem run_nil (p : Progress) : p.run room [] = .ok p := rfl

@[simp] theorem run_cons (p : Progress) (t : Token) (ts : List Token) :
    p.run room (t :: ts) = (p.step room t).bind (·.run room ts) := rfl

theorem run_append (p : Progress) (ts us : List Token) :
    p.run room (ts ++ us) = (p.run room ts).bind (·.run room us) := by
  simp only [run, List.foldlM_append]
  rfl

/-- Reads a list of tokens to its end, from where the reader stands. -/
def read (room : Nat) (stop : Token) (p : Progress) (tokens : List Token) :
    Except SyntaxFault (List Expr) :=
  (p.run room tokens).bind (finish stop)

@[simp] theorem read_nil (p : Progress) : p.read room stop [] = p.finish stop := rfl

@[simp] theorem read_cons (p : Progress) (t : Token) (ts : List Token) :
    p.read room stop (t :: ts) = (p.step room t).bind (·.read room stop ts) := by
  cases h : p.step room t <;> simp [read, h, Except.bind]

theorem read_append (p : Progress) (ts us : List Token) :
    p.read room stop (ts ++ us) = (p.run room ts).bind (·.read room stop us) := by
  rw [read, run_append]
  cases p.run room ts <;> rfl

/-- Reading goes on with the expression after the one that the reader is in. -/
theorem read_eq_readFrom (done : List Expr) (state : ReadState) (ts : List Token)
    (hstart : state = .needsOperand [] → ts ≠ []) :
    read room stop ⟨done, state⟩ ts =
      (readFrom room stop state ts).result.bind fun e =>
        read room stop ⟨done ++ [e], .needsOperand []⟩ (readFrom room stop state ts).rest := by
  fun_induction readFrom room stop state ts with
  | case1 stack =>
    cases stack with
    | nil => exact absurd rfl (hstart rfl)
    | cons frame stack => rfl
  | case2 stack t ts value hrole ih =>
    simp only [read_cons, step, takeOperand, hrole, Except.map, Except.bind]
    exact ih (by simp [complete])
  | case3 stack t ts frame hrole hdeep =>
    simp only [read_cons, step, takeOperand, hrole, hdeep, if_true, Except.map, Except.bind]
  | case4 stack t ts frame hrole hdeep ih =>
    simp only [read_cons, step, takeOperand, hrole, hdeep, if_false, Except.map, Except.bind]
    exact ih (by simp)
  | case5 stack t ts hrole =>
    simp only [read_cons, step, takeOperand, hrole, Except.map, Except.bind]
  | case6 stack t ts hrole =>
    simp only [read_cons, step, takeOperand, hrole, Except.map, Except.bind]
  | case7 operand stack inner outer hclose =>
    simp only [read_nil, finish, hclose, Except.bind]
  | case8 operand stack e outer hgroup hclose =>
    simp only [read_nil, finish, hclose, Except.bind]
  | case9 operand stack t ts level hlevel left outer hclose ih =>
    simp only [read_cons, step, hlevel, hclose, Except.bind]
    exact ih (by simp)
  | case10 operand stack t ts hlevel inner outer hclose hparen ih =>
    simp only [read_cons, step, hclose, hparen, if_true, Except.bind]
    exact ih (by simp [complete])
  | case11 operand stack t ts hlevel inner outer hclose hparen =>
    simp only [read_cons, step, hlevel, hclose, hparen, if_false, Except.bind]
  | case12 operand stack t ts hlevel e outer hgroup hclose =>
    simp only [read_cons, step, hlevel, hclose, Except.bind]

end Progress

/-- An expression that was read has taken a token or more. -/
theorem rest_length_readExpr_lt {room : Nat} {stop : Token} {ts : List Token} {e : Expr}
    (h : (readExpr room stop ts).result = .ok e) :
    (readExpr room stop ts).rest.length < ts.length := by
  cases ts with
  | nil => simp [readExpr, readFrom] at h
  | cons t ts =>
    simp only [readExpr, readFrom] at h ⊢
    split at h
    · exact Nat.lt_succ_of_le (rest_suffix_readFrom ..).length_le
    · split at h
      · cases h
      · next hdeep =>
        rw [if_neg hdeep]
        exact Nat.lt_succ_of_le (rest_suffix_readFrom ..).length_le
    · cases h
    · cases h

/-- Reading expressions one after another is taking their tokens one by one. -/
theorem readExprs_eq_read (room : Nat) (stop : Token) (done : List Expr) (count : Nat)
    (ts : List Token) (hcount : ts.length ≤ count) :
    (readExprs room stop count ts).result.map (done ++ ·) =
      Progress.read room stop ⟨done, .needsOperand []⟩ ts := by
  induction count generalizing done ts with
  | zero =>
    obtain rfl : ts = [] := by simpa using hcount
    simp [readExprs, Progress.finish, Except.map]
  | succ count ih =>
    cases ts with
    | nil => simp [readExprs, Progress.finish, Except.map]
    | cons t ts =>
      rw [Progress.read_eq_readFrom done _ _ (by simp), ← readExpr]
      simp only [readExprs]
      cases hfirst : (readExpr room stop (t :: ts)).result with
      | error fault => rfl
      | ok e =>
        -- an expression takes a token or more, so `count` is enough for those that follow
        have hrest := rest_length_readExpr_lt hfirst
        simp only [List.length_cons] at hrest hcount
        simp only [Except.bind]
        rw [← ih (done ++ [e]) _ (by omega)]
        cases (readExprs room stop count (readExpr room stop (t :: ts)).rest).result <;>
          simp [Except.map]

/-- Reading a list of tokens is taking those before the end of the input one by one. -/
theorem parseTokens_eq_read (tokens : List Token) :
    parseTokens tokens =
      Progress.read maxNesting (TokenCursor.ofTokens tokens).stop {}
        (TokenCursor.ofTokens tokens).body := by
  rw [← readExprs_eq_read _ _ [] _ _ (Nat.le_refl _)]
  simp only [parseTokens, TokenCursor.expressions, TokenCursor.room, TokenCursor.ahead,
    TokenCursor.ofTokens, List.drop_zero, Nat.sub_zero]
  generalize readExprs _ _ _ _ = outcome
  cases outcome.result <;> simp [Except.map]

/-- What follows the end of the input is never looked at. -/
theorem ofTokens_append_stop {tokens : List Token} {stop : Token} (more : List Token)
    (htokens : ∀ t ∈ tokens, t.isEnd = false) (hstop : stop.isEnd = true) :
    TokenCursor.ofTokens (tokens ++ stop :: more) = { body := tokens, stop := stop } := by
  have hbody : (tokens ++ stop :: more).takeWhile (!·.isEnd) = tokens := by
    rw [List.takeWhile_append_of_pos (by simpa using htokens)]
    simp [hstop]
  have hfind : (tokens ++ stop :: more).find? (·.isEnd) = some stop := by
    rw [List.find?_append, List.find?_eq_none.mpr (by simpa using htokens)]
    simp [hstop]
  rw [TokenCursor.ofTokens, hbody, hfind, Option.getD_some]

/-- Tokens that end with the end of the input can be divided at the first token that does. -/
theorem exists_eq_append_stop {tokens : List Token}
    (h : ∃ stop ∈ tokens.getLast?, stop.isEnd = true) :
    ∃ body stop more, tokens = body ++ stop :: more ∧ (∀ t ∈ body, t.isEnd = false) ∧
      stop.isEnd = true := by
  obtain ⟨last, hlast, hend⟩ := h
  obtain ⟨stop, hfind⟩ : ∃ stop, tokens.find? (·.isEnd) = some stop :=
    Option.isSome_iff_exists.mp
      (List.find?_isSome.mpr ⟨last, List.mem_of_getLast? hlast, hend⟩)
  obtain ⟨hstop, body, more, rfl, hbody⟩ := List.find?_eq_some_iff_append.mp hfind
  exact ⟨body, stop, more, rfl, by simpa using hbody, hstop⟩

theorem parseTokens_append_stop {tokens : List Token} {stop : Token} (more : List Token)
    (htokens : ∀ t ∈ tokens, t.isEnd = false) (hstop : stop.isEnd = true) :
    parseTokens (tokens ++ stop :: more) = Progress.read maxNesting stop {} tokens := by
  rw [parseTokens_eq_read, ofTokens_append_stop more htokens hstop]

end LoxSyntax
