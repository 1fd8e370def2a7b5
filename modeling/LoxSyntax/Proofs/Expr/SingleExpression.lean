import LoxSyntax.Proofs.Expr.Soundness
set_option autoImplicit false

/-! # One expression at a time

Reading a single expression is the part of reading token by token in which no expression is
completed. What one token does to it is said once, in `readFrom_cons_cases`: the expression goes on,
is refused, or has ended in front of the token. So a run of steps that completes no expression is
the beginning of reading one (`Progress.readFrom_append_of_run`), and reading the one expression of
a list of tokens is reading all expressions and finding one (`parseSingle_eq_ok_iff`). -/

namespace LoxSyntax

variable {room : Nat} {stop : Token}

/-! ## One token -/

/-- What one more token is to the expression that is being read: a part of it, a fault, or the first
    token behind it. -/
theorem readFrom_cons_cases (room : Nat) (stop : Token) (state : ReadState) (t : Token)
    (ts : List Token) :
    (∃ next, (∀ done, Progress.step room ⟨done, state⟩ t = .ok ⟨done, next⟩) ∧
      readFrom room stop state (t :: ts) = readFrom room stop next ts) ∨
    (∃ f, (∀ done, Progress.step room ⟨done, state⟩ t = .error f) ∧
      (readFrom room stop state (t :: ts)).result = .error f) ∨
    ∃ operand stack e outer, state = .hasOperand operand stack ∧ t.kind.infixLevel? = none ∧
      closePending .equality operand stack = (e, outer) ∧ (∀ tail, outer ≠ .group :: tail) ∧
      readFrom room stop state (t :: ts) = ⟨.ok e, t :: ts, nesting outer⟩ := by
  rcases state with stack | ⟨operand, stack⟩
  · rcases hrole : t.operandRole with value | frame | _ | _
    · left
      refine ⟨complete value stack, fun done => ?_, ?_⟩
      · simp only [Progress.step, takeOperand, hrole, Except.map]
      · simp only [readFrom, hrole]
    · by_cases hdeep : room < nesting (frame :: stack)
      · right; left
        refine ⟨.tooDeep t, fun done => ?_, ?_⟩
        · simp only [Progress.step, takeOperand, hrole, if_pos hdeep, Except.map]
        · simp only [readFrom, hrole, if_pos hdeep]
      · left
        refine ⟨.needsOperand (frame :: stack), fun done => ?_, ?_⟩
        · simp only [Progress.step, takeOperand, hrole, if_neg hdeep, Except.map]
        · simp only [readFrom, hrole, if_neg hdeep]
    · right; left
      refine ⟨.tooLarge t, fun done => ?_, ?_⟩
      · simp only [Progress.step, takeOperand, hrole, Except.map]
      · simp only [readFrom, hrole]
    · right; left
      refine ⟨.unexpected t, fun done => ?_, ?_⟩
      · simp only [Progress.step, takeOperand, hrole, Except.map]
      · simp only [readFrom, hrole]
  · rcases hlevel : t.kind.infixLevel? with _ | level
    · rcases hclose : closePending .equality operand stack with ⟨inner, outer⟩
      by_cases hgroup : ∃ tail, outer = .group :: tail
      · obtain ⟨tail, rfl⟩ := hgroup
        by_cases hparen : t.kind = .rightParen
        · left
          refine ⟨complete (.group inner) tail, fun done => ?_, ?_⟩
          · simp only [Progress.step, hlevel, hclose, if_pos hparen]
          · simp only [readFrom, hlevel, hclose, if_pos hparen]
        · right; left
          refine ⟨.unclosedGroup t, fun done => ?_, ?_⟩
          · simp only [Progress.step, hlevel, hclose, if_neg hparen]
          · simp only [readFrom, hlevel, hclose, if_neg hparen]
      · right; right
        have hne : ∀ tail, outer ≠ .group :: tail := fun tail heq => hgroup ⟨tail, heq⟩
        refine ⟨operand, stack, inner, outer, rfl, rfl, hclose, hne, ?_⟩
        simp only [readFrom, hlevel, hclose]
    · left
      rcases hclose : closePending level operand stack with ⟨left, outer⟩
      refine ⟨.needsOperand (.pending left t.kind :: outer), fun done => ?_, ?_⟩
      · simp only [Progress.step, hlevel, hclose]
      · simp only [readFrom, hlevel, hclose]

/-! ## Runs within an expression -/

namespace Progress

theorem done_prefix_step {p q : Progress} {t : Token} (h : p.step room t = .ok q) :
    p.done <+: q.done := by
  revert h
  fun_cases step room p t with
  | case1 | case5 =>
    intro h
    obtain ⟨state, _, rfl⟩ := map_eq_ok_iff.mp h
    simp
  | case2 | case3 =>
    rintro ⟨⟩
    exact List.prefix_rfl
  | case4 => rintro ⟨⟩

/-- Expressions that are complete stay as they are. -/
theorem done_prefix_run {p q : Progress} {ts : List Token} (h : p.run room ts = .ok q) :
    p.done <+: q.done := by
  induction ts generalizing p with
  | nil =>
    cases h
    exact List.prefix_rfl
  | cons t ts ih =>
    obtain ⟨next, hstep, hrest⟩ := bind_eq_ok_iff.mp h
    exact (done_prefix_step hstep).trans (ih hrest)

/-- Outside all groups a token that is no infix operator completes the expression. -/
theorem step_ne_of_closed {operand e : Expr} {stack outer : List Frame} {t : Token}
    (hlevel : t.kind.infixLevel? = none)
    (hclose : closePending .equality operand stack = (e, outer))
    (hne : ∀ tail, outer ≠ .group :: tail) (done : List Expr) (last : ReadState) :
    step room ⟨done, .hasOperand operand stack⟩ t ≠ .ok ⟨done, last⟩ := by
  intro h
  have hnext : step room ⟨done, .hasOperand operand stack⟩ t =
      step room ⟨done ++ [e], .needsOperand []⟩ t := by
    simp only [step, hlevel, hclose]
  rw [hnext] at h
  exact absurd (done_prefix_step h).length_le (by simp)

/-- A step that completes no expression is one of reading the expression that it is in. -/
theorem readFrom_cons_of_step {done : List Expr} {state next : ReadState} {t : Token}
    (h : step room ⟨done, state⟩ t = .ok ⟨done, next⟩) (ts : List Token) :
    readFrom room stop state (t :: ts) = readFrom room stop next ts := by
  rcases readFrom_cons_cases room stop state t ts with
    ⟨other, hstep, hread⟩ | ⟨f, hstep, _⟩ | ⟨operand, stack, e, outer, rfl, hlevel, hclose, hne, _⟩
  · rw [hstep done] at h
    cases h
    exact hread
  · rw [hstep done] at h
    cases h
  · exact absurd h (step_ne_of_closed hlevel hclose hne done next)

/-- A run that completes no expression is the beginning of reading the expression that it is in. -/
theorem readFrom_append_of_run {done : List Expr} {state last : ReadState} {ts : List Token}
    (h : run room ⟨done, state⟩ ts = .ok ⟨done, last⟩) (us : List Token) :
    readFrom room stop state (ts ++ us) = readFrom room stop last us := by
  induction ts generalizing state with
  | nil =>
    cases h
    rfl
  | cons t ts ih =>
    obtain ⟨⟨between, next⟩, hstep, hrest⟩ := bind_eq_ok_iff.mp h
    -- what is complete between the two ends is complete at both
    obtain rfl : between = done :=
      (done_prefix_run hrest).eq_of_length_le (done_prefix_step hstep).length_le
    rw [List.cons_append, readFrom_cons_of_step hstep, ih hrest]

/-- Reading an expression takes tokens up to one that it cannot go on with. -/
theorem exists_run_readFrom (room : Nat) (stop : Token) (state : ReadState) (ts : List Token) :
    ∃ before next after, ts = before ++ after ∧
      (∀ done, run room ⟨done, state⟩ before = .ok ⟨done, next⟩) ∧
      readFrom room stop state ts = readFrom room stop next after ∧
      ∀ t ∈ after.head?, ∀ done last, step room ⟨done, next⟩ t ≠ .ok ⟨done, last⟩ := by
  induction ts generalizing state with
  | nil => exact ⟨[], state, [], rfl, fun done => rfl, rfl, by simp⟩
  | cons t ts ih =>
    rcases readFrom_cons_cases room stop state t ts with
      ⟨next, hstep, hread⟩ | ⟨f, hstep, _⟩ | ⟨operand, stack, e, outer, rfl, hlevel, hclose, hne, _⟩
    · obtain ⟨before, last, after, rfl, hrun, hrest, hhead⟩ := ih next
      refine ⟨t :: before, last, after, rfl, fun done => ?_, hread.trans hrest, hhead⟩
      rw [run_cons, hstep done]
      exact hrun done
    · refine ⟨[], state, t :: ts, rfl, fun done => rfl, rfl, ?_⟩
      intro u hu done last
      cases hu
      simp [hstep done]
    · refine ⟨[], .hasOperand operand stack, t :: ts, rfl, fun done => rfl, rfl, ?_⟩
      intro u hu done last
      cases hu
      exact step_ne_of_closed hlevel hclose hne done last

/-- A fault of an expression is met at one token, all those in front of it having been taken, or at
    the end of the input. -/
theorem exists_of_readFrom_eq_error {state : ReadState} {ts : List Token} {f : SyntaxFault}
    (h : (readFrom room stop state ts).result = .error f) :
    ∃ before next after, ts = before ++ after ∧
      (∀ done, run room ⟨done, state⟩ before = .ok ⟨done, next⟩) ∧
      readFrom room stop state ts = readFrom room stop next after ∧
      ∀ t ∈ after.head?, ∀ done, step room ⟨done, next⟩ t = .error f := by
  obtain ⟨before, next, after, hts, hrun, hread, hhead⟩ := exists_run_readFrom room stop state ts
  refine ⟨before, next, after, hts, hrun, hread, ?_⟩
  rcases after with _ | ⟨t, after⟩
  · simp
  · intro u hu
    cases hu
    rw [hread] at h
    rcases readFrom_cons_cases room stop next t after with
      ⟨last, hstep, _⟩ | ⟨g, hstep, hfault⟩ | ⟨operand, stack, e, outer, _, _, _, _, hended⟩
    · exact absurd (hstep []) (hhead t rfl [] last)
    · rw [hfault] at h
      cases h
      exact hstep
    · rw [hended] at h
      cases h

/-- An expression that reaches behind its first tokens has taken these without being completed. -/
theorem exists_run_of_readFrom_eq_ok {state : ReadState} {before rest : List Token} {e : Expr}
    (h : (readFrom room stop state (before ++ rest)).result = .ok e)
    (hrest : (readFrom room stop state (before ++ rest)).rest <:+ rest) :
    ∃ next, ∀ done, run room ⟨done, state⟩ before = .ok ⟨done, next⟩ := by
  induction before generalizing state with
  | nil => exact ⟨state, fun done => rfl⟩
  | cons t ts ih =>
    rcases readFrom_cons_cases room stop state t (ts ++ rest) with
      ⟨next, hstep, hread⟩ | ⟨g, hstep, hread⟩ | ⟨operand, stack, d, outer, _, _, _, _, hread⟩
    · rw [List.cons_append, hread] at h hrest
      obtain ⟨last, hrun⟩ := ih h hrest
      refine ⟨last, fun done => ?_⟩
      rw [run_cons, hstep done]
      exact hrun done
    · rw [List.cons_append, hread] at h
      cases h
    · rw [List.cons_append, hread] at hrest
      have hlength := hrest.length_le
      simp only [List.length_cons, List.length_append] at hlength
      omega

end Progress

/-! ## Lists of one expression -/

/-- Expressions that are read from tokens ahead are one or more. -/
theorem readExprs_ne_nil {count : Nat} {t : Token} {ts : List Token} :
    (readExprs room stop (count + 1) (t :: ts)).result ≠ .ok [] := by
  simp only [readExprs]
  split
  · rintro ⟨⟩
  · intro h
    obtain ⟨es, _, hes⟩ := map_eq_ok_iff.mp h
    cases hes

theorem readSingle_eq_ok_iff {ts : List Token} {e : Expr} :
    (readSingle room stop ts).result = .ok e ↔
      (readExpr room stop ts).result = .ok e ∧ (readExpr room stop ts).rest = [] := by
  unfold readSingle
  rcases (readExpr room stop ts) with ⟨_ | d, _ | ⟨t, rest⟩, opened⟩ <;> simp

/-- Apart from the token behind the expression, the faults are those of reading one. -/
theorem readSingle_eq_error_iff {ts : List Token} {f : SyntaxFault} :
    (readSingle room stop ts).result = .error f ↔
      (readExpr room stop ts).result = .error f ∨
        ∃ e t rest, (readExpr room stop ts).result = .ok e ∧
          (readExpr room stop ts).rest = t :: rest ∧ f = .unexpected t := by
  unfold readSingle
  rcases (readExpr room stop ts) with ⟨_ | d, _ | ⟨t, rest⟩, opened⟩ <;> simp [eq_comm]

/-- Reading the one expression of a list is reading it from the tokens before the end. -/
theorem parseSingle_eq_readSingle (tokens : List Token) :
    parseSingle tokens =
      (readSingle maxNesting (TokenCursor.ofTokens tokens).stop
        (TokenCursor.ofTokens tokens).body).result :=
  rfl

/-- Tokens are one expression when they are expressions and these are one. -/
theorem parseSingle_eq_ok_iff {tokens : List Token} {e : Expr} :
    parseSingle tokens = .ok e ↔ parseTokens tokens = .ok [e] := by
  simp only [parseSingle, parseTokens, TokenCursor.single, TokenCursor.expressions, readSingle]
  generalize TokenCursor.room _ = room, TokenCursor.stop _ = stop, TokenCursor.ahead _ = ts
  cases ts with
  | nil => simp [readExpr, readFrom, readExprs]
  | cons t ts =>
    simp only [List.length_cons, readExprs]
    cases hfirst : (readExpr room stop (t :: ts)).result with
    | error fault => simp [hfirst]
    | ok first =>
      have hlength := rest_length_readExpr_lt hfirst
      cases hrest : (readExpr room stop (t :: ts)).rest with
      | nil => simp [hfirst, readExprs, Except.map]
      | cons u us =>
        -- another expression begins where the first one has ended
        refine iff_of_false (by rintro ⟨⟩) fun h => ?_
        obtain ⟨es, hes, hcons⟩ := map_eq_ok_iff.mp h
        obtain ⟨rfl, rfl⟩ := List.cons.inj hcons
        obtain ⟨count, hcount⟩ : ∃ count, ts.length = count + 1 :=
          ⟨ts.length - 1, by simp only [hrest, List.length_cons] at hlength; omega⟩
        rw [hcount] at hes
        exact readExprs_ne_nil hes

end LoxSyntax
