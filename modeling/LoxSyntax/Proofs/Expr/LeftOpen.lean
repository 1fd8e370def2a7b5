import LoxSyntax.Proofs.Expr.FirstFault
import LoxSyntax.Proofs.Expr.SingleExpression
set_option autoImplicit false

/-! # What a reading leaves open

A reading that ends with a result leaves nothing open, and one that ends with a fault leaves open
what the tokens have opened that it has consumed (`Outcome.Accounts`). This holds for one
expression, for as many as there are, and for the only one; `readFrom_of_halt` says it of the place
where an expression ends. -/

namespace LoxSyntax

variable {room : Nat} {stop : Token}

/-! ## The end of an expression -/

theorem nesting_of_opens {t : Token} {frame : Frame} (h : t.operandRole = .opens frame)
    (stack : List Frame) : nesting (frame :: stack) = nesting stack + 1 := by
  rcases Token.operandRole_eq_opens_iff.mp h with ⟨_, rfl⟩ | ⟨_, rfl⟩ <;> simp

/-- Where reading an expression ends, either the expression is complete and the token ahead is the
    first one of the next, or what is open has been opened by the tokens that were consumed. -/
theorem readFrom_of_halt {next : ReadState} {after : List Token} (hsound : next.IsSound room)
    (hhalt : ∀ t ∈ after.head?, ∀ done last,
      Progress.step room ⟨done, next⟩ t ≠ .ok ⟨done, last⟩) :
    (∃ e, readFrom room stop next after = ⟨.ok e, after, 0⟩ ∧ next.openings = ⟨[], false⟩ ∧
      ∀ t ∈ after.head?, t.kind.infixLevel? = none) ∨
    ∃ f rest opened, readFrom room stop next after = ⟨.error f, rest, opened⟩ ∧
      ((∀ t ∈ after, t.CarriesDouble) → ∃ used, after = used ++ rest ∧
        opened = (used.foldl (fun o t => o.after t.kind) next.openings).nested.length) := by
  fun_cases readFrom room stop next after with
  | case1 stack =>
    right
    refine ⟨.unexpectedEnd stop.line, [], nesting stack, rfl, fun _ => ⟨[], rfl, ?_⟩⟩
    simp [ReadState.openings, length_openers]
  | case2 stack t ts value hrole =>
    refine absurd ?_ (hhalt t rfl [] (complete value stack))
    simp only [Progress.step, takeOperand, hrole, Except.map]
  | case3 stack t ts frame hrole hdeep =>
    right
    refine ⟨.tooDeep t, ts, nesting (frame :: stack), rfl, fun _ => ⟨[t], rfl, ?_⟩⟩
    have hopens : t.kind.opens = true := Token.opens_iff.mpr ⟨frame, hrole⟩
    simp [ReadState.openings, Openings.after, Openings.isOperandPosition, hopens, length_openers,
      nesting_of_opens hrole]
  | case4 stack t ts frame hrole hdeep =>
    refine absurd ?_ (hhalt t rfl [] (.needsOperand (frame :: stack)))
    simp only [Progress.step, takeOperand, hrole, if_neg hdeep, Except.map]
  | case5 stack t ts hrole =>
    right
    refine ⟨.tooLarge t, ts, nesting stack, rfl, fun hnumbers => ?_⟩
    exact absurd hrole (hnumbers t (List.mem_cons_self ..)).operandRole_ne
  | case6 stack t ts hrole =>
    right
    refine ⟨.unexpected t, t :: ts, nesting stack, rfl, fun _ => ⟨[], rfl, ?_⟩⟩
    simp [ReadState.openings, length_openers]
  | case7 operand stack inner outer hclose =>
    right
    refine ⟨.unclosedGroup stop, [], nesting (.group :: outer), rfl, fun _ => ⟨[], rfl, ?_⟩⟩
    simp [ReadState.openings, ← openers_closePending hclose, length_openers]
  | case8 operand stack e outer hgroup hclose =>
    left
    obtain ⟨rfl, _⟩ := closed_spec hsound hclose hgroup
    refine ⟨e, by rfl, ?_, by simp⟩
    simp [ReadState.openings, ← openers_closePending hclose]
  | case9 operand stack t ts level hlevel left outer hclose =>
    refine absurd ?_ (hhalt t rfl [] (.needsOperand (.pending left t.kind :: outer)))
    simp only [Progress.step, hlevel, hclose]
  | case10 operand stack t ts hlevel inner outer hclose hparen =>
    refine absurd ?_ (hhalt t rfl [] (complete (.group inner) outer))
    simp only [Progress.step, hlevel, hclose, if_pos hparen]
  | case11 operand stack t ts hlevel inner outer hclose hparen =>
    right
    refine ⟨.unclosedGroup t, t :: ts, nesting (.group :: outer), rfl, fun _ => ⟨[], rfl, ?_⟩⟩
    simp [ReadState.openings, ← openers_closePending hclose, length_openers]
  | case12 operand stack t ts hlevel e outer hgroup hclose =>
    left
    obtain ⟨rfl, _⟩ := closed_spec hsound hclose hgroup
    refine ⟨e, by rfl, ?_, ?_⟩
    · simp [ReadState.openings, ← openers_closePending hclose]
    · intro u hu
      cases hu
      exact hlevel

/-! ## Accounting for what is open -/

/-- An outcome with another result. -/
def Outcome.map {α β : Type} (f : α → β) (outcome : Outcome α) : Outcome β :=
  ⟨outcome.result.map f, outcome.rest, outcome.opened⟩

/-- Is nothing open after a result, and after a fault what the consumed tokens leave open? Numbers
    that have no double are left out: they are consumed and still no operand. -/
def Outcome.Accounts {α : Type} (tokens : List Token) (outcome : Outcome α) : Prop :=
  (∃ a, outcome.result = .ok a ∧ outcome.opened = 0) ∨
    ∃ f, outcome.result = .error f ∧
      ((∀ t ∈ tokens, t.CarriesDouble) → ∃ used, tokens = used ++ outcome.rest ∧
        outcome.opened = (Openings.of used).nested.length)

theorem Outcome.Accounts.map {α β : Type} {tokens : List Token} {outcome : Outcome α}
    (h : outcome.Accounts tokens) (f : α → β) : (outcome.map f).Accounts tokens := by
  rcases h with ⟨a, hresult, hopened⟩ | ⟨fault, hresult, hopened⟩
  · exact Or.inl ⟨f a, by rw [Outcome.map, hresult]; rfl, hopened⟩
  · exact Or.inr ⟨fault, by rw [Outcome.map, hresult]; rfl, hopened⟩

/-- Behind a complete expression, a token that does not continue it starts anew. -/
theorem Openings.nested_of_append {used more : List Token} (hused : Openings.of used = ⟨[], false⟩)
    (hmore : ∀ t ∈ more.head?, t.kind.infixLevel? = none) :
    (Openings.of (used ++ more)).nested = (Openings.of more).nested := by
  rcases more with _ | ⟨t, more⟩
  · rw [List.append_nil, hused]
    rfl
  · have hfirst : Openings.after ⟨[], false⟩ t.kind = Openings.after {} t.kind := by
      simp [Openings.after, Openings.isOperandPosition, hmore t rfl]
    rw [Openings.of, List.foldl_append, ← Openings.of, hused, Openings.of, List.foldl_cons,
      List.foldl_cons, hfirst]

theorem readExpr_cases (room : Nat) (stop : Token) (ts : List Token) :
    (∃ e used rest, ts = used ++ rest ∧ readExpr room stop ts = ⟨.ok e, rest, 0⟩ ∧
      Openings.of used = ⟨[], false⟩ ∧ ∀ t ∈ rest.head?, t.kind.infixLevel? = none) ∨
    ∃ f, (readExpr room stop ts).result = .error f ∧ (readExpr room stop ts).Accounts ts := by
  obtain ⟨used, next, after, rfl, hrun, hread, hhalt⟩ :=
    Progress.exists_run_readFrom room stop (.needsOperand []) ts
  have hsound := (Progress.isSound_start.run (hrun [])).1.state
  have hopenings : next.openings = Openings.of used := Progress.openings_of_run (hrun [])
  rcases readFrom_of_halt hsound hhalt with
    ⟨e, hresult, hclosed, hhead⟩ | ⟨f, rest, opened, hresult, hopened⟩
  · left
    exact ⟨e, used, after, rfl, hread.trans hresult, hopenings ▸ hclosed, hhead⟩
  · right
    have hexpr : readExpr room stop (used ++ after) = ⟨.error f, rest, opened⟩ :=
      hread.trans hresult
    rw [hexpr]
    refine ⟨f, rfl, Or.inr ⟨f, rfl, fun hnumbers => ?_⟩⟩
    obtain ⟨taken, rfl, rfl⟩ :=
      hopened fun t ht => hnumbers t (List.mem_append_right used ht)
    refine ⟨used ++ taken, by simp, ?_⟩
    rw [hopenings, Openings.of, ← List.foldl_append]
    rfl

theorem accounts_readExpr (room : Nat) (stop : Token) (ts : List Token) :
    (readExpr room stop ts).Accounts ts := by
  rcases readExpr_cases room stop ts with ⟨e, used, rest, _, hresult, _⟩ | ⟨f, _, haccounts⟩
  · rw [hresult]
    exact Or.inl ⟨e, rfl, rfl⟩
  · exact haccounts

/-- What an outcome for the tokens behind an expression accounts for, it does for all tokens. -/
theorem Outcome.Accounts.of_append {α : Type} {used rest : List Token} {outcome : Outcome α}
    (h : outcome.Accounts rest) (hused : Openings.of used = ⟨[], false⟩)
    (hrest : ∀ t ∈ rest.head?, t.kind.infixLevel? = none) : outcome.Accounts (used ++ rest) := by
  rcases h with hok | ⟨f, hresult, hopened⟩
  · exact Or.inl hok
  · refine Or.inr ⟨f, hresult, fun hnumbers => ?_⟩
    obtain ⟨taken, hsplit, hlength⟩ :=
      hopened fun t ht => hnumbers t (List.mem_append_right used ht)
    refine ⟨used ++ taken, by rw [List.append_assoc, ← hsplit], ?_⟩
    rw [Openings.nested_of_append hused, hlength]
    intro t ht
    refine hrest t ?_
    rw [hsplit, List.head?_append, Option.mem_def.mp ht]
    rfl

theorem accounts_readExprs (room : Nat) (stop : Token) (count : Nat) (ts : List Token) :
    (readExprs room stop count ts).Accounts ts := by
  induction count generalizing ts with
  | zero =>
    left
    cases ts <;> exact ⟨[], rfl, rfl⟩
  | succ count ih =>
    rcases ts with _ | ⟨t, ts⟩
    · exact Or.inl ⟨[], rfl, rfl⟩
    · simp only [readExprs]
      rcases readExpr_cases room stop (t :: ts) with
        ⟨e, used, rest, hts, hresult, hused, hrest⟩ | ⟨f, hresult, haccounts⟩
      · rw [hts] at hresult ⊢
        simp only [hresult]
        exact ((ih rest).of_append hused hrest).map (e :: ·)
      · simp only [hresult]
        rcases haccounts with ⟨e, hok, _⟩ | ⟨g, hfault, hopened⟩
        · rw [hresult] at hok
          cases hok
        · exact Or.inr ⟨f, rfl, hopened⟩

theorem accounts_readSingle (room : Nat) (stop : Token) (ts : List Token) :
    (readSingle room stop ts).Accounts ts := by
  rcases readExpr_cases room stop ts with
    ⟨e, used, rest, hts, hresult, hused, _⟩ | ⟨f, hresult, haccounts⟩
  · rcases rest with _ | ⟨t, rest⟩
    · left
      refine ⟨e, ?_, ?_⟩ <;> simp only [readSingle, hresult]
    · right
      refine ⟨.unexpected t, ?_, fun _ => ⟨used, ?_, ?_⟩⟩ <;> simp only [readSingle, hresult, hused]
      · exact hts
      · rfl
  · have hsingle : readSingle room stop ts = readExpr room stop ts := by
      simp only [readSingle, hresult]
    rw [hsingle]
    exact haccounts

end LoxSyntax
