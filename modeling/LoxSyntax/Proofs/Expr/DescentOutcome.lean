import LoxSyntax.Proofs.Expr.Completeness
import LoxSyntax.Proofs.Expr.Descent
import LoxSyntax.Proofs.Expr.LeftOpen
set_option autoImplicit false

/-! # Descents and the reader

A descent comes to what the reader comes to that keeps what is open on a stack. While a task is
read, the frames of the tasks around it stay on the stack as they are: they withstand the operators
of its level (`Withstands`). When the task has a result, the reader holds some operand on some stack
that looks to those operators like the result on the stack that the task began with (`StandsUpTo`).
The main statement is `Descent.readExpr_leadsTo`. -/

namespace LoxSyntax

variable {level : Level} {operand e : Expr} {stack outer : List Frame}

/-! ## Stacks around a task -/

/-- Operators of the level, and tighter ones, close nothing on the stack. -/
def Withstands (stack : List Frame) (level : Level) : Prop :=
  ∀ e own, level ≤ own → closePending own e stack = (e, stack)

theorem withstands_nil (level : Level) : Withstands [] level := fun _ _ _ => rfl

theorem withstands_group (stack : List Frame) (level : Level) :
    Withstands (.group :: stack) level := fun _ _ _ => rfl

theorem withstands_prefixed (operator : TokenKind) (stack : List Frame) (level : Level) :
    Withstands (.prefixed operator :: stack) level := fun _ _ _ => rfl

theorem withstands_pending {operator : TokenKind} {own : Level}
    (hown : operator.infixLevel? = some own) (hlt : own < level) (left : Expr)
    (stack : List Frame) : Withstands (.pending left operator :: stack) level := by
  intro e tight hle
  have hkeeps : ¬tight ≤ own := Level.not_le_iff.mpr (lt_of_lt_of_le hlt hle)
  rw [closePending, hown, Option.getD_some, if_neg hkeeps]

theorem Withstands.mono {tight : Level} (h : Withstands stack level) (hle : level ≤ tight) :
    Withstands stack tight :=
  fun e own hown => h e own (le_trans hle hown)

/-- To operators of the level, and to looser ones, an operand on a stack looks like the expression
    `e` on `stack`. -/
def StandsUpTo (level : Level) (operand : Expr) (outer : List Frame) (e : Expr)
    (stack : List Frame) : Prop :=
  ∀ own ≤ level, closePending own operand outer =
    closePending own (closePrefixes e stack).1 (closePrefixes e stack).2

theorem StandsUpTo.mono {loose : Level} (h : StandsUpTo level operand outer e stack)
    (hle : loose ≤ level) : StandsUpTo loose operand outer e stack :=
  fun own hown => h own (le_trans hown hle)

/-- Behind an operator, the right operand stands for the whole to operators that bind no tighter. -/
theorem StandsUpTo.binary {operator : TokenKind} {own : Level} {left : Expr}
    (hown : operator.infixLevel? = some own) (hsettled : IsSettled stack)
    (h : StandsUpTo own operand outer e (.pending left operator :: stack)) :
    StandsUpTo own operand outer (.binary left operator e) stack := by
  intro loose hle
  rw [h loose hle, closePrefixes_of_isSettled hsettled]
  simp [closePrefixes, closePending, hown, hle]

/-! ## What a descent says about the reader -/

section

variable (body : List Token) (stop : Token) (base : Nat)

/-- The reader, where its state is reached with the given number of groups and prefix operators open
    already, in front of the tokens from a place on. -/
def readAt (state : ReadState) (p : Place) : Outcome Expr :=
  readFrom (maxNesting - base) stop state (body.drop p.position)

/-- The outcome is what the upshot of a task on a stack says: the fault with the tokens and the
    counter of the place, or what comes of the result there. -/
def Outcome.Matches (outcome : Outcome Expr) (level : Level) (stack : List Frame) (q : Place) :
    Upshot Expr → Prop
  | .result e => ∃ operand outer, outcome = readAt body stop base (.hasOperand operand outer) q ∧
      StandsUpTo level operand outer e stack
  | .fault f => outcome.result = .error f ∧ outcome.rest = body.drop q.position ∧
      q.depth = base + outcome.opened
  | .outside => False

/-- Reading from the place of a task on comes to what its upshot says. A prefix operator is none of
    what the tightest level begins with. -/
def Task.Agrees (p : Place) (x : Upshot Expr) (q : Place) : Task → Prop
  | .operand level => ∀ stack, Withstands stack level → (level < .unary → IsSettled stack) →
      (level = .primary →
        ∀ t ∈ (body.drop p.position).head?, t.kind.isPrefixOperator = false) →
      p.depth = base + nesting stack →
      (readAt body stop base (.needsOperand stack) p).Matches body stop base level stack q x
  | .operators level left => ∀ stack operand outer, Withstands stack level → IsSettled stack →
      p.depth = base + nesting stack → StandsUpTo level operand outer left stack →
      (readAt body stop base (.hasOperand operand outer) p).Matches body stop base level stack q x

end

variable {body more : List Token} {stop t : Token} {base : Nat} {p q : Place} {x : Upshot Expr}

theorem Outcome.Matches.of_stops {outcome : Outcome Expr} {level' : Level} {stack' : List Frame}
    (h : outcome.Matches body stop base level' stack' q x) (hstops : x.Stops) :
    outcome.Matches body stop base level stack q x := by
  cases x with
  | result e => exact absurd rfl (hstops e)
  | fault f => exact h
  | outside => exact h

theorem Outcome.Matches.mono {outcome : Outcome Expr} {loose : Level}
    (h : outcome.Matches body stop base level stack q x) (hle : loose ≤ level) :
    outcome.Matches body stop base loose stack q x := by
  cases x with
  | result e =>
    obtain ⟨operand, outer, hread, hstands⟩ := h
    exact ⟨operand, outer, hread, hstands.mono hle⟩
  | fault f => exact h
  | outside => exact h

/-- The end of the input is reached at its first token only. -/
theorem Place.drop_of_isEnd (hbody : ∀ t ∈ body, t.isEnd = false) (hp : p.position ≤ body.length)
    (there : (body ++ stop :: more)[p.position]? = some t) (hend : t.isEnd = true) :
    body.drop p.position = [] ∧ t = stop := by
  rcases Nat.lt_or_eq_of_le hp with hlt | heq
  · rw [List.getElem?_append_left hlt] at there
    rw [hbody t (List.mem_of_getElem? there)] at hend
    cases hend
  · rw [heq, List.getElem?_append_right (Nat.le_refl _), Nat.sub_self] at there
    rw [heq, List.drop_length]
    exact ⟨rfl, (Option.some.inj there).symm⟩

/-- A group or prefix operator is opened unless too many are open. -/
theorem readAt_of_opens {frame : Frame} (hstop : stop.isEnd = true)
    (hp : p.position ≤ body.length) (there : (body ++ stop :: more)[p.position]? = some t)
    (role : t.operandRole = .opens frame) (hdepth : p.depth = base + nesting stack) :
    (maxNesting ≤ p.depth → readAt body stop base (.needsOperand stack) p =
      ⟨.error (.tooDeep t), body.drop (p.enter t).position, nesting (frame :: stack)⟩) ∧
    (p.depth < maxNesting → readAt body stop base (.needsOperand stack) p =
      readAt body stop base (.needsOperand (frame :: stack)) (p.enter t)) ∧
    (p.enter t).depth = base + nesting (frame :: stack) ∧
    (p.enter t).position ≤ body.length := by
  have hend := Token.isEnd_of_operandRole (by rw [role]; simp)
  obtain ⟨hlt, hdrop, _, henter⟩ := Place.lookup_of_not_isEnd hstop hp there hend
  have hnested := nesting_of_opens role stack
  rw [henter, readAt, readAt, hdrop, readFrom, role]
  refine ⟨fun hdeep => if_pos ?_, fun hshallow => if_neg ?_, ?_, hlt⟩
  · omega
  · omega
  · show p.depth + 1 = _
    omega

/-- What is read behind an opened frame is read on the stack with that frame. -/
theorem Task.Agrees.of_opens {frame : Frame} {inner : Level} (hstop : stop.isEnd = true)
    (hp : p.position ≤ body.length) (there : (body ++ stop :: more)[p.position]? = some t)
    (role : t.operandRole = .opens frame) (shallow : p.depth < maxNesting)
    (hdepth : p.depth = base + nesting stack) (hwithstands : Withstands (frame :: stack) inner)
    (hsettled : inner < .unary → IsSettled (frame :: stack)) (hinner : inner ≠ .primary)
    (h : (p.enter t).position ≤ body.length → True →
      (Task.operand inner).Agrees body stop base (p.enter t) x q) :
    (readAt body stop base (.needsOperand stack) p).Matches body stop base inner (frame :: stack) q
      x := by
  obtain ⟨_, hshallow, hentered, hle⟩ := readAt_of_opens hstop hp there role hdepth
  rw [hshallow shallow]
  exact h hle trivial _ hwithstands hsettled (fun hprimary => absurd hprimary hinner) hentered

/-- What is read behind an infix operator is read on the stack with its left operand. -/
theorem Task.Agrees.of_infix {left : Expr} (hstop : stop.isEnd = true)
    (hp : p.position ≤ body.length) (there : (body ++ stop :: more)[p.position]? = some t)
    (kind : t.kind.infixLevel? = some level) (hdepth : p.depth = base + nesting stack)
    (hwithstands : Withstands stack level) (hsettled : IsSettled stack)
    (hstands : StandsUpTo level operand outer left stack)
    (h : (p.advance t).position ≤ body.length → True →
      (Task.operand level.tighter).Agrees body stop base (p.advance t) x q) :
    (readAt body stop base (.hasOperand operand outer) p).Matches body stop base level.tighter
      (.pending left t.kind :: stack) q x := by
  have hend := Token.isEnd_of_infixLevel? kind
  have hloose := TokenKind.infixLevel?_lt_unary kind
  obtain ⟨hlt, hdrop, hadvance, _⟩ := Place.lookup_of_not_isEnd hstop hp there hend
  have hclose : closePending level operand outer = (left, stack) := by
    rw [hstands level (le_refl level), closePrefixes_of_isSettled hsettled]
    exact hwithstands left level (le_refl level)
  have hread : readAt body stop base (.hasOperand operand outer) p =
      readAt body stop base (.needsOperand (.pending left t.kind :: stack)) (p.advance t) := by
    simp only [readAt, hdrop, hadvance, readFrom, kind, hclose]
  rw [hadvance] at h hread
  rw [hread]
  refine h hlt trivial _ (withstands_pending kind (Level.lt_tighter hloose) left stack)
    (fun _ => by simp [IsSettled])
    (fun hprimary => absurd hprimary (Level.tighter_ne_primary hloose)) ?_
  rw [nesting_pending]
  exact hdepth

theorem isSettled_group (stack : List Frame) : IsSettled (.group :: stack) :=
  fun _ _ h => nomatch h

/-- Where an expression in a group has ended, the token behind it closes the group or is refused. -/
theorem readAt_of_group {inner : Expr} (hbody : ∀ t ∈ body, t.isEnd = false)
    (hstop : stop.isEnd = true) (hp : p.position ≤ body.length)
    (there : (body ++ stop :: more)[p.position]? = some t) (hlooser : t.IsLooser .equality)
    (hclose : closePending .equality operand outer = (inner, .group :: stack)) :
    (t.kind ≠ .rightParen → readAt body stop base (.hasOperand operand outer) p =
      ⟨.error (.unclosedGroup t), body.drop p.position, nesting (.group :: stack)⟩) ∧
    (t.kind = .rightParen → readAt body stop base (.hasOperand operand outer) p =
      readAt body stop base (complete (.group inner) stack) (p.advance t)) := by
  have hlevel := Token.infixLevel?_of_isLooser_equality hlooser
  constructor
  · intro hother
    cases hend : t.isEnd with
    | true =>
      obtain ⟨hdrop, rfl⟩ := Place.drop_of_isEnd hbody hp there hend
      rw [readAt, hdrop, readFrom, hclose]
    | false =>
      obtain ⟨_, hdrop, _⟩ := Place.lookup_of_not_isEnd hstop hp there hend
      simp only [readAt, hdrop, readFrom, hlevel, hclose, if_neg hother]
  · intro hcloses
    have hend := Token.isEnd_of_kind hcloses (by simp)
    obtain ⟨_, hdrop, hadvance, _⟩ := Place.lookup_of_not_isEnd hstop hp there hend
    simp only [readAt, hdrop, hadvance, readFrom, hlevel, hclose, if_pos hcloses]

/-- What a descent comes to, the reader comes to on every stack that withstands the task. -/
theorem Descent.agrees (hbody : ∀ t ∈ body, t.isEnd = false) (hstop : stop.isEnd = true)
    {task : Task} (h : Descent (body ++ stop :: more) task p x q) (hp : p.position ≤ body.length)
    (hready : task.IsReady (body ++ stop :: more) p) : task.Agrees body stop base p x q := by
  induction h with
  | outside looks there => exact absurd there (Place.lookup_ne_none hp)
  | leaf there role =>
    intro stack _ _ _ _
    have hend := Token.isEnd_of_operandRole (by rw [role]; simp)
    obtain ⟨_, hdrop, hadvance, _⟩ := Place.lookup_of_not_isEnd hstop hp there hend
    rw [hadvance, readAt, hdrop, readFrom, role]
    exact ⟨_, _, rfl, fun _ _ => rfl⟩
  | tooLarge there role =>
    intro stack _ _ _ hdepth
    have hend := Token.isEnd_of_operandRole (by rw [role]; simp)
    obtain ⟨_, hdrop, hadvance, _⟩ := Place.lookup_of_not_isEnd hstop hp there hend
    rw [hadvance, readAt, hdrop, readFrom, role]
    exact ⟨rfl, rfl, hdepth⟩
  | @refused p t there role =>
    intro stack _ _ hfirst hdepth
    cases hend : t.isEnd with
    | true =>
      obtain ⟨hdrop, rfl⟩ := Place.drop_of_isEnd hbody hp there hend
      rw [readAt, hdrop, readFrom, Token.refusal, if_pos hend]
      exact ⟨rfl, hdrop.symm, hdepth⟩
    | false =>
      obtain ⟨_, hdrop, _⟩ := Place.lookup_of_not_isEnd hstop hp there hend
      have hrole : t.operandRole = .none := by
        rcases role with hrole | hkind
        · exact hrole
        · rw [hdrop] at hfirst
          rw [hfirst rfl t rfl] at hkind
          cases hkind
      rw [readAt, hdrop, readFrom, hrole, Token.refusal, if_neg (by simp [hend])]
      exact ⟨rfl, hdrop.symm, hdepth⟩
  | deepGroup there kind deep =>
    intro stack _ _ _ hdepth
    have role := Token.operandRole_eq_opens_iff.mpr (Or.inl ⟨kind, rfl⟩)
    obtain ⟨hdeep, _, hentered, _⟩ := readAt_of_opens hstop hp there role hdepth
    rw [hdeep deep]
    exact ⟨rfl, rfl, hentered⟩
  | stoppedGroup there kind shallow inside stops ih =>
    intro stack _ _ _ hdepth
    have role := Token.operandRole_eq_opens_iff.mpr (Or.inl ⟨kind, rfl⟩)
    exact (Task.Agrees.of_opens hstop hp there role shallow hdepth (withstands_group stack _)
      (fun _ => isSettled_group stack) (by simp) ih).of_stops stops
  | openGroup there kind shallow inside missing =>
    have hend := Token.isEnd_of_kind kind (by simp)
    obtain ⟨hlt, _, _, henter⟩ := Place.lookup_of_not_isEnd hstop hp there hend
    rw [henter] at inside
    exact absurd missing (Place.lookup_ne_none (inside.keeps hstop hlt trivial).within)
  | unclosedGroup there kind shallow inside found other ih =>
    intro stack _ _ _ hdepth
    have role := Token.operandRole_eq_opens_iff.mpr (Or.inl ⟨kind, rfl⟩)
    obtain ⟨_, _, hentered, hle⟩ := readAt_of_opens hstop hp there role hdepth
    obtain ⟨_, _, hwithin, hdone⟩ := inside.keeps hstop hle trivial
    obtain ⟨hkept, _, hlooser⟩ := hdone _ rfl
    obtain ⟨operand, outer, hread, hstands⟩ := Task.Agrees.of_opens hstop hp there role shallow
      hdepth (withstands_group stack _) (fun _ => isSettled_group stack) (by simp) ih
    have hclose := hstands .equality (le_refl Level.equality)
    rw [hread, (readAt_of_group hbody hstop hwithin found (hlooser _ found) hclose).1 other]
    exact ⟨rfl, rfl, hkept.trans hentered⟩
  | group there kind shallow inside found closes ih =>
    intro stack _ _ _ hdepth
    have role := Token.operandRole_eq_opens_iff.mpr (Or.inl ⟨kind, rfl⟩)
    obtain ⟨_, _, _, hle⟩ := readAt_of_opens hstop hp there role hdepth
    obtain ⟨_, _, hwithin, hdone⟩ := inside.keeps hstop hle trivial
    obtain ⟨_, _, hlooser⟩ := hdone _ rfl
    obtain ⟨operand, outer, hread, hstands⟩ := Task.Agrees.of_opens hstop hp there role shallow
      hdepth (withstands_group stack _) (fun _ => isSettled_group stack) (by simp) ih
    have hclose := hstands .equality (le_refl Level.equality)
    rw [hread, (readAt_of_group hbody hstop hwithin found (hlooser _ found) hclose).2 closes]
    exact ⟨_, _, rfl, fun _ _ => rfl⟩
  | @noPrefix p q t x there kind _ ih =>
    intro stack hwithstands _ _ hdepth
    have hfirst : ∀ u ∈ (body.drop p.position).head?, u.kind.isPrefixOperator = false := by
      intro u hu
      cases hend : t.isEnd with
      | true =>
        rw [(Place.drop_of_isEnd hbody hp there hend).1] at hu
        cases hu
      | false =>
        obtain ⟨_, hdrop, _⟩ := Place.lookup_of_not_isEnd hstop hp there hend
        rw [hdrop] at hu
        cases hu
        exact kind
    have hmatches := ih hp trivial stack (hwithstands.mono Level.unary_le_primary)
      (fun hlt => absurd hlt (by decide)) (fun _ => hfirst) hdepth
    exact hmatches.mono Level.unary_le_primary
  | deepPrefix there kind deep =>
    intro stack _ _ _ hdepth
    have role := Token.operandRole_eq_opens_iff.mpr (Or.inr ⟨kind, rfl⟩)
    obtain ⟨hdeep, _, hentered, _⟩ := readAt_of_opens hstop hp there role hdepth
    rw [hdeep deep]
    exact ⟨rfl, rfl, hentered⟩
  | stoppedPrefix there kind shallow _ stops ih =>
    intro stack _ _ _ hdepth
    have role := Token.operandRole_eq_opens_iff.mpr (Or.inr ⟨kind, rfl⟩)
    have hmatches := Task.Agrees.of_opens hstop hp there role shallow hdepth
      (withstands_prefixed _ stack _) (fun hlt => absurd hlt (by decide)) (by simp) ih
    exact hmatches.of_stops stops
  | prefixed there kind shallow _ ih =>
    intro stack _ _ _ hdepth
    have role := Token.operandRole_eq_opens_iff.mpr (Or.inr ⟨kind, rfl⟩)
    obtain ⟨operand, outer, hread, hstands⟩ := Task.Agrees.of_opens hstop hp there role shallow
      hdepth (withstands_prefixed _ stack _) (fun hlt => absurd hlt (by decide)) (by simp) ih
    exact ⟨operand, outer, hread, hstands⟩
  | @stoppedFirst level p q x loose first stops ih =>
    intro stack hwithstands hsettled _ hdepth
    have htighter := Level.le_tighter loose
    exact (ih hp trivial stack (hwithstands.mono htighter) (fun _ => hsettled loose)
      (fun hprimary => absurd hprimary (Level.tighter_ne_primary loose)) hdepth).of_stops stops
  | first loose first more ihFirst ihMore =>
    intro stack hwithstands hsettled _ hdepth
    have htighter := Level.le_tighter loose
    obtain ⟨_, _, hwithin, hdone⟩ := first.keeps hstop hp trivial
    obtain ⟨hkept, _, hlooser⟩ := hdone _ rfl
    obtain ⟨operand, outer, hread, hstands⟩ := ihFirst hp trivial stack (hwithstands.mono htighter)
      (fun _ => hsettled loose)
      (fun hprimary => absurd hprimary (Level.tighter_ne_primary loose)) hdepth
    rw [hread]
    exact ihMore hwithin hlooser stack operand outer hwithstands (hsettled loose)
      (hkept.trans hdepth) (hstands.mono htighter)
  | noOperator =>
    intro stack operand outer _ _ _ hstands
    exact ⟨operand, outer, rfl, hstands⟩
  | stoppedRight there kind _ stops ih =>
    intro stack operand outer hwithstands hsettled hdepth hstands
    exact (Task.Agrees.of_infix hstop hp there kind hdepth hwithstands hsettled hstands ih).of_stops
      stops
  | operator there kind right _ ihRight ihMore =>
    intro stack operand outer hwithstands hsettled hdepth hstands
    have hend := Token.isEnd_of_infixLevel? kind
    have hloose := TokenKind.infixLevel?_lt_unary kind
    obtain ⟨hlt, _, hadvance, _⟩ := Place.lookup_of_not_isEnd hstop hp there hend
    obtain ⟨last, inner, hread, hstandsRight⟩ :=
      Task.Agrees.of_infix hstop hp there kind hdepth hwithstands hsettled hstands ihRight
    rw [hadvance] at right
    obtain ⟨_, _, hwithin, hdone⟩ := right.keeps hstop hlt trivial
    obtain ⟨hkept, _, hlooser⟩ := hdone _ rfl
    rw [hread]
    exact ihMore hwithin hlooser stack last inner hwithstands hsettled (hkept.trans hdepth)
      ((hstandsRight.mono (Level.le_tighter hloose)).binary kind hsettled)

/-- Where an expression outside all groups has ended, the reader ends. -/
theorem readAt_of_complete (hbody : ∀ t ∈ body, t.isEnd = false) (hstop : stop.isEnd = true)
    (hp : p.position ≤ body.length) (there : (body ++ stop :: more)[p.position]? = some t)
    (hlooser : t.IsLooser .equality) (hclose : closePending .equality operand outer = (e, [])) :
    readAt body stop base (.hasOperand operand outer) p = ⟨.ok e, body.drop p.position, 0⟩ := by
  have hlevel := Token.infixLevel?_of_isLooser_equality hlooser
  cases hend : t.isEnd with
  | true =>
    obtain ⟨hdrop, rfl⟩ := Place.drop_of_isEnd hbody hp there hend
    rw [readAt, hdrop, readFrom, hclose]
    rfl
  | false =>
    obtain ⟨_, hdrop, _⟩ := Place.lookup_of_not_isEnd hstop hp there hend
    simp only [readAt, hdrop, readFrom, hlevel, hclose]
    rfl

/-- The upshot that a result or a fault is. -/
def Upshot.ofExcept {α : Type} : Except SyntaxFault α → Upshot α
  | .ok value => .result value
  | .error f => .fault f

/-- The outcome of reading from `p` on is the upshot `x` at `q`. -/
structure Outcome.LeadsTo {α : Type} (outcome : Outcome α) (body : List Token) (p : Place)
    (x : Upshot α) (q : Place) : Prop where
  upshot : x = .ofExcept outcome.result
  rest : outcome.rest = body.drop q.position
  depth : q.depth = p.depth + outcome.opened

/-- The descent for an expression comes to what reading it comes to. -/
theorem Descent.readExpr_leadsTo (hbody : ∀ t ∈ body, t.isEnd = false) (hstop : stop.isEnd = true)
    (h : Descent (body ++ stop :: more) (.operand .equality) p x q)
    (hp : p.position ≤ body.length) :
    (readExpr (maxNesting - p.depth) stop (body.drop p.position)).LeadsTo body p x q := by
  have hmatches : (readAt body stop p.depth (.needsOperand []) p).Matches body stop p.depth
      .equality [] q x :=
    h.agrees hbody hstop hp trivial [] (withstands_nil _) (by simp [IsSettled]) (by simp) rfl
  have hread : readExpr (maxNesting - p.depth) stop (body.drop p.position) =
      readAt body stop p.depth (.needsOperand []) p := rfl
  rw [hread]
  cases x with
  | result e =>
    obtain ⟨_, _, hwithin, hdone⟩ := h.keeps hstop hp trivial
    obtain ⟨hkept, _, hlooser⟩ := hdone e rfl
    obtain ⟨t, there⟩ : ∃ t, (body ++ stop :: more)[q.position]? = some t :=
      Place.exists_lookup hwithin
    obtain ⟨operand, outer, hlast, hstands⟩ := hmatches
    have hclose := hstands .equality (le_refl Level.equality)
    rw [hlast, readAt_of_complete hbody hstop hwithin there (hlooser t there) hclose]
    exact ⟨rfl, rfl, hkept⟩
  | fault f =>
    obtain ⟨hresult, hrest, hopened⟩ := hmatches
    exact ⟨(congrArg Upshot.ofExcept hresult).symm, hrest, hopened⟩
  | outside => exact hmatches.elim

end LoxSyntax
