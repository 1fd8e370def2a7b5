import LoxSyntax.Expr.TokenCursor
import LoxSyntax.Proofs.Expr.NormalForm
set_option autoImplicit false

/-! # Reading by descent

The grammar read level by level: an expression of an infix level is an operand of the next tighter
level, followed by the operators of its own level with an operand each. A `Descent` goes by the
index of the next token in the whole list. Nothing is presupposed about the list, nor that a descent
comes to an end: a token that is looked up where there is none is an upshot of its own
(`Upshot.outside`), and a descent that never ends is one that there is no derivation of.

In a list that has a token to end the input, a descent from a place in front of it stays there and
looks up nothing outside (`Descent.keeps`), and there is one (`exists_descent`): whatever a task
leads on to is of a tighter level or behind a token. -/

namespace LoxSyntax

/-! ## Places, upshots and rules -/

/-- Where a descent stands: the index of the next token, and how many groups and prefix operators
    count as open. -/
structure Place where
  position : Nat
  depth : Nat
  deriving DecidableEq

namespace Place

variable (p : Place) (t : Token)

/-- The place behind the token `t`, if it does not end the input. -/
def advance : Place := if t.isEnd then p else { p with position := p.position + 1 }

/-- The place behind a token that opens a group or a prefix operator. -/
def enter : Place := { p.advance t with depth := p.depth + 1 }

/-- The place with one group or prefix operator completed. -/
def leave : Place := { p with depth := p.depth - 1 }

end Place

/-- What a descent comes to. -/
inductive Upshot (α : Type)
  | result (value : α)
  | fault (fault : SyntaxFault)
  /-- A token was looked up where the list has none. -/
  | outside

/-- The upshot is no result. -/
def Upshot.Stops {α : Type} (x : Upshot α) : Prop := ∀ value, x ≠ .result value

/-- What is read: an expression of a level, or the operators of a level behind a left operand. -/
inductive Task
  | operand (level : Level)
  | operators (level : Level) (left : Expr)

/-- Does the task look up a token before anything else? -/
def Task.LooksUp : Task → Prop
  | .operand level => .unary ≤ level
  | .operators _ _ => True

/-- The level of the operands of an operator. -/
def Level.tighter : Level → Level
  | .equality => .comparison
  | .comparison => .term
  | .term => .factor
  | .factor => .unary
  | .unary | .primary => .primary

/-- Why the token cannot begin an operand. -/
def Token.refusal (t : Token) : SyntaxFault :=
  if t.isEnd then .unexpectedEnd t.line else .unexpected t

/-- The rules for reading: what a task at a place comes to, and the place that it leads to. -/
inductive Descent (tokens : List Token) : Task → Place → Upshot Expr → Place → Prop
  | outside {task : Task} {p : Place} (looks : task.LooksUp)
      (there : tokens[p.position]? = none) : Descent tokens task p .outside p
  | leaf {p : Place} {t : Token} {value : Expr} (there : tokens[p.position]? = some t)
      (role : t.operandRole = .leaf value) :
      Descent tokens (.operand .primary) p (.result value) (p.advance t)
  | tooLarge {p : Place} {t : Token} (there : tokens[p.position]? = some t)
      (role : t.operandRole = .tooLarge) :
      Descent tokens (.operand .primary) p (.fault (.tooLarge t)) (p.advance t)
  | refused {p : Place} {t : Token} (there : tokens[p.position]? = some t)
      (role : t.operandRole = .none ∨ t.kind.isPrefixOperator = true) :
      Descent tokens (.operand .primary) p (.fault t.refusal) p
  | deepGroup {p : Place} {t : Token} (there : tokens[p.position]? = some t)
      (kind : t.kind = .leftParen) (deep : maxNesting ≤ p.depth) :
      Descent tokens (.operand .primary) p (.fault (.tooDeep t)) (p.enter t)
  | stoppedGroup {p q : Place} {t : Token} {x : Upshot Expr}
      (there : tokens[p.position]? = some t) (kind : t.kind = .leftParen)
      (shallow : p.depth < maxNesting)
      (inside : Descent tokens (.operand .equality) (p.enter t) x q) (stops : x.Stops) :
      Descent tokens (.operand .primary) p x q
  | openGroup {p q : Place} {t : Token} {e : Expr}
      (there : tokens[p.position]? = some t) (kind : t.kind = .leftParen)
      (shallow : p.depth < maxNesting)
      (inside : Descent tokens (.operand .equality) (p.enter t) (.result e) q)
      (missing : tokens[q.position]? = none) : Descent tokens (.operand .primary) p .outside q
  | unclosedGroup {p q : Place} {t u : Token} {e : Expr}
      (there : tokens[p.position]? = some t) (kind : t.kind = .leftParen)
      (shallow : p.depth < maxNesting)
      (inside : Descent tokens (.operand .equality) (p.enter t) (.result e) q)
      (found : tokens[q.position]? = some u) (other : u.kind ≠ .rightParen) :
      Descent tokens (.operand .primary) p (.fault (.unclosedGroup u)) q
  | group {p q : Place} {t u : Token} {e : Expr}
      (there : tokens[p.position]? = some t) (kind : t.kind = .leftParen)
      (shallow : p.depth < maxNesting)
      (inside : Descent tokens (.operand .equality) (p.enter t) (.result e) q)
      (found : tokens[q.position]? = some u) (closes : u.kind = .rightParen) :
      Descent tokens (.operand .primary) p (.result (.group e)) (q.advance u).leave
  | noPrefix {p q : Place} {t : Token} {x : Upshot Expr}
      (there : tokens[p.position]? = some t) (kind : t.kind.isPrefixOperator = false)
      (operand : Descent tokens (.operand .primary) p x q) :
      Descent tokens (.operand .unary) p x q
  | deepPrefix {p : Place} {t : Token} (there : tokens[p.position]? = some t)
      (kind : t.kind.isPrefixOperator = true) (deep : maxNesting ≤ p.depth) :
      Descent tokens (.operand .unary) p (.fault (.tooDeep t)) (p.enter t)
  | stoppedPrefix {p q : Place} {t : Token} {x : Upshot Expr}
      (there : tokens[p.position]? = some t) (kind : t.kind.isPrefixOperator = true)
      (shallow : p.depth < maxNesting)
      (operand : Descent tokens (.operand .unary) (p.enter t) x q) (stops : x.Stops) :
      Descent tokens (.operand .unary) p x q
  | prefixed {p q : Place} {t : Token} {e : Expr}
      (there : tokens[p.position]? = some t) (kind : t.kind.isPrefixOperator = true)
      (shallow : p.depth < maxNesting)
      (operand : Descent tokens (.operand .unary) (p.enter t) (.result e) q) :
      Descent tokens (.operand .unary) p (.result (.unary t.kind e)) q.leave
  | stoppedFirst {level : Level} {p q : Place} {x : Upshot Expr} (loose : level < .unary)
      (first : Descent tokens (.operand level.tighter) p x q) (stops : x.Stops) :
      Descent tokens (.operand level) p x q
  | first {level : Level} {p q r : Place} {left : Expr} {x : Upshot Expr} (loose : level < .unary)
      (first : Descent tokens (.operand level.tighter) p (.result left) q)
      (more : Descent tokens (.operators level left) q x r) :
      Descent tokens (.operand level) p x r
  | noOperator {level : Level} {p : Place} {t : Token} {left : Expr}
      (there : tokens[p.position]? = some t) (other : t.kind.infixLevel? ≠ some level) :
      Descent tokens (.operators level left) p (.result left) p
  | stoppedRight {level : Level} {p q : Place} {t : Token} {left : Expr} {x : Upshot Expr}
      (there : tokens[p.position]? = some t) (kind : t.kind.infixLevel? = some level)
      (right : Descent tokens (.operand level.tighter) (p.advance t) x q) (stops : x.Stops) :
      Descent tokens (.operators level left) p x q
  | operator {level : Level} {p q r : Place} {t : Token} {left e : Expr} {x : Upshot Expr}
      (there : tokens[p.position]? = some t) (kind : t.kind.infixLevel? = some level)
      (right : Descent tokens (.operand level.tighter) (p.advance t) (.result e) q)
      (more : Descent tokens (.operators level (.binary left t.kind e)) q x r) :
      Descent tokens (.operators level left) p x r

/-! ## Tokens in front of the end -/

/-- An infix operator of the token is looser than the level. -/
def Token.IsLooser (t : Token) (level : Level) : Prop := ∀ own ∈ t.kind.infixLevel?, own < level

theorem Token.isLooser_of_unary_le {t : Token} {level : Level} (h : .unary ≤ level) :
    t.IsLooser level :=
  fun _ hown => lt_of_lt_of_le (TokenKind.infixLevel?_lt_unary hown) h

theorem Token.infixLevel?_of_isLooser_equality {t : Token} (h : t.IsLooser .equality) :
    t.kind.infixLevel? = none := by
  cases hlevel : t.kind.infixLevel? with
  | none => rfl
  | some own => exact absurd (Level.equality_le own) (Level.not_le_iff.mpr (h own hlevel))

/-- Between a level and the next tighter one there is none. -/
theorem Level.lt_of_lt_tighter {own level : Level} (h : own < level.tighter) (hne : own ≠ level) :
    own < level := by
  revert h hne
  cases level <;> cases own <;> decide

theorem Level.lt_tighter {level : Level} (hloose : level < .unary) : level < level.tighter := by
  revert hloose
  cases level <;> decide

theorem Level.le_tighter {level : Level} (hloose : level < .unary) : level ≤ level.tighter :=
  le_of_lt (lt_tighter hloose)

theorem Level.tighter_ne_primary {level : Level} (hloose : level < .unary) :
    level.tighter ≠ .primary := by
  revert hloose
  cases level <;> decide

theorem Token.IsLooser.of_tighter {t : Token} {level : Level} (h : t.IsLooser level.tighter)
    (hne : t.kind.infixLevel? ≠ some level) : t.IsLooser level := by
  intro own hown
  refine Level.lt_of_lt_tighter (h own hown) ?_
  rintro rfl
  exact hne hown

theorem Token.isEnd_of_kind {t : Token} {kind : TokenKind} (h : t.kind = kind)
    (hne : kind ≠ .endOfInput) : t.isEnd = false := by
  rw [isEnd, h, decide_eq_false hne]

theorem Token.isEnd_of_operandRole {t : Token} (h : t.operandRole ≠ .none) : t.isEnd = false := by
  by_contra hend
  have hkind : t.kind = .endOfInput := by simpa [isEnd] using hend
  exact h (by rw [operandRole, hkind]; rfl)

theorem Token.isEnd_of_isPrefixOperator {t : Token} (h : t.kind.isPrefixOperator = true) :
    t.isEnd = false :=
  isEnd_of_kind rfl fun hkind => by
    rw [hkind] at h
    cases h

theorem Token.isEnd_of_infixLevel? {t : Token} {level : Level}
    (h : t.kind.infixLevel? = some level) : t.isEnd = false :=
  isEnd_of_kind rfl fun hkind => by
    rw [hkind] at h
    cases h

section

variable {body more : List Token} {stop t : Token} {p : Place}

theorem Place.exists_lookup (hp : p.position ≤ body.length) :
    ∃ t, (body ++ stop :: more)[p.position]? = some t := by
  refine ⟨_, List.getElem?_eq_getElem ?_⟩
  rw [List.length_append, List.length_cons]
  omega

theorem Place.lookup_ne_none (hp : p.position ≤ body.length) :
    (body ++ stop :: more)[p.position]? ≠ none := by
  obtain ⟨t, ht⟩ := exists_lookup hp
  rw [ht]
  exact Option.some_ne_none t

/-- A token that does not end the input stands in front of its end, and can be consumed. -/
theorem Place.lookup_of_not_isEnd (hstop : stop.isEnd = true) (hp : p.position ≤ body.length)
    (there : (body ++ stop :: more)[p.position]? = some t) (hend : t.isEnd = false) :
    p.position < body.length ∧ body.drop p.position = t :: body.drop (p.position + 1) ∧
      p.advance t = ⟨p.position + 1, p.depth⟩ ∧ p.enter t = ⟨p.position + 1, p.depth + 1⟩ := by
  rcases Nat.lt_or_eq_of_le hp with hlt | heq
  · rw [List.getElem?_append_left hlt, List.getElem?_eq_getElem hlt] at there
    obtain rfl := Option.some.inj there
    have hadvance : p.advance body[p.position] = ⟨p.position + 1, p.depth⟩ := by
      rw [advance, hend]
      rfl
    exact ⟨hlt, List.drop_eq_getElem_cons hlt, hadvance, by rw [enter, hadvance]⟩
  · rw [heq, List.getElem?_append_right (Nat.le_refl _), Nat.sub_self] at there
    obtain rfl := Option.some.inj there
    rw [hstop] at hend
    cases hend

/-! ## Where a descent leads -/

/-- What is known of a place in front of a task: the token there is behind an operand. -/
def Task.IsReady (tokens : List Token) (p : Place) : Task → Prop
  | .operand _ => True
  | .operators level _ => ∀ t ∈ tokens[p.position]?, t.IsLooser level.tighter

/-- A result has completed what it has opened, an operand takes a token or more, and the token
    behind it is no operator of its level or a tighter one. -/
def Task.IsDone (tokens : List Token) (p q : Place) : Task → Prop
  | .operand level => q.depth = p.depth ∧ p.position < q.position ∧
      ∀ t ∈ tokens[q.position]?, t.IsLooser level
  | .operators level _ => q.depth = p.depth ∧ ∀ t ∈ tokens[q.position]?, t.IsLooser level

/-- The task stays in front of the end of the input and looks up nothing outside. -/
structure Task.Keeps (tokens : List Token) (finish : Nat) (task : Task) (p : Place)
    (x : Upshot Expr) (q : Place) : Prop where
  inside : x ≠ .outside
  forth : p.position ≤ q.position
  within : q.position ≤ finish
  done : ∀ e, x = .result e → task.IsDone tokens p q

theorem Upshot.stops_fault {α : Type} (f : SyntaxFault) : (Upshot.fault f : Upshot α).Stops :=
  fun _ h => nomatch h

/-- A task that is stopped at `q`, possibly inside another one. -/
theorem Task.Keeps.of_stops {tokens : List Token} {finish : Nat} {task : Task} {p q : Place}
    {x : Upshot Expr} (inside : x ≠ .outside) (forth : p.position ≤ q.position)
    (within : q.position ≤ finish) (stops : x.Stops) : task.Keeps tokens finish p x q :=
  ⟨inside, forth, within, fun e he => absurd he (stops e)⟩

theorem Task.Keeps.of_fault {tokens : List Token} {finish : Nat} {task : Task} {p q : Place}
    {f : SyntaxFault} (forth : p.position ≤ q.position) (within : q.position ≤ finish) :
    task.Keeps tokens finish p (.fault f) q :=
  .of_stops (by simp) forth within (Upshot.stops_fault f)

/-- An operand of a level that is tighter than all infix operators. -/
theorem Task.Keeps.of_tight {tokens : List Token} {finish : Nat} {level : Level} {p q : Place}
    {e : Expr} (tight : .unary ≤ level) (depth : q.depth = p.depth)
    (behind : p.position < q.position) (within : q.position ≤ finish) :
    (Task.operand level).Keeps tokens finish p (.result e) q where
  inside := by simp
  forth := Nat.le_of_lt behind
  within := within
  done := fun _ _ => ⟨depth, behind, fun _ _ => Token.isLooser_of_unary_le tight⟩

/-- What is opened in front of an operand is behind the place that the operand leads from. -/
theorem Place.keeps_of_enter (hstop : stop.isEnd = true) (hp : p.position ≤ body.length)
    (there : (body ++ stop :: more)[p.position]? = some t) (hend : t.isEnd = false)
    {level : Level} {x : Upshot Expr} {q : Place}
    (h : (p.enter t).position ≤ body.length → True →
      (Task.operand level).Keeps (body ++ stop :: more) body.length (p.enter t) x q) :
    x ≠ .outside ∧ p.position < q.position ∧ q.position ≤ body.length ∧
      ∀ e, x = .result e → q.depth = p.depth + 1 := by
  obtain ⟨hlt, _, _, henter⟩ := Place.lookup_of_not_isEnd hstop hp there hend
  rw [henter] at h
  obtain ⟨hinside, hforth, hwithin, hdone⟩ := h hlt trivial
  exact ⟨hinside, hforth, hwithin, fun e he => (hdone e he).1⟩

/-- A descent from a place in front of the end stays there, and so does all that is inside of it. -/
theorem Descent.keeps (hstop : stop.isEnd = true) {task : Task} {x : Upshot Expr} {q : Place}
    (h : Descent (body ++ stop :: more) task p x q) (hp : p.position ≤ body.length)
    (hready : task.IsReady (body ++ stop :: more) p) :
    task.Keeps (body ++ stop :: more) body.length p x q := by
  -- behind an operand all operators are looser than its level, which is what the operators of the
  -- next level have to know of the token that they begin at
  induction h with
  | outside looks there => exact absurd there (Place.lookup_ne_none hp)
  | leaf there role =>
    have hend := Token.isEnd_of_operandRole (by rw [role]; simp)
    obtain ⟨hlt, _, hadvance, _⟩ := Place.lookup_of_not_isEnd hstop hp there hend
    rw [hadvance]
    exact .of_tight Level.unary_le_primary rfl (Nat.lt_succ_self _) hlt
  | tooLarge there role =>
    have hend := Token.isEnd_of_operandRole (by rw [role]; simp)
    obtain ⟨hlt, _, hadvance, _⟩ := Place.lookup_of_not_isEnd hstop hp there hend
    rw [hadvance]
    exact .of_fault (Nat.le_succ _) hlt
  | refused => exact .of_fault (Nat.le_refl _) hp
  | deepGroup there kind =>
    have hend := Token.isEnd_of_kind kind (by simp)
    obtain ⟨hlt, _, _, henter⟩ := Place.lookup_of_not_isEnd hstop hp there hend
    rw [henter]
    exact .of_fault (Nat.le_succ _) hlt
  | stoppedGroup there kind shallow inside stops ih =>
    have hend := Token.isEnd_of_kind kind (by simp)
    obtain ⟨hinside, hforth, hwithin, _⟩ := Place.keeps_of_enter hstop hp there hend ih
    exact .of_stops hinside (Nat.le_of_lt hforth) hwithin stops
  | openGroup there kind shallow inside missing ih =>
    have hend := Token.isEnd_of_kind kind (by simp)
    obtain ⟨_, _, hwithin, _⟩ := Place.keeps_of_enter hstop hp there hend ih
    exact absurd missing (Place.lookup_ne_none hwithin)
  | unclosedGroup there kind shallow inside found other ih =>
    have hend := Token.isEnd_of_kind kind (by simp)
    obtain ⟨_, hforth, hwithin, _⟩ := Place.keeps_of_enter hstop hp there hend ih
    exact .of_fault (Nat.le_of_lt hforth) hwithin
  | group there kind shallow inside found closes ih =>
    have hend := Token.isEnd_of_kind kind (by simp)
    obtain ⟨_, hforth, hwithin, hdepth⟩ := Place.keeps_of_enter hstop hp there hend ih
    have hclosing := Token.isEnd_of_kind closes (by simp)
    obtain ⟨hlt, _, hadvance, _⟩ := Place.lookup_of_not_isEnd hstop hwithin found hclosing
    rw [hadvance, Place.leave, hdepth _ rfl]
    exact .of_tight Level.unary_le_primary rfl (Nat.lt_succ_of_lt hforth) hlt
  | noPrefix there kind operand ih =>
    obtain ⟨hinside, hforth, hwithin, hdone⟩ := ih hp trivial
    refine ⟨hinside, hforth, hwithin, ?_⟩
    intro e he
    obtain ⟨hdepth, hbehind, _⟩ := hdone e he
    exact ⟨hdepth, hbehind, fun u _ => Token.isLooser_of_unary_le (le_refl Level.unary)⟩
  | deepPrefix there kind =>
    have hend := Token.isEnd_of_isPrefixOperator kind
    obtain ⟨hlt, _, _, henter⟩ := Place.lookup_of_not_isEnd hstop hp there hend
    rw [henter]
    exact .of_fault (Nat.le_succ _) hlt
  | stoppedPrefix there kind shallow operand stops ih =>
    have hend := Token.isEnd_of_isPrefixOperator kind
    obtain ⟨hinside, hforth, hwithin, _⟩ := Place.keeps_of_enter hstop hp there hend ih
    exact .of_stops hinside (Nat.le_of_lt hforth) hwithin stops
  | prefixed there kind shallow operand ih =>
    have hend := Token.isEnd_of_isPrefixOperator kind
    obtain ⟨_, hforth, hwithin, hdepth⟩ := Place.keeps_of_enter hstop hp there hend ih
    rw [Place.leave, hdepth _ rfl]
    exact .of_tight (le_refl Level.unary) rfl hforth hwithin
  | stoppedFirst loose first stops ih =>
    obtain ⟨hinside, hforth, hwithin, _⟩ := ih hp trivial
    exact .of_stops hinside hforth hwithin stops
  | first loose first more ihFirst ihMore =>
    obtain ⟨_, hforth, hwithin, hdone⟩ := ihFirst hp trivial
    obtain ⟨hdepth, hbehind, hlooser⟩ := hdone _ rfl
    obtain ⟨hinside, hforth', hwithin', hdone'⟩ := ihMore hwithin hlooser
    refine ⟨hinside, Nat.le_trans hforth hforth', hwithin', ?_⟩
    intro e he
    obtain ⟨hdepth', hlooser'⟩ := hdone' e he
    exact ⟨hdepth'.trans hdepth, Nat.lt_of_lt_of_le hbehind hforth', hlooser'⟩
  | noOperator there other =>
    refine ⟨by simp, Nat.le_refl _, hp, fun _ _ => ⟨rfl, ?_⟩⟩
    intro u hu
    obtain rfl := Option.some.inj (there.symm.trans hu)
    exact (hready _ there).of_tighter other
  | stoppedRight there kind right stops ih =>
    have hend := Token.isEnd_of_infixLevel? kind
    obtain ⟨hlt, _, hadvance, _⟩ := Place.lookup_of_not_isEnd hstop hp there hend
    rw [hadvance] at ih
    obtain ⟨hinside, hforth, hwithin, _⟩ := ih hlt trivial
    exact .of_stops hinside (Nat.le_of_succ_le hforth) hwithin stops
  | operator there kind right more ihRight ihMore =>
    have hend := Token.isEnd_of_infixLevel? kind
    obtain ⟨hlt, _, hadvance, _⟩ := Place.lookup_of_not_isEnd hstop hp there hend
    rw [hadvance] at ihRight
    obtain ⟨_, hforth, hwithin, hdone⟩ := ihRight hlt trivial
    obtain ⟨hdepth, _, hlooser⟩ := hdone _ rfl
    obtain ⟨hinside, hforth', hwithin', hdone'⟩ := ihMore hwithin hlooser
    refine ⟨hinside, Nat.le_trans (Nat.le_of_succ_le hforth) hforth', hwithin', ?_⟩
    intro e he
    obtain ⟨hdepth', hlooser'⟩ := hdone' e he
    exact ⟨hdepth'.trans hdepth, hlooser'⟩

/-! ## Every descent ends -/

/-- What a task comes to at a place. -/
def Task.Ends (tokens : List Token) (task : Task) (p : Place) : Prop :=
  ∃ x q, Descent tokens task p x q

theorem Upshot.cases {α : Type} (x : Upshot α) : (∃ e, x = .result e) ∨ x.Stops := by
  cases x with
  | result e => exact Or.inl ⟨e, rfl⟩
  | fault f => exact Or.inr (stops_fault f)
  | outside => exact Or.inr fun _ h => nomatch h

/-- A leaf, a group or neither is read, if what is inside of a group can be. -/
theorem Task.ends_primary {tokens : List Token} (there : tokens[p.position]? = some t)
    (hinside : t.kind = .leftParen → (operand .equality).Ends tokens (p.enter t)) :
    (operand .primary).Ends tokens p := by
  cases hrole : t.operandRole with
  | leaf value => exact ⟨_, _, .leaf there hrole⟩
  | tooLarge => exact ⟨_, _, .tooLarge there hrole⟩
  | none => exact ⟨_, _, .refused there (Or.inl hrole)⟩
  | opens frame =>
    rcases Token.operandRole_eq_opens_iff.mp hrole with ⟨hkind, _⟩ | ⟨hkind, _⟩
    · by_cases hdeep : maxNesting ≤ p.depth
      · exact ⟨_, _, .deepGroup there hkind hdeep⟩
      · have hshallow := Nat.not_le.mp hdeep
        obtain ⟨x, q, h⟩ := hinside hkind
        rcases x.cases with ⟨e, rfl⟩ | hstops
        · cases hfound : tokens[q.position]? with
          | none => exact ⟨_, _, .openGroup there hkind hshallow h hfound⟩
          | some u =>
            by_cases hcloses : u.kind = .rightParen
            · exact ⟨_, _, .group there hkind hshallow h hfound hcloses⟩
            · exact ⟨_, _, .unclosedGroup there hkind hshallow h hfound hcloses⟩
        · exact ⟨_, _, .stoppedGroup there hkind hshallow h hstops⟩
    · exact ⟨_, _, .refused there (Or.inr hkind)⟩

theorem Task.ends_unary {tokens : List Token} (there : tokens[p.position]? = some t)
    (hprimary : (operand .primary).Ends tokens p)
    (hinside : t.kind.isPrefixOperator = true → (operand .unary).Ends tokens (p.enter t)) :
    (operand .unary).Ends tokens p := by
  by_cases hkind : t.kind.isPrefixOperator = true
  · by_cases hdeep : maxNesting ≤ p.depth
    · exact ⟨_, _, .deepPrefix there hkind hdeep⟩
    · have hshallow := Nat.not_le.mp hdeep
      obtain ⟨x, q, h⟩ := hinside hkind
      rcases x.cases with ⟨e, rfl⟩ | hstops
      · exact ⟨_, _, .prefixed there hkind hshallow h⟩
      · exact ⟨_, _, .stoppedPrefix there hkind hshallow h hstops⟩
  · obtain ⟨x, q, h⟩ := hprimary
    exact ⟨x, q, .noPrefix there (Bool.eq_false_iff.mpr hkind) h⟩

theorem Task.ends_infix {tokens : List Token} {level : Level} (loose : level < .unary)
    (htighter : (operand level.tighter).Ends tokens p)
    (hmore : ∀ e q, Descent tokens (.operand level.tighter) p (.result e) q →
      (operators level e).Ends tokens q) : (operand level).Ends tokens p := by
  obtain ⟨x, q, h⟩ := htighter
  rcases x.cases with ⟨e, rfl⟩ | hstops
  · obtain ⟨y, r, hy⟩ := hmore e q h
    exact ⟨y, r, .first loose h hy⟩
  · exact ⟨x, q, .stoppedFirst loose h hstops⟩

theorem Task.ends_operators {tokens : List Token} {level : Level} {left : Expr}
    (there : tokens[p.position]? = some t)
    (hright : t.kind.infixLevel? = some level →
      (operand level.tighter).Ends tokens (p.advance t))
    (hmore : ∀ e q, t.kind.infixLevel? = some level →
      Descent tokens (.operand level.tighter) (p.advance t) (.result e) q →
      (operators level (.binary left t.kind e)).Ends tokens q) :
    (operators level left).Ends tokens p := by
  by_cases hkind : t.kind.infixLevel? = some level
  · obtain ⟨x, q, h⟩ := hright hkind
    rcases x.cases with ⟨e, rfl⟩ | hstops
    · obtain ⟨y, r, hy⟩ := hmore e q hkind h
      exact ⟨y, r, .operator there hkind h hy⟩
    · exact ⟨x, q, .stoppedRight there hkind h hstops⟩
  · exact ⟨_, _, .noOperator there hkind⟩

/-- Whatever is read at whatever place in front of the end of the input, the reading ends. -/
theorem exists_descent (hstop : stop.isEnd = true) (task : Task) (hp : p.position ≤ body.length) :
    task.Ends (body ++ stop :: more) p := by
  -- every task leads on behind a token, but for an operand, which leads to a tighter one
  induction hsize : body.length - p.position using Nat.strongRecOn generalizing task p with
  | ind size ih =>
    subst hsize
    obtain ⟨t, there⟩ : ∃ t, (body ++ stop :: more)[p.position]? = some t := Place.exists_lookup hp
    have hbehind : ∀ task q, p.position < q.position → q.position ≤ body.length →
        Task.Ends (body ++ stop :: more) task q := by
      intro task q hlt hq
      exact ih _ (by omega) task hq rfl
    have hinside : ∀ level, t.isEnd = false →
        (Task.operand level).Ends (body ++ stop :: more) (p.enter t) := by
      intro level hend
      obtain ⟨hlt, _, _, henter⟩ := Place.lookup_of_not_isEnd hstop hp there hend
      rw [henter]
      exact hbehind _ _ (Nat.lt_succ_self _) hlt
    have hprimary := Task.ends_primary there fun hkind =>
      hinside _ (Token.isEnd_of_kind hkind (by simp))
    have hunary := Task.ends_unary there hprimary fun hkind =>
      hinside _ (Token.isEnd_of_isPrefixOperator hkind)
    have hloosen : ∀ level, level < .unary →
        (Task.operand level.tighter).Ends (body ++ stop :: more) p →
        (Task.operand level).Ends (body ++ stop :: more) p := by
      intro level hloose htighter
      refine Task.ends_infix hloose htighter ?_
      intro e q h
      obtain ⟨_, _, hwithin, hdone⟩ := h.keeps hstop hp trivial
      exact hbehind _ _ (hdone e rfl).2.1 hwithin
    have hfactor := hloosen .factor (by decide) hunary
    have hterm := hloosen .term (by decide) hfactor
    have hcomparison := hloosen .comparison (by decide) hterm
    cases task with
    | operand level =>
      cases level with
      | primary => exact hprimary
      | unary => exact hunary
      | factor => exact hfactor
      | term => exact hterm
      | comparison => exact hcomparison
      | equality => exact hloosen .equality (by decide) hcomparison
    | operators level left =>
      have hadvance : t.kind.infixLevel? = some level → p.position < body.length ∧
          p.advance t = ⟨p.position + 1, p.depth⟩ := by
        intro hkind
        have hend := Token.isEnd_of_infixLevel? hkind
        obtain ⟨hlt, _, hadvance, _⟩ := Place.lookup_of_not_isEnd hstop hp there hend
        exact ⟨hlt, hadvance⟩
      refine Task.ends_operators there ?_ ?_
      · intro hkind
        obtain ⟨hlt, hadvance⟩ := hadvance hkind
        rw [hadvance]
        exact hbehind _ _ (Nat.lt_succ_self _) hlt
      · intro e q hkind h
        obtain ⟨hlt, hadvance⟩ := hadvance hkind
        rw [hadvance] at h
        obtain ⟨_, hforth, hwithin, _⟩ := h.keeps hstop hlt trivial
        exact hbehind _ _ hforth hwithin

end

end LoxSyntax
