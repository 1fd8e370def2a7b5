import LoxSyntax.Proofs.Expr.Calls
import LoxSyntax.Proofs.Expr.DescentOutcome
set_option autoImplicit false

/-! # Where a cursor stops

The readings of a cursor, and all that is read inside of them, go forth: none of them comes to a
place behind the first token that ends the input, so all tokens that are looked up are there. An
expression takes a token or more and ends in front of a token that is no infix operator. So there
are no more expressions than tokens, and reading them ends. The main statement is
`call_of_calls_progress`. -/

namespace LoxSyntax

/-! ## Rows of expressions -/

/-- The upshot with its result replaced. -/
def Upshot.map {α β : Type} (g : α → β) : Upshot α → Upshot β
  | .result value => .result (g value)
  | .fault f => .fault f
  | .outside => .outside

theorem Upshot.map_ofExcept {α β : Type} (g : α → β) (x : Except SyntaxFault α) :
    (ofExcept x).map g = ofExcept (x.map g) := by
  cases x <;> rfl

theorem Upshot.ofExcept_eq_result_iff {α : Type} {x : Except SyntaxFault α} {value : α} :
    .result value = ofExcept x ↔ x = .ok value := by
  cases x <;> simp [ofExcept, eq_comm]

theorem Upshot.map_eq_result_iff {α β : Type} {g : α → β} {x : Upshot α} {value : β} :
    x.map g = .result value ↔ ∃ a, x = .result a ∧ g a = value := by
  cases x <;> simp [map]

theorem Upshot.exists_eq_error {α : Type} {x : Upshot α} {r : Except SyntaxFault α}
    (h : x = ofExcept r) (hstops : x.Stops) : ∃ f, r = .error f ∧ x = .fault f := by
  cases r with
  | ok value => exact absurd h (hstops value)
  | error f => exact ⟨f, rfl, h⟩

/-- Expressions are read up to the end of the input, or until one of them is stopped. -/
inductive RowDescent (tokens : List Token) : Place → List Expr → Upshot Unit → Place → Prop
  | missing {p : Place} (there : tokens[p.position]? = none) :
      RowDescent tokens p [] .outside p
  | finished {p : Place} {t : Token} (there : tokens[p.position]? = some t)
      (ends : t.isEnd = true) : RowDescent tokens p [] (.result ()) p
  | stopped {p q : Place} {t : Token} {x : Upshot Expr} (there : tokens[p.position]? = some t)
      (begins : t.isEnd = false) (first : Descent tokens (.operand .equality) p x q)
      (stops : x.Stops) : RowDescent tokens p [] (x.map fun _ => ()) q
  | expression {p q r : Place} {t : Token} {e : Expr} {es : List Expr} {x : Upshot Unit}
      (there : tokens[p.position]? = some t) (begins : t.isEnd = false)
      (first : Descent tokens (.operand .equality) p (.result e) q)
      (more : RowDescent tokens q es x r) : RowDescent tokens p (e :: es) x r

/-- An expression is read that has to reach to the end of the input. -/
inductive SingleDescent (tokens : List Token) : Place → Upshot Expr → Place → Prop
  | stopped {p q : Place} {x : Upshot Expr}
      (first : Descent tokens (.operand .equality) p x q) (stops : x.Stops) :
      SingleDescent tokens p x q
  | missing {p q : Place} {e : Expr}
      (first : Descent tokens (.operand .equality) p (.result e) q)
      (there : tokens[q.position]? = none) : SingleDescent tokens p .outside q
  | refused {p q : Place} {t : Token} {e : Expr}
      (first : Descent tokens (.operand .equality) p (.result e) q)
      (there : tokens[q.position]? = some t) (goesOn : t.isEnd = false) :
      SingleDescent tokens p (.fault (.unexpected t)) q
  | finished {p q : Place} {t : Token} {e : Expr}
      (first : Descent tokens (.operand .equality) p (.result e) q)
      (there : tokens[q.position]? = some t) (ends : t.isEnd = true) :
      SingleDescent tokens p (.result e) q

/-- What a reading of a cursor does at a place in the list. -/
inductive Call.Descends (tokens : List Token) : Call → Place → Upshot (List Expr) → Place → Prop
  | all {p q : Place} {es : List Expr} {x : Upshot Unit} (row : RowDescent tokens p es x q) :
      Descends tokens .all p (x.map fun _ => es) q
  | next {p q : Place} {x : Upshot Expr}
      (expression : Descent tokens (.operand .equality) p x q) :
      Descends tokens .next p (x.map ([·])) q
  | single {p q : Place} {x : Upshot Expr} (expression : SingleDescent tokens p x q) :
      Descends tokens .single p (x.map ([·])) q

section

variable {body more : List Token} {stop t : Token} {p q : Place}

/-- What reading is about goes forth, stays in front of the end and looks up nothing outside. -/
structure Upshot.Stays {α : Type} (x : Upshot α) (finish : Nat) (p q : Place) : Prop where
  inside : x ≠ .outside
  forth : p.position ≤ q.position
  within : q.position ≤ finish

theorem Upshot.Stays.map {α β : Type} {x : Upshot α} {finish : Nat} (h : x.Stays finish p q)
    (f : α → β) : (x.map f).Stays finish p q := by
  obtain ⟨hinside, hforth, hwithin⟩ := h
  refine ⟨?_, hforth, hwithin⟩
  cases x with
  | outside => exact absurd rfl hinside
  | result | fault => exact fun h => nomatch h

/-- An expression that has been read is behind the place that it began at, and in front of a token
    that is no infix operator. -/
theorem Descent.expression_spec (hstop : stop.isEnd = true) {x : Upshot Expr}
    (h : Descent (body ++ stop :: more) (.operand .equality) p x q)
    (hp : p.position ≤ body.length) :
    x.Stays body.length p q ∧ ∀ e, x = .result e → q.depth = p.depth ∧ p.position < q.position ∧
      ∃ t, (body ++ stop :: more)[q.position]? = some t ∧ t.kind.infixLevel? = none := by
  obtain ⟨hinside, hforth, hwithin, hdone⟩ := h.keeps hstop hp trivial
  refine ⟨⟨hinside, hforth, hwithin⟩, ?_⟩
  intro e he
  obtain ⟨hdepth, hbehind, hlooser⟩ := hdone e he
  obtain ⟨t, there⟩ : ∃ t, (body ++ stop :: more)[q.position]? = some t :=
    Place.exists_lookup hwithin
  exact ⟨hdepth, hbehind, t, there, Token.infixLevel?_of_isLooser_equality (hlooser t there)⟩

/-- There are no more expressions in a row than tokens that the row has taken. -/
theorem RowDescent.stays (hstop : stop.isEnd = true) {es : List Expr} {x : Upshot Unit}
    (h : RowDescent (body ++ stop :: more) p es x q) (hp : p.position ≤ body.length) :
    x.Stays body.length p q ∧ p.position + es.length ≤ q.position := by
  induction h with
  | missing there => exact absurd there (Place.lookup_ne_none hp)
  | finished => exact ⟨⟨by simp, Nat.le_refl _, hp⟩, Nat.le_refl _⟩
  | stopped there begins first stops =>
    obtain ⟨hstays, _⟩ := first.expression_spec hstop hp
    exact ⟨hstays.map _, hstays.forth⟩
  | expression there begins first more ih =>
    obtain ⟨hstays, hresult⟩ := first.expression_spec hstop hp
    obtain ⟨_, hbehind, _⟩ := hresult _ rfl
    obtain ⟨⟨hinside, hforth, hwithin⟩, hcount⟩ := ih hstays.within
    refine ⟨⟨hinside, Nat.le_trans hstays.forth hforth, hwithin⟩, ?_⟩
    rw [List.length_cons]
    omega

/-- A row that is complete has come to the end of the input. -/
theorem RowDescent.isEnd_of_result {tokens : List Token} {es : List Expr} {x : Upshot Unit}
    {u : Unit} (h : RowDescent tokens p es x q) (hresult : x = .result u) :
    ∃ t, tokens[q.position]? = some t ∧ t.isEnd = true := by
  induction h with
  | missing => cases hresult
  | finished there ends => exact ⟨_, there, ends⟩
  | stopped _ _ _ stops =>
    obtain ⟨e, he, _⟩ := Upshot.map_eq_result_iff.mp hresult
    exact absurd he (stops e)
  | expression _ _ _ _ ih => exact ih hresult

theorem SingleDescent.stays (hstop : stop.isEnd = true) {x : Upshot Expr}
    (h : SingleDescent (body ++ stop :: more) p x q) (hp : p.position ≤ body.length) :
    x.Stays body.length p q := by
  cases h with
  | stopped first => exact (first.expression_spec hstop hp).1
  | missing first there =>
    obtain ⟨⟨_, _, hwithin⟩, _⟩ := first.expression_spec hstop hp
    exact absurd there (Place.lookup_ne_none hwithin)
  | refused first | finished first =>
    obtain ⟨⟨_, hforth, hwithin⟩, _⟩ := first.expression_spec hstop hp
    exact ⟨by simp, hforth, hwithin⟩

theorem Call.Descends.stays (hstop : stop.isEnd = true) {call : Call} {x : Upshot (List Expr)}
    (h : call.Descends (body ++ stop :: more) p x q) (hp : p.position ≤ body.length) :
    x.Stays body.length p q := by
  cases h with
  | all row => exact (row.stays hstop hp).1.map _
  | next expression => exact (expression.expression_spec hstop hp).1.map _
  | single expression => exact (expression.stays hstop hp).map _

/-- What is read as a single expression is an expression. -/
theorem SingleDescent.exists_descent {tokens : List Token} {x : Upshot Expr} {e : Expr}
    (h : SingleDescent tokens p x q) (hresult : x = .result e) :
    Descent tokens (.operand .equality) p x q := by
  cases h with
  | stopped first | finished first => exact first
  | missing | refused => cases hresult

/-- A reading that gives expressions takes no fewer tokens, and ends in front of a token that is no
    infix operator. -/
theorem Call.Descends.result_spec (hstop : stop.isEnd = true) {call : Call}
    {x : Upshot (List Expr)} {es : List Expr} (h : call.Descends (body ++ stop :: more) p x q)
    (hp : p.position ≤ body.length) (hresult : x = .result es) :
    p.position + es.length ≤ q.position ∧
      ∃ t, (body ++ stop :: more)[q.position]? = some t ∧ t.kind.infixLevel? = none := by
  cases h with
  | all row =>
    obtain ⟨_, hrow, rfl⟩ := Upshot.map_eq_result_iff.mp hresult
    obtain ⟨t, there, hend⟩ := row.isEnd_of_result hrow
    have hkind : t.kind = .endOfInput := by simpa [Token.isEnd] using hend
    exact ⟨(row.stays hstop hp).2, t, there, by rw [hkind]; rfl⟩
  | next expression =>
    obtain ⟨e, he, rfl⟩ := Upshot.map_eq_result_iff.mp hresult
    exact ((expression.expression_spec hstop hp).2 e he).2
  | single expression =>
    obtain ⟨e, he, rfl⟩ := Upshot.map_eq_result_iff.mp hresult
    exact (((expression.exists_descent he).expression_spec hstop hp).2 e he).2

/-! ## Readings and descents -/

/-- From every place in front of the end, the row of expressions ends. -/
theorem exists_rowDescent (hstop : stop.isEnd = true) (hp : p.position ≤ body.length) :
    ∃ es x q, RowDescent (body ++ stop :: more) p es x q := by
  induction hsize : body.length - p.position using Nat.strongRecOn generalizing p with
  | ind size ih =>
    subst hsize
    obtain ⟨t, there⟩ : ∃ t, (body ++ stop :: more)[p.position]? = some t := Place.exists_lookup hp
    cases hend : t.isEnd with
    | true => exact ⟨_, _, _, .finished there hend⟩
    | false =>
      obtain ⟨x, q, hfirst⟩ := exists_descent hstop (.operand .equality) hp
      rcases x.cases with ⟨e, rfl⟩ | hstops
      · obtain ⟨⟨_, _, hwithin⟩, hresult⟩ := hfirst.expression_spec hstop hp
        have hbehind := (hresult e rfl).2.1
        obtain ⟨es, x, r, hmore⟩ := ih _ (by omega) hwithin rfl
        exact ⟨_, _, _, .expression there hend hfirst hmore⟩
      · exact ⟨_, _, _, .stopped there hend hfirst hstops⟩

theorem exists_singleDescent (hstop : stop.isEnd = true) (hp : p.position ≤ body.length) :
    ∃ x q, SingleDescent (body ++ stop :: more) p x q := by
  obtain ⟨x, q, hfirst⟩ := exists_descent hstop (.operand .equality) hp
  rcases x.cases with ⟨e, rfl⟩ | hstops
  · obtain ⟨⟨_, _, hwithin⟩, _⟩ := hfirst.expression_spec hstop hp
    obtain ⟨t, there⟩ : ∃ t, (body ++ stop :: more)[q.position]? = some t :=
      Place.exists_lookup hwithin
    cases hend : t.isEnd with
    | true => exact ⟨_, _, .finished hfirst there hend⟩
    | false => exact ⟨_, _, .refused hfirst there hend⟩
  · exact ⟨_, _, .stopped hfirst hstops⟩

theorem Call.exists_descends (hstop : stop.isEnd = true) (call : Call)
    (hp : p.position ≤ body.length) : ∃ x q, call.Descends (body ++ stop :: more) p x q := by
  cases call with
  | all =>
    obtain ⟨_, _, _, hrow⟩ := exists_rowDescent hstop hp
    exact ⟨_, _, .all hrow⟩
  | next =>
    obtain ⟨_, _, hexpression⟩ := exists_descent hstop (.operand .equality) hp
    exact ⟨_, _, .next hexpression⟩
  | single =>
    obtain ⟨_, _, hexpression⟩ := exists_singleDescent hstop hp
    exact ⟨_, _, .single hexpression⟩

theorem Outcome.LeadsTo.map {α β : Type} {outcome : Outcome α} {x : Upshot α}
    (h : outcome.LeadsTo body p x q) (g : α → β) : (outcome.map g).LeadsTo body p (x.map g) q := by
  obtain ⟨rfl, hrest, hdepth⟩ := h
  exact ⟨Upshot.map_ofExcept g _, hrest, hdepth⟩

/-- An outcome leads to one upshot at one place. -/
theorem Outcome.LeadsTo.unique {α : Type} {outcome : Outcome α} {x y : Upshot α} {r : Place}
    (h : outcome.LeadsTo body p x q) (h' : outcome.LeadsTo body p y r)
    (hq : q.position ≤ body.length) (hr : r.position ≤ body.length) : y = x ∧ r = q := by
  have hrest := congrArg List.length (h.rest.symm.trans h'.rest)
  rw [List.length_drop, List.length_drop] at hrest
  refine ⟨h'.upshot.trans h.upshot.symm, ?_⟩
  obtain ⟨position, depth⟩ := r
  have hposition : position = q.position := by
    dsimp only at hrest hr
    omega
  exact congrArg₂ Place.mk hposition (h'.depth.trans h.depth.symm)

theorem RowDescent.readExprs_leadsTo (hbody : ∀ t ∈ body, t.isEnd = false)
    (hstop : stop.isEnd = true) {es : List Expr} {x : Upshot Unit}
    (h : RowDescent (body ++ stop :: more) p es x q) (hp : p.position ≤ body.length) {count : Nat}
    (hcount : body.length - p.position ≤ count) :
    (readExprs (maxNesting - p.depth) stop count (body.drop p.position)).LeadsTo body p
      (x.map fun _ => es) q := by
  induction h generalizing count with
  | missing there => exact absurd there (Place.lookup_ne_none hp)
  | finished there ends =>
    obtain ⟨hdrop, _⟩ := Place.drop_of_isEnd hbody hp there ends
    rw [hdrop, readExprs]
    exact ⟨rfl, hdrop.symm, rfl⟩
  | stopped there begins first stops =>
    obtain ⟨hlt, hdrop, _⟩ := Place.lookup_of_not_isEnd hstop hp there begins
    obtain ⟨count, rfl⟩ : ∃ n, count = n + 1 := Nat.exists_eq_add_one_of_ne_zero (by omega)
    obtain ⟨hupshot, hrest, hdepth⟩ := first.readExpr_leadsTo hbody hstop hp
    obtain ⟨f, hfault, rfl⟩ := Upshot.exists_eq_error hupshot stops
    rw [hdrop] at hfault hrest hdepth ⊢
    simp only [readExprs, hfault]
    exact ⟨rfl, hrest, hdepth⟩
  | @expression p q r t e es x there begins first more ih =>
    obtain ⟨hlt, hdrop, _⟩ := Place.lookup_of_not_isEnd hstop hp there begins
    obtain ⟨count, rfl⟩ : ∃ n, count = n + 1 := Nat.exists_eq_add_one_of_ne_zero (by omega)
    obtain ⟨⟨_, _, hwithin⟩, hresult⟩ := first.expression_spec hstop hp
    obtain ⟨hkept, hbehind, _⟩ := hresult _ rfl
    obtain ⟨hupshot, hrest, _⟩ := first.readExpr_leadsTo hbody hstop hp
    have hfirst := Upshot.ofExcept_eq_result_iff.mp hupshot
    have hmore := @ih hwithin count (by omega)
    rw [hkept] at hmore
    obtain ⟨hlast, hbehindRow, hopened⟩ := hmore.map (e :: ·)
    rw [hkept] at hopened
    rw [hdrop] at hfirst hrest ⊢
    simp only [readExprs, hfirst, hrest]
    refine ⟨Eq.trans ?_ hlast, hbehindRow, hopened⟩
    cases x <;> rfl

theorem SingleDescent.readSingle_leadsTo (hbody : ∀ t ∈ body, t.isEnd = false)
    (hstop : stop.isEnd = true) {x : Upshot Expr}
    (h : SingleDescent (body ++ stop :: more) p x q) (hp : p.position ≤ body.length) :
    (readSingle (maxNesting - p.depth) stop (body.drop p.position)).LeadsTo body p x q := by
  cases h with
  | stopped first stops =>
    have hlead := first.readExpr_leadsTo hbody hstop hp
    obtain ⟨f, hfault, _⟩ := Upshot.exists_eq_error hlead.upshot stops
    have hsame : readSingle (maxNesting - p.depth) stop (body.drop p.position) =
        readExpr (maxNesting - p.depth) stop (body.drop p.position) := by
      simp only [readSingle, hfault]
    rw [hsame]
    exact hlead
  | missing first there =>
    obtain ⟨⟨_, _, hwithin⟩, _⟩ := first.expression_spec hstop hp
    exact absurd there (Place.lookup_ne_none hwithin)
  | refused first there goesOn =>
    obtain ⟨⟨_, _, hwithin⟩, _⟩ := first.expression_spec hstop hp
    obtain ⟨_, hdrop, _⟩ := Place.lookup_of_not_isEnd hstop hwithin there goesOn
    obtain ⟨hupshot, hrest, hdepth⟩ := first.readExpr_leadsTo hbody hstop hp
    have hfirst := Upshot.ofExcept_eq_result_iff.mp hupshot
    rw [hdrop] at hrest
    simp only [readSingle, hfirst, hrest]
    exact ⟨rfl, hdrop.symm, hdepth⟩
  | finished first there ends =>
    obtain ⟨⟨_, _, hwithin⟩, _⟩ := first.expression_spec hstop hp
    obtain ⟨hdrop, _⟩ := Place.drop_of_isEnd hbody hwithin there ends
    have hlead := first.readExpr_leadsTo hbody hstop hp
    have hfirst := Upshot.ofExcept_eq_result_iff.mp hlead.upshot
    have hrest := hlead.rest.trans hdrop
    have hsame : readSingle (maxNesting - p.depth) stop (body.drop p.position) =
        readExpr (maxNesting - p.depth) stop (body.drop p.position) := by
      simp only [readSingle, hfirst, hrest]
    rw [hsame]
    exact hlead

theorem Call.Descends.read_leadsTo (hbody : ∀ t ∈ body, t.isEnd = false) (hstop : stop.isEnd = true)
    {call : Call} {x : Upshot (List Expr)} (h : call.Descends (body ++ stop :: more) p x q)
    (hp : p.position ≤ body.length) :
    (call.read (maxNesting - p.depth) stop (body.drop p.position)).LeadsTo body p x q := by
  cases h with
  | all row => exact row.readExprs_leadsTo hbody hstop hp (by rw [List.length_drop])
  | next expression => exact (expression.readExpr_leadsTo hbody hstop hp).map _
  | single expression => exact (expression.readSingle_leadsTo hbody hstop hp).map _

/-- The place of a cursor in its tokens. -/
def TokenCursor.place (c : TokenCursor) : Place := ⟨c.position, c.depth⟩

/-- What a reading of a cursor gives, and where it leaves the cursor, is what the descent for it
    comes to. -/
theorem TokenCursor.call_eq_of_descends {c : TokenCursor} (hbody : ∀ t ∈ c.body, t.isEnd = false)
    (hstop : c.stop.isEnd = true) (hp : c.position ≤ c.body.length) {call : Call}
    {x : Upshot (List Expr)} (h : call.Descends (c.body ++ c.stop :: more) c.place x q) :
    x = .ofExcept (c.call call).1 ∧ q = (c.call call).2.place := by
  obtain ⟨_, _, hwithin⟩ := h.stays hstop hp
  obtain ⟨hupshot, hrest, hdepth⟩ :
      (call.read c.room c.stop c.ahead).LeadsTo c.body c.place x q :=
    h.read_leadsTo hbody hstop hp
  have hlength := congrArg List.length hrest
  rw [List.length_drop] at hlength
  rw [call_eq_read]
  refine ⟨hupshot, ?_⟩
  have hposition : q.position =
      c.body.length - (call.read c.room c.stop c.ahead).rest.length := by omega
  obtain ⟨position, depth⟩ := q
  exact congrArg₂ Place.mk hposition hdepth

end

/-! ## Any row of readings -/

/-- The tokens in front of the end are those in front of the first token that ends the input. -/
theorem findIdx_isEnd {body more : List Token} {stop : Token} (hbody : ∀ t ∈ body, t.isEnd = false)
    (hstop : stop.isEnd = true) : (body ++ stop :: more).findIdx (·.isEnd) = body.length := by
  have hnone : body.findIdx (·.isEnd) = body.length := List.findIdx_eq_length.mpr hbody
  rw [List.findIdx_append, hnone, if_neg (Nat.lt_irrefl _), List.findIdx_cons, hstop]
  exact Nat.zero_add _

/-- A cursor that has been read from divides the list at the first token that ends the input. -/
theorem exists_withEnd_eq_of_calls (tokens : List Token) (calls : List Call) :
    let c := (TokenCursor.ofTokens tokens).calls calls
    ∃ more, withEnd tokens = c.body ++ c.stop :: more ∧ (∀ t ∈ c.body, t.isEnd = false) ∧
      c.stop.isEnd = true ∧ c.position ≤ c.body.length := by
  intro c
  obtain ⟨body, stop, more, htokens, hcursor, hbody, hstop⟩ := exists_withEnd_eq tokens
  obtain ⟨hbodies, hstops, hposition⟩ :=
    TokenCursor.calls_spec (c := TokenCursor.ofTokens tokens) (Nat.zero_le _) calls
  have hc : c = (TokenCursor.ofTokens tokens).calls calls := rfl
  rw [← hc] at hbodies hstops hposition
  rw [hcursor] at hbodies hstops hposition
  rw [hbodies, hstops]
  exact ⟨more, htokens, hbody, hstop, hposition⟩

/-- Whatever has been read from a list of tokens before, with or without faults: the next reading
    does not go back and stays in front of the first token that ends the input; if it gives
    expressions, it takes no fewer tokens, and ends in front of a token that is no infix operator;
    and it is what the descent for it comes to, which is the only one. The same holds of all that is
    read inside of it, from each place and with anything open: it ends, and looks up no token that
    is not there; an expression takes a token or more and ends in front of a token that is no infix
    operator; and a row of expressions takes no fewer tokens than it has expressions. -/
theorem call_of_calls_progress (tokens : List Token) (calls : List Call) (call : Call) :
    let list := withEnd tokens
    let finish := list.findIdx (·.isEnd)
    let c := (TokenCursor.ofTokens tokens).calls calls
    let last := c.call call
    finish < list.length ∧ c.position ≤ last.2.position ∧ last.2.position ≤ finish ∧
      (∀ es, last.1 = .ok es → c.position + es.length ≤ last.2.position ∧
        ∃ t, list[last.2.position]? = some t ∧ t.kind.infixLevel? = none) ∧
      (∀ x q, call.Descends list c.place x q ↔ x = .ofExcept last.1 ∧ q = last.2.place) ∧
      (∀ level p, p.position ≤ finish →
        (∃ x q, Descent list (.operand level) p x q) ∧
          ∀ x q, Descent list (.operand level) p x q → x.Stays finish p q) ∧
      (∀ p, p.position ≤ finish → ∃ x q,
        (∀ y r, Descent list (.operand .equality) p y r ↔ y = x ∧ r = q) ∧
          ∀ e, x = .result e → p.position < q.position ∧
            ∃ t, list[q.position]? = some t ∧ t.kind.infixLevel? = none) ∧
      ∀ p es x q, p.position ≤ finish → RowDescent list p es x q →
        x.Stays finish p q ∧ es.length ≤ q.position - p.position := by
  intro list finish c last
  obtain ⟨more, hlist, hbody, hstop, hp⟩ :
      ∃ more, list = c.body ++ c.stop :: more ∧ (∀ t ∈ c.body, t.isEnd = false) ∧
        c.stop.isEnd = true ∧ c.place.position ≤ c.body.length :=
    exists_withEnd_eq_of_calls tokens calls
  have hfinish : finish = c.body.length := by
    rw [← findIdx_isEnd hbody hstop, ← hlist]
  rw [hfinish, hlist]
  -- the descent for the next reading ends where the reading leaves the cursor
  obtain ⟨x, q, hdescends⟩ : ∃ x q, call.Descends (c.body ++ c.stop :: more) c.place x q :=
    call.exists_descends hstop hp
  have hstays := hdescends.stays hstop hp
  obtain ⟨rfl, rfl⟩ := TokenCursor.call_eq_of_descends hbody hstop hp hdescends
  refine ⟨by simp, hstays.forth, hstays.within, ?_, ?_, ?_, ?_, ?_⟩
  · intro es hes
    exact hdescends.result_spec hstop hp (Upshot.ofExcept_eq_result_iff.mpr hes).symm
  · intro y r
    constructor
    · intro h
      exact TokenCursor.call_eq_of_descends hbody hstop hp h
    · rintro ⟨rfl, rfl⟩
      exact hdescends
  · intro level p hle
    refine ⟨exists_descent hstop (.operand level) hle, ?_⟩
    intro x q h
    obtain ⟨hinside, hforth, hwithin, _⟩ := h.keeps hstop hle trivial
    exact ⟨hinside, hforth, hwithin⟩
  · intro p hle
    obtain ⟨x, q, h⟩ := exists_descent hstop (.operand .equality) hle
    obtain ⟨hstays, hresult⟩ := h.expression_spec hstop hle
    refine ⟨x, q, ?_, fun e he => (hresult e he).2⟩
    intro y r
    constructor
    · intro h'
      exact (h.readExpr_leadsTo hbody hstop hle).unique (h'.readExpr_leadsTo hbody hstop hle)
        hstays.within (h'.expression_spec hstop hle).1.within
    · rintro ⟨rfl, rfl⟩
      exact h
  · intro p es x q hle h
    obtain ⟨hstays, hcount⟩ := h.stays hstop hle
    exact ⟨hstays, Nat.le_sub_of_add_le' hcount⟩

/-- `1 (a +` and the end of the input, with a token behind it: after the first expression, the next
    one is stopped at the end, with the group open. -/
theorem call_of_calls_progress_open_group :
    let tokens : List Token :=
      [⟨.number, "1", some (.number .one), 1⟩, ⟨.leftParen, "(", none, 1⟩,
        ⟨.identifier, "a", none, 1⟩, ⟨.plus, "+", none, 1⟩, ⟨.endOfInput, "", none, 2⟩,
        ⟨.identifier, "b", none, 3⟩]
    let c := (TokenCursor.ofTokens tokens).calls [.next]
    let list := withEnd tokens
    c.position = 1 ∧ list.length = 7 ∧ list.findIdx (·.isEnd) = 4 ∧
      ((TokenCursor.ofTokens tokens).call .next).1 = .ok [.number .one] ∧
      (∃ t, list[c.position]? = some t ∧ t.kind.infixLevel? = none) ∧
      (∀ x q, Call.next.Descends list c.place x q ↔
        x = .fault (.unexpectedEnd 2) ∧ q = ⟨4, 1⟩) ∧
      ∃ x q, (∀ y r, Descent list (.operand .equality) ⟨2, 1⟩ y r ↔ y = x ∧ r = q) ∧
        ∀ e, x = .result e → 2 < q.position ∧
          ∃ t, list[q.position]? = some t ∧ t.kind.infixLevel? = none := by
  intro tokens c list
  have hone : ((TokenCursor.ofTokens tokens).call .next).1 = .ok [.number .one] := by
    decide +kernel
  obtain ⟨_, _, _, hfirst, _⟩ := call_of_calls_progress tokens [] .next
  obtain ⟨_, _, _, _, hnext, _, hexpression, _⟩ := call_of_calls_progress tokens [.next] .next
  exact ⟨rfl, rfl, rfl, hone, (hfirst _ hone).2, hnext, hexpression ⟨2, 1⟩ (by decide)⟩

end LoxSyntax
