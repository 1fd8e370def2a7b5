import LoxSyntax.Diagnostic.Source
import LoxSyntax.Proofs.Expr.FirstFault
import LoxSyntax.Proofs.Expr.SingleExpression
import LoxSyntax.Proofs.Expr.StoppingPlace
import LoxSyntax.Proofs.Number.IntegerRange
set_option autoImplicit false

/-! # What is raised besides reports

Tokens that are put together by hand may carry whole numbers of any size, as their values and as
their lines. Values that round to no double are the only ones that reading stumbles over; every
other fault is one of the syntax. Which lists of tokens are met with that fault is told by
`exists_parseTokens_eq_tooLarge_iff`: those that have such a number where an operand is read, behind
tokens that can begin a program. A fault of the syntax is reported, if its line can be written.
Nothing else is raised (`Host.parse_not_isSyntactic_iff`). -/

namespace LoxSyntax

/-- Is it a fault in reading tokens as expressions? -/
def Cause.isSyntactic : Cause → Bool
  | .syntactic _ | .unexpectedToken _ | .expectedToken _ _ | .unexpectedEnd
  | .nestedTooDeeply _ _ => true
  | _ => false

/-- Is it the report of a fault in reading tokens as expressions? -/
def Raised.isSyntactic : Raised → Bool
  | .reported d => d.cause.isSyntactic
  | .overflow _ | .unwritableLine _ => false

/-- Does the token carry a whole number whose size reaches half the way from the largest double to
    the next power of two? -/
def Token.IsTooLarge (t : Token) : Prop :=
  t.kind = .number ∧ ∃ n, t.literal = some (.integer n) ∧ 2 ^ 1024 - 2 ^ 970 ≤ n.natAbs

theorem SyntaxFault.isSyntactic_cause_eq_false_iff {f : SyntaxFault} :
    f.cause.isSyntactic = false ↔ ∃ t, f = .tooLarge t := by
  cases f <;> simp [cause, Cause.isSyntactic]

theorem SyntaxFault.isSyntactic_raised_eq_false_iff {host : Host} {source filename : String}
    {f : SyntaxFault} :
    (f.raised host source filename).isSyntactic = false ↔
      (∃ t, f = .tooLarge t) ∨
        f.cause.isSyntactic = true ∧ ∃ fault, host.writingFault? f.line = some fault := by
  by_cases hlarge : ∃ t, f = .tooLarge t
  · obtain ⟨t, rfl⟩ := hlarge
    exact iff_of_true rfl (Or.inl ⟨t, rfl⟩)
  · have hsyntactic : f.cause.isSyntactic = true :=
      Bool.eq_true_of_not_eq_false fun hcause =>
        hlarge (isSyntactic_cause_eq_false_iff.mp hcause)
    have hne : ∀ t, f ≠ .tooLarge t := fun t heq => hlarge ⟨t, heq⟩
    rcases hline : host.writingFault? f.line with _ | fault
    · rw [raised_of_writable hne hline]
      show f.cause.isSyntactic = false ↔ _
      simp [hsyntactic, hlarge]
    · rw [raised_of_unwritable hne hline]
      exact iff_of_true rfl (Or.inr ⟨hsyntactic, fault, rfl⟩)

theorem Token.operandRole_eq_tooLarge_iff {t : Token} :
    t.operandRole = .tooLarge ↔ t.IsTooLarge := by
  unfold IsTooLarge
  simp only [← Double.ofInt?_eq_none_iff]
  fun_cases operandRole t <;> simp_all

theorem Token.IsTooLarge.infixLevel? {t : Token} (h : t.IsTooLarge) :
    t.kind.infixLevel? = none := by
  rw [h.1]
  rfl

variable {room : Nat} {stop : Token} {stack : List Frame}

theorem ReadState.needsOperand_openings_iff {state : ReadState} :
    state.openings.needsOperand = true ↔ ∃ stack, state = .needsOperand stack := by
  cases state <;> simp [openings]

/-! ## Steps -/

theorem takeOperand_eq_tooLarge_iff {t u : Token} :
    takeOperand room stack t = .error (.tooLarge u) ↔ t = u ∧ t.IsTooLarge := by
  rw [← Token.operandRole_eq_tooLarge_iff]
  fun_cases takeOperand room stack t <;> simp [*]

namespace Progress

/-- A step meets the fault at a number that is too large in operand position. -/
theorem step_eq_tooLarge_iff {p : Progress} {t u : Token} (h : p.IsSound room) :
    p.step room t = .error (.tooLarge u) ↔
      t = u ∧ t.IsTooLarge ∧ p.state.openings.isOperandPosition t.kind = true := by
  have hstate := h.state
  fun_cases step room p t with
  | case1 stack hp =>
    rw [map_eq_error_iff, takeOperand_eq_tooLarge_iff, hp]
    simp [ReadState.openings, Openings.isOperandPosition]
  | case2 operand stack hp level hlevel left outer hclose =>
    refine iff_of_false (by rintro ⟨⟩) ?_
    rintro ⟨_, hlarge, _⟩
    rw [hlarge.infixLevel?] at hlevel
    cases hlevel
  | case3 operand stack hp hlevel inner outer hclose hparen =>
    refine iff_of_false (by rintro ⟨⟩) ?_
    rintro ⟨_, hlarge, _⟩
    rw [hlarge.1] at hparen
    cases hparen
  | case4 operand stack hp hlevel inner outer hclose hparen =>
    -- inside a group no operand begins behind another one
    have hposition : p.state.openings.isOperandPosition t.kind = false := by
      rw [hp]
      refine Openings.isOperandPosition_eq_false rfl ?_ t.kind
      simp [ReadState.openings, ← openers_closePending hclose]
    simp [hposition]
  | case5 operand stack hp hlevel e outer hgroup hclose =>
    rw [hp] at hstate
    obtain ⟨rfl, _⟩ := closed_spec hstate hclose hgroup
    have hposition : p.state.openings.isOperandPosition t.kind = true := by
      simp [hp, Openings.isOperandPosition, ReadState.openings, hlevel,
        ← openers_closePending hclose]
    rw [map_eq_error_iff, takeOperand_eq_tooLarge_iff]
    simp [hposition]

theorem finish_ne_tooLarge {p : Progress} {t : Token} : p.finish stop ≠ .error (.tooLarge t) := by
  fun_cases finish stop p <;> simp

end Progress

/-! ## Reading one expression -/

/-- Behind an operand no number is taken as part of the expression. -/
theorem readFrom_ne_tooLarge {operand : Expr} {t u : Token} {ts : List Token}
    (h : t.IsTooLarge) :
    (readFrom room stop (.hasOperand operand stack) (t :: ts)).result ≠ .error (.tooLarge u) := by
  have hparen : t.kind ≠ .rightParen := by
    rw [h.1]
    decide
  simp only [readFrom, h.infixLevel?, if_neg hparen]
  split <;> simp

/-- Reading one expression meets the fault where the tokens so far leave an operand to be read. -/
theorem exists_of_readExpr_eq_tooLarge {ts : List Token} {u : Token}
    (h : (readExpr room stop ts).result = .error (.tooLarge u)) :
    ∃ before outer after, ts = before ++ u :: after ∧ u.IsTooLarge ∧
      Progress.run room {} before = .ok ⟨[], .needsOperand outer⟩ := by
  obtain ⟨before, next, after, rfl, hrun, hread, hhead⟩ := Progress.exists_of_readFrom_eq_error h
  rw [readExpr, hread] at h
  rcases after with _ | ⟨t, after⟩
  · rcases next with outer | ⟨operand, outer⟩
    · cases h
    · simp only [readFrom] at h
      split at h <;> cases h
  · have hsound := (Progress.isSound_start.run (hrun [])).1
    obtain ⟨rfl, hlarge, _⟩ := (Progress.step_eq_tooLarge_iff hsound).mp (hhead t rfl [])
    rcases next with outer | ⟨operand, outer⟩
    · exact ⟨before, outer, after, rfl, hlarge, hrun []⟩
    · exact absurd h (readFrom_ne_tooLarge hlarge)

/-- Reading the one expression of a list meets the fault when reading its first one does. -/
theorem parseSingle_eq_tooLarge_iff {tokens : List Token} {u : Token} :
    parseSingle tokens = .error (.tooLarge u) ↔
      (readExpr maxNesting (TokenCursor.ofTokens tokens).stop
        (TokenCursor.ofTokens tokens).body).result = .error (.tooLarge u) := by
  simp [parseSingle_eq_readSingle, readSingle_eq_error_iff]

/-! ## Where the fault is met -/

section

variable {tokens before after : List Token} {t : Token}

/-- What is read of a list of tokens is the beginning of it. -/
theorem exists_eq_append_of_body
    (h : (TokenCursor.ofTokens tokens).body = before ++ t :: after) :
    (∃ rest, tokens = before ++ t :: rest) ∧ ∀ u ∈ before, u.isEnd = false := by
  constructor
  · obtain ⟨rest, hrest⟩ : (TokenCursor.ofTokens tokens).body <+: tokens :=
      List.takeWhile_prefix _
    rw [h] at hrest
    exact ⟨after ++ rest, by simp [← hrest]⟩
  · intro u hu
    have hmem : u ∈ (TokenCursor.ofTokens tokens).body := by
      rw [h]
      exact List.mem_append_left _ hu
    exact TokenCursor.isEnd_of_mem_body hmem

theorem Token.IsTooLarge.isEnd (h : t.IsTooLarge) : t.isEnd = false := by
  simp [Token.isEnd, h.1]

/-- The beginning of a program is taken without a fault. -/
theorem exists_run_of_parseTokens {rest : List Token} {es : List Expr}
    (h : parseTokens (before ++ rest) = .ok es) (hbefore : ∀ u ∈ before, u.isEnd = false) :
    ∃ q, Progress.run maxNesting {} before = .ok q := by
  rw [parseTokens_eq_read, body_ofTokens_append hbefore, Progress.read_append] at h
  obtain ⟨q, hrun, _⟩ := bind_eq_ok_iff.mp h
  exact ⟨q, hrun⟩

/-- The beginning of an expression is taken without completing one. -/
theorem exists_run_of_parseSingle {rest : List Token} {e : Expr}
    (h : parseSingle (before ++ rest) = .ok e) (hbefore : ∀ u ∈ before, u.isEnd = false) :
    ∃ state, Progress.run maxNesting {} before = .ok ⟨[], state⟩ := by
  rw [parseSingle_eq_readSingle, readSingle_eq_ok_iff] at h
  obtain ⟨hresult, hrest⟩ := h
  rw [body_ofTokens_append hbefore] at hresult hrest
  obtain ⟨state, hrun⟩ := Progress.exists_run_of_readFrom_eq_ok hresult (hrest ▸ List.nil_suffix)
  exact ⟨state, hrun []⟩

end

/-- Reading a list of tokens meets the fault at a number that is too large in operand position, if
    the tokens in front of it are the beginning of a program. -/
theorem exists_parseTokens_eq_tooLarge_iff (tokens : List Token) :
    (∃ u, parseTokens tokens = .error (.tooLarge u)) ↔
      ∃ before t after, tokens = before ++ t :: after ∧ t.IsTooLarge ∧
        (∀ u ∈ before, u.isEnd = false) ∧ (∃ rest es, parseTokens (before ++ rest) = .ok es) ∧
        (Openings.of before).isOperandPosition t.kind = true := by
  constructor
  · rintro ⟨u, h⟩
    rw [parseTokens_eq_read] at h
    rcases Progress.read_eq_error h with ⟨before, t, after, q, hbody, hrun, hstep⟩ | ⟨q, _, hfinish⟩
    · obtain ⟨⟨rest, rfl⟩, hbefore⟩ := exists_eq_append_of_body hbody
      have hsound := (Progress.isSound_start.run hrun).1
      obtain ⟨_, hlarge, hposition⟩ := (Progress.step_eq_tooLarge_iff hsound).mp hstep
      rw [Progress.openings_of_run hrun] at hposition
      exact ⟨before, t, rest, rfl, hlarge, hbefore, exists_completion_parseTokens hbefore hrun,
        hposition⟩
    · exact absurd hfinish Progress.finish_ne_tooLarge
  · rintro ⟨before, t, after, rfl, hlarge, hbefore, ⟨rest, es, hparse⟩, hposition⟩
    obtain ⟨q, hrun⟩ := exists_run_of_parseTokens hparse hbefore
    have hsound := (Progress.isSound_start.run hrun).1
    rw [← Progress.openings_of_run hrun] at hposition
    have hstep := (Progress.step_eq_tooLarge_iff hsound).mpr ⟨rfl, hlarge, hposition⟩
    exact ⟨t, parseTokens_of_step_error hbefore hlarge.isEnd hrun hstep after⟩

/-- Reading the one expression of a list meets the fault at such a number, if the tokens in front of
    it are the beginning of an expression that an operand continues. -/
theorem exists_parseSingle_eq_tooLarge_iff (tokens : List Token) :
    (∃ u, parseSingle tokens = .error (.tooLarge u)) ↔
      ∃ before t after, tokens = before ++ t :: after ∧ t.IsTooLarge ∧
        (∀ u ∈ before, u.isEnd = false) ∧ (∃ rest e, parseSingle (before ++ rest) = .ok e) ∧
        (Openings.of before).needsOperand = true := by
  simp only [parseSingle_eq_tooLarge_iff]
  constructor
  · rintro ⟨u, h⟩
    obtain ⟨before, outer, after, hbody, hlarge, hrun⟩ := exists_of_readExpr_eq_tooLarge h
    obtain ⟨⟨rest, rfl⟩, hbefore⟩ := exists_eq_append_of_body hbody
    obtain ⟨more, e, hparse⟩ := exists_parseTokens_eq_concat hbefore hrun
    refine ⟨before, u, rest, rfl, hlarge, hbefore, ⟨more, e, parseSingle_eq_ok_iff.mpr hparse⟩, ?_⟩
    have hopenings := Progress.openings_of_run hrun
    exact (congrArg Openings.needsOperand hopenings).symm
  · rintro ⟨before, t, after, rfl, hlarge, hbefore, ⟨rest, e, hparse⟩, hneeds⟩
    obtain ⟨state, hrun⟩ := exists_run_of_parseSingle hparse hbefore
    have hopenings := congrArg Openings.needsOperand (Progress.openings_of_run hrun)
    obtain ⟨outer, rfl⟩ := ReadState.needsOperand_openings_iff.mp (hopenings.trans hneeds)
    refine ⟨t, ?_⟩
    rw [body_ofTokens_append hbefore, List.takeWhile_cons_of_pos (by simpa using hlarge.isEnd),
      readExpr, Progress.readFrom_append_of_run hrun]
    simp only [readFrom, Token.operandRole_eq_tooLarge_iff.mpr hlarge]

/-- What is raised for a reading is no report when the reading stops at a number that is too large,
    or stops for the syntax at a token whose line cannot be written. -/
theorem exists_raised_not_isSyntactic_iff {α : Type} {x : Except SyntaxFault α}
    {tokens : List Token} (host : Host) (source filename : String) (call : Call)
    (hstops : ∀ f, x = .error f ↔ ∃ index, call.StopsAt tokens f index) :
    (∃ r, x.mapError (SyntaxFault.raised host source filename) = .error r ∧ r.isSyntactic = false) ↔
      (∃ u, x = .error (.tooLarge u)) ∨
        ∃ f index, call.StopsAt tokens f index ∧ f.cause.isSyntactic = true ∧
          ∃ fault, host.writingFault? f.line = some fault := by
  constructor
  · rintro ⟨r, hraised, hr⟩
    obtain ⟨f, hfault, rfl⟩ := mapError_eq_error_iff.mp hraised
    rcases SyntaxFault.isSyntactic_raised_eq_false_iff.mp hr with ⟨u, rfl⟩ | hunwritable
    · exact Or.inl ⟨u, hfault⟩
    · obtain ⟨index, hindex⟩ := (hstops f).mp hfault
      exact Or.inr ⟨f, index, hindex, hunwritable⟩
  · rintro (⟨u, hfault⟩ | ⟨f, index, hindex, hunwritable⟩)
    · exact ⟨_, mapError_eq_error_iff.mpr ⟨_, hfault, rfl⟩, rfl⟩
    · refine ⟨_, mapError_eq_error_iff.mpr ⟨f, (hstops f).mpr ⟨index, hindex⟩, rfl⟩, ?_⟩
      exact SyntaxFault.isSyntactic_raised_eq_false_iff.mpr (Or.inr hunwritable)

theorem parseTokens_eq_error_iff_stopsAt {tokens : List Token} {f : SyntaxFault} :
    parseTokens tokens = .error f ↔ ∃ index, Call.all.StopsAt tokens f index :=
  ⟨fun h => Call.exists_stopsAt h, fun ⟨_, hindex⟩ => hindex.result⟩

theorem parseSingle_eq_error_iff_stopsAt {tokens : List Token} {f : SyntaxFault} :
    parseSingle tokens = .error f ↔ ∃ index, Call.single.StopsAt tokens f index :=
  ⟨fun h => Call.exists_stopsAt (map_eq_error_iff.mpr h),
    fun ⟨_, hindex⟩ => map_eq_error_iff.mp hindex.result⟩

/-- A list of tokens is read, or refused with the report of a fault in its syntax, but in two cases.
    It has a number that is too large where an operand is read: behind the beginning of a program,
    and when it has to be a single expression, behind the beginning of one that an operand
    continues. Or it is refused for its syntax, and the host cannot write the line of the fault. -/
theorem Host.parse_not_isSyntactic_iff (host : Host) (tokens : List Token)
    (source filename : String) :
    ((∃ x, host.parse tokens source filename = .error x ∧ x.isSyntactic = false) ↔
      (∃ before t after, tokens = before ++ t :: after ∧ t.IsTooLarge ∧
        (∀ u ∈ before, u.isEnd = false) ∧ (∃ rest es, parseTokens (before ++ rest) = .ok es) ∧
        (Openings.of before).isOperandPosition t.kind = true) ∨
      ∃ f index, Call.all.StopsAt tokens f index ∧ f.cause.isSyntactic = true ∧
        ∃ fault, host.writingFault? f.line = some fault) ∧
    ((∃ x, host.parseExpression tokens source filename = .error x ∧ x.isSyntactic = false) ↔
      (∃ before t after, tokens = before ++ t :: after ∧ t.IsTooLarge ∧
        (∀ u ∈ before, u.isEnd = false) ∧ (∃ rest e, parseSingle (before ++ rest) = .ok e) ∧
        (Openings.of before).needsOperand = true) ∨
      ∃ f index, Call.single.StopsAt tokens f index ∧ f.cause.isSyntactic = true ∧
        ∃ fault, host.writingFault? f.line = some fault) := by
  rw [← exists_parseTokens_eq_tooLarge_iff, ← exists_parseSingle_eq_tooLarge_iff]
  constructor
  · exact exists_raised_not_isSyntactic_iff host source filename .all
      fun _ => parseTokens_eq_error_iff_stopsAt
  · exact exists_raised_not_isSyntactic_iff host source filename .single
      fun _ => parseSingle_eq_error_iff_stopsAt

/-- A number that is too large is refused where it stands alone. -/
theorem Token.IsTooLarge.parse {t : Token} (h : t.IsTooLarge) :
    parseTokens [t] = .error (.tooLarge t) ∧ parseSingle [t] = .error (.tooLarge t) := by
  have hposition : Openings.isOperandPosition {} t.kind = true := rfl
  have hstep : Progress.step maxNesting {} t = .error (.tooLarge t) :=
    (Progress.step_eq_tooLarge_iff Progress.isSound_start).mpr ⟨rfl, h, hposition⟩
  have hparse : parseTokens ([] ++ [t]) = .error (.tooLarge t) :=
    parseTokens_of_step_error (by simp) h.isEnd rfl hstep []
  have hbody : (TokenCursor.ofTokens [t]).body = [t] := by simp [TokenCursor.ofTokens, h.isEnd]
  refine ⟨hparse, ?_⟩
  rw [parseSingle_eq_tooLarge_iff, hbody]
  simp only [readExpr, readFrom, Token.operandRole_eq_tooLarge_iff.mpr h]

/-- The whole number that is a one with 309 zeros is refused, and not for its syntax. -/
theorem Host.parse_number_of_310_digits :
    let t : Token := ⟨.number, "1", some (.integer (10 ^ 309)), 1⟩
    standard.parse [t] = .error (.overflow t) ∧
      standard.parseExpression [t] = .error (.overflow t) ∧
      (Raised.overflow t).isSyntactic = false := by
  intro t
  have hlarge : t.IsTooLarge := ⟨rfl, 10 ^ 309, rfl, by decide +kernel⟩
  exact ⟨parse_eq_error_iff.mpr ⟨_, hlarge.parse.1, rfl⟩,
    parseExpression_eq_error_iff.mpr ⟨_, hlarge.parse.2, rfl⟩, rfl⟩

end LoxSyntax
