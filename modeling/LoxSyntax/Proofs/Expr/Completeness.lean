import LoxSyntax.Proofs.Expr.Soundness
import Mathlib.Data.List.Basic
set_option autoImplicit false

/-! # Completeness of reading

Every program is read from the tokens that it flattens to, and so no two programs flatten to the
same tokens. The induction is on the tree: after the tokens of an expression the reader holds some
operand on some stack that stand for the expression on the stack it started from (`StandsFor`), as
far as an operator can tell that binds no tighter than the expression does. -/

namespace LoxSyntax

variable {room : Nat} {stop : Token}

/-! ## Expressions that fit on a stack -/

section

variable {operand : Expr} {stack : List Frame} {level : Level}

/-- The operand of a frame fits on top of it when the filled frame fits below. -/
theorem Holds.unfill {frame : Frame} (h : Holds room (frame.fill operand) stack) :
    Holds room operand (frame :: stack) := by
  obtain ⟨hopen, hnormal, hadmitted, hshallow⟩ := h
  cases frame with
  | group =>
    simp only [Frame.fill, Tree.nestingDepth] at hshallow
    refine ⟨.group (by omega) hopen, hnormal, fun _ hframe => ?_, by rw [nesting_group]; omega⟩
    cases hframe
    trivial
  | prefixed operator =>
    simp only [Frame.fill, Tree.nestingDepth] at hshallow
    obtain ⟨hoperator, htight, hoperand⟩ := hnormal
    exact ⟨.prefixed hoperator (by omega) hopen, hoperand, admits_of_unary_le _ htight,
      by rw [nesting_prefixed]; omega⟩
  | pending left operator =>
    simp only [Frame.fill, Tree.nestingDepth] at hshallow
    obtain ⟨⟨own, hown, hleft, hright⟩, hleftNormal, hrightNormal⟩ := hnormal
    rw [Option.mem_def] at hown
    have hadmits : Admits stack own := by simpa [Frame.fill, Tree.level, hown] using hadmitted
    refine ⟨.pending hown hleft hleftNormal hadmits (by omega) hopen, hrightNormal,
      fun _ hframe => ?_, by rw [nesting_pending]; omega⟩
    cases hframe
    intro other hother
    rw [Option.mem_def, hown] at hother
    cases hother
    exact hright

/-- The left operand of an infix operator fits where the whole does. -/
theorem Holds.left {left right : Expr} {operator : TokenKind}
    (h : Holds room (.binary left operator right) stack) : Holds room left stack := by
  obtain ⟨hopen, ⟨⟨own, hown, hleft, hright⟩, hnormal, _⟩, hadmitted, hshallow⟩ := h
  rw [Option.mem_def] at hown
  simp only [Tree.level, hown, Option.getD_some] at hadmitted
  simp only [Tree.nestingDepth] at hshallow
  exact ⟨hopen, hnormal, hadmitted.mono hleft, by omega⟩

theorem closePrefixes_of_isSettled (h : IsSettled stack) :
    closePrefixes operand stack = (operand, stack) := by
  cases stack with
  | nil => rfl
  | cons frame outer =>
    cases frame with
    | prefixed operator => exact absurd rfl (h operator outer)
    | _ => rfl

/-- An operator closes nothing on a stack that admits its own level. -/
theorem closePending_of_admits (hopen : IsOpenStack room stack) (h : Admits stack level) :
    closePending level operand stack = (operand, stack) := by
  cases hopen with
  | pending isInfix _ _ _ _ _ =>
    have hlt := h _ rfl _ isInfix
    simp [closePending, isInfix, Level.not_le_iff.mpr hlt]
  | _ => rfl

end

/-! ## Reading an expression -/

/-- An operand on a stack looks like the expression `e` on `stack` to every operator that binds no
    tighter than `e`. -/
def StandsFor (operand : Expr) (outer : List Frame) (e : Expr) (stack : List Frame) : Prop :=
  ∀ level ≤ e.level,
    closePending level operand outer =
      closePending level (closePrefixes e stack).1 (closePrefixes e stack).2

theorem step_of_leaf {t : Token} {e : Expr} (done : List Expr) (stack : List Frame)
    (h : t.terminal.leaf? = some e) :
    Progress.step room ⟨done, .needsOperand stack⟩ t = .ok ⟨done, complete e stack⟩ := by
  simp only [Progress.step, takeOperand, Token.operandRole_eq_leaf_iff.mpr h, Except.map]

theorem run_leaf {t : Token} {e : Expr} (done : List Expr) (stack : List Frame)
    (h : t.terminal.leaf? = some e) :
    ∃ operand outer,
      Progress.run room ⟨done, .needsOperand stack⟩ [t] = .ok ⟨done, .hasOperand operand outer⟩ ∧
      StandsFor operand outer e stack := by
  refine ⟨_, _, ?_, fun level _ => rfl⟩
  rw [Progress.run_cons, step_of_leaf done stack h]
  rfl

theorem step_of_opens {t : Token} {frame : Frame} {stack : List Frame} (done : List Expr)
    (h : t.operandRole = .opens frame) (hopen : IsOpenStack room (frame :: stack)) :
    Progress.step room ⟨done, .needsOperand stack⟩ t =
      .ok ⟨done, .needsOperand (frame :: stack)⟩ := by
  have hroom : ¬room < nesting (frame :: stack) := Nat.not_lt.mpr hopen.nesting_le
  simp only [Progress.step, takeOperand, h, if_neg hroom, Except.map]

/-- The tokens of an expression that fits on a stack bring the reader to an operand that stands for
    the expression there. -/
theorem run_tree {e : Expr} {stack : List Frame} (h : Holds room e stack) (done : List Expr)
    {ts : List Token} (hts : ts.map Token.terminal = e.terminals) :
    ∃ operand outer,
      Progress.run room ⟨done, .needsOperand stack⟩ ts = .ok ⟨done, .hasOperand operand outer⟩ ∧
      StandsFor operand outer e stack := by
  induction e generalizing stack ts with
  | unary operator operand ih =>
    obtain ⟨t, ts, rfl, ht, hts⟩ := List.map_eq_cons_iff.mp hts
    obtain ⟨hoperator, htight, _⟩ := h.normal
    have hkind : t.kind = operator := Token.kind_of_terminal ht
    have hrole : t.operandRole = .opens (.prefixed operator) :=
      Token.operandRole_eq_opens_iff.mpr (Or.inr ⟨hkind ▸ hoperator, by rw [hkind]⟩)
    have hoperand : Holds room operand (.prefixed operator :: stack) := h.unfill
    obtain ⟨last, outer, hrun, hstands⟩ := ih hoperand hts
    refine ⟨last, outer, ?_, fun level hlevel => hstands level (le_trans hlevel htight)⟩
    rw [Progress.run_cons, step_of_opens done hrole hoperand.open_stack]
    exact hrun
  | binary left operator right ihl ihr =>
    obtain ⟨ls, ts, rfl, hls, hts⟩ := List.map_eq_append_iff.mp hts
    obtain ⟨t, rs, rfl, ht, hrs⟩ := List.map_eq_cons_iff.mp hts
    obtain ⟨⟨own, hown, hleft, hright⟩, _, _⟩ := h.normal
    rw [Option.mem_def] at hown
    have hlevel : (Tree.binary left operator right : Expr).level = own := by
      simp [Tree.level, hown]
    have hadmits : Admits stack own := hlevel ▸ h.admitted
    have hsettled := hadmits.isSettled (TokenKind.infixLevel?_lt_unary hown)
    have hkind : t.kind = operator := Token.kind_of_terminal ht
    -- the operator finds the whole left operand, and nothing below it that it closes
    obtain ⟨first, inner, hrunl, hstandsl⟩ := ihl h.left hls
    have hclose : closePending own first inner = (left, stack) := by
      rw [hstandsl own hleft, closePrefixes_of_isSettled hsettled]
      exact closePending_of_admits h.open_stack hadmits
    have hoperand : Holds room right (.pending left operator :: stack) := h.unfill
    obtain ⟨last, outer, hrunr, hstandsr⟩ := ihr hoperand hrs
    refine ⟨last, outer, ?_, fun level hle => ?_⟩
    · rw [Progress.run_append, hrunl]
      simp only [Except.bind, Progress.run_cons, Progress.step, hkind, hown, hclose]
      exact hrunr
    · rw [hlevel] at hle
      rw [hstandsr level (le_trans hle (le_of_lt hright)), closePrefixes_of_isSettled hsettled]
      simp [closePrefixes, closePending, hown, hle]
  | group inner ih =>
    obtain ⟨t, ts, rfl, ht, hts⟩ := List.map_eq_cons_iff.mp hts
    obtain ⟨is, cs, rfl, his, hcs⟩ := List.map_eq_append_iff.mp hts
    obtain ⟨c, rfl, hc⟩ := List.map_eq_singleton_iff.mp hcs
    have hrole : t.operandRole = .opens .group :=
      Token.operandRole_eq_opens_iff.mpr (Or.inl ⟨Token.kind_of_terminal ht, rfl⟩)
    have hinner : Holds room inner (.group :: stack) := h.unfill
    obtain ⟨first, outer, hrun, hstands⟩ := ih hinner his
    have hclose : closePending .equality first outer = (inner, .group :: stack) :=
      hstands .equality (Level.equality_le _)
    refine ⟨_, _, ?_, fun level _ => rfl⟩
    rw [Progress.run_cons, step_of_opens done hrole hinner.open_stack]
    simp only [Except.bind, Progress.run_append, hrun, Progress.run_cons, Progress.step,
      Token.kind_of_terminal hc, hclose]
    rfl
  | foreign value => exact value.elim
  | truth value =>
    obtain ⟨t, rfl, ht⟩ := List.map_eq_singleton_iff.mp hts
    exact run_leaf done stack (by rw [ht]; cases value <;> rfl)
  | number | text | nil | name =>
    obtain ⟨t, rfl, ht⟩ := List.map_eq_singleton_iff.mp hts
    exact run_leaf done stack (by rw [ht]; rfl)

/-! ## Reading a program -/

/-- An expression in normal form begins with nothing that could extend the one before it, but for a
    minus. -/
theorem eq_minus_of_head?_terminals {e : Expr} (h : e.IsNormal) {kind : TokenKind} {level : Level}
    (hhead : e.terminals.head? = some (.symbol kind)) (hlevel : kind.infixLevel? = some level) :
    kind = .minus := by
  induction e with
  | unary operator operand _ =>
    obtain ⟨hoperator, _⟩ := h
    cases hhead
    cases kind <;> simp_all [TokenKind.isPrefixOperator, TokenKind.infixLevel?]
  | binary left operator right ihl _ =>
    rw [Tree.terminals, List.head?_append_of_ne_nil _ left.terminals_ne_nil] at hhead
    exact ihl h.2.1 hhead
  | truth value => cases value <;> cases hhead <;> cases hlevel
  | foreign value => exact value.elim
  | _ => cases hhead <;> cases hlevel

/-- The end of the input is no part of an expression in normal form. -/
theorem endOfInput_not_mem_terminals {e : Expr} (h : e.IsNormal) :
    .symbol .endOfInput ∉ e.terminals := by
  induction e with
  | unary operator operand ih =>
    obtain ⟨hoperator, _, hoperand⟩ := h
    have hne : operator ≠ .endOfInput := by rintro rfl; cases hoperator
    simp [Tree.terminals, Ne.symm hne, ih hoperand]
  | binary left operator right ihl ihr =>
    obtain ⟨⟨own, hown, _⟩, hleft, hright⟩ := h
    have hne : operator ≠ .endOfInput := by rintro rfl; cases hown
    simp [Tree.terminals, Ne.symm hne, ihl hleft, ihr hright]
  | group inner ih => simp [Tree.terminals, ih h]
  | truth value => cases value <;> simp [Tree.terminals]
  | foreign value => exact value.elim
  | _ => simp [Tree.terminals]

/-- The second expression of a program begins with no infix operator. -/
theorem infixLevel?_of_head?_terminals {e : Expr} {es : List Expr} {t : Token}
    (h : IsProgram room (e :: es)) (ht : (es.flatMap Tree.terminals).head? = some t.terminal) :
    t.kind.infixLevel? = none := by
  cases es with
  | nil => cases ht
  | cons d ds =>
    rw [List.flatMap_cons, List.head?_append_of_ne_nil _ d.terminals_ne_nil] at ht
    have hseparated := h.separated d (List.mem_cons_self ..)
    cases hlevel : t.kind.infixLevel? with
    | none => rfl
    | some level =>
      rw [Token.terminal_of_infixLevel? hlevel] at ht
      have hnormal : d.IsNormal := h.normal d (List.mem_cons_of_mem e (List.mem_cons_self ..))
      rw [eq_minus_of_head?_terminals hnormal ht hlevel] at ht
      exact absurd ht hseparated

theorem isEnd_of_terminal_mem {es : List Expr} {t : Token} (h : IsProgram room es)
    (ht : t.terminal ∈ es.flatMap Tree.terminals) : t.isEnd = false := by
  obtain ⟨e, he, hmem⟩ := List.mem_flatMap.mp ht
  by_contra hend
  have hkind : t.kind = .endOfInput := by simpa [Token.isEnd] using hend
  have hterminal : t.terminal = .symbol .endOfInput := by simp [Token.terminal, hkind]
  exact endOfInput_not_mem_terminals (h.normal e he) (hterminal ▸ hmem)

/-- Once nothing but the whole expression is open, the token after it is taken as the first one of
    the next expression. -/
theorem read_of_closed {operand e : Expr} {stack : List Frame} (done : List Expr) {ts : List Token}
    (hclose : closePending .equality operand stack = (e, []))
    (hnext : ∀ t ∈ ts.head?, t.kind.infixLevel? = none) :
    Progress.read room stop ⟨done, .hasOperand operand stack⟩ ts =
      Progress.read room stop ⟨done ++ [e], .needsOperand []⟩ ts := by
  cases ts with
  | nil => simp [Progress.finish, hclose]
  | cons t ts => simp [Progress.step, hnext t rfl, hclose]

/-- The tokens of a program are read as the program. -/
theorem read_program (stop : Token) {es : List Expr} (h : IsProgram room es) (done : List Expr)
    {ts : List Token} (hts : ts.map Token.terminal = es.flatMap Tree.terminals) :
    Progress.read room stop ⟨done, .needsOperand []⟩ ts = .ok (done ++ es) := by
  induction es generalizing done ts with
  | nil =>
    obtain rfl : ts = [] := by simpa using hts
    simp [Progress.finish]
  | cons e es ih =>
    rw [List.flatMap_cons] at hts
    obtain ⟨us, vs, rfl, hus, hvs⟩ := List.map_eq_append_iff.mp hts
    have hholds : Holds room e [] :=
      ⟨.empty, h.normal e (List.mem_cons_self ..), fun _ hframe => (by cases hframe),
        h.shallow e (List.mem_cons_self ..)⟩
    obtain ⟨operand, outer, hrun, hstands⟩ := run_tree hholds done hus
    have hclose : closePending .equality operand outer = (e, []) :=
      hstands .equality (Level.equality_le _)
    have hnext : ∀ t ∈ vs.head?, t.kind.infixLevel? = none := by
      intro t ht
      apply infixLevel?_of_head?_terminals h
      rw [← hvs, List.head?_map, Option.mem_def.mp ht, Option.map_some]
    rw [Progress.read_append, hrun, Except.bind, read_of_closed done hclose hnext,
      ih h.tail _ hvs, List.append_assoc]
    rfl

/-- Tokens are read as the one program that flattens to them. -/
theorem read_eq_ok_iff_isProgram (stop : Token) {ts : List Token} {es : List Expr} :
    Progress.read room stop {} ts = .ok es ↔
      IsProgram room es ∧ ts.map Token.terminal = es.flatMap Tree.terminals := by
  constructor
  · intro h
    obtain ⟨p, hrun, hfinish⟩ := bind_eq_ok_iff.mp h
    obtain ⟨hsound, htaken⟩ := Progress.isSound_start.run hrun
    obtain ⟨hprogram, hterminals⟩ := hsound.finish hfinish
    refine ⟨hprogram, ?_⟩
    rw [hterminals, htaken]
    rfl
  · rintro ⟨hprogram, hterminals⟩
    exact read_program stop hprogram [] hterminals

/-- Every expression in normal form has tokens that it flattens to. -/
theorem exists_tokens {e : Expr} (h : e.IsNormal) :
    ∃ ts : List Token, ts.map Token.terminal = e.terminals := by
  induction e with
  | number value => exact ⟨[⟨.number, "", some (.number value), 1⟩], rfl⟩
  | text value => exact ⟨[.ofText value 1], rfl⟩
  | truth value =>
    exact ⟨[⟨if value then .trueWord else .falseWord, "", none, 1⟩], by cases value <;> rfl⟩
  | nil => exact ⟨[⟨.nilWord, "", none, 1⟩], rfl⟩
  | name spelling => exact ⟨[⟨.identifier, spelling, none, 1⟩], rfl⟩
  | unary operator operand ih =>
    obtain ⟨ts, hts⟩ := ih h.2.2
    have ht := Token.terminal_of_isPrefixOperator (t := ⟨operator, "", none, 1⟩) h.1
    exact ⟨⟨operator, "", none, 1⟩ :: ts, by rw [List.map_cons, hts, ht]; rfl⟩
  | binary left operator right ihl ihr =>
    obtain ⟨ls, hls⟩ := ihl h.2.1
    obtain ⟨rs, hrs⟩ := ihr h.2.2
    obtain ⟨own, hown, _⟩ := h.1
    have ht := Token.terminal_of_infixLevel? (t := ⟨operator, "", none, 1⟩) hown
    exact ⟨ls ++ ⟨operator, "", none, 1⟩ :: rs, by
      rw [List.map_append, List.map_cons, hls, hrs, ht]; rfl⟩
  | group inner ih =>
    obtain ⟨ts, hts⟩ := ih h
    exact ⟨⟨.leftParen, "", none, 1⟩ :: (ts ++ [⟨.rightParen, "", none, 1⟩]), by
      rw [List.map_cons, List.map_append, hts]; rfl⟩
  | foreign value => exact value.elim

theorem exists_tokens_flatMap {es : List Expr} (h : IsProgram room es) :
    ∃ ts : List Token, ts.map Token.terminal = es.flatMap Tree.terminals := by
  induction es with
  | nil => exact ⟨[], rfl⟩
  | cons e es ih =>
    obtain ⟨ts, hts⟩ := exists_tokens (h.normal e (List.mem_cons_self ..))
    obtain ⟨us, hus⟩ := ih h.tail
    exact ⟨ts ++ us, by rw [List.map_append, hts, hus, List.flatMap_cons]⟩

/-! ## Completeness -/

/-- A program has tokens that it flattens to. Whichever they are, closed by the end of the input
    they are read as that program, and no other program flattens to them. -/
theorem parseTokens_complete (es : List Expr) (h : IsProgram maxNesting es) :
    (∃ tokens : List Token, tokens.map Token.terminal = es.flatMap Tree.terminals) ∧
      (∀ (tokens : List Token) (stop : Token) (more : List Token),
        tokens.map Token.terminal = es.flatMap Tree.terminals → stop.isEnd = true →
          parseTokens (tokens ++ stop :: more) = .ok es) ∧
      ∀ other, IsProgram maxNesting other →
        other.flatMap Tree.terminals = es.flatMap Tree.terminals → other = es := by
  obtain ⟨tokens, htokens⟩ := exists_tokens_flatMap h
  refine ⟨⟨tokens, htokens⟩, fun tokens stop more htokens hstop => ?_, fun other hother hflat => ?_⟩
  · have hends : ∀ t ∈ tokens, t.isEnd = false := by
      intro t ht
      refine isEnd_of_terminal_mem h ?_
      rw [← htokens]
      exact List.mem_map_of_mem ht
    rw [parseTokens_append_stop more hends hstop]
    exact read_program stop h [] htokens
  · have hread := read_program (.endOfInput 1) h [] htokens
    rw [read_program _ hother [] (htokens.trans hflat.symm)] at hread
    exact Except.ok.inj hread

/-- `-a * (b - !c) "d"` with every token on a line of its own. -/
theorem parseTokens_complete_two_expressions :
    let es : List Expr :=
      [.binary (.unary .minus (.name "a")) .star
        (.group (.binary (.name "b") .minus (.unary .bang (.name "c")))), .text "d"]
    IsProgram maxNesting es ∧
      parseTokens
        ([⟨.minus, "-", none, 1⟩, ⟨.identifier, "a", none, 2⟩, ⟨.star, "*", none, 3⟩,
          ⟨.leftParen, "(", none, 4⟩, ⟨.identifier, "b", none, 5⟩, ⟨.minus, "-", none, 6⟩,
          ⟨.bang, "!", none, 7⟩, ⟨.identifier, "c", none, 8⟩, ⟨.rightParen, ")", none, 9⟩,
          .ofText "d" 10] ++ .endOfInput 11 :: []) = .ok es := by
  have h : IsProgram maxNesting
      [.binary (.unary .minus (.name "a")) .star
        (.group (.binary (.name "b") .minus (.unary .bang (.name "c")))), .text "d"] :=
    ⟨by decide, by decide, by decide⟩
  exact ⟨h, (parseTokens_complete _ h).2.1 _ _ _ rfl rfl⟩

end LoxSyntax
