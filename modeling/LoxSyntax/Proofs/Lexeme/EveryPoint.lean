import LoxSyntax.Proofs.Lexeme.Passes
import LoxSyntax.Proofs.Lexeme.WalkedLexemes
set_option autoImplicit false

/-! # Every point of a walk

What holds at every point between two characters that a walk through a text comes by, in its first
call or a later one, halts at faults included. One step takes one character at most and adds to the
tokens at their end only (`moves_step`), so that the number of characters taken, the line and the
column always belong together (`isPlaced_after`). The main statement is `walk_every_point`. -/

namespace LoxSyntax

namespace Walk

variable {w v : Walk} {text : List Char}

/-- The walk after a number of steps. One that has halted is taken up again. -/
def after : Nat → Walk → Walk
  | 0, w => w
  | n + 1, w => after n w.step.2

theorem after_add (m n : Nat) (w : Walk) : after (m + n) w = after n (after m w) := by
  induction m generalizing w with
  | zero => rw [Nat.zero_add, after]
  | succ m ih => rw [Nat.succ_add, after, ih, after]

/-! ## What a step can do -/

/-- What a step can do: add tokens at the end, or take one character that is there. -/
inductive Moves (w v : Walk) : Prop
  | stays (text : v.text = w.text) (taken : v.taken = w.taken) (position : v.position = w.position)
      (tokens : w.tokens <+: v.tokens)
  | takes {c : Char} (there : w.peek 0 = some c) (text : v.text = w.text)
      (taken : v.taken = w.taken + 1) (position : v.position = w.position.advance c)
      (tokens : v.tokens = w.tokens)

theorem moves_goOn (stage : Stage) : w.Moves (w.goOn stage).2 :=
  .stays rfl rfl rfl (List.prefix_refl _)

theorem moves_halt (halt : Halt) : w.Moves (w.halt halt).2 :=
  .stays rfl rfl rfl (List.prefix_refl _)

theorem moves_emit (t : Token) : w.Moves (w.emit t).2 :=
  .stays rfl rfl rfl (List.prefix_append _ _)

theorem moves_emitNumber (start : Nat) : w.Moves (w.emitNumber start).2 := by
  unfold emitNumber
  split
  · exact moves_halt _
  · exact moves_emit _

theorem moves_take (stage : Stage) : w.Moves (w.take stage).2 := by
  unfold take
  split
  · exact moves_halt _
  · next hpeek => exact .takes hpeek rfl rfl rfl rfl

theorem moves_startWith (c : Char) : w.Moves (w.startWith c).2 := by
  fun_cases startWith w c with
  | case1 | case3 | case4 => exact moves_take _
  | case2 | case5 | case6 => exact moves_goOn _
  | case7 => exact moves_halt _

theorem moves_step (w : Walk) : w.Moves w.step.2 := by
  fun_cases step w with
  | case1 => exact .stays rfl rfl rfl (List.prefix_append _ _)
  | case2 _ c => exact moves_startWith c
  | case3 | case5 | case10 | case11 | case13 | case14 | case16 | case18 => exact moves_take _
  | case4 => exact moves_goOn _
  | case6 | case7 | case8 | case12 | case19 => exact moves_emit _
  | case9 => exact moves_halt _
  | case15 | case17 => exact moves_emitNumber _

/-! ## What every step keeps -/

/-- Is the walk at a place in the text, with the line and column of that place? -/
structure IsPlaced (text : List Char) (w : Walk) : Prop where
  text_eq : w.text = text
  taken_le : w.taken ≤ text.length
  position_eq : w.position = Position.start.advanceBy (text.take w.taken)

theorem isPlaced_ofText (text : String) : (ofText text).IsPlaced text.toList where
  text_eq := rfl
  taken_le := Nat.zero_le _
  position_eq := rfl

theorem Moves.isPlaced (h : w.Moves v) (hw : w.IsPlaced text) : v.IsPlaced text := by
  obtain ⟨htext, hle, hposition⟩ := hw
  cases h with
  | stays htext' htaken hposition' _ =>
    rw [← htaken] at hle hposition
    exact ⟨htext'.trans htext, hle, hposition'.trans hposition⟩
  | @takes c hthere htext' htaken hposition' _ =>
    have hget : text[w.taken]? = some c := by
      rw [← htext]
      exact hthere
    obtain ⟨hlt, _⟩ := List.getElem?_eq_some_iff.mp hget
    have htake : text.take v.taken = text.take w.taken ++ [c] := by
      rw [htaken, List.take_add_one, hget]
      rfl
    refine ⟨htext'.trans htext, by omega, ?_⟩
    rw [htake, Position.advanceBy_append, ← hposition, hposition', Position.advanceBy_cons,
      Position.advanceBy_nil]

theorem Moves.prefix_tokens (h : w.Moves v) : w.tokens <+: v.tokens := by
  cases h with
  | stays _ _ _ htokens => exact htokens
  | takes _ _ _ _ htokens => exact htokens ▸ List.prefix_rfl

theorem isPlaced_after (hw : w.IsPlaced text) (n : Nat) : (w.after n).IsPlaced text := by
  induction n generalizing w with
  | zero => exact hw
  | succ n ih => exact ih ((moves_step w).isPlaced hw)

/-- What has been found stays found. -/
theorem tokens_prefix_after (w : Walk) (n : Nat) : w.tokens <+: (w.after n).tokens := by
  induction n generalizing w with
  | zero => exact List.prefix_refl _
  | succ n ih => exact (moves_step w).prefix_tokens.trans (ih w.step.2)

/-! ## Passes among the points of a walk -/

theorem Runs.exists_after {halt : Halt} (h : w.Runs (halt, v)) : ∃ n, w.after n = v := by
  generalize hending : (halt, v) = ending at h
  induction h with
  | halts step =>
    cases hending
    exact ⟨1, by rw [after, step, after]⟩
  | goesOn step _ ih =>
    obtain ⟨n, hn⟩ := ih hending
    exact ⟨n + 1, by rw [after, step, hn]⟩

/-- A walk stands, at some point between two lexemes, where any number of passes leads. -/
theorem exists_after_passes (hw : w.stage = .between) (calls : Nat) :
    ∃ n, (w.after n).stage = .between ∧ (w.after n).scan = w.scan.passes calls := by
  induction calls generalizing w with
  | zero => exact ⟨0, hw, rfl⟩
  | succ calls ih =>
    obtain ⟨v, hruns, hv, hscan⟩ := exists_runs_pass hw
    obtain ⟨m, hm⟩ := hruns.exists_after
    obtain ⟨n, hstage, hpasses⟩ := ih hv
    refine ⟨m + n, ?_, ?_⟩
    · rw [after_add, hm, hstage]
    · rw [after_add, hm, hpasses, hscan, Scan.passes]

/-! ## Progress -/

/-- Between two lexemes and with characters ahead, a walk takes one or more of them or meets a
    fault, and nothing else happens. -/
theorem exists_takesLexeme (hw : w.stage = .between) (hahead : w.ahead ≠ []) :
    ∃ ending, w.TakesLexeme ending ∧
      (ending.1 = none ∧ w.taken < ending.2.taken ∨ ∃ f, ending.1 = some (.fault f)) := by
  obtain ⟨c, rest, hahead⟩ := List.exists_cons_of_ne_nil hahead
  cases hread : Lexeme.read c rest with
  | ok l =>
    obtain ⟨following, hsplit, hwell, hends⟩ := Lexeme.read_spec hread
    have htakes := takesLexeme_of_endsBefore hw (hahead.trans hsplit.symm) hwell hends
    have hpos := List.length_pos_iff.mpr (Lexeme.spelling_ne_nil hread)
    exact ⟨_, htakes, Or.inl ⟨rfl, Nat.lt_add_of_pos_right hpos⟩⟩
  | error fault =>
    obtain ⟨v, htakes, _⟩ := exists_takesLexeme_of_read_eq_error hw hahead hread
    exact ⟨_, htakes, Or.inr ⟨_, rfl⟩⟩

/-- At every point of a walk through a text, whatever has happened before, the characters taken are
    some of the text, line and column count the line feeds among them and the characters behind the
    last one, and what has been found stays found. Between two lexemes the walk takes the next one
    or meets a fault, in one way only, and gets to a halt, as a pass does. -/
theorem walk_every_point (text : String) (steps : Nat) :
    let w := (ofText text).after steps
    let front := text.toList.take w.taken
    w.text = text.toList ∧ w.taken ≤ text.toList.length ∧
      w.position.line = 1 + front.count '\n' ∧
      w.position.column = 1 + (front.rtakeWhile (· ≠ '\n')).length ∧
      (∀ more, w.tokens <+: (w.after more).tokens) ∧
      (w.stage = .between →
        (w.taken < text.toList.length → ∃ ending, (∀ e, w.TakesLexeme e ↔ e = ending) ∧
          (ending.1 = none ∧ w.taken < ending.2.taken ∨ ∃ f, ending.1 = some (.fault f))) ∧
        ∃ v, (∀ e, w.Runs e ↔ e = (Halt.ofPass w.scan.pass.1, v)) ∧ v.scan = w.scan.pass.2) ∧
      ∀ calls, ∃ n, ((ofText text).after n).stage = .between ∧
        ((ofText text).after n).scan = (Scan.ofText text).passes calls := by
  intro w front
  obtain ⟨htext, hle, hposition⟩ := isPlaced_after (isPlaced_ofText text) steps
  refine ⟨htext, hle, ?_, ?_, tokens_prefix_after w, ?_, exists_after_passes rfl⟩
  · rw [hposition]
    exact Position.line_advanceBy .start front
  · rw [hposition]
    exact Position.column_advanceBy_start front
  · intro hw
    refine ⟨?_, ?_⟩
    · intro hlt
      have hahead : w.ahead ≠ [] := by
        rw [ahead, htext, Ne, List.drop_eq_nil_iff]
        omega
      obtain ⟨ending, htakes, hending⟩ := exists_takesLexeme hw hahead
      refine ⟨ending, ?_, hending⟩
      intro e
      refine ⟨fun he => he.unique htakes, ?_⟩
      rintro rfl
      exact htakes
    · obtain ⟨v, hruns, _, hscan⟩ := exists_runs_pass hw
      refine ⟨v, ?_, hscan⟩
      intro e
      refine ⟨fun he => he.unique hruns, ?_⟩
      rintro rfl
      exact hruns

/-- A walk in front of a quote that is not closed, and at the end of the text where the search for
    the closing one has taken it: there it gets to the end in one step of the next call. -/
theorem walk_every_point_open_quote :
    let w := (ofText "1 \"a\n").after 4
    let v := (ofText "1 \"a\n").after 8
    (w.stage = .between ∧ w.taken < 5 ∧ ∃ ending, (∀ e, w.TakesLexeme e ↔ e = ending) ∧
        (ending.1 = none ∧ w.taken < ending.2.taken ∨ ∃ f, ending.1 = some (.fault f))) ∧
      v.stage = .between ∧ v.position = ⟨2, 1⟩ ∧
        ∃ u, (∀ e, v.Runs e ↔ e = (.finished, u)) ∧
          u.tokens = [⟨.number, "1", some (.number .one), 1⟩, .endOfInput 2] := by
  intro w v
  have hw : w.stage = .between ∧ w.taken < 5 := by decide +kernel
  have hv : v.stage = .between ∧ v.position = ⟨2, 1⟩ ∧ Halt.ofPass v.scan.pass.1 = .finished ∧
      v.scan.pass.2.tokens = [⟨.number, "1", some (.number .one), 1⟩, .endOfInput 2] := by
    decide +kernel
  obtain ⟨hstage, hposition, hhalt, htokens⟩ := hv
  obtain ⟨_, _, _, _, _, hopen, _⟩ := walk_every_point "1 \"a\n" 4
  obtain ⟨_, _, _, _, _, hagain, _⟩ := walk_every_point "1 \"a\n" 8
  obtain ⟨u, hruns, hscan⟩ := (hagain hstage).2
  rw [hhalt] at hruns
  exact ⟨⟨hw.1, hw.2, (hopen hw.1).1 hw.2⟩, hstage, hposition, u, hruns,
    (congrArg Scan.tokens hscan).trans htokens⟩

end Walk

end LoxSyntax
