import LoxSyntax.Proofs.Expr.OpenFrames
set_option autoImplicit false

/-! # Relabelings

The reader of expressions looks at the kinds of tokens and at what they are where an operand is
expected; everything else it passes on, to the expressions and to the faults that it finds. A
relabeling changes what it passes on: the texts, the lines, the spellings that nobody looks at.
Reading relabeled tokens is relabeling what is read (`Progress.read_relabel`). -/

namespace LoxSyntax

/-! ## Other texts at the leaves -/

/-- The tree with other texts at its leaves. -/
def Tree.mapText {φ : Type} (g : String → String) : Tree φ → Tree φ
  | text value => text (g value)
  | unary operator operand => unary operator (operand.mapText g)
  | binary left operator right => binary (left.mapText g) operator (right.mapText g)
  | group inner => group (inner.mapText g)
  | number value => number value
  | truth value => truth value
  | nil => nil
  | name spelling => name spelling
  | foreign value => foreign value

def Frame.mapText (g : String → String) : Frame → Frame
  | group => group
  | prefixed operator => prefixed operator
  | pending left operator => pending (left.mapText g) operator

def ReadState.mapText (g : String → String) : ReadState → ReadState
  | needsOperand stack => needsOperand (stack.map (Frame.mapText g))
  | hasOperand operand stack => hasOperand (operand.mapText g) (stack.map (Frame.mapText g))

def OperandRole.mapText (g : String → String) : OperandRole → OperandRole
  | leaf value => leaf (value.mapText g)
  | opens frame => opens (frame.mapText g)
  | tooLarge => tooLarge
  | none => none

theorem Tree.mapText_id {φ : Type} (e : Tree φ) : e.mapText id = e := by
  induction e <;> simp_all [mapText]

theorem OperandRole.mapText_id (role : OperandRole) : role.mapText id = role := by
  rcases role with value | (_ | operator | ⟨left, operator⟩) | _ | _ <;>
    simp [mapText, Frame.mapText, Tree.mapText_id]

section

variable (g : String → String) (operand : Expr) (stack : List Frame)

theorem nesting_map_mapText : nesting (stack.map (Frame.mapText g)) = nesting stack := by
  unfold nesting
  rw [List.countP_map]
  congr 1
  funext frame
  cases frame <;> rfl

theorem closePrefixes_mapText :
    closePrefixes (operand.mapText g) (stack.map (Frame.mapText g)) =
      ((closePrefixes operand stack).1.mapText g,
        (closePrefixes operand stack).2.map (Frame.mapText g)) := by
  fun_induction closePrefixes operand stack with
  | case1 operand operator stack ih => exact ih
  | case2 operand stack hne =>
    rcases stack with _ | ⟨_ | operator | ⟨left, operator⟩, stack⟩
    · rfl
    · rfl
    · exact absurd rfl (hne operator stack)
    · rfl

theorem complete_mapText :
    complete (operand.mapText g) (stack.map (Frame.mapText g)) =
      (complete operand stack).mapText g := by
  simp only [complete, closePrefixes_mapText]
  rfl

theorem closePending_mapText (level : Level) :
    closePending level (operand.mapText g) (stack.map (Frame.mapText g)) =
      ((closePending level operand stack).1.mapText g,
        (closePending level operand stack).2.map (Frame.mapText g)) := by
  fun_induction closePending level operand stack with
  | case1 operand left operator stack hle ih =>
    simp only [List.map_cons, Frame.mapText, closePending, if_pos hle]
    exact ih
  | case2 operand left operator stack hle =>
    simp only [List.map_cons, Frame.mapText, closePending, if_neg hle]
  | case3 operand stack hne =>
    rcases stack with _ | ⟨_ | operator | ⟨left, operator⟩, stack⟩
    · rfl
    · rfl
    · rfl
    · exact absurd rfl (hne left operator stack)

end

/-! ## Relabelings -/

/-- A change of tokens that the reader of expressions does not notice, with what becomes of the
    texts at the leaves and of the lines of faults. -/
structure Relabeling where
  token : Token → Token
  text : String → String
  line : Int → Int
  kind_token : ∀ t, (token t).kind = t.kind
  line_token : ∀ t, (token t).line = line t.line
  operandRole_token : ∀ t, (token t).operandRole = t.operandRole.mapText text

namespace Relabeling

/-- The fault, at relabeled tokens. -/
def fault (r : Relabeling) : SyntaxFault → SyntaxFault
  | .unexpected found => .unexpected (r.token found)
  | .unclosedGroup found => .unclosedGroup (r.token found)
  | .unexpectedEnd line => .unexpectedEnd (r.line line)
  | .tooDeep found => .tooDeep (r.token found)
  | .tooLarge found => .tooLarge (r.token found)

/-- The result of a reading, relabeled: `f` for what was read. -/
def result {α : Type} (r : Relabeling) (f : α → α) (x : Except SyntaxFault α) :
    Except SyntaxFault α :=
  (x.map f).mapError r.fault

/-- What has been read so far, relabeled. -/
def progress (r : Relabeling) (p : Progress) : Progress :=
  ⟨p.done.map (Tree.mapText r.text), p.state.mapText r.text⟩

end Relabeling

theorem takeOperand_relabel (r : Relabeling) (room : Nat) (stack : List Frame) (t : Token) :
    takeOperand room (stack.map (Frame.mapText r.text)) (r.token t) =
      r.result (ReadState.mapText r.text) (takeOperand room stack t) := by
  unfold takeOperand
  rw [r.operandRole_token]
  rcases t.operandRole with value | frame | _ | _
  · show Except.ok (complete _ _) = _
    rw [complete_mapText]
    rfl
  · have hnesting : nesting (frame.mapText r.text :: stack.map (Frame.mapText r.text)) =
        nesting (frame :: stack) := nesting_map_mapText r.text (frame :: stack)
    simp only [OperandRole.mapText, hnesting]
    by_cases hdeep : room < nesting (frame :: stack)
    · simp only [if_pos hdeep]
      rfl
    · simp only [if_neg hdeep]
      rfl
  · rfl
  · rfl

namespace Progress

variable (r : Relabeling) (room : Nat) (p : Progress)

theorem step_relabel (t : Token) :
    (r.progress p).step room (r.token t) = r.result r.progress (p.step room t) := by
  obtain ⟨done, stack | ⟨operand, stack⟩⟩ := p
  · show (takeOperand room (stack.map (Frame.mapText r.text)) (r.token t)).map _ = _
    rw [takeOperand_relabel]
    simp only [step]
    cases takeOperand room stack t <;> rfl
  · simp only [Relabeling.progress, ReadState.mapText, step, r.kind_token, closePending_mapText]
    rcases hlevel : t.kind.infixLevel? with _ | level
    · have hnext : ∀ e : Expr,
          (takeOperand room [] (r.token t)).map
              (⟨done.map (Tree.mapText r.text) ++ [e.mapText r.text], ·⟩) =
            r.result r.progress ((takeOperand room [] t).map (⟨done ++ [e], ·⟩)) := by
        intro e
        have htake := takeOperand_relabel r room [] t
        rw [List.map_nil] at htake
        rw [htake]
        rcases takeOperand room [] t with fault | state
        · rfl
        · simp [Relabeling.result, Relabeling.progress, Except.map, Except.mapError]
      rcases closePending .equality operand stack with
        ⟨e, _ | ⟨_ | operator | ⟨left, operator⟩, outer⟩⟩
      · exact hnext e
      · by_cases hparen : t.kind = .rightParen
        · simp only [List.map_cons, Frame.mapText, if_pos hparen]
          show Except.ok (Progress.mk _ (complete ((Tree.group e).mapText r.text) _)) = _
          rw [complete_mapText]
          rfl
        · simp only [List.map_cons, Frame.mapText, if_neg hparen]
          rfl
      · exact hnext e
      · exact hnext e
    · rfl

theorem run_relabel (ts : List Token) :
    (r.progress p).run room (ts.map r.token) = r.result r.progress (p.run room ts) := by
  induction ts generalizing p with
  | nil => rfl
  | cons t ts ih =>
    rw [List.map_cons, run_cons, run_cons, step_relabel]
    rcases p.step room t with fault | next
    · rfl
    · exact ih next

theorem finish_relabel (stop : Token) :
    (r.progress p).finish (r.token stop) =
      r.result (List.map (Tree.mapText r.text)) (p.finish stop) := by
  obtain ⟨done, (_ | ⟨frame, stack⟩) | ⟨operand, stack⟩⟩ := p
  · rfl
  · show Except.error (SyntaxFault.unexpectedEnd (r.token stop).line) = _
    rw [r.line_token]
    rfl
  · simp only [Relabeling.progress, ReadState.mapText, finish, closePending_mapText]
    rcases closePending .equality operand stack with
      ⟨e, _ | ⟨_ | operator | ⟨left, operator⟩, outer⟩⟩ <;>
    simp [Frame.mapText, Relabeling.result, Except.map, Except.mapError, Relabeling.fault]

/-- Reading relabeled tokens is relabeling what is read. -/
theorem read_relabel (stop : Token) (ts : List Token) :
    (r.progress p).read room (r.token stop) (ts.map r.token) =
      r.result (List.map (Tree.mapText r.text)) (p.read room stop ts) := by
  rw [read, read, run_relabel]
  rcases p.run room ts with fault | last
  · rfl
  · exact finish_relabel r last stop

end Progress

theorem Relabeling.isEnd_token (r : Relabeling) (t : Token) : (r.token t).isEnd = t.isEnd := by
  rw [Token.isEnd, r.kind_token]
  rfl

/-- Relabeled tokens that end with the end of the input are read as the tokens are, relabeled. -/
theorem parseTokens_relabel (r : Relabeling) {tokens : List Token}
    (hend : ∃ stop ∈ tokens.getLast?, stop.isEnd = true) :
    parseTokens (tokens.map r.token) =
      r.result (List.map (Tree.mapText r.text)) (parseTokens tokens) := by
  obtain ⟨body, stop, more, rfl, hbody, hstop⟩ := exists_eq_append_stop hend
  have hbodies : ∀ t ∈ body.map r.token, t.isEnd = false := by
    intro t ht
    obtain ⟨u, hu, rfl⟩ := List.mem_map.mp ht
    rw [r.isEnd_token]
    exact hbody u hu
  have hstops : (r.token stop).isEnd = true := (r.isEnd_token stop).trans hstop
  rw [List.map_append, List.map_cons, parseTokens_append_stop _ hbodies hstops,
    parseTokens_append_stop _ hbody hstop]
  exact Progress.read_relabel r maxNesting {} stop body

end LoxSyntax
