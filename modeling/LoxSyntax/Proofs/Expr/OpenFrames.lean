import LoxSyntax.Proofs.Expr.Progress
set_option autoImplicit false

/-! # Open frames

What a stack of frames may look like while an expression is read. Each frame becomes a tree once
its operand is complete (`Frame.fill`), and the stack is *open* when all these trees can still come
out in normal form and within the limit. Handing an operand to a frame keeps that (`Holds.fill`), so
all that the reader does to its stack keeps it too, and no terminal is lost on the way. -/

namespace LoxSyntax

variable {room : Nat} {operand : Expr} {stack : List Frame} {level : Level}

/-! ## Filling a frame -/

namespace Frame

/-- The tree that a frame becomes when its operand is complete. -/
def fill (operand : Expr) : Frame → Expr
  | group => .group operand
  | prefixed operator => .unary operator operand
  | pending left operator => .binary left operator operand

/-- May the operand of a frame be an expression of the given level? -/
def Takes (level : Level) : Frame → Prop
  | group => True
  | prefixed _ => .unary ≤ level
  | pending _ operator => ∀ own ∈ operator.infixLevel?, own < level

/-- The terminals that a frame has taken. -/
def terminals : Frame → List Terminal
  | group => [.symbol .leftParen]
  | prefixed operator => [.symbol operator]
  | pending left operator => left.terminals ++ [.symbol operator]

theorem Takes.mono {a b : Level} {frame : Frame} (h : frame.Takes a) (hab : a ≤ b) :
    frame.Takes b := by
  cases frame with
  | group => trivial
  | prefixed operator => exact (le_trans h hab : Level.unary ≤ b)
  | pending left operator => exact fun own hown => lt_of_lt_of_le (h own hown) hab

theorem takes_of_unary_le (frame : Frame) (h : .unary ≤ level) : frame.Takes level := by
  cases frame with
  | group => trivial
  | prefixed operator => exact h
  | pending left operator =>
    exact fun own hown => lt_of_lt_of_le (TokenKind.infixLevel?_lt_unary hown) h

end Frame

/-! ## Stacks -/

/-- The terminals that the frames of a stack have taken, the outermost frame first. -/
def stackTerminals : List Frame → List Terminal
  | [] => []
  | frame :: outer => stackTerminals outer ++ frame.terminals

@[simp] theorem stackTerminals_nil : stackTerminals [] = [] := rfl

/-- May an expression of the given level be completed on top of a stack? -/
def Admits (stack : List Frame) (level : Level) : Prop := ∀ frame ∈ stack.head?, frame.Takes level

/-- No prefix operator waits on top of the stack. -/
def IsSettled (stack : List Frame) : Prop :=
  ∀ operator outer, stack ≠ .prefixed operator :: outer

theorem Admits.mono {a b : Level} (h : Admits stack a) (hab : a ≤ b) : Admits stack b :=
  fun frame hframe => (h frame hframe).mono hab

theorem admits_of_unary_le (stack : List Frame) (h : .unary ≤ level) : Admits stack level :=
  fun frame _ => frame.takes_of_unary_le h

/-- A prefix operator takes nothing of an infix level. -/
theorem Admits.isSettled (h : Admits stack level) (hlevel : level < .unary) :
    IsSettled stack := by
  rintro operator outer rfl
  exact Level.not_le_iff.mpr hlevel (h _ rfl)

/-- A stack whose frames can all be filled: what they have taken is in normal form, the levels of
    pending operators grow towards the top, and no frame is beyond the limit. -/
inductive IsOpenStack (room : Nat) : List Frame → Prop
  | empty : IsOpenStack room []
  | group {outer : List Frame} (shallow : nesting outer < room) (tail : IsOpenStack room outer) :
      IsOpenStack room (.group :: outer)
  | prefixed {operator : TokenKind} {outer : List Frame}
      (isPrefix : operator.isPrefixOperator = true) (shallow : nesting outer < room)
      (tail : IsOpenStack room outer) : IsOpenStack room (.prefixed operator :: outer)
  | pending {left : Expr} {operator : TokenKind} {own : Level} {outer : List Frame}
      (isInfix : operator.infixLevel? = some own) (tight : own ≤ left.level)
      (normal : left.IsNormal) (admitted : Admits outer own)
      (shallow : left.nestingDepth + nesting outer ≤ room) (tail : IsOpenStack room outer) :
      IsOpenStack room (.pending left operator :: outer)

@[simp] theorem nesting_nil : nesting [] = 0 := rfl

@[simp] theorem nesting_group (outer : List Frame) :
    nesting (.group :: outer) = nesting outer + 1 := by
  simp [nesting, List.countP_cons, Frame.isNested]

@[simp] theorem nesting_prefixed (operator : TokenKind) (outer : List Frame) :
    nesting (.prefixed operator :: outer) = nesting outer + 1 := by
  simp [nesting, List.countP_cons, Frame.isNested]

@[simp] theorem nesting_pending (left : Expr) (operator : TokenKind) (outer : List Frame) :
    nesting (.pending left operator :: outer) = nesting outer := by
  simp [nesting, Frame.isNested]

theorem IsOpenStack.nesting_le (h : IsOpenStack room stack) : nesting stack ≤ room := by
  cases h with
  | empty => exact Nat.zero_le room
  | group shallow _ => rw [nesting_group]; exact shallow
  | prefixed _ shallow _ => rw [nesting_prefixed]; exact shallow
  | pending _ _ _ _ shallow _ => exact Nat.le_trans (Nat.le_add_left ..) shallow

/-! ## Operands on a stack -/

/-- The stack is open and the operand can be handed to its top frame. -/
structure Holds (room : Nat) (operand : Expr) (stack : List Frame) : Prop where
  open_stack : IsOpenStack room stack
  normal : operand.IsNormal
  admitted : Admits stack operand.level
  shallow : operand.nestingDepth + nesting stack ≤ room

/-- A frame that has been filled is an operand for the frame below it. -/
theorem Holds.fill {frame : Frame} (h : Holds room operand (frame :: stack)) :
    Holds room (frame.fill operand) stack := by
  obtain ⟨hopen, hnormal, hadmitted, hshallow⟩ := h
  have htakes : frame.Takes operand.level := hadmitted frame rfl
  cases hopen with
  | group _ tail =>
    refine ⟨tail, hnormal, admits_of_unary_le stack (Level.unary_le_primary), ?_⟩
    simp only [Frame.fill, Tree.nestingDepth, nesting_group] at hshallow ⊢
    omega
  | prefixed isPrefix _ tail =>
    refine ⟨tail, ⟨isPrefix, htakes, hnormal⟩, admits_of_unary_le stack (le_refl Level.unary), ?_⟩
    simp only [Frame.fill, Tree.nestingDepth, nesting_prefixed] at hshallow ⊢
    omega
  | pending isInfix tight normal admitted shallow tail =>
    refine ⟨tail, ⟨⟨_, isInfix, tight, htakes _ isInfix⟩, normal, hnormal⟩, ?_, ?_⟩
    · simpa [Frame.fill, Tree.level, isInfix] using admitted
    · simp only [Frame.fill, Tree.nestingDepth, nesting_pending] at hshallow ⊢
      omega

theorem stackTerminals_fill {frame : Frame} (h : frame ≠ .group) :
    stackTerminals stack ++ (frame.fill operand).terminals =
      stackTerminals (frame :: stack) ++ operand.terminals := by
  cases frame with
  | group => exact absurd rfl h
  | prefixed operator => simp [stackTerminals, Frame.fill, Frame.terminals, Tree.terminals]
  | pending left operator => simp [stackTerminals, Frame.fill, Frame.terminals, Tree.terminals]

theorem stackTerminals_fill_group :
    stackTerminals stack ++ (Frame.group.fill operand).terminals =
      stackTerminals (.group :: stack) ++ operand.terminals ++ [.symbol .rightParen] := by
  simp [stackTerminals, Frame.fill, Frame.terminals, Tree.terminals]

/-! ## Closing prefix operators -/

theorem Holds.closePrefixes (h : Holds room operand stack) :
    Holds room (closePrefixes operand stack).1 (closePrefixes operand stack).2 := by
  fun_induction LoxSyntax.closePrefixes operand stack with
  | case1 operand operator stack ih => exact ih h.fill
  | case2 operand stack _ => exact h

theorem unary_le_level_closePrefixes (h : .unary ≤ operand.level) :
    .unary ≤ (closePrefixes operand stack).1.level := by
  fun_induction closePrefixes operand stack with
  | case1 operand operator stack ih => exact ih (le_refl _)
  | case2 operand stack _ => exact h

theorem isSettled_closePrefixes : IsSettled (closePrefixes operand stack).2 := by
  fun_induction closePrefixes operand stack with
  | case1 operand operator stack ih => exact ih
  | case2 operand stack hne => exact fun operator outer heq => hne operator outer heq

theorem terminals_closePrefixes :
    stackTerminals (closePrefixes operand stack).2 ++ (closePrefixes operand stack).1.terminals =
      stackTerminals stack ++ operand.terminals := by
  fun_induction closePrefixes operand stack with
  | case1 operand operator stack ih => rw [ih, ← stackTerminals_fill (by simp)]; rfl
  | case2 operand stack _ => rfl

/-! ## Closing pending operators

In what follows, handing `operand` to the pending operators of `stack` gives `left` and leaves
`outer`. -/

section

variable {left : Expr} {outer : List Frame}

theorem Holds.closePending (h : Holds room operand stack)
    (hclose : closePending level operand stack = (left, outer)) : Holds room left outer := by
  fun_induction LoxSyntax.closePending level operand stack with
  | case1 operand _ operator stack _ ih => exact ih h.fill hclose
  | case2 | case3 =>
    cases hclose
    exact h

theorem le_level_closePending (hclose : closePending level operand stack = (left, outer))
    (h : level ≤ operand.level) : level ≤ left.level := by
  fun_induction closePending level operand stack with
  | case1 operand _ operator stack hle ih => exact ih hclose hle
  | case2 | case3 =>
    cases hclose
    exact h

theorem terminals_closePending (hclose : closePending level operand stack = (left, outer)) :
    stackTerminals outer ++ left.terminals = stackTerminals stack ++ operand.terminals := by
  fun_induction closePending level operand stack with
  | case1 operand _ operator stack _ ih =>
    rw [ih hclose, ← stackTerminals_fill (by simp)]
    rfl
  | case2 | case3 =>
    cases hclose
    rfl

/-- Pending operators never lie on top of a prefix operator. -/
theorem isSettled_closePending (hclose : closePending level operand stack = (left, outer))
    (hopen : IsOpenStack room stack) (h : IsSettled stack) : IsSettled outer := by
  fun_induction closePending level operand stack with
  | case1 operand _ operator stack _ ih =>
    cases hopen with
    | pending isInfix _ _ admitted _ tail =>
      exact ih hclose tail (admitted.isSettled (TokenKind.infixLevel?_lt_unary isInfix))
  | case2 | case3 =>
    cases hclose
    exact h

/-- What stays on the stack binds looser than the operator that closed the rest. -/
theorem admits_closePending (hclose : closePending level operand stack = (left, outer))
    (hopen : IsOpenStack room stack) (h : IsSettled stack) : Admits outer level := by
  fun_induction closePending level operand stack with
  | case1 operand _ operator stack _ ih =>
    cases hopen with
    | pending isInfix _ _ admitted _ tail =>
      exact ih hclose tail (admitted.isSettled (TokenKind.infixLevel?_lt_unary isInfix))
  | case2 operand _ operator stack hle =>
    cases hclose
    -- the operator that stays did not bind as tightly as `level`
    rintro frame ⟨⟩ own hown
    rw [Option.mem_def] at hown
    simpa [hown, Level.not_le_iff] using hle
  | case3 operand stack hne =>
    cases hclose
    cases outer with
    | nil => rintro frame ⟨⟩
    | cons frame rest =>
      cases frame with
      | group => rintro _ ⟨⟩; trivial
      | prefixed operator => exact absurd rfl (h operator rest)
      | pending left operator => exact absurd rfl (hne left operator rest)

/-- Once all pending operators are closed, a group is open or nothing is. -/
theorem Holds.closePending_equality (h : Holds room operand stack) (hsettled : IsSettled stack)
    (hclose : LoxSyntax.closePending .equality operand stack = (left, outer)) :
    outer = [] ∨ ∃ rest, outer = .group :: rest := by
  have hopen : IsOpenStack room outer := (h.closePending hclose).open_stack
  have hleft : IsSettled outer := isSettled_closePending hclose h.open_stack hsettled
  have hadmits : Admits outer .equality := admits_closePending hclose h.open_stack hsettled
  cases hopen with
  | empty => exact Or.inl rfl
  | group _ _ => exact Or.inr ⟨_, rfl⟩
  | prefixed _ _ _ => exact absurd rfl (hleft _ _)
  | pending isInfix _ _ _ _ _ =>
    have hlt : _ < Level.equality := hadmits _ rfl _ isInfix
    exact absurd (Level.equality_le _) (Level.not_le_iff.mpr hlt)

end

end LoxSyntax
