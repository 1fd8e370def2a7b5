set_option autoImplicit false

/-! # Positions in a text

A position names a place between two characters of a text the way a reader counts it: by line and
by column, both from one. Only a line feed ends a line here; every other character, a carriage
return included, takes one column. -/

namespace LoxSyntax

/-- A place in a text: the line it is on and the column of the character that follows it. -/
structure Position where
  line : Nat := 1
  column : Nat := 1
  deriving DecidableEq, Repr, Inhabited

namespace Position

/-- Where a text begins. -/
def start : Position := {}

/-- The place after the character `c`. -/
def advance (p : Position) (c : Char) : Position :=
  if c = '\n' then ⟨p.line + 1, 1⟩ else ⟨p.line, p.column + 1⟩

/-- The place after all of `cs`. -/
def advanceBy (p : Position) (cs : List Char) : Position :=
  cs.foldl advance p

@[simp] theorem advanceBy_nil (p : Position) : p.advanceBy [] = p := rfl

@[simp] theorem advanceBy_cons (p : Position) (c : Char) (cs : List Char) :
    p.advanceBy (c :: cs) = (p.advance c).advanceBy cs := rfl

theorem advanceBy_append (p : Position) (cs ds : List Char) :
    p.advanceBy (cs ++ ds) = (p.advanceBy cs).advanceBy ds := by
  simp [advanceBy, List.foldl_append]

theorem line_advance (p : Position) (c : Char) :
    (p.advance c).line = p.line + if c = '\n' then 1 else 0 := by
  unfold advance
  split <;> rfl

/-- The line counter counts line feeds and nothing else. -/
theorem line_advanceBy (p : Position) (cs : List Char) :
    (p.advanceBy cs).line = p.line + cs.count '\n' := by
  induction cs generalizing p with
  | nil => simp
  | cons c cs ih =>
      rw [advanceBy_cons, ih, line_advance, List.count_cons]
      by_cases h : c = '\n'
      · simp [h]; omega
      · simp [h]

end Position

end LoxSyntax
