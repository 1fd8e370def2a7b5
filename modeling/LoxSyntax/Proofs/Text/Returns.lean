import LoxSyntax.Text.Line
import LoxSyntax.Text.Position
set_option autoImplicit false

/-! # Carriage returns

In a text with the line ends of another system, each line feed has a carriage return in front of it.
Where no carriage return stands alone (`ReturnsPaired`), the ways to get rid of them agree: taking
out those that a line feed follows, writing the two as one, and taking out all. Positions do not
change, since a line feed takes the position to the next line from wherever it was. -/

namespace LoxSyntax

/-- Is each carriage return followed by a line feed? -/
def ReturnsPaired : List Char → Prop
  | [] => True
  | c :: rest => (c = '\r' → rest.head? = some '\n') ∧ ReturnsPaired rest

instance decidableReturnsPaired : DecidablePred ReturnsPaired
  | [] => isTrue trivial
  | c :: rest =>
    have := decidableReturnsPaired rest
    inferInstanceAs (Decidable ((c = '\r' → rest.head? = some '\n') ∧ _))

/-- The characters that are no carriage returns. -/
def withoutReturns (cs : List Char) : List Char := cs.filter (· ≠ '\r')

/-- The text without the carriage returns that a line feed follows. -/
def dropReturns (text : String) : String := String.ofList (dropPairedReturns text.toList)

variable {cs front back : List Char} {c : Char}

theorem ReturnsPaired.of_append (h : ReturnsPaired (front ++ back)) : ReturnsPaired back := by
  induction front with
  | nil => exact h
  | cons c front ih => exact ih h.2

/-- Cutting a text in front of a character that is no line feed leaves no carriage return alone. -/
theorem ReturnsPaired.of_append_cons (h : ReturnsPaired (front ++ c :: back)) (hc : c ≠ '\n') :
    ReturnsPaired front := by
  induction front with
  | nil => trivial
  | cons d front ih =>
    refine ⟨fun hd => ?_, ih h.2⟩
    have hhead := h.1 hd
    rcases front with _ | ⟨e, front⟩
    · exact absurd (Option.some.inj hhead) hc
    · exact hhead

@[simp] theorem withoutReturns_append :
    withoutReturns (front ++ back) = withoutReturns front ++ withoutReturns back :=
  List.filter_append ..

theorem withoutReturns_cons_of_ne (h : c ≠ '\r') :
    withoutReturns (c :: cs) = c :: withoutReturns cs := by
  simp [withoutReturns, h]

@[simp] theorem withoutReturns_cons_return :
    withoutReturns ('\r' :: cs) = withoutReturns cs := by
  simp [withoutReturns]

theorem withoutReturns_eq_self (h : '\r' ∉ cs) : withoutReturns cs = cs := by
  rw [withoutReturns, List.filter_eq_self]
  intro c hc
  have hne : c ≠ '\r' := fun heq => h (heq ▸ hc)
  simp [hne]

/-- A text goes on with the same character without its carriage returns, unless it goes on with one
    of them. Then it goes on with the line feed behind it. -/
theorem head?_withoutReturns (h : ReturnsPaired cs) :
    (withoutReturns cs).head? = if cs.head? = some '\r' then some '\n' else cs.head? := by
  rcases cs with _ | ⟨c, cs⟩
  · rfl
  · by_cases hc : c = '\r'
    · obtain ⟨more, rfl⟩ := List.head?_eq_some_iff.mp (h.1 hc)
      simp [hc, withoutReturns]
    · simp [hc, withoutReturns]

/-- A carriage return that no line feed follows is none of a text where all are followed by one. -/
theorem ReturnsPaired.ne_return (h : ReturnsPaired (c :: cs))
    (hne : ∀ more, c = '\r' → cs = '\n' :: more → False) : c ≠ '\r' := by
  rintro rfl
  obtain ⟨more, rfl⟩ := List.head?_eq_some_iff.mp (h.1 rfl)
  exact hne more rfl rfl

theorem dropPairedReturns_eq (h : ReturnsPaired cs) :
    dropPairedReturns cs = withoutReturns cs := by
  fun_induction dropPairedReturns cs with
  | case1 => rfl
  | case2 rest ih =>
    rw [ih h.2.2, withoutReturns_cons_return, withoutReturns_cons_of_ne (by decide)]
  | case3 c rest hne ih => rw [ih h.2, withoutReturns_cons_of_ne (h.ne_return hne)]

/-- Where no carriage return stands alone, writing both as a line feed is taking them out. -/
theorem unifyLineEnds_eq (h : ReturnsPaired cs) : unifyLineEnds cs = dropPairedReturns cs := by
  fun_induction dropPairedReturns cs with
  | case1 => rfl
  | case2 rest ih => rw [unifyLineEnds, ih h.2.2]
  | case3 c rest hne ih =>
    rw [unifyLineEnds, ih h.2, if_neg (h.ne_return hne)]
    exact hne

/-- A text without carriage returns stays as it is. -/
theorem unifyLineEnds_eq_self (h : '\r' ∉ cs) : unifyLineEnds cs = cs := by
  induction cs with
  | nil => rfl
  | cons c cs ih =>
    obtain ⟨hc, hcs⟩ := not_or.mp (mt List.mem_cons.mpr h)
    rw [unifyLineEnds, ih hcs, if_neg (Ne.symm hc)]
    exact fun _ heq _ => hc heq.symm

/-- No position behind a line feed depends on the carriage return in front of it. -/
theorem Position.advanceBy_dropPairedReturns (p : Position) (cs : List Char) :
    p.advanceBy (dropPairedReturns cs) = p.advanceBy cs := by
  fun_induction dropPairedReturns cs generalizing p with
  | case1 => rfl
  | case2 rest ih => exact ih (p.advance '\n')
  | case3 c rest _ ih => exact ih (p.advance c)

end LoxSyntax
