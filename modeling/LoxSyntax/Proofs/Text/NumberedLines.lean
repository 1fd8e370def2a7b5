import LoxSyntax.Proofs.Text.LineBreaks
set_option autoImplicit false

/-! # Lines by their numbers

Line feeds divide a text into lines, one more than there are line feeds, so that behind a line feed
at the end there is one more line, an empty one. The number of a line is the number of line feeds in
front of it (`getElem?_dividedLines`). -/

namespace LoxSyntax

/-- The lines that line feeds divide a text into, each without a carriage return at its end. -/
def dividedLines (text : List Char) : List (List Char) := (text.splitOn '\n').map dropReturn

/-- On the first line nothing is left out of what stands in front of a place. -/
theorem lineAround_of_not_mem {before : List Char} (h : '\n' ∉ before) (after : List Char) :
    lineAround before after = before ++ after.takeWhile (· ≠ '\n') := by
  rw [lineAround, List.rtakeWhile_eq_self_iff.mpr]
  intro c hc
  exact decide_eq_true fun heq => h (heq ▸ hc)

/-- Behind the first line feed the lines are those of the text behind it. -/
theorem lineAround_append_cons (line before after : List Char) :
    lineAround (line ++ '\n' :: before) after = lineAround before after := by
  rw [lineAround, lineAround, rtakeWhile_append_cons (by simp)]

theorem dividedLines_append_cons {line : List Char} (h : '\n' ∉ line) (more : List Char) :
    dividedLines (line ++ '\n' :: more) = dropReturn line :: dividedLines more := by
  rw [dividedLines, List.splitOn_append_cons_self_of_not_mem h, List.map_cons]
  rfl

theorem dividedLines_of_not_mem {line : List Char} (h : '\n' ∉ line) :
    dividedLines line = [dropReturn line] := by
  rw [dividedLines, List.splitOn_eq_singleton h]
  rfl

/-- The line around a place has the number of line feeds in front of the place. -/
theorem getElem?_dividedLines (before after : List Char) :
    (dividedLines (before ++ after))[before.count '\n']? =
      some (dropReturn (lineAround before after)) := by
  -- the induction is on the line feeds in front of the place, each step takes a line away
  induction hcount : before.count '\n' generalizing before with
  | zero =>
    have hbefore : '\n' ∉ before := List.count_eq_zero.mp hcount
    have hline : '\n' ∉ before ++ after.takeWhile (· ≠ '\n') := by
      rw [List.mem_append, not_or]
      refine ⟨hbefore, fun hmem => ?_⟩
      simpa using List.mem_takeWhile_imp hmem
    rw [lineAround_of_not_mem hbefore]
    rcases eq_line_or_exists_lineFeed after with hafter | ⟨more, hafter⟩
    · rw [← hafter] at hline ⊢
      rw [dividedLines_of_not_mem hline]
      rfl
    · nth_rewrite 1 [hafter]
      rw [← List.append_assoc, dividedLines_append_cons hline]
      rfl
  | succ count ih =>
    have hmem : '\n' ∈ before := List.count_pos_iff.mp (by omega)
    obtain ⟨line, more, rfl, hline⟩ := List.eq_append_cons_of_mem hmem
    have hmore : more.count '\n' = count := by
      simpa [List.count_eq_zero.mpr hline] using hcount
    rw [List.append_assoc, List.cons_append, dividedLines_append_cons hline,
      List.getElem?_cons_succ, ih more hmore, lineAround_append_cons]

/-- In the line of a character stands that character, behind all that precedes it in the line. -/
theorem dropReturn_lineAround_cons {c : Char} (hreturn : c ≠ '\r') (hfeed : c ≠ '\n')
    (before after : List Char) :
    dropReturn (lineAround before (c :: after)) =
      before.rtakeWhile (· ≠ '\n') ++ c :: dropReturn (after.takeWhile (· ≠ '\n')) := by
  rw [lineAround, List.takeWhile_cons_of_pos (by simpa using hfeed), dropReturn_append_cons hreturn]

/-- No line is longer than the text. -/
theorem length_dropReturn_lineAround_le (before after : List Char) :
    (dropReturn (lineAround before after)).length ≤ (before ++ after).length := by
  have hdrop :
      (dropReturn (lineAround before after)).length ≤ (lineAround before after).length := by
    unfold dropReturn
    split
    · exact (List.dropLast_sublist _).length_le
    · exact Nat.le_refl _
  refine hdrop.trans ?_
  rw [lineAround, List.length_append, List.length_append]
  exact Nat.add_le_add (List.rtakeWhile_suffix _ _).length_le (List.takeWhile_prefix _).length_le

end LoxSyntax
