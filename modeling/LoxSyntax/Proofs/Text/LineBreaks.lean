import Mathlib.Data.List.DropRight
import LoxSyntax.Text.Line
import LoxSyntax.Text.Position
set_option autoImplicit false

/-! # Line feeds and other line breaks

Positions count the lines that line feeds end, while a reader's lines end at other breaks too. The
two agree on a text as far as it breaks at line feeds only, each alone or behind a carriage return
(`BreaksAtLineFeeds`): up to there, the reader's line with a given number is what stands between two
line feeds, without the carriage return (`getD_splitLines`). -/

namespace LoxSyntax

/-- The column counts the characters after the last line feed. -/
theorem Position.column_advanceBy_start (cs : List Char) :
    (start.advanceBy cs).column = 1 + (cs.rtakeWhile (· ≠ '\n')).length := by
  induction cs using List.reverseRecOn with
  | nil => rfl
  | append_singleton cs c ih =>
    rw [advanceBy_append, advanceBy_cons, advanceBy_nil, advance, List.rtakeWhile_concat]
    by_cases hc : c = '\n'
    · simp [hc]
    · simp [hc, ih]
      omega

/-- Is each line break a line feed, or a carriage return in front of one or at the end? -/
def BreaksAtLineFeeds : List Char → Prop
  | [] => True
  | c :: rest =>
    (isLineBreak c = true → c = '\n' ∨ c = '\r' ∧ ∀ d ∈ rest.head?, d = '\n') ∧
      BreaksAtLineFeeds rest

instance decidableBreaksAtLineFeeds : DecidablePred BreaksAtLineFeeds
  | [] => isTrue trivial
  | c :: rest =>
    have := decidableBreaksAtLineFeeds rest
    -- Only the head is looked at: a search over all characters would decide this as well.
    have : Decidable (∀ d ∈ rest.head?, d = '\n') := Option.decidableForallMem _
    inferInstanceAs (Decidable ((isLineBreak c = true → c = '\n' ∨ c = '\r' ∧ _) ∧ _))

/-- The line without a carriage return at its end. -/
def dropReturn (line : List Char) : List Char :=
  if line.getLast? = some '\r' then line.dropLast else line

theorem dropReturn_cons {c : Char} {line : List Char} (h : c = '\r' → line ≠ []) :
    dropReturn (c :: line) = c :: dropReturn line := by
  cases line with
  | nil =>
    have hc : c ≠ '\r' := fun hc => h hc rfl
    simp [dropReturn, hc]
  | cons d line =>
    simp only [dropReturn, List.getLast?_cons_cons, List.dropLast_cons_cons]
    split <;> rfl

/-- Only what follows the last other character of a line can be dropped from it. -/
theorem dropReturn_append_cons {c : Char} (h : c ≠ '\r') (front back : List Char) :
    dropReturn (front ++ c :: back) = front ++ c :: dropReturn back := by
  induction front with
  | nil => exact dropReturn_cons fun hc => absurd hc h
  | cons d front ih => rw [List.cons_append, dropReturn_cons (by simp), ih, List.cons_append]

/-- What stands around a place between the nearest line feeds. -/
def lineAround (before after : List Char) : List Char :=
  before.rtakeWhile (· ≠ '\n') ++ after.takeWhile (· ≠ '\n')

/-! ## One line -/

theorem BreaksAtLineFeeds.of_append {cs ds : List Char}
    (h : BreaksAtLineFeeds (cs ++ '\n' :: ds)) : BreaksAtLineFeeds cs ∧ BreaksAtLineFeeds ds := by
  induction cs with
  | nil => exact ⟨trivial, h.2⟩
  | cons c cs ih =>
    obtain ⟨hc, hmore⟩ := h
    obtain ⟨hcs, hds⟩ := ih hmore
    refine ⟨⟨fun hbreak => (hc hbreak).imp_right fun ⟨hreturn, hhead⟩ => ⟨hreturn, ?_⟩, hcs⟩, hds⟩
    cases cs with
    | nil => simp
    | cons e cs => exact hhead

/-- A text is one line, or a line and what follows the line feed behind it. -/
theorem eq_line_or_exists_lineFeed (text : List Char) :
    text = text.takeWhile (· ≠ '\n') ∨
      ∃ more, text = text.takeWhile (· ≠ '\n') ++ '\n' :: more := by
  have hsplit := List.takeWhile_append_dropWhile (p := (· ≠ '\n')) (l := text)
  have hhead := List.head?_dropWhile_not (· ≠ '\n') text
  cases hdrop : text.dropWhile (· ≠ '\n') with
  | nil =>
    rw [hdrop, List.append_nil] at hsplit
    exact Or.inl hsplit.symm
  | cons c more =>
    rw [hdrop] at hsplit hhead
    obtain rfl : c = '\n' := by simpa using hhead
    exact Or.inr ⟨more, hsplit.symm⟩

/-- The end of a line is a place to end the text. -/
theorem BreaksAtLineFeeds.to_line_end {before after : List Char}
    (h : BreaksAtLineFeeds (before ++ after)) :
    BreaksAtLineFeeds (before ++ after.takeWhile (· ≠ '\n')) := by
  rcases eq_line_or_exists_lineFeed after with hafter | ⟨more, hafter⟩
  · rwa [← hafter]
  · rw [hafter, ← List.append_assoc] at h
    exact h.of_append.1

theorem splitLines_cons {c : Char} (h : isLineBreak c = false) (rest : List Char) :
    splitLines (c :: rest) =
      (c :: (splitLines rest).headD []) :: (splitLines rest).tail := by
  have hreturn : c ≠ '\r' := by
    rintro rfl
    cases h
  rw [splitLines, h]
  · cases splitLines rest <;> rfl
  · exact fun more hc _ => hreturn hc

/-- At a break an empty line ends, and the lines behind it are those of the rest. -/
theorem exists_splitLines_cons {c : Char} (h : isLineBreak c = true) (rest : List Char) :
    ∃ more, more <:+ rest ∧ splitLines (c :: rest) = [] :: splitLines more := by
  by_cases hpair : c = '\r' ∧ ∃ more, rest = '\n' :: more
  · obtain ⟨rfl, more, rfl⟩ := hpair
    exact ⟨more, List.suffix_cons .., rfl⟩
  · refine ⟨rest, List.suffix_rfl, ?_⟩
    rw [splitLines, if_pos h]
    exact fun more hc hrest => hpair ⟨hc, more, hrest⟩

/-- No line is longer than its text. -/
theorem length_le_of_mem_splitLines {text line : List Char} (h : line ∈ splitLines text) :
    line.length ≤ text.length := by
  -- not on the text itself: a break may take two characters
  induction hlength : text.length using Nat.strong_induction_on generalizing text line with
  | _ length ih =>
    rcases text with _ | ⟨c, rest⟩
    · cases h
    obtain rfl : rest.length + 1 = length := hlength
    cases hbreak : isLineBreak c with
    | true =>
      obtain ⟨more, hmore, hsplit⟩ := exists_splitLines_cons hbreak rest
      have hshorter : more.length < rest.length + 1 := Nat.lt_succ_of_le hmore.length_le
      rw [hsplit] at h
      rcases List.mem_cons.mp h with rfl | h
      · exact Nat.zero_le _
      · exact (ih _ hshorter h rfl).trans hshorter.le
    | false =>
      have hrest : ∀ other ∈ splitLines rest, other.length ≤ rest.length :=
        fun other hother => ih _ (Nat.lt_succ_self _) hother rfl
      rw [splitLines_cons hbreak] at h
      generalize splitLines rest = found at h hrest
      rcases found with _ | ⟨first, lines⟩
      · obtain rfl := List.mem_singleton.mp h
        exact Nat.succ_le_succ (Nat.zero_le _)
      · rcases List.mem_cons.mp h with rfl | h
        · exact Nat.succ_le_succ (hrest first (List.mem_cons_self ..))
        · exact Nat.le_succ_of_le (hrest line (List.mem_cons_of_mem _ h))

/-- A line in front of a line feed, and one at the end of the text. -/
theorem splitLines_line {line : List Char} (hline : '\n' ∉ line)
    (hbreaks : BreaksAtLineFeeds line) :
    (∀ more, splitLines (line ++ '\n' :: more) = dropReturn line :: splitLines more) ∧
      (line ≠ [] → splitLines line = [dropReturn line]) := by
  induction line with
  | nil => exact ⟨fun more => rfl, fun h => absurd rfl h⟩
  | cons c line ih =>
    obtain ⟨hc, hmore⟩ := hbreaks
    obtain ⟨hfeed, hline⟩ : '\n' ≠ c ∧ '\n' ∉ line := by simpa using hline
    obtain ⟨ihFeed, ihEnd⟩ := ih hline hmore
    cases hbreak : isLineBreak c with
    | true =>
      -- a carriage return in front of the line feed or at the end
      obtain ⟨rfl, hhead⟩ := (hc hbreak).resolve_left (Ne.symm hfeed)
      obtain rfl : line = [] := by
        cases line with
        | nil => rfl
        | cons d line => exact absurd (hhead d rfl) fun hd => hline (by simp [hd])
      exact ⟨fun more => rfl, fun _ => rfl⟩
    | false =>
      have hreturn : c ≠ '\r' := by
        rintro rfl
        cases hbreak
      refine ⟨fun more => ?_, fun _ => ?_⟩
      · rw [List.cons_append, splitLines_cons hbreak, ihFeed, dropReturn_cons (absurd · hreturn)]
        rfl
      · rw [splitLines_cons hbreak, dropReturn_cons (absurd · hreturn)]
        cases line with
        | nil => rfl
        | cons d line =>
          rw [ihEnd (by simp)]
          rfl

/-! ## The line with a given number -/

theorem rtakeWhile_append_cons {p : Char → Bool} {c : Char} (h : p c = false)
    (cs ds : List Char) : (cs ++ c :: ds).rtakeWhile p = ds.rtakeWhile p := by
  induction ds using List.reverseRecOn with
  | nil => simp [h]
  | append_singleton ds d ih =>
    rw [← List.cons_append, ← List.append_assoc, List.rtakeWhile_concat, List.rtakeWhile_concat, ih]

/-- The reader's line around a place is what stands there between line feeds, if the text breaks at
    line feeds only up to the end of that line. -/
theorem getD_splitLines {before after : List Char}
    (h : BreaksAtLineFeeds (before ++ after.takeWhile (· ≠ '\n'))) :
    (splitLines (before ++ after)).getD (before.count '\n') [] =
      dropReturn (lineAround before after) := by
  induction hcount : before.count '\n' generalizing before with
  | zero =>
    have hbefore : '\n' ∉ before := List.count_eq_zero.mp hcount
    have haround : lineAround before after = before ++ after.takeWhile (· ≠ '\n') := by
      rw [lineAround, List.rtakeWhile_eq_self_iff.mpr]
      intro c hc
      exact decide_eq_true fun heq => hbefore (heq ▸ hc)
    have hline : '\n' ∉ before ++ after.takeWhile (· ≠ '\n') := by
      rw [List.mem_append, not_or]
      refine ⟨hbefore, fun hmem => ?_⟩
      simpa using List.mem_takeWhile_imp hmem
    obtain ⟨hfeed, hend⟩ := splitLines_line hline h
    rw [haround]
    rcases eq_line_or_exists_lineFeed after with hafter | ⟨more, hafter⟩
    · rw [← hafter] at hend ⊢
      cases htext : before ++ after with
      | nil => rfl
      | cons c line =>
        rw [htext] at hend
        rw [hend (by simp)]
        rfl
    · nth_rewrite 1 [hafter]
      rw [← List.append_assoc, hfeed]
      rfl
  | succ count ih =>
    have hmem : '\n' ∈ before := List.count_pos_iff.mp (by omega)
    obtain ⟨line, more, rfl, hline⟩ := List.eq_append_cons_of_mem hmem
    rw [List.append_assoc, List.cons_append] at h
    obtain ⟨hbreaks, hmore⟩ := h.of_append
    rw [List.append_assoc, List.cons_append, (splitLines_line hline hbreaks).1,
      List.getD_cons_succ, ih hmore, lineAround, lineAround, rtakeWhile_append_cons (by simp)]
    simpa [List.count_eq_zero.mpr hline] using hcount

end LoxSyntax
