import LoxSyntax.Lexeme.Reading
import LoxSyntax.Proofs.Number.PlainNumeral
set_option autoImplicit false

/-! # Where lexemes end

A lexeme is made of certain characters only, and ends where the text does not go on with more of
them. `Lexeme.read_spec` says so of a lexeme that was read, and `Reading.isDivision_ofText` of all
the lexemes of a text. -/

namespace LoxSyntax

/-- A letter or underscore, and letters, digits and underscores after it. -/
def IsWord (cs : List Char) : Prop :=
  ∃ first rest, cs = first :: rest ∧ isLetter first = true ∧ ∀ c ∈ rest, isWordChar c = true

/-- The character that makes a longer lexeme of a symbol. -/
def TokenKind.extension? : TokenKind → Option Char
  | .bang | .equal | .less | .greater => some '='
  | .slash => some '/'
  | _ => none

/-- Does a text begin with a point and a digit? -/
def BeginsFraction (cs : List Char) : Prop := ∃ d more, cs = '.' :: d :: more ∧ d.isDigit = true

namespace Lexeme

/-- Is a lexeme made of the characters that one of its kind is made of? -/
def IsWellFormed : Lexeme → Prop
  | blank c => isBlank c = true
  | comment body => '\n' ∉ body
  | symbol kind => kind.symbol?.isSome = true
  | text content => '"' ∉ content
  | numeral whole fraction => IsDigits whole ∧ ∀ digits ∈ fraction, IsDigits digits
  | word letters => IsWord letters

/-- Does a lexeme end in front of the given text, rather than go on with it? -/
def EndsBefore (following : List Char) : Lexeme → Prop
  | blank _ => True
  | comment _ => ∀ c ∈ following.head?, c = '\n'
  | symbol kind => ∀ c ∈ following.head?, kind.extension? ≠ some c
  | text _ => True
  | numeral _ fraction =>
    (∀ c ∈ following.head?, c.isDigit = false) ∧ (fraction = none → ¬BeginsFraction following)
  | word _ => ∀ c ∈ following.head?, isWordChar c = false

/-! ## Reading one lexeme -/

theorem readFraction_eq_none_iff {cs : List Char} :
    readFraction cs = none ↔ ¬BeginsFraction cs := by
  constructor
  · rintro h ⟨d, more, rfl, hd⟩
    simp [readFraction, hd] at h
  · intro h
    fun_cases readFraction cs with
    | case1 d more hd => exact absurd ⟨d, more, rfl, hd⟩ h
    | case2 | case3 => rfl

/-- A fraction is a point and all digits after it. -/
theorem readFraction_spec {cs fraction : List Char} (h : readFraction cs = some fraction) :
    ∃ following, '.' :: fraction ++ following = cs ∧ IsDigits fraction ∧
      ∀ c ∈ following.head?, c.isDigit = false := by
  revert h
  fun_cases readFraction cs with
  | case1 d more hd =>
    rintro ⟨⟩
    refine ⟨more.dropWhile Char.isDigit, by simp, ⟨by simp, ?_⟩, head?_dropWhile_eq_false _ _⟩
    exact List.forall_mem_cons.mpr ⟨hd, forall_mem_takeWhile _ _⟩
  | case2 => rintro ⟨⟩
  | case3 => rintro ⟨⟩

/-- A symbol is the character that it was read from, or that character and an equals sign. In the
    first case it goes on with an equals sign only if none follows. -/
theorem symbolKind?_spec {c : Char} {equalFollows : Bool} {kind : TokenKind}
    (h : symbolKind? c equalFollows = some kind) :
    kind.symbol?.isSome = true ∧
      ((symbol kind).spelling = [c] ∧
          (∀ e ∈ kind.extension?, e = '=' ∧ equalFollows = false ∨ e = '/' ∧ c = '/') ∨
        equalFollows = true ∧ (symbol kind).spelling = [c, '='] ∧ kind.extension? = none) := by
  unfold symbolKind? at h
  split at h <;> simp at h <;> subst h <;>
    simp [spelling, TokenKind.symbol?, TokenKind.extension?]

/-- A lexeme that was read is well formed, and ends where it was ended. -/
theorem read_spec {c : Char} {rest : List Char} {l : Lexeme} (h : read c rest = .ok l) :
    ∃ following, l.spelling ++ following = c :: rest ∧ l.IsWellFormed ∧ l.EndsBefore following := by
  revert h
  fun_cases read c rest with
  | case1 hblank =>
    rintro ⟨⟩
    exact ⟨rest, rfl, hblank, trivial⟩
  | case2 _ hslash =>
    rintro ⟨⟩
    simp only [Bool.and_eq_true, decide_eq_true_eq, List.head?_eq_some_iff] at hslash
    obtain ⟨rfl, body, rfl⟩ := hslash
    refine ⟨body.dropWhile (· ≠ '\n'), by simp [spelling], ?_, ?_⟩
    · intro hmem
      simpa using forall_mem_takeWhile _ _ _ hmem
    · intro d hd
      simpa using head?_dropWhile_eq_false _ _ d hd
  | case3 _ _ hquote hclosed =>
    rintro ⟨⟩
    obtain ⟨following, hdrop⟩ := dropWhile_ne_of_mem '"' rest (by simpa using hclosed)
    refine ⟨following, ?_, ?_, trivial⟩
    · have hsplit := List.takeWhile_append_dropWhile (p := (· ≠ '"')) (l := rest)
      rw [hdrop] at hsplit
      simp only [spelling, List.cons_append, List.append_assoc, List.nil_append]
      rw [hsplit, hquote]
    · intro hmem
      simpa using forall_mem_takeWhile _ _ _ hmem
  | case4 => rintro ⟨⟩
  | case5 _ _ _ hdigit =>
    rintro ⟨⟩
    have hwhole : IsDigits (c :: rest.takeWhile Char.isDigit) :=
      ⟨by simp, List.forall_mem_cons.mpr ⟨hdigit, forall_mem_takeWhile _ _⟩⟩
    have hsplit := List.takeWhile_append_dropWhile (p := Char.isDigit) (l := rest)
    cases hfraction : readFraction (rest.dropWhile Char.isDigit) with
    | none =>
      refine ⟨rest.dropWhile Char.isDigit, by simp [spelling], ⟨hwhole, by simp⟩,
        head?_dropWhile_eq_false _ _, fun _ => readFraction_eq_none_iff.mp hfraction⟩
    | some fraction =>
      obtain ⟨following, hdrop, hdigits, hends⟩ := readFraction_spec hfraction
      refine ⟨following, ?_, ⟨hwhole, by simpa using hdigits⟩, hends, by rintro ⟨⟩⟩
      rw [spelling, List.append_assoc, hdrop, List.cons_append, hsplit]
  | case6 _ _ _ _ hletter =>
    rintro ⟨⟩
    exact ⟨rest.dropWhile isWordChar, by simp [spelling],
      ⟨c, _, rfl, hletter, forall_mem_takeWhile _ _⟩, head?_dropWhile_eq_false _ _⟩
  | case7 _ hslash _ _ _ kind hkind =>
    rintro ⟨⟩
    -- a slash with another one after it has been taken for a comment already
    obtain ⟨hsymbol, ⟨hspelling, hextension⟩ | ⟨hequal, hspelling, hextension⟩⟩ :=
      symbolKind?_spec hkind
    · refine ⟨rest, by rw [hspelling]; rfl, hsymbol, fun d hd hextends => ?_⟩
      rw [Option.mem_def] at hd
      rcases hextension d hextends with ⟨rfl, hequal⟩ | ⟨rfl, rfl⟩
      · simp [hd] at hequal
      · simp [hd] at hslash
    · simp only [decide_eq_true_eq, List.head?_eq_some_iff] at hequal
      obtain ⟨following, rfl⟩ := hequal
      exact ⟨following, by rw [hspelling]; rfl, hsymbol, by simp [EndsBefore, hextension]⟩
  | case8 => rintro ⟨⟩

end Lexeme

/-! ## Reading all lexemes -/

/-- Are the lexemes well formed, and does each of them end where the next one begins, the last one
    in front of the given rest? -/
def IsDivision (rest : List Char) : List Lexeme → Prop
  | [] => True
  | l :: ls =>
    l.IsWellFormed ∧ l.EndsBefore (ls.flatMap Lexeme.spelling ++ rest) ∧ IsDivision rest ls

namespace Reading

theorem after_eq_ofText_drop (skip : Nat) (text : List Char) :
    after skip text = ofText (text.drop skip) := by
  induction text generalizing skip with
  | nil => simp [after, ofText]
  | cons c rest ih =>
    cases skip with
    | zero => rfl
    | succ skip => exact ih skip

/-- A text is divided by reading its first lexeme and dividing what follows. -/
theorem ofText_of_read {c : Char} {rest following : List Char} {l : Lexeme}
    (hread : Lexeme.read c rest = .ok l) (hsplit : l.spelling ++ following = c :: rest) :
    ofText (c :: rest) =
      { ofText following with lexemes := l :: (ofText following).lexemes } := by
  have hfollowing : rest.drop (l.spelling.length - 1) = following := by
    cases hspelling : l.spelling with
    | nil => exact absurd hspelling (Lexeme.spelling_ne_nil hread)
    | cons d ds =>
      rw [hspelling] at hsplit
      cases hsplit
      simp
  simp only [ofText, after, hread]
  rw [after_eq_ofText_drop, hfollowing]
  rfl

theorem isDivision_ofText (text : List Char) :
    IsDivision (ofText text).rest (ofText text).lexemes := by
  obtain ⟨size, hsize⟩ : ∃ size, text.length < size := ⟨_, Nat.lt_succ_self _⟩
  induction size generalizing text with
  | zero => exact absurd hsize (Nat.not_lt_zero _)
  | succ size ih =>
    cases text with
    | nil => trivial
    | cons c rest =>
      cases hread : Lexeme.read c rest with
      | error fault =>
        simp only [ofText, after, hread]
        trivial
      | ok l =>
        obtain ⟨following, hsplit, hwell, hends⟩ := Lexeme.read_spec hread
        have hpos := List.length_pos_iff.mpr (Lexeme.spelling_ne_nil hread)
        have hlength := congrArg List.length hsplit
        rw [List.length_append] at hlength
        have hdivision := ih following (by omega)
        rw [ofText_of_read hread hsplit]
        refine ⟨hwell, ?_, hdivision⟩
        rw [← spelling_ofText_append following] at hends
        exact hends

/-- A text is divided to its end, or up to a character that no lexeme can be read from. -/
theorem stop_cases (text : List Char) :
    (ofText text).fault? = none ∧ (ofText text).rest = [] ∨
      ∃ c rest fault, (ofText text).fault? = some fault ∧ (ofText text).rest = c :: rest ∧
        Lexeme.read c rest = .error fault := by
  -- where the reading of a text stops does not depend on how much of it is skipped
  suffices hafter : ∀ skip, (after skip text).fault? = none ∧ (after skip text).rest = [] ∨
      ∃ c rest fault, (after skip text).fault? = some fault ∧ (after skip text).rest = c :: rest ∧
        Lexeme.read c rest = .error fault from hafter 0
  induction text with
  | nil => exact fun _ => Or.inl ⟨rfl, rfl⟩
  | cons c rest ih =>
    intro skip
    cases skip with
    | succ skip => exact ih skip
    | zero =>
      cases hread : Lexeme.read c rest with
      | error fault =>
        simp only [after, hread]
        exact Or.inr ⟨c, rest, fault, rfl, rfl, hread⟩
      | ok l =>
        simp only [after, hread]
        exact ih _

end Reading

end LoxSyntax
