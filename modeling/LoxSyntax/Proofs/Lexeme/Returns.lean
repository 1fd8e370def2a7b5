import LoxSyntax.Proofs.Lexeme.FaultPlace
import LoxSyntax.Proofs.Lexeme.Spelling
import LoxSyntax.Proofs.Text.Returns
set_option autoImplicit false

/-! # Lexemes without carriage returns

A carriage return is a blank of its own, or stands in a comment or a quoted text. Taking all of them
out of a text in which none stands alone leaves its division as it is: a lexeme that ended in front
of a carriage return ends in front of the line feed behind it. -/

namespace LoxSyntax

namespace Lexeme

/-- What is left of a lexeme without its carriage returns, unless it is one itself. -/
def withoutReturns? : Lexeme → Option Lexeme
  | blank c => if c = '\r' then none else some (blank c)
  | comment body => some (comment (withoutReturns body))
  | text content => some (text (withoutReturns content))
  | l => some l

theorem return_not_mem_of_isDigits {digits : List Char} (h : IsDigits digits) : '\r' ∉ digits := by
  intro hmem
  have hdigit := h.2 _ hmem
  cases hdigit

theorem return_not_mem_of_isWord {letters : List Char} (h : IsWord letters) : '\r' ∉ letters := by
  obtain ⟨first, rest, rfl, hfirst, hrest⟩ := h
  intro hmem
  rcases List.mem_cons.mp hmem with rfl | hmem
  · cases hfirst
  · have hword := hrest _ hmem
    cases hword

/-- A property of the following character that a line feed has is not lost with the carriage
    returns. -/
theorem forall_head?_withoutReturns {following : List Char} {P : Char → Prop}
    (hpaired : ReturnsPaired following) (hfeed : P '\n') (h : ∀ c ∈ following.head?, P c) :
    ∀ c ∈ (withoutReturns following).head?, P c := by
  intro c hc
  rw [head?_withoutReturns hpaired] at hc
  split at hc
  · cases hc
    exact hfeed
  · exact h c hc

theorem beginsFraction_withoutReturns {following : List Char} (hpaired : ReturnsPaired following)
    (h : BeginsFraction (withoutReturns following)) : BeginsFraction following := by
  rcases following with _ | ⟨c, following⟩
  · exact h
  · by_cases hc : c = '\r'
    · -- what is left begins with the line feed behind the carriage return
      obtain ⟨d, more, hsplit, _⟩ := h
      have hhead := head?_withoutReturns hpaired
      rw [hsplit, hc] at hhead
      cases hhead
    · rw [withoutReturns_cons_of_ne hc, beginsFraction_cons_iff] at h
      obtain ⟨hpoint, d, hd, hdigit⟩ := h
      rw [Option.mem_def, head?_withoutReturns hpaired.2] at hd
      split at hd
      · cases hd
        cases hdigit
      · exact beginsFraction_cons_iff.mpr ⟨hpoint, d, hd, hdigit⟩

theorem not_mem_withoutReturns {c : Char} {cs : List Char} (h : c ∉ cs) :
    c ∉ withoutReturns cs :=
  fun hmem => h (List.mem_of_mem_filter hmem)

theorem spelling_of_withoutReturns?_eq_none {l : Lexeme} (h : l.withoutReturns? = none) :
    withoutReturns l.spelling = [] := by
  cases l with
  | blank c =>
    simp only [withoutReturns?] at h
    split at h
    · next hc =>
      rw [hc]
      rfl
    · cases h
  | comment | text | symbol | numeral | word => cases h

/-- What is left of a lexeme spells what is left of its spelling. -/
theorem spelling_of_withoutReturns? {l m : Lexeme} (hwell : l.IsWellFormed)
    (h : l.withoutReturns? = some m) : m.spelling = withoutReturns l.spelling := by
  cases l with
  | blank c =>
    simp only [withoutReturns?] at h
    split at h
    · cases h
    · next hc =>
      cases h
      simp [spelling, withoutReturns, hc]
  | comment body | text content =>
    cases h
    simp [spelling, withoutReturns]
  | symbol kind =>
    cases h
    have hsymbol : kind.symbol?.isSome = true := hwell
    refine (withoutReturns_eq_self ?_).symm
    cases kind <;> simp [TokenKind.symbol?] at hsymbol <;> simp [spelling, TokenKind.symbol?]
  | numeral whole fraction =>
    cases h
    have hwhole := return_not_mem_of_isDigits hwell.1
    refine (withoutReturns_eq_self ?_).symm
    rcases fraction with _ | digits
    · exact hwhole
    · simp [spelling, hwhole, return_not_mem_of_isDigits (hwell.2 digits rfl)]
  | word letters =>
    cases h
    exact (withoutReturns_eq_self (return_not_mem_of_isWord hwell)).symm

/-- What is left of a lexeme is well formed, and ends where the lexeme ended. -/
theorem spec_of_withoutReturns? {l m : Lexeme} {following : List Char}
    (hpaired : ReturnsPaired following) (hwell : l.IsWellFormed) (hends : l.EndsBefore following)
    (h : l.withoutReturns? = some m) :
    m.IsWellFormed ∧ m.EndsBefore (withoutReturns following) := by
  cases l with
  | blank c =>
    simp only [withoutReturns?] at h
    split at h
    · cases h
    · cases h
      exact ⟨hwell, trivial⟩
  | comment body =>
    cases h
    exact ⟨not_mem_withoutReturns hwell, forall_head?_withoutReturns hpaired rfl hends⟩
  | text content =>
    cases h
    exact ⟨not_mem_withoutReturns hwell, trivial⟩
  | symbol kind =>
    cases h
    refine ⟨hwell, forall_head?_withoutReturns hpaired ?_ hends⟩
    cases kind <;> decide
  | numeral whole fraction =>
    cases h
    refine ⟨hwell, forall_head?_withoutReturns hpaired (by decide) hends.1, ?_⟩
    intro hnone hfraction
    exact hends.2 hnone (beginsFraction_withoutReturns hpaired hfraction)
  | word letters =>
    cases h
    exact ⟨hwell, forall_head?_withoutReturns hpaired (by decide) hends⟩

end Lexeme

variable {rest : List Char} {ls : List Lexeme}

/-- What is left of the lexemes of a text spells what is left of the text. -/
theorem flatMap_spelling_withoutReturns (h : IsDivision rest ls) :
    (ls.filterMap Lexeme.withoutReturns?).flatMap Lexeme.spelling =
      withoutReturns (ls.flatMap Lexeme.spelling) := by
  induction ls with
  | nil => rfl
  | cons l ls ih =>
    obtain ⟨hwell, _, hmore⟩ := h
    rw [List.flatMap_cons, withoutReturns_append, List.filterMap_cons, ← ih hmore]
    split
    · next hnone => rw [Lexeme.spelling_of_withoutReturns?_eq_none hnone, List.nil_append]
    · next m hsome => rw [List.flatMap_cons, Lexeme.spelling_of_withoutReturns? hwell hsome]

/-- What is left of the lexemes of a text is a division of what is left of the text. -/
theorem IsDivision.withoutReturns (h : IsDivision rest ls)
    (hpaired : ReturnsPaired (ls.flatMap Lexeme.spelling ++ rest)) :
    IsDivision (LoxSyntax.withoutReturns rest) (ls.filterMap Lexeme.withoutReturns?) := by
  induction ls with
  | nil => trivial
  | cons l ls ih =>
    obtain ⟨hwell, hends, hmore⟩ := h
    rw [List.flatMap_cons, List.append_assoc] at hpaired
    have hfollowing := hpaired.of_append
    rw [List.filterMap_cons]
    split
    · exact ih hmore hfollowing
    · next m hsome =>
      obtain ⟨hwell', hends'⟩ := Lexeme.spec_of_withoutReturns? hfollowing hwell hends hsome
      rw [withoutReturns_append, ← flatMap_spelling_withoutReturns hmore] at hends'
      exact ⟨hwell', hends', ih hmore hfollowing⟩

/-- What cannot be read cannot be read without carriage returns either. -/
theorem Lexeme.read_withoutReturns {c : Char} {after : List Char} {fault : LexicalFault}
    (h : read c after = .error fault) : read c (withoutReturns after) = .error fault := by
  rw [read_eq_error_iff] at h ⊢
  rcases h with h | ⟨hfault, hquote, hopen⟩
  · exact Or.inl h
  · exact Or.inr ⟨hfault, hquote, not_mem_withoutReturns hopen⟩

/-! ## Tokens -/

/-- The value with the line ends of a text in it unified. -/
def Literal.dropReturns : Literal → Literal
  | text value => text (LoxSyntax.dropReturns value)
  | literal => literal

/-- The token, a quoted text with the line ends in it unified. -/
def Token.dropReturns (t : Token) : Token :=
  if t.kind = .text then
    { t with
      lexeme := LoxSyntax.dropReturns t.lexeme
      literal := t.literal.map Literal.dropReturns }
  else t

@[simp] theorem Token.line_dropReturns (t : Token) : t.dropReturns.line = t.line := by
  unfold dropReturns
  split <;> rfl

@[simp] theorem Token.kind_dropReturns (t : Token) : t.dropReturns.kind = t.kind := by
  unfold dropReturns
  split <;> rfl

theorem Token.dropReturns_of_ne {t : Token} (h : t.kind ≠ .text) : t.dropReturns = t := by
  rw [dropReturns, if_neg h]

theorem dropReturns_ofList {content : List Char} (h : ReturnsPaired content) :
    dropReturns (String.ofList content) = String.ofList (withoutReturns content) := by
  rw [dropReturns, String.toList_ofList, dropPairedReturns_eq h]

namespace Lexeme

variable {l : Lexeme} {following : List Char} {line : Int}

/-- A lexeme that is nothing but a carriage return spells no token. -/
theorem token?_of_withoutReturns?_eq_none (h : l.withoutReturns? = none) :
    l.token? line = none := by
  cases l with
  | blank c => rfl
  | comment | text | symbol | numeral | word => cases h

/-- What is left of a lexeme spells the token of the lexeme without its carriage returns. -/
theorem token?_of_withoutReturns? {m : Lexeme} (hwell : l.IsWellFormed)
    (hpaired : ReturnsPaired (l.spelling ++ following)) (h : l.withoutReturns? = some m) :
    m.token? line = (l.token? line).map Token.dropReturns := by
  cases l with
  | blank c =>
    simp only [withoutReturns?] at h
    split at h <;> cases h
    rfl
  | comment body =>
    cases h
    rfl
  | text content =>
    cases h
    -- no carriage return stands in front of the closing quote
    have hquoted : ReturnsPaired ('"' :: content ++ '"' :: following) := by
      simpa [spelling] using hpaired
    have hcontent : ReturnsPaired content := (hquoted.of_append_cons (by decide)).2
    simp [token?, Token.dropReturns, Token.ofText, Literal.dropReturns, dropReturns_ofList hcontent]
  | symbol kind =>
    cases h
    have hsymbol : kind.symbol?.isSome = true := hwell
    have hkind : kind ≠ .text := by
      rintro rfl
      cases hsymbol
    rw [token?, Option.map_some, Token.dropReturns_of_ne hkind]
  | numeral whole fraction =>
    cases h
    rw [token?, Option.map_some, Token.dropReturns_of_ne (by simp)]
  | word letters =>
    cases h
    rw [token?, Option.map_some, Token.dropReturns_of_ne (TokenKind.ofWord_ne _).1]

end Lexeme

theorem count_withoutReturns (cs : List Char) :
    (withoutReturns cs).count '\n' = cs.count '\n' :=
  List.count_filter (by decide)

/-- The tokens of a row of lexemes depend on no more than the line it begins on, and what is left of
    the lexemes spells the tokens without their carriage returns. -/
theorem tokensFrom_withoutReturns (h : IsDivision rest ls)
    (hpaired : ReturnsPaired (ls.flatMap Lexeme.spelling ++ rest)) {p q : Position}
    (hline : q.line = p.line) :
    tokensFrom q (ls.filterMap Lexeme.withoutReturns?) =
      (tokensFrom p ls).map Token.dropReturns := by
  induction ls generalizing p q with
  | nil => rfl
  | cons l ls ih =>
    obtain ⟨hwell, _, hmore⟩ := h
    rw [List.flatMap_cons, List.append_assoc] at hpaired
    have hfollowing := hpaired.of_append
    rw [List.filterMap_cons, tokensFrom, List.map_append]
    split
    · next hnone =>
      rw [Lexeme.token?_of_withoutReturns?_eq_none hnone, ih hmore hfollowing]
      · rfl
      · rw [Position.line_advanceBy, ← count_withoutReturns,
          Lexeme.spelling_of_withoutReturns?_eq_none hnone, hline]
        rfl
    · next m hsome =>
      rw [tokensFrom, ih hmore hfollowing, hline,
        Lexeme.token?_of_withoutReturns? hwell hpaired hsome]
      · cases l.token? p.line <;> rfl
      · rw [Position.line_advanceBy, Position.line_advanceBy, hline,
          Lexeme.spelling_of_withoutReturns? hwell hsome, count_withoutReturns]

/-! ## Scans -/

/-- The tokens of a text without its carriage returns are those of the text without theirs, and its
    fault is the fault of the text, on the same line and in the same column. -/
theorem scanText_withoutReturns {text : String} (h : ReturnsPaired text.toList) :
    scanText (dropReturns text) = (scanText text).map (List.map Token.dropReturns) := by
  have hdrop : dropReturns text = String.ofList (withoutReturns text.toList) := by
    rw [dropReturns, dropPairedReturns_eq h]
  rcases hscan : scanText text with f | tokens
  · obtain ⟨ls, c, after, htext, hdivision, hread, hposition⟩ :=
      exists_lexemes_of_scanText_eq_error hscan
    rw [htext] at h
    have hfeed : c ≠ '\n' := by
      rintro rfl
      exact absurd (Lexeme.isBlank_of_read_eq_error hread) (by decide)
    have hreturn : c ≠ '\r' := by
      rintro rfl
      exact absurd (Lexeme.isBlank_of_read_eq_error hread) (by decide)
    have hleft := hdivision.withoutReturns h
    rw [withoutReturns_cons_of_ne hreturn] at hleft
    have hplace : Position.start.advanceBy (withoutReturns (ls.flatMap Lexeme.spelling)) =
        f.position := by
      rw [← dropPairedReturns_eq (h.of_append_cons hfeed), Position.advanceBy_dropPairedReturns,
        hposition]
    have hrefused := scanText_of_read_eq_error hleft (Lexeme.read_withoutReturns hread)
    rw [flatMap_spelling_withoutReturns hdivision, hplace] at hrefused
    rw [hdrop, htext, withoutReturns_append, withoutReturns_cons_of_ne hreturn, hrefused]
    rfl
  · obtain ⟨ls, htext, hdivision, rfl⟩ := exists_lexemes_of_scanText_eq_ok hscan
    have hpaired : ReturnsPaired (ls.flatMap Lexeme.spelling ++ []) := by
      rw [List.append_nil, ← htext]
      exact h
    have htokens := tokensFrom_withoutReturns hdivision hpaired (q := .start) (p := .start) rfl
    have hscanned := scanText_of_isDivision (hdivision.withoutReturns hpaired)
    rw [flatMap_spelling_withoutReturns hdivision, ← htext, count_withoutReturns, htokens]
      at hscanned
    rw [hdrop, hscanned]
    simp [Except.map, Token.dropReturns, Token.endOfInput]

end LoxSyntax
