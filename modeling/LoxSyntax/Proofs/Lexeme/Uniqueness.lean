import LoxSyntax.Lexeme.Scan
import LoxSyntax.Proofs.Lexeme.Division
set_option autoImplicit false

/-! # Only one division

A text can be divided into lexemes in one way only. A lexeme that is well formed and ends where the
text does not go on with it is the one that reading takes (`Lexeme.read_eq_ok_iff`), so a row of
them is what the reading of the text begins with, and the reading goes on behind it
(`Reading.ofText_append`). What follows a row of lexemes matters little to it: lexemes that end in
front of a text end in front of any beginning of that text, and a lexeme looks past one character
only to tell a fraction from a point. -/

namespace LoxSyntax

/-! ## Classes of characters -/

theorem isBlank_eq_false {c : Char} (hlow : 32 < c.toNat) (hhigh : c.toNat < 133) :
    isBlank c = false := by
  simp only [isBlank, CharRanges.contains, blankRanges, List.any_cons, List.any_nil,
    Bool.or_false, Bool.or_eq_false_iff, Bool.and_eq_false_iff, decide_eq_false_iff_not]
  omega

theorem toNat_of_isDigit {c : Char} (h : c.isDigit = true) : 48 ≤ c.toNat ∧ c.toNat ≤ 57 :=
  Char.isDigit_iff_toNat.mp h

theorem toNat_of_isLetter {c : Char} (h : isLetter c = true) : 65 ≤ c.toNat ∧ c.toNat ≤ 122 := by
  delta isLetter Char.isAlpha Char.isUpper Char.isLower at h
  simp only [Bool.or_eq_true, Bool.and_eq_true, decide_eq_true_eq, UInt32.le_iff_toNat_le,
    ge_iff_le] at h
  change ((65 ≤ c.toNat ∧ c.toNat ≤ 90) ∨ (97 ≤ c.toNat ∧ c.toNat ≤ 122)) ∨ c = '_' at h
  rcases h with (h | h) | rfl
  · omega
  · omega
  · decide

theorem isDigit_of_isLetter {c : Char} (h : isLetter c = true) : c.isDigit = false := by
  refine Bool.eq_false_iff.mpr fun hdigit => ?_
  have hlow := (toNat_of_isLetter h).1
  have hhigh := (toNat_of_isDigit hdigit).2
  omega

theorem isBlank_of_isWordChar {c : Char} (h : isWordChar c = true) : isBlank c = false := by
  rcases Bool.or_eq_true_iff.mp h with h | h
  · obtain ⟨hlow, hhigh⟩ := toNat_of_isLetter h
    exact isBlank_eq_false (by omega) (by omega)
  · obtain ⟨hlow, hhigh⟩ := toNat_of_isDigit h
    exact isBlank_eq_false (by omega) (by omega)

/-- What begins a word or a numeral begins no other lexeme. -/
theorem class_of_isWordChar {c : Char} (h : isWordChar c = true) :
    isBlank c = false ∧ c ≠ '/' ∧ c ≠ '"' := by
  refine ⟨isBlank_of_isWordChar h, ?_, ?_⟩
  · rintro rfl
    cases h
  · rintro rfl
    cases h

/-- What begins a symbol begins no other lexeme, comments apart. -/
theorem class_of_symbolKind? {c : Char} {equalFollows : Bool} {kind : TokenKind}
    (h : symbolKind? c equalFollows = some kind) :
    isBlank c = false ∧ c ≠ '"' ∧ c.isDigit = false ∧ isLetter c = false := by
  unfold symbolKind? at h
  split at h <;> first | decide | cases h

namespace Lexeme

/-! ## One lexeme -/

theorem readFraction_append {digits following : List Char} (hdigits : IsDigits digits)
    (hfollowing : ∀ c ∈ following.head?, c.isDigit = false) :
    readFraction ('.' :: digits ++ following) = some digits := by
  obtain ⟨hne, hall⟩ := hdigits
  cases digits with
  | nil => exact absurd rfl hne
  | cons d ds =>
    obtain ⟨hd, hds⟩ := List.forall_mem_cons.mp hall
    have htake := (takeWhile_append_of_head? following hds hfollowing).1
    simp [readFraction, hd, htake]

/-- The character that a symbol begins with, and whether an equals sign follows, tell its kind. -/
theorem symbolKind?_of_endsBefore {kind : TokenKind} {c : Char} {rest following : List Char}
    (hsymbol : kind.symbol?.isSome = true) (hends : (symbol kind).EndsBefore following)
    (hsplit : (symbol kind).spelling ++ following = c :: rest) :
    symbolKind? c (rest.head? = some '=') = some kind ∧ ¬(c = '/' ∧ rest.head? = some '/') := by
  have hne : ∀ e, kind.extension? = some e → following.head? ≠ some e :=
    fun e he hfollowing => hends e hfollowing he
  cases kind <;> simp [TokenKind.symbol?] at hsymbol <;>
    simp [spelling, TokenKind.symbol?] at hsplit <;> obtain ⟨rfl, rfl⟩ := hsplit <;>
    simp [symbolKind?, TokenKind.extension?] at hne ⊢ <;> simp [hne]

theorem read_blank {c : Char} (rest : List Char) (h : isBlank c = true) :
    read c rest = .ok (blank c) := by
  rw [read, if_pos h]

theorem read_comment {body following : List Char} (hbody : '\n' ∉ body)
    (hfollowing : ∀ c ∈ following.head?, c = '\n') :
    read '/' ('/' :: (body ++ following)) = .ok (comment body) := by
  have htake : (body ++ following).takeWhile (fun c => !decide (c = '\n')) = body := by
    refine (takeWhile_append_of_head? following (fun c hc => ?_) (fun c hc => ?_)).1
    · have hne : c ≠ '\n' := fun heq => hbody (heq ▸ hc)
      simp [hne]
    · simp [hfollowing c hc]
  have hblank : isBlank '/' = false := by decide
  simp [read, hblank, htake]

theorem read_text {content : List Char} (following : List Char) (hcontent : '"' ∉ content) :
    read '"' (content ++ '"' :: following) = .ok (text content) := by
  have htake : (content ++ '"' :: following).takeWhile (fun c => !decide (c = '"')) = content := by
    refine (takeWhile_append_of_head? ('"' :: following) (fun c hc => ?_) (by simp)).1
    have hne : c ≠ '"' := fun heq => hcontent (heq ▸ hc)
    simp [hne]
  have hblank : isBlank '"' = false := by decide
  simp [read, hblank, htake]

/-- A digit begins a numeral. -/
theorem read_of_isDigit {c : Char} (rest : List Char) (h : c.isDigit = true) :
    read c rest =
      .ok (numeral (c :: rest.takeWhile Char.isDigit)
        (readFraction (rest.dropWhile Char.isDigit))) := by
  have hword : isWordChar c = true := by rw [isWordChar, h, Bool.or_true]
  obtain ⟨hblank, hslash, hquote⟩ := class_of_isWordChar hword
  simp [read, hblank, hslash, hquote, h]

/-- A letter begins a word. -/
theorem read_of_isLetter {c : Char} (rest : List Char) (h : isLetter c = true) :
    read c rest = .ok (word (c :: rest.takeWhile isWordChar)) := by
  have hword : isWordChar c = true := by rw [isWordChar, h, Bool.true_or]
  obtain ⟨hblank, hslash, hquote⟩ := class_of_isWordChar hword
  have hdigit := isDigit_of_isLetter h
  simp [read, hblank, hslash, hquote, hdigit, h]

theorem read_of_symbolKind? {c : Char} {rest : List Char} {kind : TokenKind}
    (h : symbolKind? c (rest.head? = some '=') = some kind)
    (hcomment : ¬(c = '/' ∧ rest.head? = some '/')) : read c rest = .ok (symbol kind) := by
  obtain ⟨hblank, hquote, hdigit, hletter⟩ := class_of_symbolKind? h
  simp [read, hblank, hquote, hdigit, hletter, hcomment, h]

theorem spelling_ne_nil_of_isWellFormed {l : Lexeme} (h : l.IsWellFormed) : l.spelling ≠ [] := by
  cases l with
  | blank | comment | text => simp [spelling]
  | symbol kind =>
    have hsymbol : kind.symbol?.isSome = true := h
    cases kind <;> simp [TokenKind.symbol?] at hsymbol <;> simp [spelling, TokenKind.symbol?]
  | numeral whole fraction =>
    have hne : whole ≠ [] := h.1.1
    cases fraction <;> simp [spelling, hne]
  | word letters =>
    obtain ⟨first, more, rfl, _⟩ := h
    simp [spelling]

/-- A lexeme that is well formed and ends where it should is the one that is read. -/
theorem read_of_endsBefore {l : Lexeme} {c : Char} {rest following : List Char}
    (hwell : l.IsWellFormed) (hends : l.EndsBefore following)
    (hsplit : l.spelling ++ following = c :: rest) : read c rest = .ok l := by
  cases l with
  | blank b =>
    obtain ⟨rfl, rfl⟩ := List.cons.inj hsplit
    exact read_blank _ hwell
  | comment body =>
    obtain ⟨rfl, rfl⟩ := List.cons.inj hsplit
    exact read_comment hwell hends
  | symbol kind =>
    obtain ⟨hkind, hcomment⟩ := symbolKind?_of_endsBefore hwell hends hsplit
    exact read_of_symbolKind? hkind hcomment
  | text content =>
    simp only [spelling, List.cons_append, List.append_assoc] at hsplit
    obtain ⟨rfl, rfl⟩ := List.cons.inj hsplit
    exact read_text following hwell
  | numeral whole fraction =>
    obtain ⟨⟨hne, hall⟩, hfraction⟩ := hwell
    obtain ⟨d, ds, rfl⟩ := List.exists_cons_of_ne_nil hne
    obtain ⟨hd, hds⟩ := List.forall_mem_cons.mp hall
    cases fraction with
    | none =>
      obtain ⟨rfl, rfl⟩ := List.cons.inj hsplit
      obtain ⟨htake, hdrop⟩ := takeWhile_append_of_head? following hds hends.1
      have hnone := readFraction_eq_none_iff.mpr (hends.2 rfl)
      rw [read_of_isDigit _ hd, List.append_eq, htake, hdrop, hnone]
    | some digits =>
      simp only [spelling, List.cons_append, List.append_assoc] at hsplit
      obtain ⟨rfl, rfl⟩ := List.cons.inj hsplit
      obtain ⟨htake, hdrop⟩ := takeWhile_append_of_head? ('.' :: digits ++ following) hds
        (by simp)
      have hsome := readFraction_append (hfraction digits rfl) hends.1
      rw [read_of_isDigit _ hd, ← List.cons_append, htake, hdrop, hsome]
  | word letters =>
    obtain ⟨first, more, rfl, hfirst, hmore⟩ := hwell
    obtain ⟨rfl, rfl⟩ := List.cons.inj hsplit
    have htake := (takeWhile_append_of_head? following hmore hends).1
    rw [read_of_isLetter _ hfirst, List.append_eq, htake]

/-- What is read is the one lexeme that is well formed and ends where it should. -/
theorem read_eq_ok_iff {l : Lexeme} {c : Char} {rest : List Char} :
    read c rest = .ok l ↔
      ∃ following, l.spelling ++ following = c :: rest ∧ l.IsWellFormed ∧ l.EndsBefore following :=
  ⟨read_spec, fun ⟨_, hsplit, hwell, hends⟩ => read_of_endsBefore hwell hends hsplit⟩

/-! ## What follows a lexeme -/

theorem beginsFraction_cons_iff {c : Char} {cs : List Char} :
    BeginsFraction (c :: cs) ↔ c = '.' ∧ ∃ d ∈ cs.head?, d.isDigit = true := by
  constructor
  · rintro ⟨d, more, heq, hd⟩
    obtain ⟨rfl, rfl⟩ := List.cons.inj heq
    exact ⟨rfl, d, rfl, hd⟩
  · rintro ⟨rfl, d, hhead, hd⟩
    obtain ⟨more, rfl⟩ := List.head?_eq_some_iff.mp hhead
    exact ⟨d, more, rfl, hd⟩

/-- A lexeme that ends in front of a text ends in front of any beginning of it. -/
theorem EndsBefore.of_append {l : Lexeme} {front back : List Char}
    (h : l.EndsBefore (front ++ back)) : l.EndsBefore front := by
  have hhead : ∀ c ∈ front.head?, c ∈ (front ++ back).head? := by
    intro c hc
    obtain ⟨more, rfl⟩ := List.head?_eq_some_iff.mp hc
    rfl
  cases l with
  | blank | text => trivial
  | comment | symbol | word => exact fun c hc => h c (hhead c hc)
  | numeral whole fraction =>
    refine ⟨fun c hc => h.1 c (hhead c hc), fun hnone hfraction => h.2 hnone ?_⟩
    obtain ⟨d, more, rfl, hd⟩ := hfraction
    exact ⟨d, more ++ back, rfl, hd⟩

/-- Where a lexeme ends in front of a character that is no point, what comes after the character
    does not matter. -/
theorem EndsBefore.replace {l : Lexeme} {front more : List Char} {c : Char}
    (h : l.EndsBefore (front ++ c :: more)) (hc : c ≠ '.') (other : List Char) :
    l.EndsBefore (front ++ c :: other) := by
  have hhead : ∀ cs : List Char, (cs ++ c :: other).head? = (cs ++ c :: more).head? := by
    intro cs
    simp
  cases l with
  | blank | text => trivial
  | comment | symbol | word => exact fun d hd => h d (hhead front ▸ hd)
  | numeral whole fraction =>
    refine ⟨fun d hd => h.1 d (hhead front ▸ hd), fun hnone hfraction => h.2 hnone ?_⟩
    cases front with
    | nil => exact absurd (beginsFraction_cons_iff.mp hfraction).1 hc
    | cons d front =>
      rw [List.cons_append, beginsFraction_cons_iff] at hfraction ⊢
      rwa [hhead] at hfraction

end Lexeme

/-! ## Rows of lexemes -/

variable {rest : List Char} {ls : List Lexeme}

theorem isDivision_append {ms : List Lexeme} :
    IsDivision rest (ls ++ ms) ↔
      IsDivision (ms.flatMap Lexeme.spelling ++ rest) ls ∧ IsDivision rest ms := by
  induction ls with
  | nil => simp [IsDivision]
  | cons l ls ih => simp [IsDivision, ih, and_assoc]

theorem IsDivision.of_append {front back : List Char} (h : IsDivision (front ++ back) ls) :
    IsDivision front ls := by
  induction ls with
  | nil => trivial
  | cons l ls ih =>
    obtain ⟨hwell, hends, hmore⟩ := h
    rw [← List.append_assoc] at hends
    exact ⟨hwell, hends.of_append, ih hmore⟩

theorem IsDivision.replace {c : Char} {more : List Char} (h : IsDivision (c :: more) ls)
    (hc : c ≠ '.') (other : List Char) : IsDivision (c :: other) ls := by
  induction ls with
  | nil => trivial
  | cons l ls ih =>
    obtain ⟨hwell, hends, hmore⟩ := h
    exact ⟨hwell, hends.replace hc other, ih hmore⟩

namespace Reading

/-- A text that begins with well-divided lexemes is read as these and what follows them. -/
theorem ofText_append (h : IsDivision rest ls) :
    ofText (ls.flatMap Lexeme.spelling ++ rest) =
      { ofText rest with lexemes := ls ++ (ofText rest).lexemes } := by
  induction ls with
  | nil => rfl
  | cons l ls ih =>
    obtain ⟨hwell, hends, hmore⟩ := h
    obtain ⟨c, cs, hspelling⟩ :=
      List.exists_cons_of_ne_nil (Lexeme.spelling_ne_nil_of_isWellFormed hwell)
    rw [List.flatMap_cons, List.append_assoc]
    have hsplit : l.spelling ++ (ls.flatMap Lexeme.spelling ++ rest) =
        c :: (cs ++ (ls.flatMap Lexeme.spelling ++ rest)) := by rw [hspelling, List.cons_append]
    have hread := Lexeme.read_of_endsBefore hwell hends hsplit
    rw [hsplit, ofText_of_read hread hsplit, ih hmore]
    rfl

theorem ofText_of_read_eq_error {c : Char} {fault : LexicalFault}
    (h : Lexeme.read c rest = .error fault) :
    ofText (c :: rest) = { rest := c :: rest, fault? := some fault } := by
  simp only [ofText, after, h]

end Reading

/-! ## Scans -/

namespace Scan

/-- A pass over well-divided lexemes finds their tokens and the end of the input. -/
theorem pass_of_isDivision (h : IsDivision [] ls) (p : Position) (tokens : List Token) :
    let last := p.advanceBy (ls.flatMap Lexeme.spelling)
    let found := tokens ++ tokensFrom p ls ++ [Token.endOfInput last.line]
    pass ⟨ls.flatMap Lexeme.spelling, p, tokens⟩ = (.ok found, ⟨[], last, found⟩) := by
  have hreading := Reading.ofText_append h
  have hempty : Reading.ofText [] = {} := rfl
  rw [List.append_nil] at hreading
  simp [pass, hreading, hempty, Reading.spelling]

/-- A pass stops where no lexeme can be read after well-divided ones. -/
theorem pass_of_read_eq_error {c : Char} {fault : LexicalFault} (h : IsDivision (c :: rest) ls)
    (hread : Lexeme.read c rest = .error fault) (p : Position) (tokens : List Token) :
    let place := p.advanceBy (ls.flatMap Lexeme.spelling)
    pass ⟨ls.flatMap Lexeme.spelling ++ c :: rest, p, tokens⟩ =
      (.error ⟨fault, place⟩, stopAt fault place (c :: rest) (tokens ++ tokensFrom p ls)) := by
  have hreading := Reading.ofText_append h
  rw [Reading.ofText_of_read_eq_error hread] at hreading
  simp [pass, hreading, Reading.spelling]

end Scan

theorem scanText_of_isDivision (h : IsDivision [] ls) :
    scanText (String.ofList (ls.flatMap Lexeme.spelling)) =
      .ok (tokensFrom .start ls ++
        [Token.endOfInput (1 + (ls.flatMap Lexeme.spelling).count '\n' : Nat)]) := by
  rw [scanText, Scan.ofText, String.toList_ofList, Scan.pass_of_isDivision h,
    Position.line_advanceBy]
  rfl

theorem scanText_of_read_eq_error {c : Char} {fault : LexicalFault}
    (h : IsDivision (c :: rest) ls) (hread : Lexeme.read c rest = .error fault) :
    scanText (String.ofList (ls.flatMap Lexeme.spelling ++ c :: rest)) =
      .error ⟨fault, Position.start.advanceBy (ls.flatMap Lexeme.spelling)⟩ := by
  rw [scanText, Scan.ofText, String.toList_ofList, Scan.pass_of_read_eq_error h hread]

/-- A text that is turned into tokens consists of well-divided lexemes, which spell the tokens. -/
theorem exists_lexemes_of_scanText_eq_ok {text : String} {tokens : List Token}
    (h : scanText text = .ok tokens) :
    ∃ ls, text.toList = ls.flatMap Lexeme.spelling ∧ IsDivision [] ls ∧
      tokens = tokensFrom .start ls ++ [Token.endOfInput (1 + text.toList.count '\n' : Nat)] := by
  have hspelling := Reading.spelling_ofText_append text.toList
  have hdivision := Reading.isDivision_ofText text.toList
  rcases Reading.stop_cases text.toList with ⟨_, hrest⟩ | ⟨c, rest, fault, hfault, _, _⟩
  · rw [hrest] at hspelling hdivision
    rw [List.append_nil] at hspelling
    have hscan := scanText_of_isDivision hdivision
    rw [← Reading.spelling, hspelling, String.ofList_toList, h] at hscan
    exact ⟨_, hspelling.symm, hdivision, Except.ok.inj hscan⟩
  · simp [scanText, Scan.pass, Scan.ofText, hfault] at h

/-- A text that is refused consists of well-divided lexemes up to the fault. -/
theorem exists_lexemes_of_scanText_eq_error {text : String} {f : LocatedFault}
    (h : scanText text = .error f) :
    ∃ ls c rest, text.toList = ls.flatMap Lexeme.spelling ++ c :: rest ∧
      IsDivision (c :: rest) ls ∧ Lexeme.read c rest = .error f.fault ∧
      f.position = Position.start.advanceBy (ls.flatMap Lexeme.spelling) := by
  revert h
  simp only [scanText, Scan.pass, Scan.ofText]
  have hspelling := Reading.spelling_ofText_append text.toList
  have hdivision := Reading.isDivision_ofText text.toList
  rcases Reading.stop_cases text.toList with ⟨hnone, _⟩ | ⟨c, rest, fault, hfault, hrest, hread⟩
  · rw [hnone]
    rintro ⟨⟩
  · rw [hfault]
    rintro ⟨⟩
    rw [hrest] at hspelling hdivision
    exact ⟨_, c, rest, hspelling.symm, hdivision, hread, rfl⟩

end LoxSyntax
