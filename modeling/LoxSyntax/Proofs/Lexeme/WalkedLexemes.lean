import LoxSyntax.Proofs.Lexeme.FaultPlace
import LoxSyntax.Proofs.Lexeme.Spelling
import LoxSyntax.Proofs.Lexeme.Walk
set_option autoImplicit false

/-! # Lexemes, character by character

The steps of a walk take the lexeme that reading takes. Most of them lie on a run of characters of
one class, which the walk stays in one stage for (`TakesLexeme.of_run`), so each kind of lexeme
needs its first step, its runs and its last step only. What a walk does with the lexeme ahead is
told by `takesLexeme_of_endsBefore` and `exists_takesLexeme_of_read_eq_error`, and what it does up
to a halt by `exists_runs_pass`: it does what one pass does. -/

namespace LoxSyntax

namespace Walk

variable {w : Walk} {c : Char} {run following rest : List Char}

/-! ## What lies ahead -/

/-- The walk, behind a run of characters. -/
def behind (w : Walk) (run : List Char) (stage : Stage) : Walk :=
  { w with taken := w.taken + run.length, position := w.position.advanceBy run, stage }

theorem behind_append (w : Walk) (run more : List Char) (inside stage : Stage) :
    (w.behind run inside).behind more stage = w.behind (run ++ more) stage := by
  simp [behind, Position.advanceBy_append, Nat.add_assoc]

theorem behind_nil (w : Walk) : w.behind [] w.stage = w := rfl

theorem peek_eq (w : Walk) (distance : Nat) : w.peek distance = w.ahead[distance]? :=
  List.getElem?_drop.symm

theorem ahead_behind (h : w.ahead = run ++ following) (stage : Stage) :
    (w.behind run stage).ahead = following := by
  have hdrop : (w.behind run stage).ahead = w.ahead.drop run.length := List.drop_drop.symm
  rw [hdrop, h, List.drop_left]

theorem since_behind {front : List Char} (h : w.ahead = front ++ run ++ following)
    (stage : Stage) : (w.behind (front ++ run) stage).since (w.taken + front.length) = run := by
  have htake : (w.behind (front ++ run) stage).since (w.taken + front.length) =
      (w.ahead.take (front ++ run).length).drop front.length := by
    change (w.text.take (w.taken + (front ++ run).length)).drop (w.taken + front.length) = _
    rw [← List.drop_drop, List.drop_take, Nat.add_sub_cancel_left]
    rfl
  rw [htake, h, List.take_left, List.drop_left]

theorem line_behind (h : '\n' ∉ run) (stage : Stage) :
    (w.behind run stage).position.line = w.position.line := by
  rw [behind, Position.line_advanceBy, List.count_eq_zero.mpr h, Nat.add_zero]

/-- The character ahead, if any, is of no class that the next one is not of. -/
theorem any_peek_eq_false {p : Char → Bool} (h : ∀ c ∈ w.ahead.head?, p c = false) :
    (w.peek 0).any p = false := by
  rw [peek_eq, ← List.head?_eq_getElem?]
  cases hhead : w.ahead.head? with
  | none => rfl
  | some c => exact h c hhead

theorem take_eq (h : w.ahead = c :: following) (stage : Stage) :
    w.take stage = (none, w.behind [c] stage) := by
  have hpeek : w.peek 0 = some c := by rw [peek_eq, h, List.getElem?_cons_zero]
  rw [take, hpeek]
  rfl

/-- A walk stays in a stage as long as the characters ahead are of the class of that stage. -/
theorem TakesLexeme.of_run {p : Char → Bool} {stage : Stage} {ending : Option Halt × Walk}
    (hinside : stage ≠ .between)
    (hstep : ∀ v : Walk, v.stage = stage → (v.peek 0).any p = true → v.step = v.take stage)
    (hrun : ∀ c ∈ run, p c = true) (hw : w.stage = stage) (hahead : w.ahead = run ++ following)
    (h : (w.behind run stage).TakesLexeme ending) : w.TakesLexeme ending := by
  induction run generalizing w with
  | nil =>
    rw [← hw, behind_nil] at h
    exact h
  | cons c run ih =>
    obtain ⟨hc, hrun⟩ := List.forall_mem_cons.mp hrun
    have hpeek : (w.peek 0).any p = true := by
      rw [peek_eq, hahead]
      exact hc
    have htake := (hstep w hw hpeek).trans (take_eq hahead stage)
    refine .goesOn htake hinside (ih hrun rfl (@ahead_behind w [c] _ hahead stage) ?_)
    rw [behind_append]
    exact h

/-! ## Steps inside a lexeme -/

section Steps

variable {start : Nat} {opened : Position} {first longer : TokenKind}

theorem step_comment (hw : w.stage = .comment) :
    w.step = if (w.peek 0).any (· ≠ '\n') then w.take .comment else w.goOn .between := by
  simp only [step, hw]

theorem step_symbol (hw : w.stage = .symbol c first) (hlonger : symbolKind? c true = some longer) :
    w.step = if w.peek 0 = some '=' ∧ longer ≠ first then w.take (.longSymbol c longer)
      else w.emit ⟨first, String.ofList [c], none, w.position.line⟩ := by
  simp only [step, hw, hlonger, Bool.and_eq_true, decide_eq_true_eq]

theorem step_text (hw : w.stage = .text start opened) (hany : (w.peek 0).any (· ≠ '"') = true) :
    w.step = w.take (.text start opened) := by
  cases hpeek : w.peek 0 with
  | none =>
    rw [hpeek] at hany
    cases hany
  | some c =>
    have hne : c ≠ '"' := by simpa [hpeek] using hany
    simp only [step, hw, hpeek, if_neg hne]

theorem step_text_of_quote (hw : w.stage = .text start opened) (hpeek : w.peek 0 = some '"') :
    w.step = w.take (.closed (w.since start) opened.line) := by
  simp only [step, hw, hpeek, if_true]

theorem step_text_of_end (hw : w.stage = .text start opened) (hpeek : w.peek 0 = none) :
    w.step = w.halt (.fault ⟨.unterminatedText, opened⟩) := by
  simp only [step, hw, hpeek]

theorem step_whole (hw : w.stage = .whole start) :
    w.step = if (w.peek 0).any Char.isDigit then w.take (.whole start)
      else if w.peek 0 = some '.' ∧ (w.peek 1).any Char.isDigit then w.take (.fraction start)
      else w.emitNumber start := by
  simp only [step, hw, Bool.and_eq_true, decide_eq_true_eq]

theorem step_fraction (hw : w.stage = .fraction start) :
    w.step = if (w.peek 0).any Char.isDigit then w.take (.fraction start)
      else w.emitNumber start := by
  simp only [step, hw]

theorem step_word (hw : w.stage = .word start) :
    w.step = if (w.peek 0).any isWordChar then w.take (.word start)
      else w.emit (Token.ofWord (String.ofList (w.since start)) w.position.line) := by
  simp only [step, hw]

end Steps

/-! ## One lexeme -/

/-- The walk behind a lexeme, with the token that it spells. -/
def found (w : Walk) (l : Lexeme) : Walk :=
  { w.behind l.spelling .between with
    tokens := w.tokens ++ (l.token? w.position.line).toList }

theorem step_between (hw : w.stage = .between) (hahead : w.ahead = c :: rest) :
    w.step = w.startWith c := by
  have hpeek : w.peek 0 = some c := by rw [peek_eq, hahead, List.getElem?_cons_zero]
  simp only [step, hw, hpeek]

/-- Behind its spelling, a lexeme is taken with the token that it spells. -/
theorem TakesLexeme.of_emit {l : Lexeme} {t : Token} {stage : Stage}
    (hspelling : l.spelling = run) (htoken : l.token? w.position.line = some t)
    (hstep : (w.behind run stage).step = (w.behind run stage).emit t) :
    (w.behind run stage).TakesLexeme (none, w.found l) := by
  rw [found, hspelling, htoken]
  exact .returns hstep rfl

theorem takesLexeme_blank (hw : w.stage = .between) (hahead : w.ahead = c :: following)
    (hblank : isBlank c = true) : w.TakesLexeme (none, w.found (.blank c)) := by
  have hstep : w.step = (none, w.behind [c] .between) := by
    rw [step_between hw hahead, startWith, if_pos hblank, take_eq hahead]
  have hfound : w.found (.blank c) = w.behind [c] .between := by
    simp [found, behind, Lexeme.token?, Lexeme.spelling]
  rw [hfound]
  exact .returns hstep rfl

theorem takesLexeme_comment {body : List Char} (hw : w.stage = .between)
    (hahead : w.ahead = '/' :: '/' :: body ++ following) (hbody : '\n' ∉ body)
    (hends : ∀ c ∈ following.head?, c = '\n') :
    w.TakesLexeme (none, w.found (.comment body)) := by
  have hpeek : w.peek 1 = some '/' := by
    rw [peek_eq, hahead]
    rfl
  have hfirst : w.step = w.goOn .comment := by
    rw [step_between hw hahead]
    simp [startWith, hpeek, show isBlank '/' = false by decide]
  have hrun : ∀ c ∈ '/' :: '/' :: body, decide (c ≠ '\n') = true := by
    intro c hc
    have hne : c ≠ '\n' := by
      rintro rfl
      simp at hc
      exact hbody hc
    simpa using hne
  have hinside : ∀ v : Walk, v.stage = .comment → (v.peek 0).any (· ≠ '\n') = true →
      v.step = v.take .comment :=
    fun v hv hany => (step_comment hv).trans (if_pos hany)
  refine .goesOn hfirst (by simp) (.of_run (by simp) hinside hrun rfl hahead ?_)
  -- the comment ends in front of a line feed, or at the end of the text
  have hstop : ((w.behind ('/' :: '/' :: body) .comment).peek 0).any (· ≠ '\n') = false := by
    apply any_peek_eq_false
    rw [ahead_behind hahead]
    intro c hc
    simp [hends c hc]
  have hlast : (w.behind ('/' :: '/' :: body) .comment).step =
      (none, w.behind ('/' :: '/' :: body) .between) := by
    rw [step_comment rfl, hstop]
    rfl
  have hfound : w.found (.comment body) = w.behind ('/' :: '/' :: body) .between := by
    simp [found, behind, Lexeme.token?, Lexeme.spelling]
  rw [hfound]
  exact .returns hlast rfl

/-- What a symbol begins with begins it whether or not an equals sign follows. -/
theorem exists_symbolKind? {equalFollows : Bool} {kind : TokenKind}
    (h : symbolKind? c equalFollows = some kind) (follows : Bool) :
    ∃ other, symbolKind? c follows = some other := by
  cases hother : symbolKind? c follows with
  | some other => exact ⟨other, rfl⟩
  | none =>
    rw [symbolKind?_eq_none_iff.mpr (symbolKind?_eq_none_iff.mp hother)] at h
    cases h

/-- A symbol that an equals sign makes another one is spelled with the equals sign. -/
theorem spelling_of_longer {first longer : TokenKind} (hfirst : symbolKind? c false = some first)
    (hlonger : symbolKind? c true = some longer) (hne : longer ≠ first) :
    (Lexeme.symbol longer).spelling = [c, '='] := by
  unfold symbolKind? at hfirst hlonger
  split at hlonger <;> simp at hfirst hlonger <;> subst hfirst hlonger <;>
    first | contradiction | rfl

theorem token?_symbol (kind : TokenKind) (line : Int) :
    (Lexeme.symbol kind).token? line =
      some ⟨kind, String.ofList (Lexeme.symbol kind).spelling, none, line⟩ := by
  rw [Lexeme.token?, Lexeme.spelling, String.ofList_toList]

theorem takesLexeme_symbol {kind : TokenKind} (hw : w.stage = .between)
    (hahead : w.ahead = (Lexeme.symbol kind).spelling ++ following)
    (hwell : (Lexeme.symbol kind).IsWellFormed)
    (hends : (Lexeme.symbol kind).EndsBefore following) :
    w.TakesLexeme (none, w.found (.symbol kind)) := by
  obtain ⟨c, rest, hsplit⟩ : ∃ c rest, (Lexeme.symbol kind).spelling ++ following = c :: rest :=
    List.exists_cons_of_ne_nil (by simp [Lexeme.spelling_ne_nil_of_isWellFormed hwell])
  obtain ⟨hkind, hcomment⟩ := Lexeme.symbolKind?_of_endsBefore hwell hends hsplit
  have hrest : w.ahead = [c] ++ rest := hahead.trans hsplit
  obtain ⟨first, hfirst⟩ := exists_symbolKind? hkind false
  obtain ⟨longer, hlonger⟩ := exists_symbolKind? hkind true
  obtain ⟨hblank, _⟩ := class_of_symbolKind? hkind
  have hfeed : '\n' ≠ c := by
    rintro rfl
    cases hblank.symm.trans isBlank_lineFeed
  have hpeek : w.peek 1 = rest.head? := by
    rw [peek_eq, hrest, List.head?_eq_getElem?]
    rfl
  have hstart : w.step = (none, w.behind [c] (.symbol c first)) := by
    rw [step_between hw hrest, ← take_eq hrest]
    simp [startWith, hblank, hpeek, hcomment, hfirst]
  refine .goesOn hstart (by simp [behind]) ?_
  have hnext : (w.behind [c] (.symbol c first)).step = _ := step_symbol rfl hlonger
  rw [peek_eq, ahead_behind hrest, ← List.head?_eq_getElem?] at hnext
  by_cases hequal : rest.head? = some '=' ∧ longer ≠ first
  · rw [if_pos hequal] at hnext
    obtain ⟨hequal, hne⟩ := hequal
    obtain ⟨tail, rfl⟩ := List.head?_eq_some_iff.mp hequal
    have hsame : longer = kind := by simpa [hlonger] using hkind
    have hspelling := spelling_of_longer hfirst hlonger hne
    rw [take_eq (ahead_behind hrest _), behind_append] at hnext
    rw [hsame] at hspelling hnext
    refine .goesOn hnext (by simp [behind]) (.of_emit hspelling (token?_symbol kind _) ?_)
    have hline := @line_behind w [c, '='] (by simpa using hfeed) (.longSymbol c kind)
    rw [hspelling, ← hline]
    rfl
  · rw [if_neg hequal] at hnext
    have hsame : first = kind := by
      by_cases hfollows : rest.head? = some '='
      · have hlonger' : longer = kind := by simpa [hfollows, hlonger] using hkind
        have hshort : longer = first := by
          by_contra hne
          exact hequal ⟨hfollows, hne⟩
        exact hshort.symm.trans hlonger'
      · simpa [hfollows, hfirst] using hkind
    have hspelling : (Lexeme.symbol kind).spelling = [c] := by
      obtain ⟨_, ⟨hspelling, _⟩ | ⟨hfalse, _⟩⟩ := Lexeme.symbolKind?_spec hfirst
      · exact hsame ▸ hspelling
      · cases hfalse
    subst hsame
    refine .of_emit hspelling (token?_symbol _ _) ?_
    have hline := @line_behind w [c] (by simpa using hfeed) (.symbol c first)
    rw [hspelling, ← hline]
    exact hnext

/-- Behind an opening quote, a walk takes what holds no quote. -/
theorem TakesLexeme.of_quoted {content : List Char} {ending : Option Halt × Walk}
    (hw : w.stage = .between) (hahead : w.ahead = '"' :: content ++ following)
    (hcontent : '"' ∉ content)
    (h : (w.behind ('"' :: content) (.text (w.taken + 1) w.position)).TakesLexeme ending) :
    w.TakesLexeme ending := by
  have hopen : w.step = (none, w.behind ['"'] (.text (w.taken + 1) w.position)) := by
    rw [step_between hw hahead, ← take_eq hahead]
    simp [startWith, show isBlank '"' = false by decide,
      show symbolKind? '"' false = none from rfl]
  have hrun : ∀ c ∈ content, decide (c ≠ '"') = true := by
    intro c hc
    have hne : c ≠ '"' := fun hquote => hcontent (hquote ▸ hc)
    simpa using hne
  have hopened := @ahead_behind w ['"'] _ hahead (.text (w.taken + 1) w.position)
  refine .goesOn hopen (by simp [behind]) ?_
  refine .of_run (by simp) (fun v => step_text) hrun rfl hopened ?_
  rw [behind_append]
  exact h

theorem takesLexeme_text {content : List Char} (hw : w.stage = .between)
    (hahead : w.ahead = '"' :: content ++ '"' :: following) (hcontent : '"' ∉ content) :
    w.TakesLexeme (none, w.found (.text content)) := by
  refine .of_quoted hw hahead hcontent ?_
  have hclosing := ahead_behind hahead (.text (w.taken + 1) w.position)
  have hsince : (w.behind ('"' :: content) (.text (w.taken + 1) w.position)).since (w.taken + 1) =
      content := @since_behind w content _ ['"'] hahead _
  have hpeek : (w.behind ('"' :: content) (.text (w.taken + 1) w.position)).peek 0 = some '"' := by
    rw [peek_eq, hclosing]
    rfl
  have hclose := step_text_of_quote rfl hpeek
  rw [take_eq hclosing, behind_append, hsince] at hclose
  exact .goesOn hclose (by simp [behind]) (.of_emit rfl rfl rfl)

theorem takesLexeme_of_openQuote (hw : w.stage = .between) (hahead : w.ahead = '"' :: rest)
    (hopen : '"' ∉ rest) :
    w.TakesLexeme
      (some (.fault ⟨.unterminatedText, w.position⟩), w.behind ('"' :: rest) .between) := by
  have hall : w.ahead = '"' :: rest ++ [] := by rw [hahead, List.append_nil]
  refine .of_quoted hw hall hopen (.halts (step_text_of_end rfl ?_))
  rw [peek_eq, ahead_behind hall]
  rfl

theorem startWith_of_isWordChar (h : isWordChar c = true) :
    w.startWith c = if c.isDigit then w.goOn (.whole w.taken) else w.goOn (.word w.taken) := by
  obtain ⟨hblank, hslash, hquote⟩ := class_of_isWordChar h
  have hkind : symbolKind? c false = none := by
    cases hkind : symbolKind? c false with
    | none => rfl
    | some kind =>
      obtain ⟨_, _, hdigit, hletter⟩ := class_of_symbolKind? hkind
      rw [isWordChar, hdigit, hletter] at h
      cases h
  by_cases hdigit : c.isDigit = true
  · simp [startWith, hblank, hslash, hquote, hkind, hdigit]
  · have hletter : isLetter c = true := by simpa [isWordChar, hdigit] using h
    simp [startWith, hblank, hslash, hquote, hkind, hdigit, hletter]

theorem beginsFraction_ahead_iff :
    BeginsFraction w.ahead ↔ w.peek 0 = some '.' ∧ (w.peek 1).any Char.isDigit = true := by
  rw [peek_eq, peek_eq]
  cases w.ahead with
  | nil => simp [BeginsFraction]
  | cons c cs => cases cs <;> simp [BeginsFraction]

theorem lineFeed_not_mem_of_isPlainNumeral {numeral : List Char} (h : IsPlainNumeral numeral) :
    '\n' ∉ numeral := by
  have hfeed : ∀ digits, IsDigits digits → '\n' ∉ digits :=
    fun digits hdigits hmem => absurd (hdigits.2 _ hmem) (by decide)
  rcases h with hdigits | ⟨whole, fraction, hwhole, hfraction, rfl⟩
  · exact hfeed _ hdigits
  · intro hmem
    rcases List.mem_append.mp hmem with hmem | hmem
    · exact hfeed _ hwhole hmem
    · rcases List.mem_cons.mp hmem with hpoint | hmem
      · cases hpoint
      · exact hfeed _ hfraction hmem

/-- What is read as a numeral has a value, so that its token is added. -/
theorem TakesLexeme.of_emitNumber {whole : List Char} {fraction : Option (List Char)}
    {stage : Stage} (hwell : (Lexeme.numeral whole fraction).IsWellFormed)
    (hahead : w.ahead = (Lexeme.numeral whole fraction).spelling ++ following)
    (hstep : (w.behind (Lexeme.numeral whole fraction).spelling stage).step =
      (w.behind (Lexeme.numeral whole fraction).spelling stage).emitNumber w.taken) :
    (w.behind (Lexeme.numeral whole fraction).spelling stage).TakesLexeme
      (none, w.found (.numeral whole fraction)) := by
  obtain ⟨hplain, hread⟩ := Lexeme.read?_numeral hwell
  have hsince : (w.behind (Lexeme.numeral whole fraction).spelling stage).since w.taken =
      (Lexeme.numeral whole fraction).spelling := @since_behind w _ _ [] hahead _
  refine .of_emit rfl rfl ?_
  rw [hstep, emitNumber, hsince, Token.ofNumeral?, hread,
    line_behind (lineFeed_not_mem_of_isPlainNumeral hplain)]
  rfl

/-- A walk takes the digits that a numeral begins with. -/
theorem TakesLexeme.of_digits {whole : List Char} {ending : Option Halt × Walk}
    (hw : w.stage = .between) (hahead : w.ahead = whole ++ following) (hwhole : IsDigits whole)
    (h : (w.behind whole (.whole w.taken)).TakesLexeme ending) : w.TakesLexeme ending := by
  obtain ⟨hne, hdigits⟩ := hwhole
  obtain ⟨c, rest, rfl⟩ := List.exists_cons_of_ne_nil hne
  have hc : c.isDigit = true := hdigits c List.mem_cons_self
  have hfirst : w.step = w.goOn (.whole w.taken) := by
    rw [step_between hw hahead, startWith_of_isWordChar (by rw [isWordChar, hc, Bool.or_true]),
      if_pos hc]
  have hinside : ∀ v : Walk, v.stage = .whole w.taken → (v.peek 0).any Char.isDigit = true →
      v.step = v.take (.whole w.taken) :=
    fun v hv hany => (step_whole hv).trans (if_pos hany)
  exact .goesOn hfirst (by simp) (.of_run (by simp) hinside hdigits rfl hahead h)

theorem takesLexeme_numeral {whole : List Char} {fraction : Option (List Char)}
    (hw : w.stage = .between)
    (hahead : w.ahead = (Lexeme.numeral whole fraction).spelling ++ following)
    (hwell : (Lexeme.numeral whole fraction).IsWellFormed)
    (hends : (Lexeme.numeral whole fraction).EndsBefore following) :
    w.TakesLexeme (none, w.found (.numeral whole fraction)) := by
  cases fraction with
  | none =>
    refine .of_digits hw hahead hwell.1 (.of_emitNumber hwell hahead ?_)
    have hrest := @ahead_behind w whole _ hahead (.whole w.taken)
    have hstop : ((w.behind whole (.whole w.taken)).peek 0).any Char.isDigit = false := by
      apply any_peek_eq_false
      rw [hrest]
      exact hends.1
    have hpoint := hends.2 rfl
    rw [← hrest, beginsFraction_ahead_iff] at hpoint
    rw [Lexeme.spelling, step_whole rfl, hstop, if_neg hpoint]
    rfl
  | some digits =>
    have hdigits : IsDigits digits := hwell.2 digits rfl
    have hall : w.ahead = whole ++ '.' :: (digits ++ following) := by
      rw [hahead, Lexeme.spelling, List.append_assoc, List.cons_append]
    refine .of_digits hw hall hwell.1 ?_
    have hrest := ahead_behind hall (.whole w.taken)
    have hpoint : (w.behind whole (.whole w.taken)).step =
        (none, w.behind (whole ++ ['.']) (.fraction w.taken)) := by
      have hbegins : BeginsFraction (w.behind whole (.whole w.taken)).ahead := by
        obtain ⟨d, more, rfl⟩ := List.exists_cons_of_ne_nil hdigits.1
        exact ⟨d, _, hrest, hdigits.2 d List.mem_cons_self⟩
      have hbegins := beginsFraction_ahead_iff.mp hbegins
      rw [step_whole rfl, if_neg (by rw [hbegins.1]; decide), if_pos hbegins, take_eq hrest,
        behind_append]
    have hinside : ∀ v : Walk, v.stage = .fraction w.taken → (v.peek 0).any Char.isDigit = true →
        v.step = v.take (.fraction w.taken) :=
      fun v hv hany => (step_fraction hv).trans (if_pos hany)
    have hbehind : w.ahead = (whole ++ ['.']) ++ (digits ++ following) := by simpa using hall
    refine .goesOn hpoint (by simp [behind]) ?_
    refine .of_run (by simp) hinside hdigits.2 rfl (ahead_behind hbehind _) ?_
    rw [behind_append, List.append_assoc, List.singleton_append]
    refine .of_emitNumber hwell hahead ?_
    rw [step_fraction rfl, any_peek_eq_false, if_neg (by decide)]
    rw [ahead_behind hahead]
    exact hends.1

theorem takesLexeme_word {letters : List Char} (hw : w.stage = .between)
    (hahead : w.ahead = letters ++ following) (hword : IsWord letters)
    (hends : ∀ c ∈ following.head?, isWordChar c = false) :
    w.TakesLexeme (none, w.found (.word letters)) := by
  obtain ⟨c, rest, rfl, hletter, hrest⟩ := hword
  have hc : isWordChar c = true := by rw [isWordChar, hletter, Bool.true_or]
  have hfirst : w.step = w.goOn (.word w.taken) := by
    rw [step_between hw hahead, startWith_of_isWordChar hc, isDigit_of_isLetter hletter]
    rfl
  have hrun : ∀ d ∈ c :: rest, isWordChar d = true := List.forall_mem_cons.mpr ⟨hc, hrest⟩
  have hinside : ∀ v : Walk, v.stage = .word w.taken → (v.peek 0).any isWordChar = true →
      v.step = v.take (.word w.taken) :=
    fun v hv hany => (step_word hv).trans (if_pos hany)
  refine .goesOn hfirst (by simp) (.of_run (by simp) hinside hrun rfl hahead ?_)
  have hstop : ((w.behind (c :: rest) (.word w.taken)).peek 0).any isWordChar = false := by
    apply any_peek_eq_false
    rw [ahead_behind hahead]
    exact hends
  have hfeed : '\n' ∉ c :: rest := fun hmem => absurd (hrun _ hmem) (by decide)
  have hsince : (w.behind (c :: rest) (.word w.taken)).since w.taken = c :: rest :=
    @since_behind w (c :: rest) _ [] hahead _
  have hlast := @step_word (w.behind (c :: rest) (.word w.taken)) _ rfl
  rw [hstop, hsince, line_behind hfeed] at hlast
  exact .of_emit rfl rfl hlast

/-- A walk takes the lexeme that it stands in front of. -/
theorem takesLexeme_of_endsBefore {l : Lexeme} (hw : w.stage = .between)
    (hahead : w.ahead = l.spelling ++ following) (hwell : l.IsWellFormed)
    (hends : l.EndsBefore following) : w.TakesLexeme (none, w.found l) := by
  cases l with
  | blank c => exact takesLexeme_blank hw hahead hwell
  | comment body => exact takesLexeme_comment hw hahead hwell hends
  | symbol kind => exact takesLexeme_symbol hw hahead hwell hends
  | text content =>
    refine @takesLexeme_text w following content hw (hahead.trans ?_) hwell
    simp [Lexeme.spelling]
  | numeral whole fraction => exact takesLexeme_numeral hw hahead hwell hends
  | word letters => exact takesLexeme_word hw hahead hwell hends

theorem takesLexeme_of_beginsNoLexeme (hw : w.stage = .between) (hahead : w.ahead = c :: rest)
    (hbegins : BeginsNoLexeme c) :
    w.TakesLexeme (some (.fault ⟨.unexpectedCharacter c, w.position⟩), w) := by
  obtain ⟨hblank, hword, hsymbol, hquote⟩ := hbegins
  obtain ⟨hletter, hdigit⟩ := Bool.or_eq_false_iff.mp hword
  have hslash : c ≠ '/' := by
    rintro rfl
    exact hsymbol (by decide)
  have hkind : symbolKind? c false = none := symbolKind?_eq_none_iff.mpr hsymbol
  have hhalt : w.step = w.halt (.fault ⟨.unexpectedCharacter c, w.position⟩) := by
    rw [step_between hw hahead]
    simp [startWith, hblank, hslash, hkind, hquote, hdigit, hletter]
  have hstays : { w with stage := .between } = w := by rw [← hw]
  rw [halt, hstays] at hhalt
  exact .halts hhalt

/-- In front of what is no lexeme, a walk halts at the fault, where a scan stops. -/
theorem exists_takesLexeme_of_read_eq_error {fault : LexicalFault} (hw : w.stage = .between)
    (hahead : w.ahead = c :: rest) (hread : Lexeme.read c rest = .error fault) :
    ∃ v : Walk, w.TakesLexeme (some (.fault ⟨fault, w.position⟩), v) ∧ v.stage = .between ∧
      v.scan = Scan.stopAt fault w.position (c :: rest) w.tokens := by
  rcases Lexeme.read_eq_error_iff.mp hread with ⟨rfl, hbegins⟩ | ⟨rfl, rfl, hopen⟩
  · refine ⟨w, takesLexeme_of_beginsNoLexeme hw hahead hbegins, hw, ?_⟩
    rw [scan, hahead]
    rfl
  · refine ⟨_, takesLexeme_of_openQuote hw hahead hopen, rfl, ?_⟩
    have hall : w.ahead = '"' :: rest ++ [] := by rw [hahead, List.append_nil]
    rw [scan, ahead_behind hall]
    rfl

/-! ## One pass -/

/-- The walk behind a row of lexemes. -/
def foundAll (w : Walk) : List Lexeme → Walk
  | [] => w
  | l :: ls => (w.found l).foundAll ls

theorem ahead_found {l : Lexeme} (hahead : w.ahead = l.spelling ++ following) :
    (w.found l).ahead = following :=
  ahead_behind hahead .between

theorem stage_foundAll (hw : w.stage = .between) (ls : List Lexeme) :
    (w.foundAll ls).stage = .between := by
  induction ls generalizing w with
  | nil => exact hw
  | cons l ls ih => exact @ih (w.found l) rfl

theorem scan_foundAll {ls : List Lexeme} (hahead : w.ahead = ls.flatMap Lexeme.spelling ++ rest) :
    (w.foundAll ls).scan =
      ⟨rest, w.position.advanceBy (ls.flatMap Lexeme.spelling),
        w.tokens ++ tokensFrom w.position ls⟩ := by
  induction ls generalizing w with
  | nil =>
    have hrest : w.ahead = rest := hahead
    simp [foundAll, scan, hrest, tokensFrom]
  | cons l ls ih =>
    rw [List.flatMap_cons, List.append_assoc] at hahead
    rw [foundAll, ih (ahead_found hahead), List.flatMap_cons, Position.advanceBy_append, tokensFrom,
      ← List.append_assoc]
    rfl

/-- A walk takes a row of lexemes on its way. -/
theorem runs_of_isDivision {ls : List Lexeme} {ending : Halt × Walk}
    (hdivision : IsDivision rest ls) (hw : w.stage = .between)
    (hahead : w.ahead = ls.flatMap Lexeme.spelling ++ rest) (h : (w.foundAll ls).Runs ending) :
    w.Runs ending := by
  induction ls generalizing w with
  | nil => exact h
  | cons l ls ih =>
    obtain ⟨hwell, hends, hmore⟩ := hdivision
    rw [List.flatMap_cons, List.append_assoc] at hahead
    exact (takesLexeme_of_endsBefore hw hahead hwell hends).runs
      (ih hmore rfl (ahead_found hahead) h)

/-- At the end of the text, a walk adds the end of the input. -/
theorem step_of_end (hw : w.stage = .between) (hahead : w.ahead = []) :
    w.step =
      (some .finished, { w with tokens := w.tokens ++ [Token.endOfInput w.position.line] }) := by
  have hpeek : w.peek 0 = none := by rw [peek_eq, hahead, List.getElem?_nil]
  simp only [step, hw, hpeek]

/-- Between two lexemes, a walk does up to its next halt what one pass does. -/
theorem exists_runs_pass (hw : w.stage = .between) :
    ∃ v : Walk, w.Runs (Halt.ofPass w.scan.pass.1, v) ∧ v.stage = .between ∧
      v.scan = w.scan.pass.2 := by
  have hspelling := Reading.spelling_ofText_append w.ahead
  have hdivision := Reading.isDivision_ofText w.ahead
  generalize hls : (Reading.ofText w.ahead).lexemes = ls at hdivision
  rw [Reading.spelling, hls] at hspelling
  rcases Reading.stop_cases w.ahead with ⟨_, hrest⟩ | ⟨c, rest, fault, _, hrest, hread⟩
  · rw [hrest] at hspelling hdivision
    obtain ⟨hahead, hposition, htokens⟩ := Scan.mk.inj (scan_foundAll hspelling.symm)
    rw [List.append_nil] at hspelling
    have hpass := Scan.pass_of_isDivision hdivision w.position w.tokens
    rw [hspelling] at hpass
    have hfinish := step_of_end (stage_foundAll hw ls) hahead
    rw [scan, hpass]
    refine ⟨_, runs_of_isDivision hdivision hw (by simp [hspelling]) (.halts hfinish),
      stage_foundAll hw ls, ?_⟩
    rw [← hspelling, ← hposition, ← htokens, ← hahead]
    rfl
  · rw [hrest] at hspelling hdivision
    obtain ⟨hahead, hposition, htokens⟩ := Scan.mk.inj (scan_foundAll hspelling.symm)
    have hpass := Scan.pass_of_read_eq_error hdivision hread w.position w.tokens
    rw [hspelling, ← hposition, ← htokens] at hpass
    obtain ⟨v, htakes, hv, hstop⟩ :=
      exists_takesLexeme_of_read_eq_error (stage_foundAll hw ls) hahead hread
    rw [scan, hpass]
    exact ⟨v, runs_of_isDivision hdivision hw hspelling.symm htakes.runs_of_halt, hv, hstop⟩

end Walk

end LoxSyntax
