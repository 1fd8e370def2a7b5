import LoxSyntax.Diagnostic.Source
import LoxSyntax.Proofs.Expr.FirstFault
import LoxSyntax.Proofs.Lexeme.FaultPlace
import LoxSyntax.Proofs.Lexeme.TokenPlace
set_option autoImplicit false

/-! # The token that a diagnostic reports

A text with tokens that is no list of expressions is refused at one of its tokens. The diagnostic
reports that token, has its line and no column (`exists_reported_token`). All numbers of a text
carry doubles, so that none of them is too large. -/

namespace LoxSyntax

/-- The cause is about the token. -/
def Cause.Reports (cause : Cause) (t : Token) : Prop :=
  match cause with
  | .unexpectedToken found | .expectedToken _ found | .nestedTooDeeply found _ => found = t
  | .unexpectedEnd => t.isEnd = true
  | _ => False

/-- A fault that explains what is wrong with a token reports it. -/
theorem Explains.reports {limit : Nat} {o : Openings} {t : Token} {f : SyntaxFault}
    (h : Explains limit o t f) : f.cause.Reports t := by
  rcases h.names_token with rfl | rfl | rfl | rfl
  · exact rfl
  · exact rfl
  · exact (h.unexpectedEnd_iff.mp rfl).1
  · exact rfl

theorem Token.IsWellFormed.carriesDouble {t : Token} (h : t.IsWellFormed) : t.CarriesDouble := by
  cases h with
  | symbol spelled =>
    rintro rfl
    cases spelled
  | number => exact fun _ => ⟨_, rfl⟩
  | text => exact nofun
  | word => exact fun hkind => absurd hkind (TokenKind.ofWord_ne _).2.1

/-- Well-formed tokens in front of the end of the input are refused at one of them or at the end. -/
theorem exists_reported_of_parseTokens {body : List Token} {stop : Token} {f : SyntaxFault}
    (hbody : ∀ t ∈ body, t.IsWellFormed) (hstop : stop.isEnd = true)
    (h : parseTokens (body ++ [stop]) = .error f) :
    ∃ ts t us, body ++ [stop] = ts ++ t :: us ∧ f.cause.Reports t ∧ f.line = t.line := by
  rw [parseTokens_append_stop [] (fun t ht => (hbody t ht).isEnd) hstop] at h
  rcases Progress.read_eq_error h with ⟨ts, t, us, q, rfl, hrun, hstep⟩ | ⟨q, hrun, hfinish⟩
  · have ht := hbody t (by simp)
    have hsound := (Progress.isSound_start.run hrun).1
    have hexplains := Progress.explains_of_step_error hsound hstep ht.carriesDouble ht.isEnd
    exact ⟨ts, t, us ++ [stop], by simp, hexplains.reports, hexplains.line_eq⟩
  · have hexplains := Progress.explains_of_finish_error maxNesting hfinish hstop
    exact ⟨body, stop, [], rfl, hexplains.reports, hexplains.line_eq⟩

/-- A text is refused for one of its characters, or for the order of its tokens. -/
theorem parseSource_eq_error_iff {source filename : String} {d : Diagnostic} :
    parseSource source filename = .error d ↔
      scanSource source filename = .error d ∨
        ∃ tokens, scanSource source filename = .ok tokens ∧
          ∃ f, parseTokens tokens = .error f ∧ d = f.diagnostic source filename := by
  unfold parseSource
  cases hscan : scanSource source filename with
  | error fault =>
    show Except.error fault = .error d ↔ _
    simp
  | ok tokens =>
    show parseFrom tokens source filename = .error d ↔ _
    rw [parseFrom, mapError_eq_error_iff]
    simp [eq_comm]

/-- A text with tokens that is refused is refused at one of these, which begins on the line of the
    diagnostic. -/
theorem exists_reported_token {source filename : String} {tokens : List Token} {d : Diagnostic}
    (hscan : scanSource source filename = .ok tokens)
    (h : parseSource source filename = .error d) :
    ∃ ts t us before, scanText source = .ok (ts ++ t :: us) ∧ d.cause.Reports t ∧
      BeginsBehind source ts t before ∧ d.line = (1 + before.count '\n' : Nat) ∧
      d.column = none ∧ d.source = source := by
  rcases parseSource_eq_error_iff.mp h with hfault | ⟨_, hscan', f, hparse, rfl⟩
  · rw [hscan] at hfault
    cases hfault
  · cases hscan.symm.trans hscan'
    have htext := scanSource_eq_ok_iff.mp hscan
    obtain ⟨body, rfl, hbody⟩ := exists_body_of_scanText htext
    obtain ⟨ts, t, us, hsplit, hreports, hline⟩ := exists_reported_of_parseTokens hbody rfl hparse
    rw [hsplit] at htext
    obtain ⟨before, hplace⟩ := exists_beginsBehind htext
    exact ⟨ts, t, us, before, htext, hreports, hplace, hline.trans hplace.line, rfl, rfl⟩

end LoxSyntax
