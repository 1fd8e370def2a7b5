import LoxSyntax.Number.Double
import LoxSyntax.Text.CharClass
import LoxSyntax.Text.Position
import LoxSyntax.Token.Basic
set_option autoImplicit false

/-! # Lexemes

A text is a row of lexemes: blanks and comments, which mean nothing, and the spellings of tokens.
Each lexeme is as long as it can be. `Lexeme.read` takes the one at the beginning of a text, and
`Lexeme.spelling` gives back the characters that it was taken from. -/

namespace LoxSyntax

/-! ## Letters and digits

Words and numerals are made of ASCII characters. The classes are stated for texts of any length in
dictionary order, in which a longer text such as `12` lies between `0` and `9` too; on a text of
one character they say what one expects. -/

/-- Does the text lie between two others in dictionary order? -/
def liesBetween (low high text : String) : Bool :=
  !(decide (text < low)) && !(decide (high < text))

/-- Does the text count as a digit? -/
def isDigitText (text : String) : Bool := liesBetween "0" "9" text

/-- Does the text count as a letter? -/
def isLetterText (text : String) : Bool :=
  liesBetween "a" "z" text || liesBetween "A" "Z" text || text = "_"

/-- Does the text count as a letter or a digit? -/
def isWordText (text : String) : Bool := isLetterText text || isDigitText text

/-- May a word begin with the character? -/
def isLetter (c : Char) : Bool := c.isAlpha || c = '_'

/-- May a word go on with the character? -/
def isWordChar (c : Char) : Bool := isLetter c || c.isDigit

/-! ## Lexemes and how they are spelled -/

/-- Why a text cannot be divided any further. -/
inductive LexicalFault
  /-- No lexeme begins with the character. -/
  | unexpectedCharacter (c : Char)
  /-- The quote that opens a text is not followed by another one. -/
  | unterminatedText
  deriving DecidableEq, Repr

/-- A piece of a text: something to skip or the spelling of one token. -/
inductive Lexeme
  | blank (c : Char)
  | comment (body : List Char)
  | symbol (kind : TokenKind)
  | text (content : List Char)
  | numeral (whole : List Char) (fraction : Option (List Char))
  | word (letters : List Char)
  deriving DecidableEq

/-- The kind of symbol that begins with a character, given whether an equals sign follows it. -/
def symbolKind? (c : Char) (equalFollows : Bool) : Option TokenKind :=
  match c, equalFollows with
  | '(', _ => some .leftParen
  | ')', _ => some .rightParen
  | '\x7b', _ => some .leftBrace
  | '\x7d', _ => some .rightBrace
  | ',', _ => some .comma
  | '.', _ => some .dot
  | '-', _ => some .minus
  | '+', _ => some .plus
  | ';', _ => some .semicolon
  | '/', _ => some .slash
  | '*', _ => some .star
  | '!', false => some .bang
  | '!', true => some .bangEqual
  | '=', false => some .equal
  | '=', true => some .equalEqual
  | '<', false => some .less
  | '<', true => some .lessEqual
  | '>', false => some .greater
  | '>', true => some .greaterEqual
  | _, _ => none

namespace Lexeme

/-- The characters of a lexeme. -/
def spelling : Lexeme → List Char
  | blank c => [c]
  | comment body => '/' :: '/' :: body
  | symbol kind => (kind.symbol?.getD "").toList
  | text content => '"' :: content ++ ['"']
  | numeral whole none => whole
  | numeral whole (some fraction) => whole ++ '.' :: fraction
  | word letters => letters

/-- The fraction at the beginning of a text: a point with a digit after it, and all further digits.
    A point without a digit is left for the next lexeme. -/
def readFraction : List Char → Option (List Char)
  | '.' :: c :: rest => if c.isDigit then some (c :: rest.takeWhile Char.isDigit) else none
  | _ => none

/-- The lexeme at the beginning of a text of which `c` is the first character. -/
def read (c : Char) (rest : List Char) : Except LexicalFault Lexeme :=
  if isBlank c then .ok (blank c)
  else if c = '/' && rest.head? = some '/' then .ok (comment (rest.tail.takeWhile (· ≠ '\n')))
  else if c = '"' then
    if rest.contains '"' then .ok (text (rest.takeWhile (· ≠ '"'))) else .error .unterminatedText
  else if c.isDigit then
    .ok (numeral (c :: rest.takeWhile Char.isDigit) (readFraction (rest.dropWhile Char.isDigit)))
  else if isLetter c then .ok (word (c :: rest.takeWhile isWordChar))
  else
    match symbolKind? c (rest.head? = some '=') with
    | some kind => .ok (symbol kind)
    | none => .error (.unexpectedCharacter c)

theorem spelling_symbol {c : Char} {equalFollows : Bool} {kind : TokenKind}
    (h : symbolKind? c equalFollows = some kind) :
    (symbol kind).spelling = [c] ∨ equalFollows = true ∧ (symbol kind).spelling = [c, '='] := by
  unfold symbolKind? at h
  split at h <;> simp at h <;> subst h <;> simp [spelling, TokenKind.symbol?]

theorem readFraction_prefix {cs fraction : List Char} (h : readFraction cs = some fraction) :
    '.' :: fraction <+: cs := by
  unfold readFraction at h
  split at h
  · split at h
    · cases h
      simp [List.takeWhile_prefix]
    · cases h
  · cases h

theorem dropWhile_ne_of_mem (a : Char) (cs : List Char) (h : a ∈ cs) :
    ∃ tail, cs.dropWhile (· ≠ a) = a :: tail := by
  induction cs with
  | nil => cases h
  | cons c cs ih =>
    by_cases hc : c = a
    · exact ⟨cs, by simp [hc]⟩
    · obtain ⟨tail, ht⟩ := ih (by simpa [Ne.symm hc] using h)
      exact ⟨tail, by simpa [hc] using ht⟩

/-- A lexeme is spelled by the characters that it was read from. -/
theorem spelling_prefix {c : Char} {rest : List Char} {l : Lexeme} (h : read c rest = .ok l) :
    l.spelling <+: c :: rest := by
  unfold read at h
  split at h
  · cases h
    simp [spelling]
  split at h
  · next hc =>
    cases h
    simp only [Bool.and_eq_true, decide_eq_true_eq] at hc
    obtain ⟨rfl, hr⟩ := hc
    cases rest with
    | nil => simp at hr
    | cons d ds =>
      simp only [List.head?_cons, Option.some.injEq] at hr
      subst hr
      simp [spelling, List.takeWhile_prefix]
  split at h
  · next hc =>
    subst hc
    split at h
    · next hq =>
      cases h
      obtain ⟨tail, ht⟩ := dropWhile_ne_of_mem '"' rest (by simpa using hq)
      refine ⟨tail, ?_⟩
      have := List.takeWhile_append_dropWhile (p := (· ≠ '"')) (l := rest)
      rw [ht] at this
      simp only [spelling, List.cons_append, List.append_assoc, List.nil_append]
      rw [this]
    · cases h
  split at h
  · cases h
    have hw := List.takeWhile_append_dropWhile (p := Char.isDigit) (l := rest)
    cases hf : readFraction (rest.dropWhile Char.isDigit) with
    | none => simp [spelling, List.takeWhile_prefix]
    | some fraction =>
      obtain ⟨tail, ht⟩ := readFraction_prefix hf
      refine ⟨tail, ?_⟩
      simp only [spelling, List.cons_append, List.append_assoc]
      rw [show '.' :: (fraction ++ tail) = ('.' :: fraction) ++ tail from rfl, ht, hw]
  split at h
  · cases h
    simp [spelling, List.takeWhile_prefix]
  · split at h
    · next hk =>
      cases h
      rcases spelling_symbol hk with hs | ⟨he, hs⟩
      · simp [hs]
      · rw [hs]
        cases rest with
        | nil => simp at he
        | cons d ds =>
          simp only [List.head?_cons, Option.some.injEq, decide_eq_true_eq] at he
          simp [he]
    · cases h

/-- No lexeme is empty. -/
theorem spelling_ne_nil {c : Char} {rest : List Char} {l : Lexeme} (h : read c rest = .ok l) :
    l.spelling ≠ [] := by
  unfold read at h
  split at h
  · cases h
    simp [spelling]
  split at h
  · cases h
    simp [spelling]
  split at h
  · split at h <;> cases h
    simp [spelling]
  split at h
  · cases h
    cases readFraction (rest.dropWhile Char.isDigit) <;> simp [spelling]
  split at h
  · cases h
    simp [spelling]
  · split at h
    · next hk =>
      cases h
      rcases spelling_symbol hk with hs | ⟨_, hs⟩ <;> simp [hs]
    · cases h

/-- The token that a lexeme spells on the given line, if it spells one. -/
def token? (line : Int) : Lexeme → Option Token
  | blank _ => none
  | comment _ => none
  | symbol kind => some ⟨kind, kind.symbol?.getD "", none, line⟩
  | text content => some (Token.ofText (String.ofList content) line)
  | numeral whole fraction =>
    let value := Double.ofDecimal (Decimal.ofDigits whole (fraction.getD []) 0)
    some ⟨.number, String.ofList (numeral whole fraction).spelling, some (.number value), line⟩
  | word letters => some (Token.ofWord (String.ofList letters) line)

end Lexeme

end LoxSyntax
