import LoxSyntax.Lexeme.Reading
set_option autoImplicit false

/-! # Scans

A scan is a text that is being turned into tokens: the characters ahead, the position that they
begin at and the tokens found so far. A pass reads to the end of the text and adds the token that
ends the input, or stops at a fault. A scan can be asked for another pass, which goes on from where
the last one left it. -/

namespace LoxSyntax

/-- A text in the course of being turned into tokens. -/
structure Scan where
  ahead : List Char
  position : Position := .start
  tokens : List Token := []
  deriving DecidableEq

/-- A fault in a text and the position that it was found at. -/
structure LocatedFault where
  fault : LexicalFault
  position : Position
  deriving DecidableEq, Repr

namespace Scan

/-- A scan at the beginning of a text. -/
def ofText (text : String) : Scan := { ahead := text.toList }

/-- Where a scan stands after a fault was found at `p` with `rest` ahead. It stays in front of a
    character that begins no lexeme; the search for a closing quote has taken it to the end. -/
def stopAt (fault : LexicalFault) (p : Position) (rest : List Char) (tokens : List Token) : Scan :=
  match fault with
  | .unexpectedCharacter _ => ⟨rest, p, tokens⟩
  | .unterminatedText => ⟨[], p.advanceBy rest, tokens⟩

/-- One pass: all tokens so far, or the fault that it met; and the scan afterwards. -/
def pass (s : Scan) : Except LocatedFault (List Token) × Scan :=
  let reading := Reading.ofText s.ahead
  let tokens := s.tokens ++ tokensFrom s.position reading.lexemes
  let position := s.position.advanceBy reading.spelling
  match reading.fault? with
  | some fault => (.error ⟨fault, position⟩, stopAt fault position reading.rest tokens)
  | none =>
    let tokens := tokens ++ [Token.endOfInput position.line]
    (.ok tokens, ⟨[], position, tokens⟩)

end Scan

/-- The tokens of a text, ending with the one that ends the input, or the first fault. -/
def scanText (text : String) : Except LocatedFault (List Token) :=
  (Scan.ofText text).pass.1

end LoxSyntax
