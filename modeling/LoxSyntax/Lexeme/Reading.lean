import LoxSyntax.Lexeme.Basic
set_option autoImplicit false

/-! # Reading a text as lexemes

A reading divides a text into lexemes from its beginning, as far as that is possible. What is left
over is empty, or begins with the fault. Where the tokens stand follows from the lexemes alone: each
begins where the spellings of those before it end. -/

namespace LoxSyntax

/-- A text divided into lexemes, and the part of it that could not be. -/
structure Reading where
  lexemes : List Lexeme := []
  rest : List Char := []
  fault? : Option LexicalFault := none
  deriving DecidableEq

namespace Reading

/-- Divides a text of which the first `skip` characters belong to a lexeme that has been taken
    already. -/
def after (skip : Nat) : List Char → Reading
  | [] => {}
  | c :: rest =>
    match skip with
    | skip + 1 => after skip rest
    | 0 =>
      match Lexeme.read c rest with
      | .error fault => { rest := c :: rest, fault? := some fault }
      | .ok lexeme =>
        let reading := after (lexeme.spelling.length - 1) rest
        { reading with lexemes := lexeme :: reading.lexemes }

/-- Divides a text. -/
def ofText (text : List Char) : Reading := after 0 text

/-- The characters that were divided into lexemes. -/
def spelling (reading : Reading) : List Char :=
  reading.lexemes.flatMap Lexeme.spelling

theorem spelling_after_append (skip : Nat) (text : List Char) (h : skip ≤ text.length) :
    (after skip text).spelling ++ (after skip text).rest = text.drop skip := by
  induction text generalizing skip with
  | nil =>
    obtain rfl : skip = 0 := by simpa using h
    rfl
  | cons c rest ih =>
    cases skip with
    | succ n => simpa [after] using ih n (by simpa using h)
    | zero =>
      simp only [after]
      split
      · simp [spelling]
      · next l hl =>
        obtain ⟨tail, ht⟩ := Lexeme.spelling_prefix hl
        cases hs : l.spelling with
        | nil => exact absurd hs (Lexeme.spelling_ne_nil hl)
        | cons d ds =>
          rw [hs] at ht
          simp only [List.cons_append, List.cons.injEq] at ht
          obtain ⟨rfl, rfl⟩ := ht
          have := ih ds.length (by simp)
          simp only [spelling, List.drop_left, List.flatMap_cons, hs, List.cons_append,
            List.append_assoc, List.length_cons, Nat.add_sub_cancel, List.drop_zero] at this ⊢
          rw [this]

/-- A reading neither loses nor adds a character. -/
theorem spelling_ofText_append (text : List Char) :
    (ofText text).spelling ++ (ofText text).rest = text :=
  spelling_after_append 0 text (Nat.zero_le _)

end Reading

/-- The tokens that a row of lexemes spells, the first lexeme beginning at the position `p`. -/
def tokensFrom (p : Position) : List Lexeme → List Token
  | [] => []
  | lexeme :: lexemes =>
    (lexeme.token? p.line).toList ++ tokensFrom (p.advanceBy lexeme.spelling) lexemes

theorem tokensFrom_append (p : Position) (ls ms : List Lexeme) :
    tokensFrom p (ls ++ ms) =
      tokensFrom p ls ++ tokensFrom (p.advanceBy (ls.flatMap Lexeme.spelling)) ms := by
  induction ls generalizing p with
  | nil => rfl
  | cons l ls ih =>
    rw [List.cons_append, tokensFrom, ih, tokensFrom, List.append_assoc, List.flatMap_cons,
      Position.advanceBy_append]

end LoxSyntax
