import LoxSyntax.Text.Line
import LoxSyntax.Text.Quoted
import Mathlib.Algebra.Group.Nat.Defs
set_option autoImplicit false

/-! # Reading quoted text back

Between quotes a character stands for itself or is written behind a backslash, in a way that can be
read back, since an escape says by its letter how many digits it has (`Quoted.escape_spec`). The
quote in use is written behind a backslash, so a quoted text tells the text and where it ends
(`Quoted.encode_append_injective`). All characters at which lines break are escaped, so it is on one
line (`Quoted.staysOnLine_encode`). -/

namespace LoxSyntax

/-! ## Hexadecimal digits -/

/-- The value of a digit to base sixteen. -/
def hexDigitValue (c : Char) : Nat := if c.isDigit then c.toNat - 48 else c.toNat - 87

/-- The number that a run of digits to base sixteen spells. -/
def hexValue (digits : List Char) : Nat :=
  digits.foldl (fun value c => 16 * value + hexDigitValue c) 0

theorem hexDigitValue_digitChar {d : Nat} (h : d < 16) : hexDigitValue d.digitChar = d := by
  revert d
  decide

theorem hexValue_concat (digits : List Char) (c : Char) :
    hexValue (digits ++ [c]) = 16 * hexValue digits + hexDigitValue c := by
  simp [hexValue]

theorem hexValue_toDigits (n : Nat) : hexValue (Nat.toDigits 16 n) = n := by
  induction n using Nat.strongRecOn with
  | ind n ih =>
    rw [Nat.toDigits_eq_if (by decide)]
    by_cases h : n < 16
    · rw [if_pos h, ← List.nil_append [n.digitChar], hexValue_concat, hexDigitValue_digitChar h]
      exact Nat.zero_add n
    · rw [if_neg h, hexValue_concat, ih (n / 16) (by omega),
        hexDigitValue_digitChar (Nat.mod_lt _ (by decide))]
      omega

theorem hexValue_hexDigits (width n : Nat) : hexValue (hexDigits width n) = n := by
  have hzeros : ∀ count, (List.replicate count '0').foldl
      (fun value c => 16 * value + hexDigitValue c) 0 = 0 := by
    intro count
    induction count with
    | zero => rfl
    | succ count ih => rwa [List.replicate_succ, List.foldl_cons]
  rw [hexDigits, hexValue, List.foldl_append, hzeros]
  exact hexValue_toDigits n

theorem length_hexDigits {width n : Nat} (hwidth : 0 < width) (h : n < 16 ^ width) :
    (hexDigits width n).length = width := by
  have hlength := (Nat.length_toDigits_le_iff (by decide) hwidth).mpr h
  rw [hexDigits, List.length_append, List.length_replicate]
  omega

theorem exists_digitChar_of_mem_toDigits {n : Nat} :
    ∀ c ∈ Nat.toDigits 16 n, ∃ d < 16, c = d.digitChar := by
  induction n using Nat.strongRecOn with
  | ind n ih =>
    intro c hc
    rw [Nat.toDigits_eq_if (by decide)] at hc
    by_cases h : n < 16
    · rw [if_pos h, List.mem_singleton] at hc
      exact ⟨n, h, hc⟩
    · rw [if_neg h, List.mem_append, List.mem_singleton] at hc
      rcases hc with hc | hc
      · exact ih (n / 16) (by omega) c hc
      · exact ⟨n % 16, Nat.mod_lt _ (by decide), hc⟩

/-! ## Lines -/

/-- Is there no character at which lines break? -/
def StaysOnLine (cs : List Char) : Prop := ∀ c ∈ cs, isLineBreak c = false

theorem staysOnLine_append {cs ds : List Char} :
    StaysOnLine (cs ++ ds) ↔ StaysOnLine cs ∧ StaysOnLine ds :=
  List.forall_mem_append

theorem staysOnLine_cons {c : Char} {cs : List Char} :
    StaysOnLine (c :: cs) ↔ isLineBreak c = false ∧ StaysOnLine cs :=
  List.forall_mem_cons

theorem staysOnLine_hexDigits (width n : Nat) : StaysOnLine (hexDigits width n) := by
  refine staysOnLine_append.mpr ⟨?_, ?_⟩
  · intro c hc
    rw [List.eq_of_mem_replicate hc]
    decide
  · intro c hc
    have hdigit : ∀ d < 16, isLineBreak d.digitChar = false := by decide
    obtain ⟨d, hd, rfl⟩ := exists_digitChar_of_mem_toDigits c hc
    exact hdigit d hd

/-- A line never breaks at a character that is shown as itself. -/
theorem isLineBreak_of_isPrintable {c : Char} (h : isPrintable c = true) :
    isLineBreak c = false := by
  rw [Bool.eq_false_iff]
  intro hbreak
  have hrange : 10 ≤ c.toNat ∧ c.toNat ≤ 30 ∨ c.toNat ∈ [0x85, 0x2028, 0x2029] := by
    simp only [isLineBreak, CharRanges.contains, lineBreakRanges, List.any_cons, List.any_nil,
      Bool.or_false, Bool.or_eq_true, Bool.and_eq_true, decide_eq_true_eq] at hbreak
    simp only [List.mem_cons, List.not_mem_nil, or_false]
    omega
  rcases hrange with hlow | hcode
  · rw [isPrintable, if_pos (by omega), decide_eq_true_eq] at h
    omega
  · have hunprintable : ∀ code ∈ [0x85, 0x2028, 0x2029], isPrintable (Char.ofNat code) = false := by
      decide +kernel
    have hnone := hunprintable c.toNat hcode
    rw [Char.ofNat_toNat, h] at hnone
    cases hnone

namespace Quoted

variable {quote : Char}

/-! ## Quotes -/

/-- The quotes that enclose texts. -/
def IsQuote (quote : Char) : Prop := quote = '\'' ∨ quote = '"'

theorem isQuote_mark (cs : List Char) : IsQuote (mark cs) := by
  unfold mark
  split
  · exact Or.inr rfl
  · exact Or.inl rfl

theorem IsQuote.isLineBreak (h : IsQuote quote) : isLineBreak quote = false := by
  rcases h with rfl | rfl <;> decide

/-! ## One character -/

/-- Reads a character as it is written between quotes, and returns the text behind it as well. -/
def unescape : List Char → Option (Char × List Char)
  | [] => none
  | '\\' :: 'n' :: rest => some ('\n', rest)
  | '\\' :: 'r' :: rest => some ('\r', rest)
  | '\\' :: 't' :: rest => some ('\t', rest)
  | '\\' :: 'x' :: rest => some (Char.ofNat (hexValue (rest.take 2)), rest.drop 2)
  | '\\' :: 'u' :: rest => some (Char.ofNat (hexValue (rest.take 4)), rest.drop 4)
  | '\\' :: 'U' :: rest => some (Char.ofNat (hexValue (rest.take 8)), rest.drop 8)
  | '\\' :: c :: rest => some (c, rest)
  | c :: rest => some (c, rest)

/-- An escape of digits is read up to the last of them. -/
theorem unescape_hexDigits_append {letter : Char} {width : Nat}
    (hletter : (letter, width) ∈ [('x', 2), ('u', 4), ('U', 8)]) {c : Char}
    (hc : c.toNat < 16 ^ width) (rest : List Char) :
    unescape ('\\' :: letter :: (hexDigits width c.toNat ++ rest)) = some (c, rest) := by
  have hread : unescape ('\\' :: letter :: (hexDigits width c.toNat ++ rest)) =
      some (Char.ofNat (hexValue ((hexDigits width c.toNat ++ rest).take width)),
        (hexDigits width c.toNat ++ rest).drop width) := by
    simp only [List.mem_cons, Prod.mk.injEq, List.not_mem_nil, or_false] at hletter
    rcases hletter with ⟨rfl, rfl⟩ | ⟨rfl, rfl⟩ | ⟨rfl, rfl⟩ <;> rfl
  have hwidth : 0 < width := by
    have hall : ∀ entry ∈ [('x', 2), ('u', 4), ('U', 8)], 0 < entry.2 := by decide
    exact hall _ hletter
  have hlength := length_hexDigits hwidth hc
  rw [hread, List.take_left' hlength, List.drop_left' hlength, hexValue_hexDigits, Char.ofNat_toNat]

/-- A character stands for itself, or is written behind a backslash in a way that can be read
    back. -/
theorem escape_spec (hquote : IsQuote quote) (c : Char) :
    escape quote c = [c] ∧ c ≠ quote ∧ c ≠ '\\' ∧ isPrintable c = true ∨
      ∃ more, escape quote c = '\\' :: more ∧ StaysOnLine more ∧
        ∀ rest, unescape ('\\' :: (more ++ rest)) = some (c, rest) := by
  have hnil : StaysOnLine [] := by simp [StaysOnLine]
  unfold escape
  split
  · next h =>
    simp only [Bool.or_eq_true, decide_eq_true_eq] at h
    rcases h with rfl | rfl
    · refine Or.inr ⟨_, rfl, staysOnLine_cons.mpr ⟨hquote.isLineBreak, hnil⟩, fun rest => ?_⟩
      rcases hquote with rfl | rfl <;> rfl
    · exact Or.inr ⟨_, rfl, staysOnLine_cons.mpr ⟨by decide, hnil⟩, fun rest => rfl⟩
  · next hspecial =>
    simp only [Bool.or_eq_true, decide_eq_true_eq, not_or] at hspecial
    have hdigits : ∀ {letter width}, (letter, width) ∈ [('x', 2), ('u', 4), ('U', 8)] →
        isLineBreak letter = false → c.toNat < 16 ^ width →
        ∃ more, '\\' :: letter :: hexDigits width c.toNat = '\\' :: more ∧ StaysOnLine more ∧
          ∀ rest, unescape ('\\' :: (more ++ rest)) = some (c, rest) := by
      intro letter width hletter hbreak hc
      exact ⟨_, rfl, staysOnLine_cons.mpr ⟨hbreak, staysOnLine_hexDigits _ _⟩,
        unescape_hexDigits_append hletter hc⟩
    split
    · next h =>
      exact Or.inr ⟨_, rfl, staysOnLine_cons.mpr ⟨by decide, hnil⟩, fun rest => by rw [h]; rfl⟩
    split
    · next h =>
      exact Or.inr ⟨_, rfl, staysOnLine_cons.mpr ⟨by decide, hnil⟩, fun rest => by rw [h]; rfl⟩
    split
    · next h =>
      exact Or.inr ⟨_, rfl, staysOnLine_cons.mpr ⟨by decide, hnil⟩, fun rest => by rw [h]; rfl⟩
    split
    · next hprintable => exact Or.inl ⟨rfl, hspecial.1, hspecial.2, hprintable⟩
    split
    · next hsmall => exact Or.inr (hdigits (by simp) (by decide) hsmall)
    split
    · next hsmall => exact Or.inr (hdigits (by simp) (by decide) hsmall)
    · exact Or.inr (hdigits (by simp) (by decide) c.val.toNat_lt)

theorem unescape_escape_append (hquote : IsQuote quote) (c : Char) (rest : List Char) :
    unescape (escape quote c ++ rest) = some (c, rest) := by
  rcases escape_spec hquote c with ⟨hescape, _, hbackslash, _⟩ | ⟨more, hescape, _, hread⟩
  · rw [hescape]
    simp [unescape, hbackslash]
  · rw [hescape]
    exact hread rest

/-- No character is written with the quote in front. -/
theorem escape_append_ne (hquote : IsQuote quote) (c : Char) (more rest : List Char) :
    escape quote c ++ more ≠ quote :: rest := by
  intro h
  rcases escape_spec hquote c with ⟨hescape, hne, _⟩ | ⟨behind, hescape, _⟩
  · rw [hescape] at h
    exact hne (List.cons.inj h).1
  · rw [hescape] at h
    rcases hquote with rfl | rfl
    · exact absurd (List.cons.inj h).1 (by decide)
    · exact absurd (List.cons.inj h).1 (by decide)

/-! ## Whole texts -/

/-- What is written between quotes tells the characters and where they end. -/
theorem body_append_injective (hquote : IsQuote quote) {cs ds rest rest' : List Char}
    (h : cs.flatMap (escape quote) ++ quote :: rest = ds.flatMap (escape quote) ++ quote :: rest') :
    cs = ds ∧ rest = rest' := by
  induction cs generalizing ds with
  | nil =>
    cases ds with
    | nil => exact ⟨rfl, (List.cons.inj h).2⟩
    | cons d ds =>
      rw [List.flatMap_cons, List.append_assoc] at h
      exact absurd h.symm (escape_append_ne hquote d _ _)
  | cons c cs ih =>
    rw [List.flatMap_cons, List.append_assoc] at h
    cases ds with
    | nil => exact absurd h (escape_append_ne hquote c _ _)
    | cons d ds =>
      rw [List.flatMap_cons, List.append_assoc] at h
      have hread := unescape_escape_append hquote c (cs.flatMap (escape quote) ++ quote :: rest)
      rw [h, unescape_escape_append hquote] at hread
      obtain ⟨rfl, hmore⟩ := Prod.mk.inj (Option.some.inj hread)
      obtain ⟨rfl, hrest⟩ := ih hmore.symm
      exact ⟨rfl, hrest⟩

/-- A quoted text tells the text and where it ends. -/
theorem encode_append_injective {cs ds rest rest' : List Char}
    (h : encode cs ++ rest = encode ds ++ rest') : cs = ds ∧ rest = rest' := by
  simp only [encode, List.cons_append, List.append_assoc, List.nil_append] at h
  obtain ⟨hmark, hbody⟩ := List.cons.inj h
  rw [← hmark] at hbody
  exact body_append_injective (isQuote_mark cs) hbody

/-- A quoted text is on one line. -/
theorem staysOnLine_encode (cs : List Char) : StaysOnLine (encode cs) := by
  have hquote := isQuote_mark cs
  have hbody : StaysOnLine (cs.flatMap (escape (mark cs))) := by
    intro x hx
    obtain ⟨c, _, hx⟩ := List.mem_flatMap.mp hx
    rcases escape_spec hquote c with ⟨hescape, _, _, hprintable⟩ | ⟨more, hescape, hmore, _⟩
    · rw [hescape, List.mem_singleton] at hx
      rw [hx]
      exact isLineBreak_of_isPrintable hprintable
    · rw [hescape] at hx
      exact staysOnLine_cons.mpr ⟨by decide, hmore⟩ x hx
  have hmark : StaysOnLine [mark cs] := by simpa [StaysOnLine] using hquote.isLineBreak
  exact staysOnLine_append.mpr ⟨staysOnLine_cons.mpr ⟨hquote.isLineBreak, hbody⟩, hmark⟩

end Quoted

theorem quoted_append_injective {s t : String} {rest rest' : List Char}
    (h : (quoted s).toList ++ rest = (quoted t).toList ++ rest') : s = t ∧ rest = rest' := by
  rw [quoted, quoted, String.toList_ofList, String.toList_ofList] at h
  obtain ⟨hsame, hrest⟩ := Quoted.encode_append_injective h
  exact ⟨String.toList_injective hsame, hrest⟩

theorem quoted_injective : Function.Injective quoted := by
  intro s t h
  have hsame : (quoted s).toList ++ [] = (quoted t).toList ++ [] := by rw [h]
  exact (quoted_append_injective hsame).1

theorem staysOnLine_quoted (s : String) : StaysOnLine (quoted s).toList := by
  rw [quoted, String.toList_ofList]
  exact Quoted.staysOnLine_encode s.toList

end LoxSyntax
