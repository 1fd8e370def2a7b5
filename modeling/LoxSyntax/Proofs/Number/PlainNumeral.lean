import LoxSyntax.Number.Numeral
import LoxSyntax.Proofs.Text.Runs
set_option autoImplicit false

/-! # Plain numerals

The numerals that a text can hold are plain: ASCII digits, which one point may divide. The reader
of numerals knows much more, margins and signs and underscores and words, but none of it has
anything to do on a plain one (`Numeral.read?_plain`), nor on any other spelling of a decimal, such
as one with an exponent part (`Numeral.read?_of_decimal?`). -/

namespace LoxSyntax

/-- One ASCII digit or more. -/
def IsDigits (cs : List Char) : Prop := cs ≠ [] ∧ ∀ c ∈ cs, c.isDigit = true

/-- Digits, or digits on both sides of a point. -/
def IsPlainNumeral (cs : List Char) : Prop :=
  IsDigits cs ∨ ∃ whole fraction, IsDigits whole ∧ IsDigits fraction ∧ cs = whole ++ '.' :: fraction

namespace Numeral

/-! ## Characters of numerals -/

/-- Is the character one that numbers are written with? These are all visible ASCII characters, and
    the underscore is none of them. -/
def isNumberChar (c : Char) : Bool := c.isAlphanum || c = '.' || c = '+' || c = '-'

theorem isNumberChar_of_isDigit {c : Char} (h : c.isDigit = true) : isNumberChar c = true := by
  simp [isNumberChar, Char.isAlphanum, h]

theorem toNat_of_isNumberChar {c : Char} (h : isNumberChar c = true) :
    43 ≤ c.toNat ∧ c.toNat ≤ 122 ∧ c.toNat ≠ 95 := by
  delta isNumberChar Char.isAlphanum Char.isAlpha Char.isUpper Char.isLower Char.isDigit at h
  simp only [Bool.or_eq_true, Bool.and_eq_true, decide_eq_true_eq, UInt32.le_iff_toNat_le,
    ge_iff_le] at h
  change (((((65 ≤ c.toNat ∧ c.toNat ≤ 90) ∨ (97 ≤ c.toNat ∧ c.toNat ≤ 122)) ∨
    (48 ≤ c.toNat ∧ c.toNat ≤ 57)) ∨ c = '.') ∨ c = '+') ∨ c = '-' at h
  rcases h with (((((h | h) | h) | rfl) | rfl) | rfl)
  · omega
  · omega
  · omega
  · decide
  · decide
  · decide

theorem isMargin_of_isNumberChar {c : Char} (h : isNumberChar c = true) : isMargin c = false := by
  obtain ⟨hlow, hhigh, _⟩ := toNat_of_isNumberChar h
  have hspace : c ≠ ' ' := by
    rintro rfl
    simp at hlow
  rw [isMargin, if_pos (by omega)]
  simp only [hspace, decide_false, Bool.false_or, Bool.and_eq_false_iff, decide_eq_false_iff_not]
  omega

theorem asciiDigit_of_isNumberChar {c : Char} (h : isNumberChar c = true) : asciiDigit c = c := by
  have hrange := toNat_of_isNumberChar h
  rw [asciiDigit, if_pos (by omega)]

/-- The text has nothing around it that is skipped. -/
theorem trim_of_isNumberChar {cs : List Char} (h : ∀ c ∈ cs, isNumberChar c = true) :
    trim cs = cs := by
  have hstays : ∀ ds : List Char, (∀ c ∈ ds, isNumberChar c = true) →
      ds.dropWhile isMargin = ds := by
    rintro (_ | ⟨d, ds⟩) hds
    · rfl
    · exact List.dropWhile_cons_of_neg (by simp [isMargin_of_isNumberChar (hds d (by simp))])
  rw [trim, hstays cs h, hstays _ (by simpa using h), List.reverse_reverse]

theorem dropUnderscores_of_isNumberChar {cs : List Char} (h : ∀ c ∈ cs, isNumberChar c = true)
    (previous : Char) : dropUnderscores previous cs = some cs := by
  induction cs generalizing previous with
  | nil => rfl
  | cons c cs ih =>
    have hc : c ≠ '_' := ne_of_class (h c List.mem_cons_self) (by decide)
    rw [dropUnderscores, ih (fun d hd => h d (List.mem_cons_of_mem c hd))]
    · rfl
    · exact hc

/-- On such characters nothing matters but the sign in front. -/
theorem read?_of_isNumberChar {cs : List Char} (h : ∀ c ∈ cs, isNumberChar c = true) :
    read? (String.ofList cs) =
      (magnitude? (splitSign cs).2).map fun value =>
        if (splitSign cs).1 then value.neg else value := by
  have hascii : cs.map asciiDigit = cs :=
    (List.map_congr_left fun c hc => asciiDigit_of_isNumberChar (h c hc)).trans (List.map_id _)
  rw [read?, String.toList_ofList, trim_of_isNumberChar h, hascii,
    dropUnderscores_of_isNumberChar h]
  simp only [Option.bind_eq_bind, Option.bind_some]
  cases magnitude? (splitSign cs).2 <;> rfl

/-! ## Numerals that begin with a digit or with a point -/

variable {first : Char} {rest : List Char}

theorem splitSign_of_isDigit_or_point (h : first.isDigit = true ∨ first = '.') :
    splitSign (first :: rest) = (false, first :: rest) := by
  unfold splitSign
  split
  · next heq =>
    cases heq
    simp at h
  · next heq =>
    cases heq
    simp at h
  · rfl

/-- Neither a digit nor a point begins a word that stands for a number. -/
theorem magnitude?_of_isDigit_or_point (h : first.isDigit = true ∨ first = '.') :
    magnitude? (first :: rest) = (decimal? (first :: rest)).map Double.ofDecimal := by
  have hlower : first.toLower = first := by
    rcases h with h | rfl
    · have hrange : 48 ≤ first.toNat ∧ first.toNat ≤ 57 := Char.isDigit_iff_toNat.mp h
      refine dif_neg ?_
      rintro ⟨hupper, _⟩
      have hlow : 65 ≤ first.toNat := UInt32.le_iff_toNat_le.mp hupper
      omega
    · rfl
  have hword : ∀ c cs, c.isDigit = false → c ≠ '.' →
      String.ofList ((first :: rest).map Char.toLower) ≠ String.ofList (c :: cs) := by
    intro c cs hdigit hpoint heq
    have hhead : first.toLower = c := (List.cons.inj (String.ofList_injective heq)).1
    rw [hlower] at hhead
    subst hhead
    rcases h with h | h
    · rw [hdigit] at h
      cases h
    · exact hpoint h
  unfold magnitude?
  rw [if_neg, if_neg (hword 'n' ['a', 'n'] rfl (by decide))]
  simp only [Bool.or_eq_true, decide_eq_true_eq, not_or]
  exact ⟨hword 'i' ['n', 'f'] rfl (by decide),
    hword 'i' ['n', 'f', 'i', 'n', 'i', 't', 'y'] rfl (by decide)⟩

/-! ## Reading -/

/-- Digits without a point, in front of an exponent part. -/
theorem decimal?_append {whole : List Char} (tail : List Char) (hwhole : IsDigits whole)
    (htail : ∀ c ∈ tail.head?, c.isDigit = false ∧ c ≠ '.') :
    decimal? (whole ++ tail) = (exponent? tail).map (Decimal.ofDigits whole [] ·) := by
  obtain ⟨htake, hdrop⟩ :=
    takeWhile_append_of_head? tail hwhole.2 (fun c hc => (htail c hc).1)
  have hempty : whole.isEmpty = false := List.isEmpty_eq_false_iff.mpr hwhole.1
  unfold decimal?
  rw [htake, hdrop]
  cases tail with
  | nil => simp [hempty]
  | cons c tail =>
    have hpoint : c ≠ '.' := (htail c rfl).2
    simp [hempty, hpoint]

/-- Digits on both sides of a point, in front of an exponent part. -/
theorem decimal?_point_append {whole fraction : List Char} (tail : List Char)
    (hwhole : IsDigits whole) (hfraction : IsDigits fraction)
    (htail : ∀ c ∈ tail.head?, c.isDigit = false) :
    decimal? (whole ++ '.' :: (fraction ++ tail)) =
      (exponent? tail).map (Decimal.ofDigits whole fraction ·) := by
  obtain ⟨htake, hdrop⟩ :=
    takeWhile_append_of_head? ('.' :: (fraction ++ tail)) hwhole.2 (by simp)
  obtain ⟨htake', hdrop'⟩ := takeWhile_append_of_head? tail hfraction.2 htail
  have hempty : whole.isEmpty = false := List.isEmpty_eq_false_iff.mpr hwhole.1
  simp [decimal?, htake, hdrop, htake', hdrop', hempty]

theorem decimal?_digits {cs : List Char} (h : IsDigits cs) :
    decimal? cs = some (Decimal.ofDigits cs [] 0) := by
  have hread := decimal?_append [] h (by simp)
  rwa [List.append_nil] at hread

theorem decimal?_point {whole fraction : List Char} (hwhole : IsDigits whole)
    (hfraction : IsDigits fraction) :
    decimal? (whole ++ '.' :: fraction) = some (Decimal.ofDigits whole fraction 0) := by
  have hread := decimal?_point_append [] hwhole hfraction (by simp)
  rwa [List.append_nil] at hread

/-! ## What spells a decimal -/

theorem isNumberChar_of_exponent? {cs : List Char} {exponent : Int}
    (h : exponent? cs = some exponent) : ∀ c ∈ cs, isNumberChar c = true := by
  cases cs with
  | nil => simp
  | cons e rest =>
    simp only [exponent?] at h
    split at h
    · next hparts =>
      simp only [Bool.and_eq_true, Bool.or_eq_true, decide_eq_true_eq, List.all_eq_true] at hparts
      obtain ⟨⟨he, _⟩, hdigits⟩ := hparts
      have hrest : ∀ c ∈ rest, isNumberChar c = true := by
        intro c hc
        unfold splitSign at hdigits
        split at hdigits
        · rcases List.mem_cons.mp hc with rfl | hc
          · rfl
          · exact isNumberChar_of_isDigit (hdigits c hc)
        · rcases List.mem_cons.mp hc with rfl | hc
          · rfl
          · exact isNumberChar_of_isDigit (hdigits c hc)
        · exact isNumberChar_of_isDigit (hdigits c hc)
      refine List.forall_mem_cons.mpr ⟨?_, hrest⟩
      rcases he with rfl | rfl <;> rfl
    · cases h

/-- The parts of what spells a decimal: digits, a point and more digits perhaps, and an exponent
    part. -/
theorem exists_parts_of_decimal? {cs : List Char} {d : Decimal} (h : decimal? cs = some d) :
    ∃ whole middle tail, cs = whole ++ (middle ++ tail) ∧ (∀ c ∈ whole, c.isDigit = true) ∧
      (middle = [] ∧ whole ≠ [] ∨
        ∃ fraction, middle = '.' :: fraction ∧ ∀ c ∈ fraction, c.isDigit = true) ∧
      ∃ exponent, exponent? tail = some exponent := by
  have hwhole : ∀ c ∈ cs.takeWhile Char.isDigit, c.isDigit = true := forall_mem_takeWhile _ _
  have hcs := List.takeWhile_append_dropWhile (p := Char.isDigit) (l := cs)
  unfold decimal? at h
  generalize cs.takeWhile Char.isDigit = whole at h hcs hwhole
  generalize cs.dropWhile Char.isDigit = rest at h hcs
  dsimp only at h
  split at h
  · next more =>
    simp only [Option.ite_none_left_eq_some] at h
    obtain ⟨exponent, hexponent, _⟩ := Option.map_eq_some_iff.mp h.2
    refine ⟨whole, '.' :: more.takeWhile Char.isDigit, more.dropWhile Char.isDigit, ?_, hwhole,
      Or.inr ⟨_, rfl, forall_mem_takeWhile _ _⟩, exponent, hexponent⟩
    rw [List.cons_append, List.takeWhile_append_dropWhile, hcs]
  · simp only [Option.ite_none_left_eq_some] at h
    obtain ⟨exponent, hexponent, _⟩ := Option.map_eq_some_iff.mp h.2
    exact ⟨whole, [], rest, hcs.symm, hwhole, Or.inl ⟨rfl, by simpa using h.1⟩, exponent, hexponent⟩

/-- What spells a decimal is made of the characters of numbers. -/
theorem isNumberChar_of_decimal? {cs : List Char} {d : Decimal} (h : decimal? cs = some d) :
    ∀ c ∈ cs, isNumberChar c = true := by
  obtain ⟨whole, middle, tail, rfl, hwhole, hmiddle, exponent, htail⟩ := exists_parts_of_decimal? h
  have hmiddle' : ∀ c ∈ middle, isNumberChar c = true := by
    rcases hmiddle with ⟨rfl, _⟩ | ⟨fraction, rfl, hfraction⟩
    · simp
    · exact List.forall_mem_cons.mpr ⟨rfl, fun c hc => isNumberChar_of_isDigit (hfraction c hc)⟩
  intro c hc
  rcases List.mem_append.mp hc with hc | hc
  · exact isNumberChar_of_isDigit (hwhole c hc)
  rcases List.mem_append.mp hc with hc | hc
  · exact hmiddle' c hc
  · exact isNumberChar_of_exponent? htail c hc

/-- What spells a decimal begins with a digit or with a point. -/
theorem exists_head_of_decimal? {cs : List Char} {d : Decimal} (h : decimal? cs = some d) :
    ∃ first rest, cs = first :: rest ∧ (first.isDigit = true ∨ first = '.') := by
  obtain ⟨whole, middle, tail, rfl, hwhole, hmiddle, _⟩ := exists_parts_of_decimal? h
  cases whole with
  | cons first rest => exact ⟨first, _, rfl, Or.inl (hwhole first List.mem_cons_self)⟩
  | nil =>
    obtain ⟨_, hne⟩ | ⟨fraction, rfl, _⟩ := hmiddle
    · exact absurd rfl hne
    · exact ⟨'.', _, rfl, Or.inr rfl⟩

/-- A decimal stands for its nearest double, and with a minus in front for the opposite one. -/
theorem read?_of_decimal? {cs : List Char} {d : Decimal} (h : decimal? cs = some d) :
    read? (String.ofList cs) = some (Double.ofDecimal d) ∧
      read? (String.ofList ('-' :: cs)) = some (Double.ofDecimal d).neg := by
  have hchars := isNumberChar_of_decimal? h
  have hmagnitude : magnitude? cs = some (Double.ofDecimal d) ∧ splitSign cs = (false, cs) := by
    obtain ⟨first, rest, rfl, hfirst⟩ := exists_head_of_decimal? h
    rw [magnitude?_of_isDigit_or_point hfirst, h, splitSign_of_isDigit_or_point hfirst]
    exact ⟨rfl, rfl⟩
  obtain ⟨hvalue, hsign⟩ := hmagnitude
  have hminus : splitSign ('-' :: cs) = (true, cs) := rfl
  constructor
  · rw [read?_of_isNumberChar hchars, hsign, hvalue]
    simp
  · rw [read?_of_isNumberChar (List.forall_mem_cons.mpr ⟨rfl, hchars⟩), hminus, hvalue]
    simp

/-- A plain numeral is read as the double nearest to the decimal that its digits spell. -/
theorem read?_plain {cs : List Char} (h : IsPlainNumeral cs) :
    read? (String.ofList cs) = (decimal? cs).map Double.ofDecimal := by
  obtain ⟨d, hd⟩ : ∃ d, decimal? cs = some d := by
    rcases h with h | ⟨whole, fraction, hwhole, hfraction, rfl⟩
    · exact ⟨_, decimal?_digits h⟩
    · exact ⟨_, decimal?_point hwhole hfraction⟩
  rw [(read?_of_decimal? hd).1, hd, Option.map_some]

end Numeral

end LoxSyntax
