import LoxSyntax.Proofs.Number.DecimalValue
set_option autoImplicit false

/-! # Texts of doubles

A double is written as the shortest decimal that is nearest to no other double, in positional or in
exponent form, so that its text reads back as the double (`decimal?_magnitudeText`). Hence the texts
tell doubles apart (`shortest_injective`), and so do those that show whole numbers without a point:
they read back as well (`read?_display`). -/

namespace LoxSyntax

/-! ## Forms of a decimal -/

/-- Zeros in front of a run of digits do not count. -/
theorem digitsValue_zeros_append (count : Nat) (digits : List Char) :
    digitsValue (List.replicate count '0' ++ digits) = digitsValue digits := by
  rw [digitsValue_append, digitsValue_replicate_zero, Nat.zero_mul, Nat.zero_add]

theorem isDigits_replicate_append {digits : List Char} (h : IsDigits digits) (count : Nat) :
    IsDigits (List.replicate count '0' ++ digits) := by
  refine ⟨by simp [h.1], ?_⟩
  intro c hc
  rcases List.mem_append.mp hc with hzero | hdigit
  · rw [List.eq_of_mem_replicate hzero]
    rfl
  · exact h.2 c hdigit

theorem isDigits_append_replicate {digits : List Char} (h : IsDigits digits) (count : Nat) :
    IsDigits (digits ++ List.replicate count '0') := by
  refine ⟨by simp [h.1], ?_⟩
  intro c hc
  rcases List.mem_append.mp hc with hdigit | hzero
  · exact h.2 c hdigit
  · rw [List.eq_of_mem_replicate hzero]
    rfl

theorem IsDigits.of_subset {part digits : List Char} (h : IsDigits digits) (hsub : part ⊆ digits)
    (hlength : 0 < part.length) : IsDigits part :=
  ⟨List.ne_nil_of_length_pos hlength, fun c hc => h.2 c (hsub hc)⟩

/-- A decimal that is not too far from one has the value that its digits and its exponent give. -/
theorem Decimal.value_ofDigits (whole fraction : List Char) {exponent : Int}
    (hlow : -400 ≤ exponent) (hhigh : exponent ≤ 400) :
    (ofDigits whole fraction exponent).value =
      digitsValue (whole ++ fraction) * 10 ^ (exponent - fraction.length) := by
  simp only [value, ofDigits]
  rw [min_eq_right (by omega), max_eq_right (by omega)]

namespace Double

/-- Positional form has digits on both sides of a point, which are the given ones and zeros that
    do not count or that the place of the point asks for. -/
theorem exists_parts_of_positional {digits : List Char} (h : IsDigits digits) (point : Int) :
    ∃ whole fraction, positional digits point = whole ++ '.' :: fraction ∧
      IsDigits whole ∧ IsDigits fraction ∧
      ∃ zeros : Nat, digitsValue (whole ++ fraction) = digitsValue digits * 10 ^ zeros ∧
        (fraction.length : Int) = digits.length - point + zeros := by
  have hzero : ['0'] = List.replicate 1 '0' := rfl
  have hzeroDigits : IsDigits ['0'] := ⟨by simp, by simp⟩
  unfold positional
  split
  · refine ⟨['0'], List.replicate (-point).toNat '0' ++ digits, rfl, hzeroDigits,
      isDigits_replicate_append h _, 0, ?_, ?_⟩
    · rw [hzero, digitsValue_zeros_append, digitsValue_zeros_append, Nat.pow_zero, Nat.mul_one]
    · rw [List.length_append, List.length_replicate]
      omega
  split
  · generalize hcount : point.toNat - digits.length = count
    refine ⟨_, ['0'], rfl, isDigits_append_replicate h count, hzeroDigits, count + 1, ?_, ?_⟩
    · rw [List.append_assoc, hzero, List.replicate_append_replicate, digitsValue_append,
        digitsValue_replicate_zero, List.length_replicate, Nat.add_zero]
    · rw [List.length_singleton]
      omega
  · have hwhole : IsDigits (digits.take point.toNat) := by
      refine h.of_subset (List.take_subset _ _) ?_
      rw [List.length_take]
      omega
    have hfraction : IsDigits (digits.drop point.toNat) := by
      refine h.of_subset (List.drop_subset _ _) ?_
      rw [List.length_drop]
      omega
    refine ⟨_, _, rfl, hwhole, hfraction, 0, ?_, ?_⟩
    · rw [List.take_append_drop, Nat.pow_zero, Nat.mul_one]
    · rw [List.length_drop]
      omega

/-- Positional form reads back as a decimal of the same value. -/
theorem decimal?_positional {digits : List Char} (h : IsDigits digits) (point : Int) :
    ∃ d, Numeral.decimal? (positional digits point) = some d ∧
      d.value = digitsValue digits * 10 ^ (point - digits.length) := by
  obtain ⟨whole, fraction, htext, hwhole, hfraction, zeros, hvalue, hlength⟩ :=
    exists_parts_of_positional h point
  refine ⟨_, by rw [htext, Numeral.decimal?_point hwhole hfraction], ?_⟩
  rw [Decimal.value_ofDigits _ _ (by omega) (by omega), hvalue, hlength]
  push_cast
  rw [mul_assoc, ← zpow_natCast, ← zpow_add₀ (by norm_num)]
  congr 2
  omega

/-- The exponent part of exponent form. -/
theorem exponent?_scientific (exponent : Int) :
    Numeral.exponent? ('e' :: (if exponent < 0 then '-' else '+') ::
      (List.replicate (2 - (Nat.toDigits 10 exponent.natAbs).length) '0' ++
        Nat.toDigits 10 exponent.natAbs)) = some exponent := by
  have hplaces := isDigits_replicate_append (isDigits_toDigits exponent.natAbs)
    (2 - (Nat.toDigits 10 exponent.natAbs).length)
  have hvalue := digitsValue_zeros_append (2 - (Nat.toDigits 10 exponent.natAbs).length)
    (Nat.toDigits 10 exponent.natAbs)
  rw [digitsValue_toDigits] at hvalue
  generalize List.replicate (2 - (Nat.toDigits 10 exponent.natAbs).length) '0' ++
    Nat.toDigits 10 exponent.natAbs = places at hplaces hvalue
  have hall : places.all Char.isDigit = true := List.all_eq_true.mpr hplaces.2
  have hempty : places.isEmpty = false := List.isEmpty_eq_false_iff.mpr hplaces.1
  by_cases hsign : exponent < 0
  · simp [Numeral.exponent?, Numeral.splitSign, hsign, hall, hempty, hvalue, abs_of_neg]
  · simp [Numeral.exponent?, Numeral.splitSign, hsign, hall, hempty, hvalue, not_lt.mp hsign]

/-- Exponent form reads back as a decimal of the same value, if the exponent is not too large. -/
theorem decimal?_scientific {digits : List Char} (h : IsDigits digits) {point : Int}
    (hlow : -400 ≤ point - 1) (hhigh : point - 1 ≤ 400) :
    ∃ d, Numeral.decimal? (scientific digits point) = some d ∧
      d.value = digitsValue digits * 10 ^ (point - digits.length) := by
  unfold scientific
  dsimp only
  have hexponent := exponent?_scientific (point - 1)
  generalize htail : 'e' :: (if point - 1 < 0 then '-' else '+') ::
    (List.replicate (2 - (Nat.toDigits 10 (point - 1).natAbs).length) '0' ++
      Nat.toDigits 10 (point - 1).natAbs) = tail at hexponent
  have hhead : ∀ c ∈ tail.head?, c.isDigit = false ∧ c ≠ '.' := by
    simp [← htail]
  split
  · next first second more =>
    obtain ⟨hfirst, hmore⟩ := List.forall_mem_cons.mp h.2
    have hwhole : IsDigits [first] := ⟨by simp, by simpa using hfirst⟩
    have hfraction : IsDigits (second :: more) := ⟨by simp, hmore⟩
    have hread := Numeral.decimal?_point_append tail hwhole hfraction
      (fun c hc => (hhead c hc).1)
    rw [hexponent, Option.map_some] at hread
    refine ⟨_, hread, ?_⟩
    rw [Decimal.value_ofDigits _ _ hlow hhigh, List.singleton_append]
    simp only [List.length_cons]
    congr 2
    omega
  · next hshort =>
    obtain ⟨digit, rfl⟩ : ∃ digit, digits = [digit] := by
      rcases digits with _ | ⟨digit, _ | ⟨second, more⟩⟩
      · exact absurd rfl h.1
      · exact ⟨digit, rfl⟩
      · exact absurd rfl (hshort digit second more)
    have hread := Numeral.decimal?_append tail h hhead
    rw [hexponent, Option.map_some] at hread
    refine ⟨_, hread, ?_⟩
    rw [Decimal.value_ofDigits _ _ hlow hhigh, List.append_nil, List.length_nil,
      List.length_singleton, Nat.cast_zero, sub_zero, Nat.cast_one]

/-! ## Texts that are read back -/

/-- The text of a finite magnitude reads back as it. -/
theorem decimal?_magnitudeText {rank : Nat} (hfinite : rank < 2047 * Nat.pow 2 52) :
    ∃ d, Numeral.decimal? (magnitudeText rank) = some d ∧ ofDecimal d = ofRank false rank := by
  -- the decimal that is written
  generalize hwritten : (if rank = 0 then ⟨0, 0⟩ else shortestDecimal rank) = written
  have hnearest : ofDecimal written = ofRank false rank := by
    rw [← hwritten]
    split
    · next hzero =>
      rw [hzero]
      decide +kernel
    · exact ofDecimal_shortestDecimal rank
  suffices hread : ∃ d, Numeral.decimal? (magnitudeText rank) = some d ∧
      d.value = written.value by
    obtain ⟨d, hd, hvalue⟩ := hread
    exact ⟨d, hd, (ofDecimal_congr hvalue).trans hnearest⟩
  have hdigits := written.isDigits_significantDigits
  rw [written.value_eq_significantDigits]
  unfold magnitudeText
  rw [hwritten]
  dsimp only
  split
  · exact decimal?_positional hdigits _
  · next hform =>
    simp only [Bool.and_eq_true, decide_eq_true_eq, not_and] at hform
    have hzero : rank ≠ 0 := by
      rintro rfl
      rw [if_pos rfl] at hwritten
      subst hwritten
      revert hform
      decide
    obtain ⟨places, hplaces⟩ : ∃ places : Nat, places = 400 := ⟨_, rfl⟩
    obtain ⟨hlow, hhigh⟩ := value_bounds_of_ofDecimal rfl (by omega : 1074 < 3 * places) hnearest
      hfinite hzero
    have hcoefficient : written.coefficient ≠ 0 := by
      intro hnone
      rw [Decimal.value, hnone, Nat.cast_zero, zero_mul] at hlow
      exact absurd hlow (not_le.mpr (zpow_pos (by norm_num) _))
    obtain ⟨hlower, hupper⟩ := Decimal.value_bounds hcoefficient
    have hbelow := (zpow_lt_zpow_iff_right₀ (by norm_num)).mp (hlower.trans_lt hhigh)
    have habove := (zpow_lt_zpow_iff_right₀ (by norm_num)).mp (hlow.trans_lt hupper)
    exact decimal?_scientific hdigits (by omega) (by omega)

/-- The text of a double reads back as the double. -/
theorem read?_shortest (d : Double) : Numeral.read? d.shortest = some d := by
  cases d with
  | nan => decide
  | infinite negative => cases negative <;> decide
  | finite negative rank =>
    obtain ⟨written, hread, hnearest⟩ := decimal?_magnitudeText rank.isLt
    obtain ⟨hplain, hminus⟩ := Numeral.read?_of_decimal? hread
    rw [hnearest, ofRank, dif_pos rank.isLt] at hplain hminus
    cases negative
    · exact hplain
    · exact hminus

/-- No two doubles have the same text. -/
theorem shortest_injective : Function.Injective shortest := by
  intro d e h
  have hread := read?_shortest d
  rw [h, read?_shortest] at hread
  exact (Option.some.inj hread).symm

/-- The text of a double is made of the characters of numbers. -/
theorem isNumberChar_of_mem_shortest {d : Double} {c : Char} (hc : c ∈ d.shortest.toList) :
    Numeral.isNumberChar c = true := by
  cases d with
  | nan =>
    have hall : nan.shortest.toList.all Numeral.isNumberChar = true := by decide
    exact List.all_eq_true.mp hall c hc
  | infinite negative =>
    have hall : (infinite negative).shortest.toList.all Numeral.isNumberChar = true := by
      cases negative <;> decide
    exact List.all_eq_true.mp hall c hc
  | finite negative rank =>
    obtain ⟨written, hread, _⟩ := decimal?_magnitudeText rank.isLt
    have hplain := Numeral.isNumberChar_of_decimal? hread
    rw [shortest, String.toList_ofList] at hc
    cases negative with
    | false => exact hplain c hc
    | true =>
      rcases List.mem_cons.mp hc with rfl | hc
      · rfl
      · exact hplain c hc

theorem point_mem_positional (digits : List Char) (point : Int) :
    '.' ∈ positional digits point := by
  unfold positional
  split
  · simp
  split
  · simp
  · simp

theorem e_mem_scientific (digits : List Char) (point : Int) : 'e' ∈ scientific digits point := by
  simp [scientific]

/-- The text of a double shows that it is not that of a whole number: by its point, its exponent or
    the letters of a word. -/
theorem exists_mem_shortest (d : Double) :
    ∃ c ∈ d.shortest.toList, c ≠ '-' ∧ c.isDigit = false := by
  cases d with
  | nan => exact ⟨'n', by decide, by decide, by decide⟩
  | infinite negative => exact ⟨'n', by cases negative <;> decide, by decide, by decide⟩
  | finite negative rank =>
    have hmagnitude : ∃ c ∈ magnitudeText rank, c ≠ '-' ∧ c.isDigit = false := by
      unfold magnitudeText
      generalize (if (rank : Nat) = 0 then ⟨0, 0⟩ else shortestDecimal rank) = written
      dsimp only
      split
      · exact ⟨'.', point_mem_positional _ _, by decide, by decide⟩
      · exact ⟨'e', e_mem_scientific _ _, by decide, by decide⟩
    obtain ⟨c, hc, hmark⟩ := hmagnitude
    refine ⟨c, ?_, hmark⟩
    rw [shortest, String.toList_ofList]
    cases negative with
    | false => exact hc
    | true => exact List.mem_cons_of_mem _ hc

/-! ## Whole numbers -/

/-- A magnitude that is whole is a multiple of one. -/
theorem units_of_toInt? {rank shift : Nat} (hshift : shift = 1074) {n : Int}
    (h : (ofRank false rank).toInt? = some n) :
    ∃ m : Nat, n = m ∧ units rank = m * 2 ^ shift := by
  unfold ofRank at h
  split at h
  · simp only [toInt?, ← hshift, Nat.pow_eq, Option.ite_none_right_eq_some, Option.some.injEq] at h
    obtain ⟨hrest, rfl⟩ := h
    exact ⟨_, rfl, (Nat.div_mul_cancel (Nat.dvd_of_mod_eq_zero hrest)).symm⟩
  · cases h

/-- The digits of a whole magnitude spell a decimal that is nearest to it. -/
theorem decimal?_of_toInt? {rank : Nat} {n : Int} (h : (ofRank false rank).toInt? = some n) :
    ∃ m : Nat, n = m ∧ ∃ d, Numeral.decimal? (Nat.toDigits 10 m) = some d ∧
      ofDecimal d = ofRank false rank := by
  obtain ⟨shift, hshift⟩ : ∃ shift, shift = 1074 := ⟨_, rfl⟩
  obtain ⟨m, hm, hunits⟩ := units_of_toInt? hshift h
  refine ⟨m, hm, _, Numeral.decimal?_digits (isDigits_toDigits m), ?_⟩
  have hvalue : (Decimal.ofDigits (Nat.toDigits 10 m) [] 0).value =
      units rank / ((2 ^ shift : Nat) : ℚ) := by
    rw [Decimal.value_ofDigits _ _ (by omega) (by omega), List.append_nil, digitsValue_toDigits,
      hunits]
    push_cast
    field_simp
    simp
  rw [ofDecimal_of_value (by positivity) hvalue, nearestRank_units hshift]

/-- What is shown of a finite magnitude spells a decimal that is nearest to it. -/
theorem decimal?_display {rank : Nat} (hfinite : rank < 2047 * Nat.pow 2 52) :
    ∃ d, Numeral.decimal? (ofRank false rank).display.toList = some d ∧
      ofDecimal d = ofRank false rank := by
  cases hwhole : (ofRank false rank).toInt? with
  | none =>
    have hdisplay : (ofRank false rank).display = String.ofList (magnitudeText rank) := by
      rw [display, hwhole, ofRank, dif_pos hfinite]
      rfl
    rw [hdisplay, String.toList_ofList]
    exact decimal?_magnitudeText hfinite
  | some n =>
    obtain ⟨m, rfl, hread⟩ := decimal?_of_toInt? hwhole
    have hdisplay : (ofRank false rank).display = String.ofList (Nat.toDigits 10 m) := by
      rw [display, hwhole]
      exact Nat.toString_eq_ofList_toDigits
    rw [hdisplay, String.toList_ofList]
    exact hread

theorem ofRank_of_le {rank : Nat} (h : 2047 * Nat.pow 2 52 ≤ rank) :
    ofRank false rank = .infinite false := by
  rw [ofRank, dif_neg (Nat.not_lt.mpr h)]

/-- What is shown of a magnitude reads back as it. -/
theorem read?_display (rank : Nat) :
    Numeral.read? (ofRank false rank).display = some (ofRank false rank) := by
  by_cases hfinite : rank < 2047 * Nat.pow 2 52
  · obtain ⟨d, hread, hnearest⟩ := decimal?_display hfinite
    rw [← hnearest, ← (Numeral.read?_of_decimal? hread).1, hnearest, String.ofList_toList]
  · rw [ofRank_of_le (Nat.not_lt.mp hfinite)]
    decide

/-- What is shown of a magnitude is made of the characters of numbers. -/
theorem isNumberChar_of_mem_display {rank : Nat} {c : Char}
    (hc : c ∈ (ofRank false rank).display.toList) : Numeral.isNumberChar c = true := by
  by_cases hfinite : rank < 2047 * Nat.pow 2 52
  · obtain ⟨d, hread, _⟩ := decimal?_display hfinite
    exact Numeral.isNumberChar_of_decimal? hread c hc
  · rw [ofRank_of_le (Nat.not_lt.mp hfinite)] at hc
    have hall : (infinite false).display.toList.all Numeral.isNumberChar = true := by decide
    exact List.all_eq_true.mp hall c hc

end Double

end LoxSyntax
