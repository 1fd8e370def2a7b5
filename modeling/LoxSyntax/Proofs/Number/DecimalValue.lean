import LoxSyntax.Number.Shortest
import LoxSyntax.Proofs.Number.IntegerRange
import LoxSyntax.Proofs.Number.PlainNumeral
import Mathlib.Algebra.Order.Field.Rat
import Mathlib.Data.Rat.Cast.Order
import Mathlib.Tactic.FieldSimp
set_option autoImplicit false

/-! # Values of decimals

A decimal has a value, and the double nearest to it depends on nothing else (`ofDecimal_congr`). A
double has the value that its units give, and is the nearest one to that value (`nearestRank_units`),
so that a double can be told from any decimal that has its value. Values that are too large or too
small for a double are bounded by powers of ten. -/

namespace LoxSyntax

/-! ## Runs of digits -/

theorem digitsValue_eq (digits : List Char) :
    digitsValue digits = Nat.ofDigitChars 10 digits 0 :=
  Nat.ofDigitChars_eq_foldl.symm

/-- A run of digits in front of another one counts as often as the places behind it say. -/
theorem digitsValue_append (front back : List Char) :
    digitsValue (front ++ back) = digitsValue front * 10 ^ back.length + digitsValue back := by
  simp only [digitsValue_eq]
  rw [Nat.ofDigitChars_append, Nat.ofDigitChars_eq_ofDigitChars_zero, Nat.mul_comm]

theorem digitsValue_replicate_zero (count : Nat) :
    digitsValue (List.replicate count '0') = 0 := by
  rw [digitsValue_eq, Nat.ofDigitChars_replicate_zero, Nat.mul_zero]

theorem digitsValue_toDigits (n : Nat) : digitsValue (Nat.toDigits 10 n) = n := by
  rw [digitsValue_eq, Nat.ofDigitChars_ten_toDigits]

theorem isDigits_toDigits (n : Nat) : IsDigits (Nat.toDigits 10 n) :=
  ⟨Nat.toDigits_ne_nil, fun _ hc => Nat.isDigit_of_mem_toDigits (by omega) (by omega) hc⟩

namespace Decimal

/-! ## Values -/

/-- The number that a decimal stands for. -/
def value (d : Decimal) : ℚ := d.coefficient * 10 ^ d.exponent

theorem significantDigits_of_eq_zero {d : Decimal} (h : d.coefficient = 0) :
    d.significantDigits = ['0'] := by
  unfold significantDigits
  rw [h]
  decide

/-- The digits of a decimal are its significant ones and zeros behind them. -/
theorem toDigits_coefficient {d : Decimal} (h : d.coefficient ≠ 0) :
    ∃ count, Nat.toDigits 10 d.coefficient =
      d.significantDigits ++ List.replicate count '0' := by
  generalize hdigits : Nat.toDigits 10 d.coefficient = digits
  have hsplit := List.takeWhile_append_dropWhile (p := (· = '0')) (l := digits.reverse)
  have hzeros : digits.reverse.takeWhile (· = '0') =
      List.replicate (digits.reverse.takeWhile (· = '0')).length '0' := by
    rw [List.eq_replicate_iff]
    refine ⟨rfl, ?_⟩
    intro c hc
    simpa using List.mem_takeWhile_imp hc
  generalize (digits.reverse.takeWhile (· = '0')).length = count at hzeros
  have hjoined : digits =
      (digits.reverse.dropWhile (· = '0')).reverse ++ List.replicate count '0' := by
    rw [← List.reverse_replicate, ← List.reverse_append, ← hzeros, hsplit, List.reverse_reverse]
  refine ⟨count, hjoined.trans ?_⟩
  unfold significantDigits
  rw [hdigits]
  split
  · next hnil =>
    -- nothing but zeros would spell zero
    rw [hnil, List.nil_append] at hjoined
    have hvalue := digitsValue_toDigits d.coefficient
    rw [hdigits, hjoined, digitsValue_replicate_zero] at hvalue
    exact absurd hvalue.symm h
  · rfl

theorem isDigits_significantDigits (d : Decimal) : IsDigits d.significantDigits := by
  have hne : d.significantDigits ≠ [] := by
    unfold significantDigits
    split
    · simp
    · next hdigits => exact hdigits
  refine ⟨hne, ?_⟩
  intro c hc
  by_cases h : d.coefficient = 0
  · rw [significantDigits_of_eq_zero h, List.mem_singleton] at hc
    rw [hc]
    rfl
  · obtain ⟨count, hdigits⟩ := toDigits_coefficient h
    refine (isDigits_toDigits d.coefficient).2 c ?_
    rw [hdigits]
    exact List.mem_append_left _ hc

/-- A decimal has the value that its significant digits and the place of its point give. -/
theorem value_eq_significantDigits (d : Decimal) :
    d.value = digitsValue d.significantDigits *
      10 ^ (d.pointPosition - d.significantDigits.length) := by
  by_cases h : d.coefficient = 0
  · have hdigits : digitsValue d.significantDigits = 0 := by
      rw [significantDigits_of_eq_zero h]
      rfl
    rw [value, h, hdigits, Nat.cast_zero, zero_mul, zero_mul]
  · obtain ⟨count, hdigits⟩ := toDigits_coefficient h
    have hcoefficient : d.coefficient = digitsValue d.significantDigits * 10 ^ count := by
      rw [← digitsValue_toDigits d.coefficient, hdigits, digitsValue_append,
        digitsValue_replicate_zero, List.length_replicate, Nat.add_zero]
    have hpoint : d.pointPosition - d.significantDigits.length = count + d.exponent := by
      rw [pointPosition, hdigits, List.length_append, List.length_replicate]
      omega
    rw [value, hpoint, zpow_add₀ (by norm_num), zpow_natCast, hcoefficient]
    push_cast
    ring

/-- The place of the point says how large a decimal is. -/
theorem value_bounds {d : Decimal} (h : d.coefficient ≠ 0) :
    10 ^ (d.pointPosition - 1) ≤ d.value ∧ d.value < 10 ^ d.pointPosition := by
  have hpos : 0 < (Nat.toDigits 10 d.coefficient).length := Nat.length_toDigits_pos
  generalize hlength : (Nat.toDigits 10 d.coefficient).length = length at hpos
  have hupper : d.coefficient < 10 ^ length :=
    (Nat.length_toDigits_le_iff (by omega) hpos).mp hlength.le
  have hlower : 10 ^ (length - 1) ≤ d.coefficient := by
    by_cases hone : length = 1
    · rw [hone]
      omega
    · have hlonger : ¬(Nat.toDigits 10 d.coefficient).length ≤ length - 1 := by omega
      rw [Nat.length_toDigits_le_iff (by omega) (by omega)] at hlonger
      omega
  have hpower : (0 : ℚ) < 10 ^ d.exponent := zpow_pos (by norm_num) _
  have hbelow : d.pointPosition - 1 = ((length - 1 : Nat) : ℤ) + d.exponent := by
    rw [pointPosition, hlength]
    omega
  rw [hbelow, pointPosition, hlength, zpow_add₀ (by norm_num), zpow_add₀ (by norm_num),
    zpow_natCast, zpow_natCast, value]
  constructor
  · exact mul_le_mul_of_nonneg_right (by exact_mod_cast hlower) hpower.le
  · exact mul_lt_mul_of_pos_right (by exact_mod_cast hupper) hpower

end Decimal

namespace Double

/-! ## The nearest double -/

/-- The nearest double depends on the quotient alone. -/
theorem nearestRank_congr {num den num' den' : Nat} (hden : 0 < den) (hden' : 0 < den')
    (h : num * den' = num' * den) : nearestRank num den = nearestRank num' den' := by
  have hscale : ∀ (num den : Nat) {unit : Nat}, 0 < unit →
      nearestRank (num * unit) (den * unit) = nearestRank num den := by
    intro num den unit hunit
    have hscaled : num * unit * Nat.pow 2 1074 = num * Nat.pow 2 1074 * unit := by ring
    have hdivisor : ∀ power, den * unit * power = den * power * unit := by
      intro power
      ring
    simp only [nearestRank, hscaled, hdivisor, Nat.mul_div_mul_right _ _ hunit,
      roundQuotient_mul_right _ _ hunit]
  rw [← hscale num den hden', ← hscale num' den' hden, h, Nat.mul_comm den]

/-- The double nearest to a decimal is the one nearest to a quotient with the decimal's value. -/
theorem ofDecimal_of_value {d : Decimal} {num den : Nat} (hden : 0 < den)
    (h : d.value = num / den) : ofDecimal d = ofRank false (nearestRank num den) := by
  have hden' : (den : ℚ) ≠ 0 := by
    have hpos : (0 : ℚ) < den := by exact_mod_cast hden
    exact hpos.ne'
  rw [Decimal.value, eq_div_iff hden'] at h
  unfold ofDecimal
  split
  · next hexponent =>
    obtain ⟨power, hpower⟩ := Int.eq_ofNat_of_zero_le hexponent
    rw [hpower, Int.toNat_natCast]
    rw [hpower, zpow_natCast] at h
    have hcross : d.coefficient * Nat.pow 10 power * den = num * 1 := by
      rw [Nat.pow_eq, Nat.mul_one]
      exact_mod_cast h
    exact congrArg _ (nearestRank_congr Nat.one_pos hden hcross)
  · next hexponent =>
    obtain ⟨power, hpower⟩ := Int.eq_ofNat_of_zero_le (a := -d.exponent) (by omega)
    rw [hpower, Int.toNat_natCast]
    rw [show d.exponent = -(power : ℤ) by omega, zpow_neg, zpow_natCast] at h
    have hpos : (10 : ℚ) ^ power ≠ 0 := pow_ne_zero _ (by norm_num)
    rw [mul_right_comm, mul_inv_eq_iff_eq_mul₀ hpos] at h
    have hcross : d.coefficient * den = num * Nat.pow 10 power := by
      rw [Nat.pow_eq]
      exact_mod_cast h
    exact congrArg _ (nearestRank_congr (Nat.pow_pos (by omega)) hden hcross)

/-- Every decimal has the value of a quotient. -/
theorem exists_quotient (d : Decimal) : ∃ num den : Nat, 0 < den ∧ d.value = num / den := by
  by_cases h : 0 ≤ d.exponent
  · obtain ⟨power, hpower⟩ := Int.eq_ofNat_of_zero_le h
    refine ⟨d.coefficient * 10 ^ power, 1, Nat.one_pos, ?_⟩
    rw [Decimal.value, hpower, zpow_natCast]
    push_cast
    ring
  · obtain ⟨power, hpower⟩ := Int.eq_ofNat_of_zero_le (a := -d.exponent) (by omega)
    refine ⟨d.coefficient, 10 ^ power, by positivity, ?_⟩
    rw [Decimal.value, show d.exponent = -(power : ℤ) by omega, zpow_neg, zpow_natCast]
    push_cast
    ring

/-- Decimals of one value have the same nearest double. -/
theorem ofDecimal_congr {d e : Decimal} (h : d.value = e.value) : ofDecimal d = ofDecimal e := by
  obtain ⟨num, den, hden, hvalue⟩ := exists_quotient e
  rw [ofDecimal_of_value hden hvalue, ofDecimal_of_value hden (h.trans hvalue)]

/-! ## Exact values -/

/-- Finite doubles of one sign are told apart by their ranks. -/
theorem eq_of_ofRank_eq {negative : Bool} {rank rank' : Nat}
    (h : ofRank negative rank = ofRank negative rank') (hfinite : rank' < 2047 * Nat.pow 2 52) :
    rank = rank' := by
  rw [ofRank, ofRank, dif_pos hfinite] at h
  split at h
  · cases h
    rfl
  · cases h

theorem roundQuotient_mul_self (n : Nat) {den : Nat} (h : 0 < den) :
    roundQuotient (n * den) den = n := by
  have hquotient : n * den / den = n := Nat.mul_div_cancel n h
  simp [roundQuotient, hquotient, h.ne]

/-- A number of 53 bits in front of zeros. -/
theorem log2_mul_two_pow {lead : Nat} (hlow : 2 ^ 52 ≤ lead) (hhigh : lead < 2 ^ 53)
    (block : Nat) : (lead * 2 ^ block).log2 = 52 + block := by
  have hpos : 0 < 2 ^ block := by positivity
  rw [Nat.log2_eq_iff (Nat.mul_ne_zero (by omega) hpos.ne'), pow_add, pow_add, pow_add]
  generalize 2 ^ block = power at *
  constructor
  · exact Nat.mul_le_mul_right _ hlow
  · rw [Nat.mul_right_comm]
    exact Nat.mul_lt_mul_of_pos_right hhigh hpos

section

-- the exponent of the unit goes by a name, so that no power of it is ever computed
variable {shift : Nat} (hshift : shift = 1074)

include hshift

theorem nearestRank_eq {num scaled : Nat} (h : num * 2 ^ shift = scaled) (den : Nat) :
    nearestRank num den = ((scaled / den).log2 - 52) * 2 ^ 52 +
      roundQuotient scaled (den * 2 ^ ((scaled / den).log2 - 52)) := by
  unfold nearestRank
  rw [← h, ← hshift]
  rfl

/-- A double is the one that is nearest to its own value. -/
theorem nearestRank_units (rank : Nat) : nearestRank (units rank) (2 ^ shift) = rank := by
  have hunit : 0 < 2 ^ shift := by positivity
  have hrank : nearestRank (units rank) (2 ^ shift) =
      ((units rank).log2 - 52) * 2 ^ 52 +
        roundQuotient (units rank) (2 ^ ((units rank).log2 - 52)) := by
    rw [nearestRank_eq hshift rfl, Nat.mul_div_cancel _ hunit, Nat.mul_comm (2 ^ shift),
      roundQuotient_mul_right _ _ hunit]
  rw [hrank]
  by_cases hsmall : rank < 2 ^ 52
  · have hunits : units rank = rank := if_pos hsmall
    have hlog : rank.log2 - 52 = 0 := by
      by_cases hzero : rank = 0
      · rw [hzero]
        decide
      · have hsize := (Nat.log2_lt hzero).mpr hsmall
        omega
    rw [hunits, hlog, Nat.zero_mul, Nat.zero_add, Nat.pow_zero]
    simpa using roundQuotient_mul_self rank Nat.one_pos
  · generalize hblock : rank / 2 ^ 52 - 1 = block
    have hunits : units rank = (2 ^ 52 + rank % 2 ^ 52) * 2 ^ block := by
      rw [← hblock]
      exact if_neg hsmall
    have hlog : (units rank).log2 = 52 + block := by
      rw [hunits]
      exact log2_mul_two_pow (by omega) (by omega) block
    have hround : roundQuotient (units rank) (2 ^ block) = 2 ^ 52 + rank % 2 ^ 52 := by
      rw [hunits]
      exact roundQuotient_mul_self _ (by positivity)
    rw [hlog, Nat.add_sub_cancel_left, hround]
    omega

theorem ofDecimal_exactDecimal (rank : Nat) :
    ofDecimal (exactDecimal rank) = ofRank false rank := by
  have hexact : exactDecimal rank = ⟨units rank * Nat.pow 5 shift, -(shift : ℤ)⟩ := by
    rw [exactDecimal, ← hshift]
    rw [hshift, Nat.cast_ofNat]
  have hvalue : (exactDecimal rank).value = units rank / ((2 ^ shift : Nat) : ℚ) := by
    rw [hexact, Decimal.value, zpow_neg, zpow_natCast, Nat.pow_eq,
      show (10 : ℚ) = 5 * 2 by norm_num, mul_pow]
    push_cast
    field_simp
  rw [ofDecimal_of_value (by positivity) hvalue, nearestRank_units hshift]

/-! ## Values beyond the doubles -/

/-- What is two to the power 1024 or more is beyond the finite doubles. -/
theorem le_nearestRank {num den : Nat} (hden : 0 < den) (h : 2 ^ (shift - 50) * den ≤ num) :
    2047 * 2 ^ 52 ≤ nearestRank num den := by
  have hquotient : 2 ^ (shift - 50 + shift) ≤ num * 2 ^ shift / den := by
    rw [Nat.le_div_iff_mul_le hden, pow_add, Nat.mul_right_comm]
    exact Nat.mul_le_mul_right _ h
  generalize hscaled : num * 2 ^ shift = scaled at hquotient
  have hne : scaled / den ≠ 0 := by
    have hunit : 0 < 2 ^ (shift - 50 + shift) := by positivity
    omega
  have hsize : shift - 50 + shift ≤ (scaled / den).log2 := (Nat.le_log2 hne).mpr hquotient
  obtain ⟨dropped, hdropped⟩ : ∃ dropped, (scaled / den).log2 = 52 + dropped :=
    Nat.exists_eq_add_of_le (by omega)
  have hself := Nat.log2_self_le hne
  rw [hdropped, pow_add] at hself
  have hlead : 2 ^ 52 ≤ scaled / (den * 2 ^ dropped) := by
    rw [← Nat.div_div_eq_div_mul, Nat.le_div_iff_mul_le (by positivity)]
    exact hself
  have hround := le_roundQuotient scaled (den * 2 ^ dropped)
  rw [nearestRank_eq hshift hscaled, hdropped, Nat.add_sub_cancel_left]
  omega

/-- What is less than half a unit is nearest to zero. -/
theorem nearestRank_eq_zero {num den : Nat} (h : 2 ^ (shift + 1) * num < den) :
    nearestRank num den = 0 := by
  rw [pow_succ, Nat.mul_right_comm, Nat.mul_comm _ num] at h
  generalize hscaled : num * 2 ^ shift = scaled at h
  have hquotient : scaled / den = 0 := Nat.div_eq_of_lt (by omega)
  have hrest : scaled % den = scaled := Nat.mod_eq_of_lt (by omega)
  have hdropped : Nat.log2 0 - 52 = 0 := by decide
  rw [nearestRank_eq hshift hscaled, hquotient, hdropped, Nat.zero_mul, Nat.zero_add, Nat.pow_zero,
    Nat.mul_one]
  simp only [roundQuotient, hquotient, hrest]
  rw [if_neg]
  simp only [Bool.or_eq_true, Bool.and_eq_true, decide_eq_true_eq, not_or]
  omega

/-- A decimal whose nearest double is finite and not zero is neither very large nor very small. -/
theorem value_bounds_of_ofDecimal {d : Decimal} {rank places : Nat} (hplaces : shift < 3 * places)
    (h : ofDecimal d = ofRank false rank) (hfinite : rank < 2047 * Nat.pow 2 52)
    (hzero : rank ≠ 0) :
    10 ^ (-(places : ℤ)) ≤ d.value ∧ d.value < 10 ^ (places : ℤ) := by
  obtain ⟨num, den, hden, hvalue⟩ := exists_quotient d
  have hdenQ : (0 : ℚ) < den := by exact_mod_cast hden
  have hpower : 2 ^ (3 * places) ≤ 10 ^ places := by
    rw [pow_mul]
    exact Nat.pow_le_pow_left (by omega) places
  rw [ofDecimal_of_value hden hvalue] at h
  rw [hvalue, zpow_neg, zpow_natCast, inv_eq_one_div, div_le_div_iff₀ (by positivity) hdenQ,
    div_lt_iff₀ hdenQ, one_mul]
  constructor
  · by_contra hsmall
    have hless : num * 10 ^ places < den := by
      rw [not_le] at hsmall
      exact_mod_cast hsmall
    have hunit : 2 ^ (shift + 1) ≤ 10 ^ places :=
      (Nat.pow_le_pow_right (by omega) (by omega)).trans hpower
    have hrank : nearestRank num den = 0 := by
      refine nearestRank_eq_zero hshift (Nat.lt_of_le_of_lt ?_ hless)
      rw [Nat.mul_comm num]
      exact Nat.mul_le_mul_right num hunit
    exact hzero ((eq_of_ofRank_eq h hfinite).symm.trans hrank)
  · by_contra hlarge
    have hmore : 10 ^ places * den ≤ num := by
      rw [not_lt] at hlarge
      exact_mod_cast hlarge
    have hunit : 2 ^ (shift - 50) ≤ 10 ^ places :=
      (Nat.pow_le_pow_right (by omega) (by omega)).trans hpower
    have hrank : 2047 * 2 ^ 52 ≤ nearestRank num den :=
      le_nearestRank hshift hden ((Nat.mul_le_mul_right den hunit).trans hmore)
    rw [eq_of_ofRank_eq h hfinite] at hrank
    exact absurd hfinite (Nat.not_lt.mpr hrank)

end

/-- The shortest decimal of a double reads back as the double. -/
theorem ofDecimal_shortestDecimal (rank : Nat) :
    ofDecimal (shortestDecimal rank) = ofRank false rank := by
  unfold shortestDecimal
  cases hfound : (List.range' 1 17).findSome? fun n =>
      (neighbours rank n).find? (readsBack rank) with
  | none => exact ofDecimal_exactDecimal rfl rank
  | some d =>
    obtain ⟨n, _, hn⟩ := List.exists_of_findSome?_eq_some hfound
    have hback := List.find?_some hn
    exact of_decide_eq_true hback

end Double

end LoxSyntax
