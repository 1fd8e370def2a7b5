import LoxSyntax.Number.Double
import Mathlib.Tactic.Positivity
import Mathlib.Tactic.Ring
set_option autoImplicit false

/-! # Whole numbers beyond the doubles

A whole number has a nearest double unless it is so large that rounding takes it past the largest
finite one. The first such magnitude is `2 ^ 1024 - 2 ^ 970`: it lies halfway between the largest
double, whose 53 binary digits are all ones, and the next power of two, and a half is rounded to the
even one of the two. The main statement is `Double.ofInt?_eq_none_iff`. -/

namespace LoxSyntax

/-! ## Rounded quotients -/

theorem le_roundQuotient (num den : Nat) : num / den ≤ roundQuotient num den := by
  unfold roundQuotient
  dsimp only
  split <;> omega

theorem roundQuotient_le (num den : Nat) : roundQuotient num den ≤ num / den + 1 := by
  unfold roundQuotient
  dsimp only
  split <;> omega

/-- A quotient does not depend on the unit that its parts are measured in. -/
theorem roundQuotient_mul_right (num den : Nat) {unit : Nat} (h : 0 < unit) :
    roundQuotient (num * unit) (den * unit) = roundQuotient num den := by
  have hlt : ∀ a b : Nat, a * unit < 2 * (b * unit) ↔ a < 2 * b := by
    intro a b
    rw [← Nat.mul_assoc]
    exact Nat.mul_lt_mul_right h
  have heq : ∀ a b : Nat, 2 * (b * unit) = a * unit ↔ 2 * b = a := by
    intro a b
    rw [← Nat.mul_assoc]
    exact Nat.mul_left_inj (Nat.ne_of_gt h)
  simp only [roundQuotient, Nat.mul_div_mul_right _ _ h, Nat.mul_mod_mul_right, hlt, heq]

/-- Rounding reaches an even number from half a step below it. -/
theorem two_mul_le_roundQuotient_iff (num n : Nat) {half : Nat} (h : 0 < half) :
    2 * n ≤ roundQuotient num (2 * half) ↔ (4 * n - 1) * half ≤ num := by
  have hsplit : 2 * half * (num / (2 * half)) + num % (2 * half) = num := Nat.div_add_mod _ _
  have hrest : num % (2 * half) < 2 * half := Nat.mod_lt _ (by omega)
  have hlow := le_roundQuotient num (2 * half)
  have hhigh := roundQuotient_le num (2 * half)
  rcases Nat.lt_trichotomy (num / (2 * half) + 1) (2 * n) with hbelow | hnext | habove
  · -- more than one step below
    have hnum : num < (4 * n - 1) * half :=
      calc num < 2 * half * (num / (2 * half) + 1) := by rw [Nat.mul_add]; omega
        _ ≤ 2 * half * (2 * n - 1) := Nat.mul_le_mul_left _ (by omega)
        _ = (4 * n - 2) * half := by rw [show 4 * n - 2 = 2 * (2 * n - 1) by omega]; ring
        _ ≤ (4 * n - 1) * half := Nat.mul_le_mul_right _ (by omega)
    omega
  · -- one step below, where the quotient is odd, so that a half is rounded up
    have hodd : num / (2 * half) % 2 = 1 := by omega
    have hup : 2 * n ≤ roundQuotient num (2 * half) ↔ half ≤ num % (2 * half) := by
      simp only [roundQuotient, hodd, decide_true, Bool.and_true, Bool.or_eq_true,
        decide_eq_true_eq]
      split <;> omega
    have hbound : (4 * n - 1) * half = 2 * half * (num / (2 * half)) + half := by
      rw [show 4 * n - 1 = 2 * (num / (2 * half)) + 1 by omega]
      ring
    rw [hup, hbound]
    omega
  · -- not below
    have hnum : (4 * n - 1) * half ≤ num :=
      calc (4 * n - 1) * half ≤ 2 * (num / (2 * half)) * half := Nat.mul_le_mul_right _ (by omega)
        _ = 2 * half * (num / (2 * half)) := by ring
        _ ≤ num := by omega
    omega

namespace Double

/-! ## Ranks -/

/-- The rank of the double nearest to a whole number that has `size + 1` binary digits. -/
theorem nearestRank_of_log2 {num size : Nat} (h : num ≠ 0) (hsize : num.log2 = size) :
    nearestRank num 1 = (size + 1022) * 2 ^ 52 + roundQuotient (num * 2 ^ 52) (2 ^ size) := by
  obtain ⟨hlow, hhigh⟩ := (Nat.log2_eq_iff h).mp hsize
  have hscaled : (num * 2 ^ 1074).log2 = size + 1074 := by
    have hunit : 0 < 2 ^ 1074 := by positivity
    rw [Nat.log2_eq_iff (Nat.mul_ne_zero h hunit.ne'), pow_add, Nat.add_right_comm, pow_add]
    generalize 2 ^ 1074 = unit at *
    exact ⟨Nat.mul_le_mul_right unit hlow, Nat.mul_lt_mul_of_pos_right hhigh hunit⟩
  have hround : roundQuotient (num * 2 ^ 1074) (2 ^ (size + 1022)) =
      roundQuotient (num * 2 ^ 52) (2 ^ size) := by
    have hunit : 0 < 2 ^ 1022 := by positivity
    rw [pow_add 2 size, show 1074 = 52 + 1022 from rfl, pow_add 2 52, ← Nat.mul_assoc]
    exact roundQuotient_mul_right _ _ hunit
  have hdropped : size + 1074 - 52 = size + 1022 := by omega
  simp only [nearestRank, Nat.pow_eq, Nat.div_one, hscaled, hdropped, Nat.one_mul, hround]

/-- The nearest double of a whole number is finite below the given magnitude only. -/
theorem nearestRank_lt_iff (num : Nat) :
    nearestRank num 1 < 2047 * 2 ^ 52 ↔ num < (2 ^ 54 - 1) * 2 ^ 970 := by
  have hunit : 0 < 2 ^ 970 := by positivity
  by_cases hzero : num = 0
  · subst hzero
    exact iff_of_true (by decide +kernel) (Nat.mul_pos (by decide) hunit)
  generalize hsize : num.log2 = size
  obtain ⟨hlow, hhigh⟩ := (Nat.log2_eq_iff hzero).mp hsize
  rw [nearestRank_of_log2 hzero hsize]
  have hpos : 0 < 2 ^ size := by positivity
  have hlower := le_roundQuotient (num * 2 ^ 52) (2 ^ size)
  have hupper := roundQuotient_le (num * 2 ^ 52) (2 ^ size)
  rcases Nat.lt_trichotomy size 1023 with hsmall | rfl | hlarge
  · have hquotient : num * 2 ^ 52 / 2 ^ size < 2 ^ 53 := by
      rw [Nat.div_lt_iff_lt_mul hpos]
      rw [pow_succ] at hhigh
      omega
    have hpow : 2 ^ (size + 1) ≤ 2 ^ 53 * 2 ^ 970 := by
      rw [← pow_add]
      exact pow_le_pow_right₀ (Nat.le_succ 1) (by omega)
    generalize 2 ^ 970 = unit at *
    omega
  · -- the digits reach as far as those of the largest double, so that rounding decides
    have hpow : 2 ^ 1023 = 2 * (2 ^ 970 * 2 ^ 52) := by
      rw [← pow_add, ← pow_succ']
    have hhalf : 0 < 2 ^ 970 * 2 ^ 52 := by positivity
    have hbound := two_mul_le_roundQuotient_iff (num * 2 ^ 52) (2 ^ 52) hhalf
    rw [hpow]
    generalize 2 ^ 970 = unit at *
    omega
  · have hquotient : 2 ^ 52 ≤ num * 2 ^ 52 / 2 ^ size := by
      rw [Nat.le_div_iff_mul_le hpos]
      omega
    have hpow : 2 ^ 54 * 2 ^ 970 ≤ 2 ^ size := by
      rw [← pow_add]
      exact pow_le_pow_right₀ (Nat.le_succ 1) hlarge
    generalize 2 ^ 970 = unit at *
    omega

/-! ## Numbers without a nearest double -/

theorem bounded?_ofRank_eq_none_iff (negative : Bool) (rank : Nat) :
    (ofRank negative rank).bounded? = none ↔ ¬rank < 2047 * Nat.pow 2 52 := by
  by_cases h : rank < 2047 * Nat.pow 2 52
  · rw [ofRank, dif_pos h]
    exact iff_of_false (Option.some_ne_none _) (not_not_intro h)
  · rw [ofRank, dif_neg h]
    exact iff_of_true rfl h

/-- A whole number has no nearest double from the magnitude on that lies halfway between the largest
    double and the next power of two. -/
theorem ofInt?_eq_none_iff (n : Int) : ofInt? n = none ↔ 2 ^ 1024 - 2 ^ 970 ≤ n.natAbs := by
  have hbound : 2 ^ 1024 - 2 ^ 970 = (2 ^ 54 - 1) * 2 ^ 970 := by
    rw [Nat.sub_mul, ← pow_add, Nat.one_mul]
  have hrank := nearestRank_lt_iff n.natAbs
  rw [← hbound] at hrank
  rw [ofInt?, bounded?_ofRank_eq_none_iff, ← Nat.not_lt]
  exact not_congr hrank

end Double

end LoxSyntax
