import Mathlib.Algebra.Order.Field.Power
import Mathlib.Data.Nat.Factorization.Basic
import Mathlib.Data.Rat.Cast.Order
import Mathlib.Tactic.FieldSimp
import Mathlib.Tactic.Linarith
import Mathlib.Tactic.Positivity
import Mathlib.Tactic.Ring
import SlimSvg.Number.Binary

namespace SlimSvg
namespace Number

/-!
# Rounding depends on the value alone

A fraction is rounded by looking at its two sides, but equal fractions are rounded
equally.  The values of a format are those with few enough significant bits between
its least and its greatest exponent; rounding gives only such values and leaves
them as they are.
-/

/-! ## The leading bit -/

section Leading

variable {num den : Nat}

theorem scaleDown_snd_pos (positive : 0 < den) (exponent : Int) :
    0 < (scaleDown num den exponent).2 := by
  rw [scaleDown]
  split
  · exact Nat.mul_pos positive (Nat.pow_pos (by decide))
  · exact positive

theorem scaleDown_value (num den : Nat) (exponent : Int) :
    ((scaleDown num den exponent).1 : ℚ) / (scaleDown num den exponent).2 =
      num / den / (2 : ℚ) ^ exponent := by
  rw [scaleDown]
  split
  · next small =>
    have power : (2 : ℚ) ^ exponent = ((Nat.pow 2 exponent.toNat : ℕ) : ℚ) := by
      conv_lhs => rw [← Int.toNat_of_nonneg small]
      rw [zpow_natCast]
      exact (Nat.cast_pow 2 _).symm
    rw [power, div_div, Nat.cast_mul]
  · next negative =>
    have size : exponent = -((-exponent).toNat : Int) := by omega
    have power : (2 : ℚ) ^ exponent = (((Nat.pow 2 (-exponent).toNat : ℕ) : ℚ))⁻¹ := by
      conv_lhs => rw [size]
      rw [zpow_neg, zpow_natCast]
      exact congrArg (·⁻¹) (Nat.cast_pow 2 _).symm
    rw [power, Nat.cast_mul, div_inv_eq_mul]
    ring

theorem two_zpow_log2_le {n : Nat} (nonzero : n ≠ 0) : (2 : ℚ) ^ (Nat.log2 n : Int) ≤ n := by
  rw [zpow_natCast]
  exact_mod_cast Nat.log2_self_le nonzero

theorem lt_two_zpow_log2_succ (n : Nat) : (n : ℚ) < (2 : ℚ) ^ ((Nat.log2 n : Int) + 1) := by
  have natural : ((Nat.log2 n : Int) + 1) = ((Nat.log2 n + 1 : ℕ) : Int) := by push_cast; rfl
  rw [natural, zpow_natCast]
  exact_mod_cast Nat.lt_log2_self

/-- The first guess may be too great by one; then the scaled fraction is below one. -/
theorem leadingExponent_bounds (numPos : 0 < num) (denPos : 0 < den) :
    (2 : ℚ) ^ leadingExponent num den ≤ num / den ∧
      (num : ℚ) / den < 2 ^ (leadingExponent num den + 1) := by
  have denPos' : (0 : ℚ) < den := by exact_mod_cast denPos
  have two : (2 : ℚ) ≠ 0 := by norm_num
  let guess : Int := (Nat.log2 num : Int) - (Nat.log2 den : Int)
  have upper : (num : ℚ) / den < 2 ^ (guess + 1) := by
    rw [div_lt_iff₀ denPos']
    calc (num : ℚ) < 2 ^ ((Nat.log2 num : Int) + 1) := lt_two_zpow_log2_succ num
      _ = 2 ^ (guess + 1) * 2 ^ (Nat.log2 den : Int) := by
        rw [← zpow_add₀ two]
        congr 1
        simp only [guess]
        ring
      _ ≤ 2 ^ (guess + 1) * den :=
        mul_le_mul_of_nonneg_left (two_zpow_log2_le (Nat.ne_of_gt denPos)) (by positivity)
  have lower : (2 : ℚ) ^ (guess - 1) ≤ num / den := by
    rw [le_div_iff₀ denPos']
    calc (2 : ℚ) ^ (guess - 1) * den
        ≤ 2 ^ (guess - 1) * 2 ^ ((Nat.log2 den : Int) + 1) :=
          mul_le_mul_of_nonneg_left (lt_two_zpow_log2_succ den).le (by positivity)
      _ = 2 ^ (Nat.log2 num : Int) := by
        rw [← zpow_add₀ two]
        congr 1
        simp only [guess]
        ring
      _ ≤ num := two_zpow_log2_le (Nat.ne_of_gt numPos)
  have scaled := scaleDown_value num den guess
  have scaledPos : (0 : ℚ) < (scaleDown num den guess).2 := by
    exact_mod_cast scaleDown_snd_pos denPos guess
  have power : (0 : ℚ) < 2 ^ guess := by positivity
  change (2 : ℚ) ^ (if (scaleDown num den guess).1 < (scaleDown num den guess).2 then guess - 1
      else guess) ≤ _ ∧ _ < (2 : ℚ) ^ ((if (scaleDown num den guess).1 < (scaleDown num den guess).2
        then guess - 1 else guess) + 1)
  split
  · next below =>
    have less : ((scaleDown num den guess).1 : ℚ) / (scaleDown num den guess).2 < 1 := by
      rw [div_lt_one scaledPos]
      exact_mod_cast below
    rw [scaled, div_lt_one power] at less
    refine ⟨lower, ?_⟩
    rw [sub_add_cancel]
    exact less
  · next above =>
    have atLeast : 1 ≤ ((scaleDown num den guess).1 : ℚ) / (scaleDown num den guess).2 := by
      rw [one_le_div scaledPos]
      exact_mod_cast Nat.le_of_not_lt above
    rw [scaled, one_le_div power] at atLeast
    exact ⟨atLeast, upper⟩

/-- Two powers of two enclose a value in one way only. -/
theorem leadingExponent_eq (numPos : 0 < num) (denPos : 0 < den) {k : Int}
    (lower : (2 : ℚ) ^ k ≤ num / den) (upper : (num : ℚ) / den < 2 ^ (k + 1)) :
    leadingExponent num den = k := by
  have bounds := leadingExponent_bounds numPos denPos
  have one : (1 : ℚ) < 2 := by norm_num
  have below : leadingExponent num den < k + 1 :=
    (zpow_lt_zpow_iff_right₀ one).mp (lt_of_le_of_lt bounds.1 upper)
  have above : k < leadingExponent num den + 1 :=
    (zpow_lt_zpow_iff_right₀ one).mp (lt_of_le_of_lt lower bounds.2)
  omega

end Leading

/-! ## Rounding to whole numbers -/

section Whole

theorem roundHalfEven_mul {c : Nat} (positive : 0 < c) (num den : Nat) :
    roundHalfEven (c * num) (c * den) = roundHalfEven num den := by
  have below : 2 * (c * (num % den)) < c * den ↔ 2 * (num % den) < den := by
    rw [Nat.mul_left_comm]
    exact Nat.mul_lt_mul_left positive
  have above : c * den < 2 * (c * (num % den)) ↔ den < 2 * (num % den) := by
    rw [Nat.mul_left_comm 2]
    exact Nat.mul_lt_mul_left positive
  rw [roundHalfEven, roundHalfEven, Nat.mul_div_mul_left _ _ positive, Nat.mul_mod_mul_left]
  simp only [below, above]

/-- Equal fractions are rounded equally. -/
theorem roundHalfEven_congr {num den num' den' : Nat} (denPos : 0 < den) (denPos' : 0 < den')
    (same : num * den' = num' * den) : roundHalfEven num den = roundHalfEven num' den' := by
  rw [← roundHalfEven_mul denPos' num den, ← roundHalfEven_mul denPos num' den',
    Nat.mul_comm den' num, same, Nat.mul_comm num' den, Nat.mul_comm den' den]

/-- Whole numbers are not changed. -/
theorem roundHalfEven_mul_self {den : Nat} (positive : 0 < den) (k : Nat) :
    roundHalfEven (k * den) den = k := by
  rw [roundHalfEven, Nat.mul_div_cancel k positive, Nat.mul_mod_left]
  exact if_pos positive

theorem roundHalfEven_le {num den b : Nat} (below : num < b * den) : roundHalfEven num den ≤ b := by
  have quotient : num / den < b := Nat.div_lt_of_lt_mul (Nat.mul_comm b den ▸ below)
  rw [roundHalfEven]
  split
  · omega
  · split
    · omega
    · split <;> omega

end Whole

/-! ## Odd mantissas -/

/-- An odd mantissa is found whatever power of two it is multiplied with. -/
theorem odden_mul_two_pow {m : Nat} (odd : m % 2 = 1) (k : Nat) (exponent : Int) :
    odden (m * 2 ^ k) exponent = (m, exponent + k) := by
  induction k generalizing exponent with
  | zero =>
      have nonzero : ¬ m = 0 := by omega
      have notEven : ¬ m % 2 = 0 := by omega
      rw [odden]
      simp [nonzero, notEven]
  | succ k inductionHypothesis =>
      have doubled : m * 2 ^ (k + 1) = m * 2 ^ k * 2 := by ring
      have positive : 0 < m * 2 ^ k := Nat.mul_pos (by omega) (Nat.pow_pos (by decide))
      have nonzero : ¬ m * 2 ^ k * 2 = 0 := by omega
      rw [odden, doubled, dif_neg nonzero, if_pos (Nat.mul_mod_left _ 2),
        Nat.mul_div_cancel _ (by decide), inductionHypothesis]
      push_cast
      congr 1
      ring

theorem odden_spec {m : Nat} (nonzero : m ≠ 0) (exponent : Int) :
    ∃ odd k : Nat, odd % 2 = 1 ∧ m = odd * 2 ^ k ∧ odden m exponent = (odd, exponent + k) := by
  rcases Nat.exists_eq_two_pow_mul_odd nonzero with ⟨k, odd, isOdd, same⟩
  rw [Nat.odd_iff] at isOdd
  rw [Nat.mul_comm] at same
  refine ⟨odd, k, isOdd, same, ?_⟩
  rw [same]
  exact odden_mul_two_pow isOdd k exponent

theorem log2_mul_two_pow {m : Nat} (nonzero : m ≠ 0) (k : Nat) :
    Nat.log2 (m * 2 ^ k) = Nat.log2 m + k := by
  have positive : m * 2 ^ k ≠ 0 := Nat.mul_ne_zero nonzero (Nat.ne_of_gt (Nat.pow_pos (by decide)))
  rw [Nat.log2_eq_iff positive]
  constructor
  · rw [Nat.pow_add]
    exact Nat.mul_le_mul_right _ (Nat.log2_self_le nonzero)
  · have below := Nat.mul_lt_mul_of_pos_right (Nat.lt_log2_self (n := m)) (Nat.pow_pos (n := k) (by decide : 0 < 2))
    rw [← Nat.pow_add] at below
    rw [Nat.add_right_comm]
    exact below

/-! ## The values of a format -/

/-- Whether an odd mantissa and an exponent are a value of a format. -/
structure Fits (p : Precision) (mantissa : Nat) (exponent : Int) : Prop where
  odd : mantissa % 2 = 1
  short : Nat.log2 mantissa < p.bits
  least_le : p.least ≤ exponent
  lt_top : exponent + Nat.log2 mantissa < p.top

namespace Binary

/-- Whether a number is a value of a format, the two zeros included. -/
def Fits (p : Precision) : Binary → Prop
  | finite _ m e => m = 0 ∧ e = 0 ∨ Number.Fits p m e
  | _ => True

section OfRatio

variable {p : Precision} {negative : Bool} {num den num' den' : Nat}

/-- The exponent of the last bit that a fraction keeps. -/
def grid (p : Precision) (num den : Nat) : Int :=
  max (leadingExponent num den - ((p.bits : Int) - 1)) p.least

/-- A fraction in units of the last bit that it keeps. -/
def rounded (p : Precision) (num den : Nat) : Nat :=
  roundHalfEven (scaleDown num den (grid p num den)).1 (scaleDown num den (grid p num den)).2

theorem ofRatio_eq (nonzero : num ≠ 0) :
    ofRatio p negative num den =
      if rounded p num den = 0 then zero negative
      else if p.top ≤ grid p num den + (Nat.log2 (rounded p num den) : Int) then infinite negative
      else finite negative (odden (rounded p num den) (grid p num den)).1
        (odden (rounded p num den) (grid p num den)).2 := by
  rw [ofRatio, if_neg nonzero]
  rfl

/-- Equal fractions give one value. -/
theorem ofRatio_congr (denPos : 0 < den) (denPos' : 0 < den') (same : num * den' = num' * den) :
    ofRatio p negative num den = ofRatio p negative num' den' := by
  by_cases zero : num = 0
  · have zero' : num' = 0 := by
      rw [zero, Nat.zero_mul] at same
      rcases Nat.mul_eq_zero.mp same.symm with none | impossible
      · exact none
      · exact absurd impossible (Nat.ne_of_gt denPos)
    rw [zero, zero']
    rfl
  · have nonzero' : num' ≠ 0 := by
      intro none
      rw [none, Nat.zero_mul] at same
      rcases Nat.mul_eq_zero.mp same with impossible | impossible
      · exact zero impossible
      · exact absurd impossible (Nat.ne_of_gt denPos')
    have ratio : (num : ℚ) / den = num' / den' := by
      have denNonzero : (den : ℚ) ≠ 0 := by exact_mod_cast Nat.ne_of_gt denPos
      have denNonzero' : (den' : ℚ) ≠ 0 := by exact_mod_cast Nat.ne_of_gt denPos'
      rw [div_eq_div_iff denNonzero denNonzero']
      exact_mod_cast same
    have leading : leadingExponent num den = leadingExponent num' den' := by
      have bounds := leadingExponent_bounds (Nat.pos_of_ne_zero nonzero') denPos'
      rw [← ratio] at bounds
      exact leadingExponent_eq (Nat.pos_of_ne_zero zero) denPos bounds.1 bounds.2
    have gridEq : grid p num den = grid p num' den' := by
      rw [grid, leading, grid]
    have roundedEq : rounded p num den = rounded p num' den' := by
      rw [rounded, rounded, gridEq]
      apply roundHalfEven_congr (scaleDown_snd_pos denPos _) (scaleDown_snd_pos denPos' _)
      rw [scaleDown, scaleDown]
      split
      · dsimp only
        rw [← Nat.mul_assoc, same, ← Nat.mul_assoc]
      · dsimp only
        rw [Nat.mul_right_comm, same, Nat.mul_right_comm]
    rw [ofRatio_eq zero, ofRatio_eq nonzero', gridEq, roundedEq]

/-- A value of the format is not changed. -/
theorem ofRatio_of_fits {m : Nat} {e : Int} (fits : Number.Fits p m e) (denPos : 0 < den)
    (value : (num : ℚ) / den = m * (2 : ℚ) ^ e) : ofRatio p negative num den = finite negative m e := by
  have two : (2 : ℚ) ≠ 0 := by norm_num
  have odd := fits.odd
  have nonzero : m ≠ 0 := by omega
  have mPos : (0 : ℚ) < m := by exact_mod_cast Nat.pos_of_ne_zero nonzero
  have denPos' : (0 : ℚ) < den := by exact_mod_cast denPos
  have numPos : 0 < num := by
    have positive : (0 : ℚ) < num / den := by
      rw [value]
      positivity
    rw [div_pos_iff_of_pos_right denPos'] at positive
    exact_mod_cast positive
  have leading : leadingExponent num den = e + Nat.log2 m := by
    apply leadingExponent_eq numPos denPos
    · rw [value, zpow_add₀ two, mul_comm]
      exact mul_le_mul_of_nonneg_right (two_zpow_log2_le nonzero) (by positivity)
    · rw [value, add_assoc, zpow_add₀ two, mul_comm]
      exact mul_lt_mul_of_pos_left (lt_two_zpow_log2_succ m) (by positivity)
  have short := fits.short
  have least := fits.least_le
  -- The grid is at least as fine as the last bit of the value, which is whole on it.
  have fine : grid p num den ≤ e := by
    rw [grid, leading]
    omega
  generalize same : grid p num den = unit at fine
  have steps : e = unit + ((e - unit).toNat : Int) := by omega
  have mantissa : rounded p num den = m * 2 ^ (e - unit).toNat := by
    have scaledPos : 0 < (scaleDown num den unit).2 := scaleDown_snd_pos denPos unit
    have scaledNonzero : ((scaleDown num den unit).2 : ℚ) ≠ 0 := by
      exact_mod_cast Nat.ne_of_gt scaledPos
    have power : (2 : ℚ) ^ e / 2 ^ unit = 2 ^ (e - unit).toNat := by
      rw [← zpow_sub₀ two, ← zpow_natCast]
      congr 1
      omega
    have whole : (scaleDown num den unit).1 = m * 2 ^ (e - unit).toNat * (scaleDown num den unit).2 := by
      have scaled := scaleDown_value num den unit
      rw [value, mul_div_assoc, power, div_eq_iff scaledNonzero] at scaled
      exact_mod_cast scaled
    rw [rounded, same, whole]
    exact roundHalfEven_mul_self scaledPos _
  have mantissaNonzero : m * 2 ^ (e - unit).toNat ≠ 0 :=
    Nat.mul_ne_zero nonzero (Nat.ne_of_gt (Nat.pow_pos (by decide)))
  have inside : ¬ p.top ≤ unit + (Nat.log2 (m * 2 ^ (e - unit).toNat) : Int) := by
    have top := fits.lt_top
    rw [log2_mul_two_pow nonzero]
    omega
  rw [ofRatio_eq (Nat.ne_of_gt numPos), mantissa, same, if_neg mantissaNonzero, if_neg inside,
    odden_mul_two_pow odd, ← steps]

/-- A fraction keeps no more bits than the format has, except that it may be rounded
up to the next power of two. -/
theorem rounded_le (numPos : 0 < num) (denPos : 0 < den) : rounded p num den ≤ 2 ^ p.bits := by
  apply roundHalfEven_le
  have scaledPos : (0 : ℚ) < (scaleDown num den (grid p num den)).2 := by
    exact_mod_cast scaleDown_snd_pos denPos (grid p num den)
  have scaled := scaleDown_value num den (grid p num den)
  have upper := (leadingExponent_bounds numPos denPos).2
  have room : leadingExponent num den + 1 ≤ p.bits + grid p num den := by
    rw [grid]
    omega
  have two : (2 : ℚ) ≠ 0 := by norm_num
  have less : ((scaleDown num den (grid p num den)).1 : ℚ) / (scaleDown num den (grid p num den)).2 <
      2 ^ p.bits := by
    rw [scaled, div_lt_iff₀ (by positivity), ← zpow_natCast, ← zpow_add₀ two]
    exact lt_of_lt_of_le upper (zpow_le_zpow_right₀ (by norm_num) room)
  rw [div_lt_iff₀ scaledPos] at less
  exact_mod_cast less

/-- Rounding gives only values of the format. -/
theorem fits_ofRatio (bits : 0 < p.bits) (denPos : 0 < den) :
    (ofRatio p negative num den).Fits p := by
  by_cases nonzero : num = 0
  · rw [ofRatio, if_pos nonzero]
    exact Or.inl ⟨rfl, rfl⟩
  · have numPos := Nat.pos_of_ne_zero nonzero
    rw [ofRatio_eq nonzero]
    split
    · exact Or.inl ⟨rfl, rfl⟩
    · next some =>
      split
      · exact True.intro
      · next below =>
        have atMost : rounded p num den ≤ 2 ^ p.bits := rounded_le numPos denPos
        rcases odden_spec some (grid p num den) with ⟨odd, k, isOdd, same, oddened⟩
        have oddNonzero : odd ≠ 0 := by omega
        have logs := log2_mul_two_pow oddNonzero k
        have least : p.least ≤ grid p num den := le_max_right _ _
        rw [← same] at logs
        rw [oddened]
        refine Or.inr ⟨isOdd, ?_, ?_, ?_⟩
        · rcases Nat.eq_or_lt_of_le atMost with full | room
          · have one : odd = 1 := by
              have power := odden_mul_two_pow (m := 1) rfl p.bits (grid p num den)
              rw [Nat.one_mul, ← full, oddened] at power
              exact (Prod.mk.inj power).1
            rw [one]
            exact bits
          · have short := (Nat.log2_lt some).mpr room
            dsimp only
            omega
        · dsimp only
          omega
        · dsimp only
          omega

end OfRatio

end Binary

end Number
end SlimSvg
