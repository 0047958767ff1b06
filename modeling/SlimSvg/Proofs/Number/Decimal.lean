import SlimSvg.Number.Shortest
import SlimSvg.Proofs.Number.Rounding

namespace SlimSvg
namespace Number

/-!
# Shortest decimals read back

Reading looks at the order of a decimal first and then rounds a fraction, and both
depend on its value alone: a zero at the end of the digits counts as much as one
more in the exponent.  A value of the format is read from any decimal that is equal
to it.  So a decimal that was found by asking the reader, and the exact one that is
taken when none was found, both read back.
-/

/-! ## Digits -/

section Digits

theorem digitsValue_eq (ds : List Char) : digitsValue ds = Nat.ofDigitChars 10 ds 0 :=
  rfl

theorem digitsValue_digitsOf (n : Nat) : digitsValue (digitsOf n) = n := by
  rw [digitsValue_eq, digitsOf, Nat.ofDigitChars_toDigits (by decide) (by decide)]

theorem isDigit_of_mem_digitsOf {n : Nat} {c : Char} (listed : c ∈ digitsOf n) : c.isDigit = true :=
  Nat.isDigit_of_mem_toDigits (by decide) (by decide) listed

theorem digitsOf_ne_nil (n : Nat) : digitsOf n ≠ [] := by
  intro none
  have bound := Nat.length_toDigits_le_iff (b := 10) (n := 10) (k := 1) (by decide) (by decide)
  have value := digitsValue_digitsOf n
  rw [none] at value
  rw [← value] at none
  exact absurd none (by decide)

theorem digitsValue_append (first second : List Char) :
    digitsValue (first ++ second) = digitsValue first * 10 ^ second.length + digitsValue second := by
  induction second using List.reverseRecOn with
  | nil => simp [digitsValue]
  | append_singleton rest c inductionHypothesis =>
      have step : ∀ ds : List Char,
          digitsValue (ds ++ [c]) = 10 * digitsValue ds + (c.toNat - '0'.toNat) := by
        intro ds
        rw [digitsValue, List.foldl_append]
        rfl
      rw [← List.append_assoc, step, step, inductionHypothesis, List.length_append,
        List.length_singleton, Nat.pow_succ]
      ring

theorem digitsValue_replicate_zero (k : Nat) : digitsValue (List.replicate k '0') = 0 := by
  induction k with
  | zero => rfl
  | succ k inductionHypothesis =>
      rw [List.replicate_succ', digitsValue_append, inductionHypothesis]
      rfl

theorem digitsOf_mul_ten {n : Nat} (positive : 0 < n) : digitsOf (n * 10) = digitsOf n ++ ['0'] := by
  have joined := Nat.toDigits_append_toDigits (b := 10) (n := n) (d := 0) (by decide) positive (by decide)
  rw [Nat.add_zero, Nat.mul_comm] at joined
  exact joined.symm

theorem pow_length_digitsOf {n : Nat} (positive : 0 < n) :
    10 ^ ((digitsOf n).length - 1) ≤ n ∧ n < 10 ^ (digitsOf n).length := by
  have some : 0 < (digitsOf n).length := List.length_pos_iff.mpr (digitsOf_ne_nil n)
  constructor
  · by_cases single : (digitsOf n).length = 1
    · rw [single]
      exact positive
    · by_contra below
      have short := (Nat.length_toDigits_le_iff (b := 10) (by decide) (by omega)).mpr
        (Nat.lt_of_not_le below)
      change (digitsOf n).length ≤ _ at short
      omega
  · exact (Nat.length_toDigits_le_iff (b := 10) (by decide) some).mp (Nat.le_refl _)

end Digits

/-! ## Reading depends on the value -/

namespace Decimal

variable {p : Precision} {negative : Bool} {digits : Nat} {exponent : Int}

/-- The number of digits before the point. -/
def order (digits : Nat) (exponent : Int) : Int :=
  ((digitsOf digits).length : Int) + exponent

/-- The value that is rounded, as a fraction. -/
def sides (digits : Nat) (exponent : Int) : Nat × Nat :=
  if 0 ≤ exponent then (digits * 10 ^ exponent.toNat, 1) else (digits, 10 ^ (-exponent).toNat)

theorem sides_snd_pos (digits : Nat) (exponent : Int) : 0 < (sides digits exponent).2 := by
  rw [sides]
  split
  · exact Nat.one_pos
  · exact Nat.pow_pos (by decide)

theorem sides_value (digits : Nat) (exponent : Int) :
    ((sides digits exponent).1 : ℚ) / (sides digits exponent).2 = digits * (10 : ℚ) ^ exponent := by
  rw [sides]
  split
  · next whole =>
    have power : (10 : ℚ) ^ exponent = 10 ^ exponent.toNat := by
      conv_lhs => rw [← Int.toNat_of_nonneg whole]
      exact zpow_natCast 10 _
    push_cast
    rw [power, div_one]
  · next part =>
    have size : exponent = -((-exponent).toNat : Int) := by omega
    have power : (10 : ℚ) ^ exponent = (10 ^ (-exponent).toNat)⁻¹ := by
      conv_lhs => rw [size]
      rw [zpow_neg, zpow_natCast]
    push_cast
    rw [power, div_eq_mul_inv]

theorem toBinary_eq (nonzero : digits ≠ 0) :
    toBinary p ⟨negative, digits, exponent⟩ =
      if 1 < order digits exponent ∧ p.top ≤ 3 * (order digits exponent - 1) then
        Binary.infinite negative
      else if order digits exponent < 0 ∧ 3 * order digits exponent < p.least then
        Binary.zero negative
      else Binary.ofRatio p negative (sides digits exponent).1 (sides digits exponent).2 := by
  rw [toBinary, if_neg nonzero]
  by_cases whole : 0 ≤ exponent
  · rw [sides, if_pos whole, order]
    simp only [if_pos whole]
    rfl
  · rw [sides, if_neg whole, order]
    simp only [if_neg whole]
    rfl

/-- A zero at the end counts as much as one more in the exponent. -/
theorem toBinary_mul_ten (p : Precision) (negative : Bool) (digits : Nat) (exponent : Int) :
    toBinary p ⟨negative, digits * 10, exponent⟩ = toBinary p ⟨negative, digits, exponent + 1⟩ := by
  by_cases zero : digits = 0
  · rw [zero]
    rfl
  · have nonzero : digits * 10 ≠ 0 := by omega
    have orderEq : order (digits * 10) exponent = order digits (exponent + 1) := by
      rw [order, order, digitsOf_mul_ten (Nat.pos_of_ne_zero zero), List.length_append,
        List.length_singleton]
      omega
    have ratioEq : Binary.ofRatio p negative (sides (digits * 10) exponent).1 (sides (digits * 10) exponent).2 =
        Binary.ofRatio p negative (sides digits (exponent + 1)).1 (sides digits (exponent + 1)).2 := by
      apply Binary.ofRatio_congr (sides_snd_pos _ _) (sides_snd_pos _ _)
      have first := sides_snd_pos (digits * 10) exponent
      have second := sides_snd_pos digits (exponent + 1)
      have firstNonzero : ((sides (digits * 10) exponent).2 : ℚ) ≠ 0 := by
        exact_mod_cast Nat.ne_of_gt first
      have secondNonzero : ((sides digits (exponent + 1)).2 : ℚ) ≠ 0 := by
        exact_mod_cast Nat.ne_of_gt second
      have values : ((sides (digits * 10) exponent).1 : ℚ) / (sides (digits * 10) exponent).2 =
          (sides digits (exponent + 1)).1 / (sides digits (exponent + 1)).2 := by
        rw [sides_value, sides_value, zpow_add_one₀ (by norm_num)]
        push_cast
        ring
      rw [div_eq_div_iff firstNonzero secondNonzero] at values
      exact_mod_cast values
    rw [toBinary_eq nonzero, toBinary_eq zero, orderEq, ratioEq]

theorem toBinary_mul_pow (p : Precision) (negative : Bool) (digits k : Nat) (exponent : Int) :
    toBinary p ⟨negative, digits * 10 ^ k, exponent⟩ = toBinary p ⟨negative, digits, exponent + k⟩ := by
  induction k generalizing exponent with
  | zero => simp
  | succ k inductionHypothesis =>
      rw [Nat.pow_succ, ← Nat.mul_assoc, toBinary_mul_ten, inductionHypothesis]
      congr 2
      push_cast
      ring

theorem toBinary_dropZeros (p : Precision) (negative : Bool) (digits : Nat) (exponent : Int) :
    toBinary p ⟨negative, (dropZeros digits exponent).1, (dropZeros digits exponent).2⟩ =
      toBinary p ⟨negative, digits, exponent⟩ := by
  induction digits, exponent using dropZeros.induct with
  | case1 exponent =>
      rw [dropZeros]
      rfl
  | case2 digits exponent nonzero ending inductionHypothesis =>
      have split : digits / 10 * 10 = digits := by omega
      rw [dropZeros, dif_neg nonzero, if_pos ending, inductionHypothesis, ← toBinary_mul_ten, split]
  | case3 digits exponent nonzero other =>
      rw [dropZeros, dif_neg nonzero, if_neg other]

/-- The sign is read apart. -/
theorem toBinary_of_unsigned {m : Nat} {e : Int}
    (unsigned : toBinary p ⟨false, digits, exponent⟩ = .finite false m e) (negative : Bool) :
    toBinary p ⟨negative, digits, exponent⟩ = .finite negative m e := by
  have ratio : ∀ {num den : Nat}, Binary.ofRatio p false num den = .finite false m e →
      Binary.ofRatio p negative num den = .finite negative m e := by
    intro num den same
    have keep : ∀ {m' : Nat} {e' : Int}, Binary.finite false m' e' = .finite false m e →
        Binary.finite negative m' e' = .finite negative m e := by
      intro m' e' equal
      rcases Binary.finite.inj equal with ⟨-, mantissa, power⟩
      rw [mantissa, power]
    by_cases zero : num = 0
    · rw [Binary.ofRatio, if_pos zero] at same ⊢
      exact keep same
    · rw [Binary.ofRatio_eq zero] at same ⊢
      split at same
      · next none =>
        rw [if_pos none]
        exact keep same
      · next some =>
        split at same
        · cases same
        · next below =>
          rw [if_neg some, if_neg below]
          exact keep same
  by_cases zero : digits = 0
  · rw [toBinary, if_pos zero] at unsigned ⊢
    rcases Binary.finite.inj unsigned with ⟨-, mantissa, power⟩
    rw [← mantissa, ← power]
    rfl
  · rw [toBinary_eq zero] at unsigned ⊢
    split at unsigned
    · cases unsigned
    · next small =>
      rw [if_neg small]
      split at unsigned
      · next tiny =>
        rw [if_pos tiny]
        rcases Binary.finite.inj unsigned with ⟨-, mantissa, power⟩
        rw [← mantissa, ← power]
        rfl
      · next usual =>
        rw [if_neg usual]
        exact ratio unsigned

/-! ## Decimals that are equal to a value of the format -/

theorem order_bounds (nonzero : digits ≠ 0) (exponent : Int) :
    (10 : ℚ) ^ (order digits exponent - 1) ≤ digits * 10 ^ exponent ∧
      digits * (10 : ℚ) ^ exponent < 10 ^ order digits exponent := by
  have ten : (10 : ℚ) ≠ 0 := by norm_num
  have some : 0 < (digitsOf digits).length := List.length_pos_iff.mpr (digitsOf_ne_nil digits)
  have bounds := pow_length_digitsOf (Nat.pos_of_ne_zero nonzero)
  have power : (0 : ℚ) < 10 ^ exponent := by positivity
  have lower : order digits exponent - 1 = (((digitsOf digits).length - 1 : ℕ) : Int) + exponent := by
    rw [order]
    omega
  constructor
  · rw [lower, zpow_add₀ ten, zpow_natCast]
    exact mul_le_mul_of_nonneg_right (by exact_mod_cast bounds.1) power.le
  · rw [order, zpow_add₀ ten, zpow_natCast]
    exact mul_lt_mul_of_pos_right (by exact_mod_cast bounds.2) power

/-- The quick answers for very great and very small decimals are not given for values
of the format. -/
theorem toBinary_of_fits {m : Nat} {e : Int} (fits : Fits p m e)
    (value : (digits : ℚ) * 10 ^ exponent = m * 2 ^ e) :
    toBinary p ⟨negative, digits, exponent⟩ = .finite negative m e := by
  have odd := fits.odd
  have mantissa : m ≠ 0 := by omega
  have mPos : (1 : ℚ) ≤ m := by exact_mod_cast Nat.pos_of_ne_zero mantissa
  have two : (2 : ℚ) ≠ 0 := by norm_num
  have nonzero : digits ≠ 0 := by
    intro zero
    have positive : (0 : ℚ) < m * 2 ^ e := by positivity
    rw [← value, zero, Nat.cast_zero, zero_mul] at positive
    exact absurd positive (lt_irrefl _)
  have bounds := order_bounds nonzero exponent
  rw [value] at bounds
  have cube : ∀ n : Int, (2 : ℚ) ^ (3 * n) = 8 ^ n := by
    intro n
    rw [zpow_mul]
    norm_num
  have belowTop : (m : ℚ) * 2 ^ e < 2 ^ p.top := by
    have top := fits.lt_top
    calc (m : ℚ) * 2 ^ e < 2 ^ ((Nat.log2 m : Int) + 1) * 2 ^ e :=
          mul_lt_mul_of_pos_right (lt_two_zpow_log2_succ m) (by positivity)
      _ = 2 ^ (e + Nat.log2 m + 1) := by
        rw [← zpow_add₀ two]
        congr 1
        ring
      _ ≤ 2 ^ p.top := zpow_le_zpow_right₀ (by norm_num) (by omega)
  have aboveLeast : (2 : ℚ) ^ p.least ≤ m * 2 ^ e := by
    calc (2 : ℚ) ^ p.least ≤ 2 ^ e := zpow_le_zpow_right₀ (by norm_num) fits.least_le
      _ ≤ m * 2 ^ e := le_mul_of_one_le_left (by positivity) mPos
  have notGreat : ¬ (1 < order digits exponent ∧ p.top ≤ 3 * (order digits exponent - 1)) := by
    rintro ⟨large, beyond⟩
    have contradiction : (2 : ℚ) ^ p.top ≤ m * 2 ^ e :=
      calc (2 : ℚ) ^ p.top ≤ 2 ^ (3 * (order digits exponent - 1)) :=
            zpow_le_zpow_right₀ (by norm_num) beyond
        _ = 8 ^ (order digits exponent - 1) := cube _
        _ ≤ 10 ^ (order digits exponent - 1) :=
            zpow_le_zpow_left₀ (by omega) (by norm_num) (by norm_num)
        _ ≤ m * 2 ^ e := bounds.1
    exact absurd contradiction (not_le.mpr belowTop)
  have notTiny : ¬ (order digits exponent < 0 ∧ 3 * order digits exponent < p.least) := by
    rintro ⟨small, below⟩
    have powers : (10 : ℚ) ^ order digits exponent ≤ 8 ^ order digits exponent := by
      have size : order digits exponent = -((-order digits exponent).toNat : Int) := by omega
      rw [size, zpow_neg, zpow_neg, zpow_natCast, zpow_natCast]
      exact inv_anti₀ (by positivity) (pow_le_pow_left₀ (by norm_num) (by norm_num) _)
    have contradiction : (m : ℚ) * 2 ^ e < 2 ^ p.least :=
      calc (m : ℚ) * 2 ^ e < 10 ^ order digits exponent := bounds.2
        _ ≤ 8 ^ order digits exponent := powers
        _ = 2 ^ (3 * order digits exponent) := (cube _).symm
        _ ≤ 2 ^ p.least := zpow_le_zpow_right₀ (by norm_num) below.le
    exact absurd contradiction (not_lt.mpr aboveLeast)
  rw [toBinary_eq nonzero, if_neg notGreat, if_neg notTiny]
  apply Binary.ofRatio_of_fits fits (sides_snd_pos _ _)
  rw [sides_value, value]

end Decimal

/-! ## Shortest decimals -/

section Shortest

variable {p : Precision} {m : Nat} {e : Int}

theorem exactDecimal_value (m : Nat) (e : Int) :
    ((exactDecimal m e).1 : ℚ) * 10 ^ (exactDecimal m e).2 = m * 2 ^ e := by
  rw [exactDecimal]
  split
  · next whole =>
    have power : (2 : ℚ) ^ e = 2 ^ e.toNat := by
      conv_lhs => rw [← Int.toNat_of_nonneg whole]
      exact zpow_natCast 2 _
    rw [power]
    simp
  · next part =>
    have size : e = -((-e).toNat : Int) := by omega
    have tens : (10 : ℚ) ^ e = (2 ^ (-e).toNat * 5 ^ (-e).toNat)⁻¹ := by
      conv_lhs => rw [size]
      rw [zpow_neg, zpow_natCast, ← mul_pow]
      norm_num
    have twos : (2 : ℚ) ^ e = (2 ^ (-e).toNat)⁻¹ := by
      conv_lhs => rw [size]
      rw [zpow_neg, zpow_natCast]
    have fives : (5 : ℚ) ^ (-e).toNat ≠ 0 := by positivity
    dsimp only
    rw [tens, twos, mul_inv]
    simp only [Nat.pow_eq, Nat.cast_mul, Nat.cast_pow, Nat.cast_ofNat]
    field_simp

/-- A point that is taken was asked for. -/
theorem readsBack_of_gridPoint? {target : Binary} {num den k : Nat} {unit : Int}
    (found : gridPoint? p target num den unit = some k) :
    (Decimal.mk false k unit).toBinary p = target := by
  rw [gridPoint?] at found
  generalize (if 0 ≤ unit then (num, den * 10 ^ unit.toNat) else (num * 10 ^ (-unit).toNat, den)) = pair
    at found
  dsimp only at found
  split at found
  · next low high =>
    split at found
    · rw [← Option.some.inj found]
      exact eq_of_beq low
    · rw [← Option.some.inj found]
      exact eq_of_beq high
  · next low _ =>
    rw [← Option.some.inj found]
    exact eq_of_beq low
  · next _ high =>
    rw [← Option.some.inj found]
    exact eq_of_beq high
  · cases found

theorem readsBack_searchGrids {target : Binary} {num den : Nat} {order : Int} {exact : Nat × Int}
    (exactReadsBack : (Decimal.mk false exact.1 exact.2).toBinary p = target) (remaining digits : Nat) :
    (Decimal.mk false (searchGrids p target num den order exact remaining digits).1
      (searchGrids p target num den order exact remaining digits).2).toBinary p = target := by
  induction remaining generalizing digits with
  | zero => exact exactReadsBack
  | succ remaining inductionHypothesis =>
      rw [searchGrids]
      split
      · next k found => exact readsBack_of_gridPoint? found
      · exact inductionHypothesis (digits + 1)

/-- The shortest decimal of a value is read as the value, with any sign. -/
theorem toBinary_shortestDigits (fits : Fits p m e) (negative : Bool) :
    (Decimal.mk negative (shortestDigits p m e).1 (shortestDigits p m e).2).toBinary p =
      .finite negative m e := by
  have exactReadsBack : (Decimal.mk false (exactDecimal m e).1 (exactDecimal m e).2).toBinary p =
      .finite false m e := Decimal.toBinary_of_fits fits (exactDecimal_value m e)
  apply Decimal.toBinary_of_unsigned
  rw [shortestDigits]
  dsimp only
  rw [Decimal.toBinary_dropZeros]
  exact readsBack_searchGrids exactReadsBack _ _

end Shortest

end Number
end SlimSvg
