import AccessControl.Proofs.Number.Exact
import AccessControl.Proofs.Number.Spelling

/-!
# Floating point numbers in documents

A floating point number is written with seventeen digits, and what is written stands for that number
or, where no point is written, for the integer that it is (`Scalar.value_ofDouble`).
-/

namespace AccessControl

namespace Binary64

/-- A number that is written as an integer is that integer. -/
theorem integer?_of_near (s : Bool) {m : Nat} {e : Int} (h : IsCanonical m e) {n : Nat}
    (hn : n ≤ 10 ^ 17) (hnear : 2 ^ 54 * |(m * 2 ^ e : ℚ) - n| < m * 2 ^ e)
    (hhalf : |(m * 2 ^ e : ℚ) - n| ≤ 1 / 2) : (finite s m e h).integer? = some (signed s n) := by
  have hrange : -2 ^ 63 ≤ signed s n ∧ signed s n < 2 ^ 63 := by
    cases s <;> simp only [signed, Bool.false_eq_true, if_true, if_false] <;> omega
  have hdistinct {a b : Nat} (hab : |(a : ℚ) - b| < 1) : a = b := by
    obtain ⟨hlow, hhigh⟩ := abs_lt.mp hab
    have hlow : (b : ℚ) < a + 1 := by linarith
    have hhigh : (a : ℚ) < b + 1 := by linarith
    have hlow : b < a + 1 := by exact_mod_cast hlow
    have hhigh : a < b + 1 := by exact_mod_cast hhigh
    omega
  unfold integer?
  by_cases he : 0 ≤ e
  · have hself : (e.toNat : Int) = e := Int.toNat_of_nonneg he
    have hsize : m * 2 ^ e.toNat = n := by
      refine hdistinct ?_
      rw [Nat.cast_mul, Nat.cast_pow, ← zpow_natCast, hself, Nat.cast_ofNat]
      linarith
    simp only [he, if_true, decide_true, Bool.true_or, hsize, hrange, and_self, Bool.and_self]
  · have hself : ((-e).toNat : Int) = -e := Int.toNat_of_nonneg (by omega)
    have hunit : (0 : ℚ) < 2 ^ e := zpow_pos two_pos e
    have hbits : (m : ℚ) < 2 ^ 53 := by exact_mod_cast h.1
    -- in multiples of `2 ^ e` the two are less than one apart
    have hsize : m = n * 2 ^ (-e).toNat := by
      refine hdistinct ?_
      rw [Nat.cast_mul, Nat.cast_pow, ← zpow_natCast, hself, Nat.cast_ofNat]
      have hscaled : (m * 2 ^ e : ℚ) - n = (m - n * 2 ^ (-e)) * 2 ^ e := by
        rw [sub_mul, mul_assoc _ _ ((2 : ℚ) ^ e), zpow_neg,
          inv_mul_cancel₀ (ne_of_gt hunit), mul_one]
      rw [hscaled, abs_mul, abs_of_pos hunit, ← mul_assoc] at hnear
      have hclose := lt_of_mul_lt_mul_right hnear (le_of_lt hunit)
      linarith
    have hmod : m % 2 ^ (-e).toNat = 0 := by rw [hsize, Nat.mul_mod_left]
    have hdiv : m / 2 ^ (-e).toNat = n := by
      rw [hsize, Nat.mul_div_cancel _ (Nat.two_pow_pos _)]
    simp only [he, if_false, decide_false, Bool.false_or, hmod, hdiv, hrange, and_self,
      beq_self_eq_true, decide_true, Bool.and_self, if_true]

theorem integer?_zero (s : Bool) {e : Int} (h : IsCanonical 0 e) :
    (finite s 0 e h).integer? = some 0 := by
  cases s <;> simp [integer?, signed]

/-- The text of a finite number but zero is that of a quotient. -/
theorem general_finite (s : Bool) {m : Nat} {e : Int} (h : IsCanonical m e) (hm : 0 < m)
    (precision : Nat) : ∃ num den : Nat, 0 < num ∧ 0 < den ∧ (num / den : ℚ) = m * 2 ^ e ∧
      (finite s m e h).general precision =
        if s then '-'.toUInt8 :: Decimal.general precision num den
        else Decimal.general precision num den := by
  by_cases he : 0 ≤ e
  · refine ⟨m * 2 ^ e.toNat, 1, Nat.mul_pos hm (Nat.two_pow_pos _), Nat.one_pos, ?_, ?_⟩
    · have hself : (e.toNat : Int) = e := Int.toNat_of_nonneg he
      rw [Nat.cast_one, div_one, Nat.cast_mul, Nat.cast_pow, ← zpow_natCast, hself, Nat.cast_ofNat]
    · simp only [general, Nat.ne_of_gt hm, he, if_false, if_true]
  · refine ⟨m, 2 ^ (-e).toNat, hm, Nat.two_pow_pos _, ?_, ?_⟩
    · have hself : ((-e).toNat : Int) = -e := Int.toNat_of_nonneg (by omega)
      rw [Nat.cast_pow, ← zpow_natCast, hself, Nat.cast_ofNat, zpow_neg, div_inv_eq_mul]
    · simp only [general, Nat.ne_of_gt hm, he, if_false]

end Binary64

namespace Scalar

theorem value_of_double? {text : Bytes} {d : Binary64} (hnull : isNull text = false)
    (hint : int? text = none) (h : double? text = some d) : value text = .double d := by
  rw [value, hnull, hint, h]
  rfl

/-- A finite number but zero, as it is written. -/
theorem value_general (s : Bool) {m : Nat} {e : Int} (h : Binary64.IsCanonical m e) (hm : 0 < m) :
    value ((Binary64.finite s m e h).general 17) = .double (.finite s m e h) ∨
      ∃ i : Int64, value ((Binary64.finite s m e h).general 17) = .int i ∧
        (Binary64.finite s m e h).integer? = some i.toInt := by
  obtain ⟨num, den, hnum, hden, hquotient, hgeneral⟩ := Binary64.general_finite s h hm 17
  obtain ⟨spelling, htext, hnear, hwhole⟩ := Decimal.general_spelling hnum hden
  have hnull := isNull_ofNat spelling.whole s spelling.rest
  have hread := spelling.read?_text s
  rw [hquotient] at hnear hwhole
  rw [hgeneral, htext]
  by_cases hw : spelling.IsWhole
  · right
    -- only digits are written: an integer that the number is
    obtain ⟨hsize, hhalf⟩ := hwhole hw
    obtain ⟨hdigits, hscale⟩ := Decimal.Spelling.digits_of_isWhole hw
    rw [hdigits, hscale, zpow_zero, mul_one] at hnear
    have hinteger := Binary64.integer?_of_near s h hsize hnear hhalf
    have hrange : -2 ^ 63 ≤ Binary64.signed s spelling.whole ∧
        Binary64.signed s spelling.whole < 2 ^ 63 := by
      cases s <;> simp only [Binary64.signed, Bool.false_eq_true, if_true, if_false] <;> omega
    have hi : Binary64.signed s spelling.whole = (Int64.ofInt (Binary64.signed s spelling.whole)).toInt :=
      (Int64.toInt_ofInt_of_le hrange.1 hrange.2).symm
    have hrest := Decimal.Spelling.rest_of_isWhole hw
    rw [hrest, List.append_nil] at hnull
    refine ⟨_, ?_, hi ▸ hinteger⟩
    rw [Decimal.Spelling.text, hrest, List.append_nil]
    exact value_of_int? hnull (int?_ofNat s hi)
  · left
    -- a point or an exponent is written, which no integer has
    have hint := int?_of_follow s spelling.whole spelling.mayFollow_rest
      (Decimal.Spelling.rest_of_not_isWhole hw)
    refine value_of_double? hnull hint ?_
    rw [abs_sub_comm] at hnear
    rw [Binary64.ofDecimal_of_near s h hnear] at hread
    have hblank : isBlank [] = true := rfl
    unfold double? decimal?
    simp only [hread, Option.bind_eq_bind, Option.bind_some, hblank, if_true, Option.some_or]

/-- **A floating point number is read as it was written**, or as the integer that it is. -/
theorem value_ofDouble (d : Binary64) :
    value (ofDouble d) = .double d ∨
      ∃ i : Int64, value (ofDouble d) = .int i ∧ d.integer? = some i.toInt := by
  cases d with
  | nan => exact .inl rfl
  | infinity s => cases s <;> exact .inl rfl
  | finite s m e h =>
    rcases Nat.eq_zero_or_pos m with rfl | hm
    · have hint := int?_ofNat s (n := 0) (i := 0) (by cases s <;> rfl)
      have hnull := isNull_ofNat 0 s []
      rw [List.append_nil] at hnull
      exact .inr ⟨0, value_of_int? hnull hint, Binary64.integer?_zero s h⟩
    · exact value_general s h hm

end Scalar

end AccessControl
