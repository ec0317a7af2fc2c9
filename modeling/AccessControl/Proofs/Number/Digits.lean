import AccessControl.Number.Decimal
import AccessControl.Proofs.Number.Integers
import AccessControl.Proofs.Number.Rounding

/-!
# Leading digits

`Decimal.leading` gives the first digits of a quotient, rounded to nearest.  They are as many as asked
for and miss the quotient by half a unit of the last of them at most (`Decimal.leading_near`).  If they
are seventeen, no other floating point number is so near to them (`Binary64.ofDecimal_of_near`).
-/

namespace AccessControl

namespace Decimal

theorem length_eq (n : Nat) : length n = (Bytes.ofNat n).length := (List.length_map _).symm

/-- A number lies between the powers of ten that its length tells. -/
theorem length_bounds (n : Nat) :
    0 < length n ∧ n < 10 ^ length n ∧ (0 < n → 10 ^ (length n - 1) ≤ n) := by
  rw [length_eq]
  refine Bytes.ofNat_induction (motive := fun n text =>
    0 < text.length ∧ n < 10 ^ text.length ∧ (0 < n → 10 ^ (text.length - 1) ≤ n)) ?_ ?_ n
  · intro d hd
    exact ⟨Nat.one_pos, hd, fun h => h⟩
  · rintro n d text hn hd ⟨hpos, hless, hmost⟩
    rw [List.length_append, List.length_singleton]
    refine ⟨by omega, by rw [pow_succ]; omega, fun _ => ?_⟩
    have hsplit : 10 ^ text.length = 10 ^ (text.length - 1) * 10 := by
      rw [← pow_succ, Nat.sub_add_cancel hpos]
    have := hmost hn
    rw [Nat.add_sub_cancel, hsplit]
    omega

/-- A quotient lies between the power of ten that is told for it and the next one. -/
theorem exponent_bounds {num den : Nat} (hnum : 0 < num) (hden : 0 < den) :
    (10 : ℚ) ^ exponent num den ≤ num / den ∧ (num / den : ℚ) < 10 ^ (exponent num den + 1) := by
  have hnumpos : (0 : ℚ) < num := Nat.cast_pos.mpr hnum
  have hdenpos : (0 : ℚ) < den := Nat.cast_pos.mpr hden
  unfold exponent
  split
  · next hle =>
    obtain ⟨hpos, hless, hmost⟩ := length_bounds (num / den)
    have hmost : 10 ^ (length (num / den) - 1) * den ≤ num :=
      (Nat.le_div_iff_mul_le hden).mp (hmost (Nat.div_pos hle hden))
    have hless : num < 10 ^ length (num / den) * den := (Nat.div_lt_iff_lt_mul hden).mp hless
    have hcast : ((length (num / den) : Int) - 1) = (length (num / den) - 1 : Nat) := by omega
    rw [Int.sub_add_cancel, hcast, zpow_natCast, zpow_natCast, le_div_iff₀ hdenpos,
      div_lt_iff₀ hdenpos]
    exact ⟨by exact_mod_cast hmost, by exact_mod_cast hless⟩
  · next hgt =>
    -- `c` is the greatest integer below the inverse of the quotient
    obtain ⟨c, hc⟩ : ∃ c, (den + num - 1) / num = c + 1 :=
      ⟨(den + num - 1) / num - 1, by
        have := Nat.div_pos (show num ≤ den + num - 1 by omega) hnum
        omega⟩
    have hbelow : (c + 1) * num ≤ den + num - 1 := hc ▸ Nat.div_mul_le_self _ _
    have habove : den + num - 1 < (c + 1 + 1) * num :=
      hc ▸ Nat.lt_mul_of_div_lt (Nat.lt_succ_self _) hnum
    rw [Nat.add_mul, Nat.one_mul] at hbelow
    rw [Nat.add_mul (c + 1) 1 num, Nat.one_mul] at habove
    have hcpos : 0 < c := by
      rcases Nat.eq_zero_or_pos c with rfl | hpos
      · omega
      · exact hpos
    rw [hc, Nat.add_sub_cancel]
    obtain ⟨hpos, hless, hmost⟩ := length_bounds c
    have hmost : 10 ^ (length c - 1) * num < den := by
      have := Nat.mul_le_mul_right num (hmost hcpos)
      omega
    have hless : den ≤ 10 ^ length c * num := by
      have := Nat.mul_le_mul_right num (Nat.succ_le_of_lt hless)
      rw [Nat.succ_eq_add_one] at this
      omega
    have hcast : (-(length c : Int) + 1) = -(length c - 1 : Nat) := by omega
    rw [hcast, zpow_neg, zpow_neg, zpow_natCast, zpow_natCast, le_div_iff₀ hdenpos,
      div_lt_iff₀ hdenpos, inv_mul_le_iff₀ (by positivity), lt_inv_mul_iff₀ (by positivity)]
    exact ⟨by exact_mod_cast hless, by exact_mod_cast hmost⟩

/-- A quotient whose point is moved by `shift` places is rounded to nearest. -/
theorem roundedQuotient_shift_near (num : Nat) {den : Nat} (hden : 0 < den) (shift : Int) :
    |(num / den : ℚ) / 10 ^ (-shift) -
      (if 0 ≤ shift then roundedQuotient (num * 10 ^ shift.toNat) den
        else roundedQuotient num (den * 10 ^ (-shift).toNat) : Nat)| ≤ 1 / 2 := by
  split
  · have hnear := roundedQuotient_near (num * 10 ^ shift.toNat) hden
    have hscaled := mul_pow_div_of_nonpos 10 num den (e := -shift) (by omega)
    rw [neg_neg] at hscaled
    rwa [hscaled] at hnear
  · have hpos : 0 < den * 10 ^ (-shift).toNat := Nat.mul_pos hden (Nat.pow_pos (by decide))
    have hnear := roundedQuotient_near num hpos
    have hscaled := div_mul_pow_of_nonneg 10 num den (e := -shift) (by omega)
    rwa [hscaled] at hnear

/-- The quotient and its first digits `d`, the first of them at the place of `10 ^ y`. -/
theorem leading_near {p num den d : Nat} {y : Int} (hnum : 0 < num) (hden : 0 < den)
    (h : leading (p + 1) num den = (d, y)) :
    10 ^ p ≤ d ∧ d < 10 ^ (p + 1) ∧ ∃ x ≤ y, (10 : ℚ) ^ x ≤ num / den ∧
      |(num / den : ℚ) - d * 10 ^ (y - p)| ≤ 10 ^ (x - p) / 2 := by
  obtain ⟨hlow, hhigh⟩ := exponent_bounds hnum hden
  have hten : (10 : ℚ) ≠ 0 := by norm_num
  unfold leading at h
  generalize exponent num den = x at h hlow hhigh
  have hunit : (0 : ℚ) < 10 ^ (x - p) := zpow_pos (by norm_num) _
  have hshift : ((p + 1 : Nat) : Int) - 1 - x = -(x - p) := by omega
  -- `t` is the quotient in units of the last digit
  obtain ⟨t, ht⟩ : ∃ t : ℚ, (num / den : ℚ) = t * 10 ^ (x - p) :=
    ⟨num / den / 10 ^ (x - p), (div_mul_cancel₀ _ (ne_of_gt hunit)).symm⟩
  have hlow' : (10 : ℚ) ^ p ≤ t := by
    have hsum : x = p + (x - p) := by omega
    rw [ht, hsum, zpow_add₀ hten, zpow_natCast, add_sub_cancel_left] at hlow
    exact le_of_mul_le_mul_right hlow hunit
  have hhigh' : t < 10 ^ (p + 1) := by
    have hsum : x + 1 = (p + 1 : Nat) + (x - p) := by omega
    rw [ht, hsum, zpow_add₀ hten, zpow_natCast] at hhigh
    exact lt_of_mul_lt_mul_right hhigh (le_of_lt hunit)
  have htdiv : t = num / den / 10 ^ (x - p) := by
    rw [ht, mul_div_cancel_right₀ _ (ne_of_gt hunit)]
  have hnear := roundedQuotient_shift_near num hden (-(x - p))
  rw [neg_neg, ← htdiv] at hnear
  simp only [hshift, neg_neg] at h
  generalize (if 0 ≤ -(x - (p : Int)) then _ else _ : Nat) = d' at h hnear
  obtain ⟨hnearlow, hnearhigh⟩ := abs_le.mp hnear
  have hdlow : 10 ^ p ≤ d' := by
    have : (10 : ℚ) ^ p < d' + 1 := by linarith
    have : 10 ^ p < d' + 1 := by exact_mod_cast this
    omega
  have hdhigh : d' ≤ 10 ^ (p + 1) := by
    have : (d' : ℚ) < 10 ^ (p + 1) + 1 := by linarith
    have : d' < 10 ^ (p + 1) + 1 := by exact_mod_cast this
    omega
  have hdistance : |(num / den : ℚ) - d' * 10 ^ (x - p)| ≤ 10 ^ (x - p) / 2 := by
    rw [ht, ← sub_mul, abs_mul, abs_of_pos hunit]
    calc |t - d'| * 10 ^ (x - p) ≤ 1 / 2 * 10 ^ (x - p) := by gcongr
      _ = 10 ^ (x - p) / 2 := by ring
  split at h
  · -- the digits were rounded up to the next power of ten
    next hcarry =>
    obtain ⟨rfl, rfl⟩ : 10 ^ p = d ∧ x + 1 = y := by simpa using h
    refine ⟨Nat.le_refl _, Nat.pow_lt_pow_right (by decide) (Nat.lt_succ_self p), x, by omega, hlow, ?_⟩
    have hsum : x + 1 - p = 1 + (x - p) := by omega
    have hsame : ((10 ^ p : Nat) : ℚ) * 10 ^ (x + 1 - p) = d' * 10 ^ (x - p) := by
      rw [hcarry, hsum, zpow_add₀ hten, zpow_one]
      push_cast
      ring
    rw [hsame]
    exact hdistance
  · next hsteady =>
    obtain ⟨rfl, rfl⟩ : d' = d ∧ x = y := by simpa using h
    exact ⟨hdlow, by omega, x, le_refl x, hlow, hdistance⟩

end Decimal

namespace Binary64

theorem zpow_lt_of_pow_lt {i j : Nat} (h : 2 ^ i < 10 ^ j) : (2 : ℚ) ^ (i : Int) < 10 ^ (j : Int) := by
  rw [zpow_natCast, zpow_natCast]
  exact_mod_cast h

theorem zpow_neg_lt_of_pow_lt {i j : Nat} (h : 2 ^ i < 10 ^ j) :
    (10 : ℚ) ^ (-(j : Int)) < 2 ^ (-(i : Int)) := by
  rw [zpow_neg, zpow_neg]
  exact inv_strictAnti₀ (zpow_pos two_pos _) (zpow_lt_of_pow_lt h)

/-- The sizes of the finite numbers but zero. -/
theorem size_bounds {m : Nat} {e : Int} (h : IsCanonical m e) (hm : 0 < m) :
    2 * (10 : ℚ) ^ (-331 : Int) < m * 2 ^ e ∧ 2 * (m * (2 : ℚ) ^ e) < 10 ^ (310 : Int) := by
  obtain ⟨hbits, hleast, hgreatest, -⟩ := h
  constructor
  · have hpowers : (10 : ℚ) ^ (-331 : Int) < 2 ^ (-1075 : Int) :=
      zpow_neg_lt_of_pow_lt (i := 1075) (j := 331) (by decide +kernel)
    have hmge : (1 : ℚ) ≤ m := by exact_mod_cast hm
    have hsum : (-1074 : Int) = 1 + -1075 := rfl
    calc 2 * (10 : ℚ) ^ (-331 : Int) < 2 * 2 ^ (-1075 : Int) := by gcongr
      _ = 1 * 2 ^ (-1074 : Int) := by rw [hsum, zpow_add₀ two_ne_zero, zpow_one, one_mul]
      _ ≤ m * 2 ^ e := by gcongr; exact one_le_two
  · have hpowers : (2 : ℚ) ^ (1025 : Int) < 10 ^ (310 : Int) :=
      zpow_lt_of_pow_lt (i := 1025) (j := 310) (by decide +kernel)
    have hmless : (m : ℚ) < 2 ^ (53 : Int) := by exact_mod_cast hbits
    have hsum : (1025 : Int) = 1 + (53 + 971) := rfl
    have hunit : (2 : ℚ) ^ e ≤ 2 ^ (971 : Int) := zpow_le_zpow_right₀ one_le_two hgreatest
    calc 2 * ((m : ℚ) * 2 ^ e) < 2 * (2 ^ (53 : Int) * 2 ^ e) := by gcongr
      _ ≤ 2 * (2 ^ (53 : Int) * 2 ^ (971 : Int)) :=
        mul_le_mul_of_nonneg_left (mul_le_mul_of_nonneg_left hunit (by positivity)) two_pos.le
      _ = 2 ^ (1025 : Int) := by
        rw [hsum, zpow_add₀ two_ne_zero, zpow_add₀ two_ne_zero, zpow_one]
      _ < 10 ^ (310 : Int) := hpowers

/-- **A decimal number near a finite number is read as it.** -/
theorem ofDecimal_of_near (s : Bool) {m : Nat} {e : Int} (h : IsCanonical m e) {n : Nat} {x : Int}
    (hnear : 2 ^ 54 * |(n : ℚ) * 10 ^ x - m * 2 ^ e| < m * 2 ^ e) :
    ofDecimal s n x = .finite s m e h := by
  have hten : (10 : ℚ) ≠ 0 := by norm_num
  have hunit : (0 : ℚ) < 10 ^ x := zpow_pos (by norm_num) x
  have hpos : (0 : ℚ) < m * 2 ^ e := lt_of_le_of_lt (by positivity) hnear
  have hm : 0 < m := by
    rcases Nat.eq_zero_or_pos m with rfl | hm
    · rw [Nat.cast_zero, zero_mul] at hpos
      exact absurd hpos (lt_irrefl 0)
    · exact hm
  obtain ⟨hleast, hgreatest⟩ := size_bounds h hm
  obtain ⟨hlow, hhigh⟩ := abs_lt.mp ((lt_div_iff₀' (by positivity)).mpr hnear)
  have hbelow : (n : ℚ) * 10 ^ x < 2 * (m * 2 ^ e) := by linarith
  have habove : m * 2 ^ e < 2 * ((n : ℚ) * 10 ^ x) := by linarith
  have hn : 0 < n := by
    rcases Nat.eq_zero_or_pos n with rfl | hn
    · rw [Nat.cast_zero, zero_mul, mul_zero] at habove
      exact absurd habove (not_lt.mpr (le_of_lt hpos))
    · exact hn
  obtain ⟨hlength, hless, hmost⟩ := Decimal.length_bounds n
  have hmost : (10 : ℚ) ^ ((Decimal.length n - 1 : Nat) : Int) ≤ n := by
    rw [zpow_natCast]
    exact_mod_cast hmost hn
  have hless : (n : ℚ) < 10 ^ (Decimal.length n : Int) := by
    rw [zpow_natCast]
    exact_mod_cast hless
  -- the number of digits does not settle the size
  have hplaces : ((Decimal.length n - 1 : Nat) : Int) + x < 310 := by
    refine (zpow_lt_zpow_iff_right₀ (by norm_num : (1 : ℚ) < 10)).mp ?_
    calc (10 : ℚ) ^ (((Decimal.length n - 1 : Nat) : Int) + x)
        = 10 ^ ((Decimal.length n - 1 : Nat) : Int) * 10 ^ x := zpow_add₀ hten _ _
      _ ≤ n * 10 ^ x := by gcongr
      _ < 10 ^ (310 : Int) := lt_trans hbelow hgreatest
  have hplaces' : -331 < (Decimal.length n : Int) + x := by
    refine (zpow_lt_zpow_iff_right₀ (by norm_num : (1 : ℚ) < 10)).mp ?_
    calc (10 : ℚ) ^ (-331 : Int) < n * 10 ^ x :=
        lt_of_mul_lt_mul_left (lt_trans hleast habove) two_pos.le
      _ < 10 ^ (Decimal.length n : Int) * 10 ^ x := by gcongr
      _ = 10 ^ ((Decimal.length n : Int) + x) := (zpow_add₀ hten _ _).symm
  unfold ofDecimal
  simp only
  rw [if_neg (by omega), if_neg (by omega), if_neg (by omega)]
  split
  · next hx =>
    refine ofRatio_of_near s h Nat.one_pos ?_
    have hpower : ((10 ^ x.toNat : Nat) : ℚ) = 10 ^ x := by
      have hself : (x.toNat : Int) = x := Int.toNat_of_nonneg hx
      rw [Nat.cast_pow, ← zpow_natCast, hself, Nat.cast_ofNat]
    rwa [Nat.cast_one, div_one, Nat.cast_mul, hpower]
  · next hx =>
    refine ofRatio_of_near s h (by positivity) ?_
    have hpower : ((10 ^ (-x).toNat : Nat) : ℚ) = (10 ^ x)⁻¹ := by
      have hself : ((-x).toNat : Int) = -x := Int.toNat_of_nonneg (by omega)
      rw [Nat.cast_pow, ← zpow_natCast, hself, Nat.cast_ofNat, zpow_neg]
    rwa [hpower, div_inv_eq_mul]

end Binary64

end AccessControl
