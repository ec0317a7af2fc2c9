import AccessControl.Number.Binary64
import Mathlib.Algebra.Order.Field.Power
import Mathlib.Algebra.Order.Field.Rat
import Mathlib.Tactic.FieldSimp
import Mathlib.Tactic.Linarith
import Mathlib.Tactic.NormNum
import Mathlib.Tactic.Positivity
import Mathlib.Tactic.Ring

/-!
# Rounding to the nearest number

`Binary64.ofRatio` rounds a quotient.  A quotient whose distance from a finite number is less than one
part in `2 ^ 54` of it is rounded to that number (`Binary64.ofRatio_of_near`), also where the spacing of
the numbers changes at a power of two.
-/

namespace AccessControl

/-! ## Quotients -/

/-- The rounded quotient is off by a half at most. -/
theorem roundedQuotient_near (num : Nat) {den : Nat} (hden : 0 < den) :
    |(num / den : ℚ) - roundedQuotient num den| ≤ 1 / 2 := by
  have hpos : (0 : ℚ) < den := Nat.cast_pos.mpr hden
  have hnum : (num : ℚ) = den * (num / den : Nat) + (num % den : Nat) := by
    exact_mod_cast (Nat.div_add_mod num den).symm
  have hrest : (num / den : ℚ) = (num / den : Nat) + ((num % den : Nat) : ℚ) / den := by
    rw [hnum]
    field_simp
  rw [hrest]
  unfold roundedQuotient
  simp only
  split
  · -- rounded down, the rest is at most half the divisor
    next h =>
    have htwice : 2 * (num % den) ≤ den := by
      rcases Bool.or_eq_true_iff.mp h with h | h
      · exact Nat.le_of_lt (of_decide_eq_true h)
      · exact Nat.le_of_eq (eq_of_beq (Bool.and_eq_true_iff.mp h).1)
    have htwice : 2 * ((num % den : Nat) : ℚ) ≤ den := by exact_mod_cast htwice
    have hfraction : ((num % den : Nat) : ℚ) / den ≤ 1 / 2 := by
      rw [div_le_div_iff₀ hpos two_pos]
      linarith
    have hnonneg : (0 : ℚ) ≤ ((num % den : Nat) : ℚ) / den := by positivity
    rw [abs_le]
    constructor <;> linarith
  · next h =>
    have htwice : den ≤ 2 * (num % den) := by
      have := (Bool.or_eq_false_iff.mp (Bool.eq_false_iff.mpr h)).1
      exact Nat.le_of_not_lt (of_decide_eq_false this)
    have htwice : (den : ℚ) ≤ 2 * ((num % den : Nat) : ℚ) := by exact_mod_cast htwice
    have hless : ((num % den : Nat) : ℚ) < den := by exact_mod_cast Nat.mod_lt num hden
    have hlow : (1 : ℚ) / 2 ≤ ((num % den : Nat) : ℚ) / den := by
      rw [div_le_div_iff₀ two_pos hpos]
      linarith
    have hhigh : ((num % den : Nat) : ℚ) / den < 1 := (div_lt_one hpos).mpr hless
    push_cast
    rw [abs_le]
    constructor <;> linarith

/-- An integer that is off by less than a half is the rounded quotient. -/
theorem roundedQuotient_of_near {num den q : Nat} (hden : 0 < den)
    (h : |(num / den : ℚ) - q| < 1 / 2) : roundedQuotient num den = q := by
  have hnear := roundedQuotient_near num hden
  rw [abs_lt] at h
  rw [abs_le] at hnear
  have hlow : (roundedQuotient num den : ℚ) < q + 1 := by linarith
  have hhigh : (q : ℚ) < roundedQuotient num den + 1 := by linarith
  have hlow : roundedQuotient num den < q + 1 := by exact_mod_cast hlow
  have hhigh : q < roundedQuotient num den + 1 := by exact_mod_cast hhigh
  omega

/-- A power with an exponent of either sign, as a quotient of natural numbers. -/
theorem zpow_eq_toNat_div (b : Nat) (e : Int) :
    (b : ℚ) ^ e = ((b ^ e.toNat : Nat) : ℚ) / (b ^ (-e).toNat : Nat) := by
  rcases Int.le_total 0 e with he | he
  · have hneg : (-e).toNat = 0 := by omega
    have hself : (e.toNat : Int) = e := Int.toNat_of_nonneg he
    rw [hneg, pow_zero, Nat.cast_one, div_one, Nat.cast_pow, ← zpow_natCast, hself]
  · have hzero : e.toNat = 0 := by omega
    have hself : ((-e).toNat : Int) = -e := Int.toNat_of_nonneg (by omega)
    rw [hzero, pow_zero, Nat.cast_one, Nat.cast_pow, ← zpow_natCast, hself, zpow_neg, one_div,
      inv_inv]

theorem div_mul_pow_of_nonneg (b num den : Nat) {e : Int} (he : 0 ≤ e) :
    (num / (den * b ^ e.toNat : Nat) : ℚ) = num / den / b ^ e := by
  have hself : (e.toNat : Int) = e := Int.toNat_of_nonneg he
  rw [Nat.cast_mul, Nat.cast_pow, ← zpow_natCast, hself, div_div]

theorem mul_pow_div_of_nonpos (b num den : Nat) {e : Int} (he : e ≤ 0) :
    ((num * b ^ (-e).toNat : Nat) / den : ℚ) = num / den / b ^ e := by
  have hself : ((-e).toNat : Int) = -e := Int.toNat_of_nonneg (by omega)
  rw [Nat.cast_mul, Nat.cast_pow, ← zpow_natCast, hself, zpow_neg, ← div_eq_mul_inv,
    div_right_comm]

namespace Binary64

theorem signed_natAbs (i : Int) : signed (decide (i < 0)) i.natAbs = i := by
  unfold signed
  by_cases h : i < 0
  · rw [decide_eq_true h, if_pos rfl]
    omega
  · rw [decide_eq_false h, if_neg Bool.false_ne_true]
    omega

/-- A quotient lies between the power of two that is told for it and its double. -/
theorem binaryExponent_bounds {num den : Nat} (hnum : 0 < num) (hden : 0 < den) :
    (2 : ℚ) ^ binaryExponent num den ≤ num / den ∧
      (num / den : ℚ) < 2 ^ (binaryExponent num den + 1) := by
  have hdenpos : (0 : ℚ) < den := Nat.cast_pos.mpr hden
  have hnumlow : ((2 : ℚ) ^ (num.log2 : Int)) ≤ num := by
    rw [zpow_natCast]
    exact_mod_cast Nat.log2_self_le (Nat.ne_of_gt hnum)
  have hnumhigh : (num : ℚ) < 2 ^ (num.log2 + 1 : Int) := by
    have h : num < 2 ^ (num.log2 + 1) := Nat.lt_log2_self
    exact_mod_cast h
  have hdenlow : ((2 : ℚ) ^ (den.log2 : Int)) ≤ den := by
    rw [zpow_natCast]
    exact_mod_cast Nat.log2_self_le (Nat.ne_of_gt hden)
  have hdenhigh : (den : ℚ) < 2 ^ (den.log2 + 1 : Int) := by
    have h : den < 2 ^ (den.log2 + 1) := Nat.lt_log2_self
    exact_mod_cast h
  have htwo : (2 : ℚ) ≠ 0 := two_ne_zero
  -- the powers of the two logarithms leave a factor of two to either side
  have hlow : (2 : ℚ) ^ ((num.log2 : Int) - den.log2 - 1) ≤ num / den := by
    rw [le_div_iff₀ hdenpos]
    calc (2 : ℚ) ^ ((num.log2 : Int) - den.log2 - 1) * den
        ≤ 2 ^ ((num.log2 : Int) - den.log2 - 1) * 2 ^ (den.log2 + 1 : Int) := by gcongr
      _ = 2 ^ (num.log2 : Int) := by rw [← zpow_add₀ htwo]; congr 1; ring
      _ ≤ num := hnumlow
  have hhigh : (num / den : ℚ) < 2 ^ ((num.log2 : Int) - den.log2 + 1) := by
    rw [div_lt_iff₀ hdenpos]
    calc (num : ℚ) < 2 ^ (num.log2 + 1 : Int) := hnumhigh
      _ = 2 ^ ((num.log2 : Int) - den.log2 + 1) * 2 ^ (den.log2 : Int) := by
        rw [← zpow_add₀ htwo]; congr 1; ring
      _ ≤ 2 ^ ((num.log2 : Int) - den.log2 + 1) * den := by gcongr
  have hreached (l : Int) : (if 0 ≤ l then den * 2 ^ l.toNat ≤ num else den ≤ num * 2 ^ (-l).toNat) ↔
      (2 : ℚ) ^ l ≤ num / den := by
    have hpower : (2 : ℚ) ^ l = ((2 ^ l.toNat : Nat) : ℚ) / (2 ^ (-l).toNat : Nat) :=
      zpow_eq_toNat_div 2 l
    rw [hpower, le_div_iff₀ hdenpos]
    split
    · have hneg : (-l).toNat = 0 := by omega
      rw [hneg, pow_zero, Nat.cast_one, div_one, ← Nat.cast_mul, Nat.cast_le, Nat.mul_comm]
    · have hzero : l.toNat = 0 := by omega
      have hpos : (0 : ℚ) < (2 ^ (-l).toNat : Nat) := by positivity
      rw [hzero, pow_zero, Nat.cast_one, div_mul_eq_mul_div, one_mul, div_le_iff₀ hpos,
        ← Nat.cast_mul, Nat.cast_le]
  unfold binaryExponent
  simp only [hreached]
  split
  · next h => exact ⟨h, hhigh⟩
  · next h =>
    rw [Int.sub_add_cancel]
    exact ⟨hlow, not_le.mp h⟩

theorem lt_of_zpow_le_of_lt {x : ℚ} {i j : Int} (hi : (2 : ℚ) ^ i ≤ x) (hj : x < 2 ^ j) : i < j :=
  (zpow_lt_zpow_iff_right₀ one_lt_two).mp (lt_of_le_of_lt hi hj)

section

variable {num den : Nat} {e : Int}

theorem binaryExponent_lt_of_lt (hnum : 0 < num) (hden : 0 < den) {x : ℚ}
    (hx : (num / den : ℚ) = x * 2 ^ e) {n : Nat} (h : x < 2 ^ n) :
    binaryExponent num den < n + e := by
  refine lt_of_zpow_le_of_lt (binaryExponent_bounds hnum hden).1 ?_
  rw [hx, zpow_add₀ two_ne_zero, zpow_natCast]
  exact mul_lt_mul_of_pos_right h (zpow_pos two_pos e)

theorem le_binaryExponent_of_le (hnum : 0 < num) (hden : 0 < den) {x : ℚ}
    (hx : (num / den : ℚ) = x * 2 ^ e) {n : Nat} (h : 2 ^ n ≤ x) :
    n + e ≤ binaryExponent num den := by
  refine Int.lt_add_one_iff.mp (lt_of_zpow_le_of_lt ?_ (binaryExponent_bounds hnum hden).2)
  rw [hx, zpow_add₀ two_ne_zero, zpow_natCast]
  exact mul_le_mul_of_nonneg_right h (le_of_lt (zpow_pos two_pos e))

/-- A quotient is rounded to the integer nearest to it in units of its last bit. -/
theorem ofRatio_eq_ofRounded (s : Bool) (hnum : 0 < num) (hden : 0 < den)
    (hexp : max (binaryExponent num den - 52) (-1074) = e) {q : Nat}
    (h : |(num / den : ℚ) / 2 ^ e - q| < 1 / 2) : ofRatio s num den = ofRounded s q e := by
  have hround : (if 0 ≤ e then roundedQuotient num (den * 2 ^ e.toNat)
      else roundedQuotient (num * 2 ^ (-e).toNat) den) = q := by
    split
    · next he =>
      refine roundedQuotient_of_near (Nat.mul_pos hden (Nat.two_pow_pos _)) ?_
      have hscaled := div_mul_pow_of_nonneg 2 num den he
      rwa [hscaled]
    · next he =>
      refine roundedQuotient_of_near hden ?_
      have hscaled := mul_pow_div_of_nonpos 2 num den (e := e) (by omega)
      rwa [hscaled]
  unfold ofRatio
  simp only [if_neg (Nat.ne_of_gt hnum), hexp, hround]

end

theorem ofRounded_of_canonical (s : Bool) {m : Nat} {e : Int} (h : IsCanonical m e) :
    ofRounded s m e = .finite s m e h := by
  unfold ofRounded
  simp only [if_neg (Nat.ne_of_lt h.1)]
  rw [dif_pos h]

/-- A significand of 54 bits is halved. -/
theorem ofRounded_of_carry (s : Bool) {e : Int} (h : IsCanonical (2 ^ 52) e) :
    ofRounded s (2 ^ 53) (e - 1) = .finite s (2 ^ 52) e h := by
  unfold ofRounded
  simp only [if_true, Int.sub_add_cancel]
  rw [dif_pos h]

/-- **A quotient near a finite number is rounded to it.** -/
theorem ofRatio_of_near (s : Bool) {m : Nat} {e : Int} (h : IsCanonical m e) {num den : Nat}
    (hden : 0 < den) (hnear : 2 ^ 54 * |(num / den : ℚ) - m * 2 ^ e| < m * 2 ^ e) :
    ofRatio s num den = .finite s m e h := by
  have hunit : (0 : ℚ) < 2 ^ e := zpow_pos two_pos e
  have hsize : (m : ℚ) + 1 ≤ 2 ^ 53 := by exact_mod_cast h.1
  -- in units of the number the quotient is `x`
  obtain ⟨x, hx⟩ : ∃ x : ℚ, (num / den : ℚ) = x * 2 ^ e :=
    ⟨num / den / 2 ^ e, (div_mul_cancel₀ _ (ne_of_gt hunit)).symm⟩
  have hclose : 2 ^ 54 * |x - m| < m := by
    rw [hx, ← sub_mul, abs_mul, abs_of_pos hunit, ← mul_assoc] at hnear
    exact lt_of_mul_lt_mul_right hnear (le_of_lt hunit)
  have hdistance : |x - m| < m / 2 ^ 54 := (lt_div_iff₀' (by positivity)).mpr hclose
  obtain ⟨hlow, hhigh⟩ := abs_lt.mp hdistance
  have hmpos : (0 : ℚ) < m := lt_of_le_of_lt (by positivity) hclose
  have hnum : 0 < num := by
    rcases Nat.eq_zero_or_pos num with rfl | hnum
    · rw [Nat.cast_zero, zero_div, eq_comm, mul_eq_zero] at hx
      rcases hx with hx | hx <;> linarith
    · exact hnum
  -- unless the unit of the quotient is a smaller one, it is rounded to `m` units
  have hsteady (hexp : max (binaryExponent num den - 52) (-1074) = e) :
      ofRatio s num den = .finite s m e h := by
    refine (ofRatio_eq_ofRounded s hnum hden hexp (q := m) ?_).trans (ofRounded_of_canonical s h)
    rw [hx, mul_div_cancel_right₀ _ (ne_of_gt hunit)]
    linarith
  have hless := binaryExponent_lt_of_lt hnum hden hx (n := 53) (by linarith)
  have hleast := h.2.1
  by_cases hbelow : x < 2 ^ 52
  · have hless := binaryExponent_lt_of_lt hnum hden hx (n := 52) hbelow
    by_cases hsubnormal : e = -1074
    · exact hsteady (by omega)
    · -- the number is a power of two, and the quotient below it has half the unit
      have hfirst : 2 ^ 52 ≤ m := h.2.2.2.resolve_right hsubnormal
      have hmle : (m : ℚ) < 2 ^ 52 + 1 := by linarith
      have hmle : m < 2 ^ 52 + 1 := by exact_mod_cast hmle
      obtain rfl : m = 2 ^ 52 := by omega
      push_cast at hlow hhigh
      have hgreater := le_binaryExponent_of_le hnum hden hx (n := 51) (by linarith)
      have hexp : max (binaryExponent num den - 52) (-1074) = e - 1 := by omega
      refine (ofRatio_eq_ofRounded s hnum hden hexp (q := 2 ^ 53) ?_).trans (ofRounded_of_carry s h)
      have hhalf : (2 : ℚ) ^ (e - 1) = 2 ^ e / 2 := zpow_sub_one₀ two_ne_zero e
      have hdouble : x * 2 ^ e / (2 ^ e / 2) = 2 * x := by field_simp
      rw [hx, hhalf, hdouble, abs_lt]
      push_cast
      constructor <;> linarith
  · have hgreater := le_binaryExponent_of_le hnum hden hx (n := 52) (not_lt.mp hbelow)
    exact hsteady (by omega)

end Binary64

end AccessControl
