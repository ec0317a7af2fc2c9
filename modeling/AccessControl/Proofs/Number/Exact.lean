import AccessControl.Proofs.Number.Rounding
import AccessControl.Value.Order

/-!
# Integers as floating point numbers

A floating point number that is an integer of 64 bits compares with every other number as that integer
does (`Binary64.compareMixed_eq`).  Both comparisons are comparisons of exact values, which are told in
multiples of the least positive number (`Binary64.units`); an integer that is a floating point number is
rounded to nothing else (`Binary64.ofInt_exact`).
-/

namespace AccessControl

/-- A common positive factor does not change the order. -/
theorem compare_mul_pos (a b : Int) {c : Int} (hc : 0 < c) :
    Ord.compare (a * c) (b * c) = Ord.compare a b := by
  have hlt : a * c < b * c ↔ a < b := Int.mul_lt_mul_right hc
  have heq : a * c = b * c ↔ a = b := Int.mul_eq_mul_right_iff (Int.ne_of_gt hc)
  show compareOfLessAndEq (a * c) (b * c) = compareOfLessAndEq a b
  unfold compareOfLessAndEq
  simp only [hlt, heq]

theorem compare_swap (a b : Int) : (Ord.compare a b).swap = Ord.compare b a := by
  show (compareOfLessAndEq a b).swap = compareOfLessAndEq b a
  unfold compareOfLessAndEq
  split
  · rw [if_neg (by omega), if_neg (by omega)]
    rfl
  · split
    · rw [if_neg (by omega), if_pos (by omega)]
      rfl
    · rw [if_pos (by omega)]
      rfl

namespace Binary64

theorem signed_mul (negative : Bool) (n c : Nat) :
    signed negative (n * c) = signed negative n * c := by
  unfold signed
  cases negative with
  | true => rw [if_pos rfl, if_pos rfl, Int.natCast_mul, Int.neg_mul]
  | false => rw [if_neg Bool.false_ne_true, if_neg Bool.false_ne_true, Int.natCast_mul]

/-- The exact value of a finite number, in multiples of the least positive one. -/
def units (negative : Bool) (m : Nat) (e : Int) : Int :=
  signed negative (m * 2 ^ (e + 1074).toNat)

/-- The factor between integers and units. -/
def unitsOfOne : Nat := 2 ^ 1074

theorem unitsOfOne_pos : (0 : Int) < unitsOfOne := by
  rw [unitsOfOne, Nat.cast_pow]
  exact pow_pos two_pos _

theorem toNat_1074 : (1074 : Int).toNat = 1074 := rfl

theorem two_pow_split {a b : Int} (ha : 0 ≤ a) (hb : 0 ≤ b) :
    2 ^ (a + b).toNat = 2 ^ a.toNat * 2 ^ b.toNat := by
  rw [← Nat.pow_add, Int.toNat_add ha hb]

/-- Finite numbers compare as their exact values. -/
theorem compare_finite {s t : Bool} {m n : Nat} {e f : Int} (hm : IsCanonical m e)
    (hn : IsCanonical n f) :
    compare (.finite s m e hm) (.finite t n f hn) = some (Ord.compare (units s m e) (units t n f)) := by
  have he : -1074 ≤ e := hm.2.1
  have hf : -1074 ≤ f := hn.2.1
  have hunits (s : Bool) (m : Nat) (e low : Int) (hlow : -1074 ≤ low) (hle : low ≤ e) :
      units s m e = signed s (m * 2 ^ (e - low).toNat) * (2 ^ (low + 1074).toNat : Nat) := by
    have hsum : e + 1074 = (e - low) + (low + 1074) := by omega
    rw [units, hsum, two_pow_split (by omega) (by omega), ← Nat.mul_assoc, signed_mul]
  rw [hunits s m e (min e f) (by omega) (by omega), hunits t n f (min e f) (by omega) (by omega),
    compare_mul_pos _ _ (Int.natCast_pos.mpr (Nat.two_pow_pos _))]
  rfl

/-- A number that is an integer has so many units. -/
theorem units_of_integer? {s : Bool} {m : Nat} {e i : Int} {h : IsCanonical m e}
    (hi : (Binary64.finite s m e h).integer? = some i) : units s m e = i * unitsOfOne := by
  have he : -1074 ≤ e := h.2.1
  unfold integer? at hi
  by_cases hpos : 0 ≤ e
  · simp only [hpos, if_true] at hi
    split at hi
    · cases hi
      rw [← signed_mul, units, two_pow_split hpos (by decide), ← Nat.mul_assoc, unitsOfOne,
        toNat_1074]
    · cases hi
  · simp only [hpos, if_false, decide_false, Bool.false_or] at hi
    split at hi
    · next hcond =>
      cases hi
      have hmod : m % 2 ^ (-e).toNat = 0 := eq_of_beq (Bool.and_eq_true_iff.mp hcond).1
      have hsum : (1074 : Int) = -e + (e + 1074) := by omega
      have hone : 2 ^ 1074 = 2 ^ (-e).toNat * 2 ^ (e + 1074).toNat := by
        rw [← two_pow_split (by omega) (by omega), ← hsum, toNat_1074]
      rw [← signed_mul, units, unitsOfOne, hone, ← Nat.mul_assoc,
        Nat.div_mul_cancel (Nat.dvd_of_mod_eq_zero hmod)]
    · cases hi

theorem signed_inj {s t : Bool} {a b : Nat} (ha : 0 < a) (h : signed s a = signed t b) :
    s = t ∧ a = b := by
  unfold signed at h
  cases s <;> cases t <;> simp only [Bool.false_eq_true, if_true, if_false] at h <;>
    first
      | exact ⟨rfl, by omega⟩
      | omega

/-- **An integer that is a floating point number is rounded to itself.** -/
theorem ofInt_exact {d : Binary64} {i : Int} (h : d.integer? = some i) :
    ∃ s m e hm, ofInt i = .finite s m e hm ∧ units s m e = i * unitsOfOne := by
  cases d with
  | nan => cases h
  | infinity s => cases h
  | finite s m e hm =>
    have hunits := units_of_integer? h
    rcases Nat.eq_zero_or_pos m with rfl | hpos
    · have hzero : i = 0 := by
        rw [units, Nat.zero_mul] at hunits
        have : signed s 0 = 0 := by cases s <;> rfl
        rw [this, eq_comm, Int.mul_eq_zero] at hunits
        exact hunits.resolve_right (Int.ne_of_gt unitsOfOne_pos)
      subst hzero
      refine ⟨false, 0, -1074, by decide, rfl, ?_⟩
      rw [units, Nat.zero_mul, Int.zero_mul]
      rfl
    · -- the size of the integer is that of the number
      have hsize := hunits
      rw [← signed_natAbs i, ← signed_mul, units] at hsize
      obtain ⟨hsign, hsize⟩ := signed_inj (Nat.mul_pos hpos (Nat.two_pow_pos _)) hsize
      have hexact : (i.natAbs : ℚ) = m * 2 ^ e := by
        have hcast := congrArg (Nat.cast (R := ℚ)) hsize
        rw [Nat.cast_mul, Nat.cast_mul, unitsOfOne, Nat.cast_pow, Nat.cast_pow,
          Nat.cast_ofNat] at hcast
        have hself : ((e + 1074).toNat : Int) = e + 1074 := Int.toNat_of_nonneg (by
          have := hm.2.1
          omega)
        rw [← zpow_natCast, hself, zpow_add₀ two_ne_zero, ← mul_assoc] at hcast
        exact (mul_right_cancel₀ (by positivity) hcast).symm
      refine ⟨s, m, e, hm, ?_, hunits⟩
      rw [ofInt, ← hsign]
      refine ofRatio_of_near s hm Nat.one_pos ?_
      rw [Nat.cast_one, div_one, hexact, sub_self, abs_zero, mul_zero]
      positivity

/-- **A number that is an integer compares as that integer.** -/
theorem compareMixed_eq {d : Binary64} {i : Int} (h : d.integer? = some i) (e : Binary64) :
    Value.compareMixed i e = d.compare e := by
  cases d with
  | nan => cases h
  | infinity s => cases h
  | finite s m x hm =>
    have hd := units_of_integer? h
    cases he : e.integer? with
    | some j =>
      rw [Value.compareMixed, he]
      cases e with
      | nan => cases he
      | infinity t => cases he
      | finite t n y hn =>
        rw [compare_finite, hd, units_of_integer? he, compare_mul_pos _ _ unitsOfOne_pos]
    | none =>
      obtain ⟨s', m', x', hm', hofInt, hunits⟩ := ofInt_exact h
      rw [Value.compareMixed, he, hofInt]
      cases e with
      | nan => rfl
      | infinity t => rfl
      | finite t n y hn => rw [compare_finite, compare_finite, hd, hunits]

/-- A comparison the other way round. -/
theorem compare_symm (d e : Binary64) : (d.compare e).map Ordering.swap = e.compare d := by
  cases d with
  | nan => cases e <;> rfl
  | infinity s =>
    cases e with
    | nan => rfl
    | infinity t => cases s <;> cases t <;> rfl
    | finite t n y hn => cases s <;> rfl
  | finite s m x hm =>
    cases e with
    | nan => rfl
    | infinity t => cases t <;> rfl
    | finite t n y hn => rw [compare_finite, compare_finite, Option.map_some, compare_swap]

end Binary64

end AccessControl
