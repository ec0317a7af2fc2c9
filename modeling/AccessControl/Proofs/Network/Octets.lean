import AccessControl.Network.Block
import Mathlib.Data.Nat.Digits.Lemmas

/-!
# Octets as numbers

A row of octets is a number, the most significant octet first (`bigEndian`).  Comparing the first `n`
bits of two rows octet by octet, the last and partial one under a mask, compares the quotients of their
numbers by the power of two that the other bits are worth (`samePrefix_iff`), and no bit is set behind
the first `n` if that power divides the number (`clearBehind_iff`).
-/

namespace AccessControl.Network

/-- The number that octets are, the most significant one first. -/
def bigEndian (octets : List UInt8) : Nat := Nat.ofDigits 256 (octets.reverse.map UInt8.toNat)

theorem bigEndian_cons (x : UInt8) (a : List UInt8) :
    bigEndian (x :: a) = x.toNat * 2 ^ (8 * a.length) + bigEndian a := by
  rw [bigEndian, bigEndian, List.reverse_cons, List.map_append, Nat.ofDigits_append, List.length_map,
    List.length_reverse, List.map_singleton, Nat.ofDigits_singleton, pow_mul, Nat.mul_comm, Nat.add_comm]
  rfl

theorem bigEndian_lt (a : List UInt8) : bigEndian a < 2 ^ (8 * a.length) := by
  induction a with
  | nil => exact Nat.one_pos
  | cons x a ih =>
    have hx : x.toNat + 1 ≤ 2 ^ 8 := x.toNat_lt
    have hle : (x.toNat + 1) * 2 ^ (8 * a.length) ≤ 2 ^ 8 * 2 ^ (8 * a.length) :=
      Nat.mul_le_mul_right _ hx
    rw [bigEndian_cons, List.length_cons, Nat.mul_add_one, Nat.add_comm (8 * a.length), pow_add]
    rw [Nat.add_mul, Nat.one_mul] at hle
    omega

/-! ## Masks -/

theorem and_lowerMask (x : UInt8) {n : Nat} (h : n < 8) :
    (x &&& lowerMask n).toNat = x.toNat % 2 ^ (8 - n) := by
  have hmask : ∀ n < 8, (lowerMask n).toNat = 2 ^ (8 - n) - 1 := by decide
  rw [UInt8.toNat_and, hmask n h, Nat.and_two_pow_sub_one_eq_mod]

/-- The first bits of an octet are its quotient by what the others are worth. -/
theorem and_upperMask (x : UInt8) {n : Nat} (hpos : 0 < n) (h : n < 8) :
    (x &&& upperMask n).toNat = x.toNat / 2 ^ (8 - n) * 2 ^ (8 - n) := by
  have hmask : ∀ n < 8, 0 < n → (upperMask n).toNat = (2 ^ n - 1) * 2 ^ (8 - n) := by decide
  rw [UInt8.toNat_and, hmask n h hpos]
  refine Nat.eq_of_testBit_eq fun i => ?_
  rw [Nat.testBit_and, Nat.testBit_mul_two_pow, Nat.testBit_mul_two_pow, Nat.testBit_two_pow_sub_one,
    Nat.testBit_div_two_pow]
  by_cases hi : 8 - n ≤ i
  · rw [Nat.sub_add_cancel hi]
    by_cases hi8 : i < 8
    · have hlt : i - (8 - n) < n := by omega
      simp [hi, hlt]
    · have hbit : x.toNat.testBit i = false :=
        Nat.testBit_lt_two_pow (Nat.lt_of_lt_of_le x.toNat_lt (Nat.pow_le_pow_right (by decide)
          (Nat.le_of_not_lt hi8)))
      simp [hbit]
  · simp [hi]

/-! ## Prefixes -/

theorem mul_add_inj {m x y q r : Nat} (hq : q < m) (hr : r < m) :
    x * m + q = y * m + r ↔ x = y ∧ q = r := by
  constructor
  · intro h
    have hm : 0 < m := Nat.zero_lt_of_lt hq
    have hdiv : (x * m + q) / m = (y * m + r) / m := by rw [h]
    have hmod : (x * m + q) % m = (y * m + r) % m := by rw [h]
    rw [Nat.mul_comm x, Nat.mul_comm y] at hdiv hmod
    rw [Nat.mul_add_div hm, Nat.mul_add_div hm, Nat.div_eq_of_lt hq, Nat.div_eq_of_lt hr] at hdiv
    rw [Nat.mul_add_mod, Nat.mul_add_mod, Nat.mod_eq_of_lt hq, Nat.mod_eq_of_lt hr] at hmod
    exact ⟨hdiv, hmod⟩
  · rintro ⟨rfl, rfl⟩
    rfl

/-- The quotient of a row by what is behind a bit beyond its first octet. -/
theorem bigEndian_cons_div (x : UInt8) {a : List UInt8} {n : Nat} (h : n ≤ 8 * a.length) :
    bigEndian (x :: a) / 2 ^ (8 * a.length - n) =
      x.toNat * 2 ^ n + bigEndian a / 2 ^ (8 * a.length - n) := by
  have hpow : 2 ^ (8 * a.length) = 2 ^ (8 * a.length - n) * 2 ^ n := by
    rw [← pow_add, Nat.sub_add_cancel h]
  rw [bigEndian_cons, hpow, Nat.mul_left_comm, Nat.mul_add_div (Nat.two_pow_pos _)]

/-- The quotient of a row by what is behind a bit of its first octet. -/
theorem bigEndian_cons_div_first (x : UInt8) (a : List UInt8) (k : Nat) :
    bigEndian (x :: a) / 2 ^ (8 * a.length + k) = x.toNat / 2 ^ k := by
  rw [bigEndian_cons, pow_add, ← Nat.div_div_eq_div_mul, Nat.mul_comm,
    Nat.mul_add_div (Nat.two_pow_pos _), Nat.div_eq_of_lt (bigEndian_lt a), Nat.add_zero]

theorem samePrefix_zero (a b : List UInt8) : samePrefix 0 a b = true := by
  simp [samePrefix]

theorem samePrefix_cons (n : Nat) (x y : UInt8) (a b : List UInt8) :
    samePrefix (n + 8) (x :: a) (y :: b) = (x == y && samePrefix n a b) := by
  have hdiv : (n + 8) / 8 = n / 8 + 1 := Nat.add_div_right n (by decide)
  have hmod : (n + 8) % 8 = n % 8 := Nat.add_mod_right n 8
  simp only [samePrefix, hdiv, hmod, List.take_succ_cons, List.drop_succ_cons, List.cons_beq_cons,
    Bool.and_assoc]

theorem samePrefix_cons_first {n : Nat} (hpos : 0 < n) (h : n < 8) (x y : UInt8) (a b : List UInt8) :
    samePrefix n (x :: a) (y :: b) = (x &&& upperMask n == y &&& upperMask n) := by
  have hdiv : n / 8 = 0 := Nat.div_eq_of_lt h
  have hmod : n % 8 = n := Nat.mod_eq_of_lt h
  have hne : (n == 0) = false := beq_eq_false_iff_ne.mpr (Nat.ne_of_gt hpos)
  simp [samePrefix, hdiv, hmod, hne]

/-- **The first bits are the same** if the quotients by what the others are worth are. -/
theorem samePrefix_iff {n : Nat} {a b : List UInt8} (hlength : a.length = b.length)
    (hn : n ≤ 8 * a.length) :
    samePrefix n a b = true ↔
      bigEndian a / 2 ^ (8 * a.length - n) = bigEndian b / 2 ^ (8 * a.length - n) := by
  induction a generalizing b n with
  | nil =>
    obtain rfl : b = [] := List.eq_nil_of_length_eq_zero hlength.symm
    obtain rfl : n = 0 := Nat.le_zero.mp hn
    exact iff_of_true (samePrefix_zero [] []) rfl
  | cons x a ih =>
    obtain ⟨y, b, rfl⟩ := List.exists_cons_of_length_eq_add_one hlength.symm
    have hab : a.length = b.length := Nat.succ_inj.mp hlength
    rw [List.length_cons] at hn ⊢
    rcases Nat.lt_or_ge n 8 with hlt | hge
    · rcases Nat.eq_zero_or_pos n with rfl | hpos
      · -- no bits are compared, and both quotients are zero
        have hx := bigEndian_lt (x :: a)
        have hy := bigEndian_lt (y :: b)
        rw [List.length_cons] at hx hy
        rw [Nat.sub_zero, Nat.div_eq_of_lt hx, Nat.div_eq_of_lt (hab ▸ hy)]
        exact iff_of_true (samePrefix_zero _ _) rfl
      · have hbehind : 8 * (a.length + 1) - n = 8 * a.length + (8 - n) := by omega
        rw [samePrefix_cons_first hpos hlt, beq_iff_eq, ← UInt8.toNat_inj, and_upperMask x hpos hlt,
          and_upperMask y hpos hlt, hbehind, bigEndian_cons_div_first, hab, bigEndian_cons_div_first]
        exact ⟨Nat.eq_of_mul_eq_mul_right (Nat.two_pow_pos _), fun h => by rw [h]⟩
    · obtain ⟨n, rfl⟩ := Nat.exists_eq_add_of_le' hge
      have hn' : n ≤ 8 * a.length := by omega
      have hbehind : 8 * (a.length + 1) - (n + 8) = 8 * a.length - n := by omega
      have hquotient (c : List UInt8) (hc : a.length = c.length) :
          bigEndian c / 2 ^ (8 * a.length - n) < 2 ^ n := by
        rw [Nat.div_lt_iff_lt_mul (Nat.two_pow_pos _), ← pow_add, Nat.add_sub_cancel' hn', hc]
        exact bigEndian_lt c
      rw [samePrefix_cons, Bool.and_eq_true, beq_iff_eq, ih hab hn', hbehind, bigEndian_cons_div x hn',
        show bigEndian (y :: b) / 2 ^ (8 * a.length - n) = _ from hab ▸ bigEndian_cons_div y (hab ▸ hn'),
        mul_add_inj (hquotient a rfl) (hquotient b hab), UInt8.toNat_inj]

/-! ## Bits behind a prefix -/

theorem clearBehind_cons (n : Nat) (x : UInt8) (a : List UInt8) :
    clearBehind (n + 8) (x :: a) = clearBehind n a := by
  have hdiv : (n + 8) / 8 = n / 8 + 1 := Nat.add_div_right n (by decide)
  have hmod : (n + 8) % 8 = n % 8 := Nat.add_mod_right n 8
  simp only [clearBehind, hdiv, hmod, List.drop_succ_cons]

theorem clearBehind_cons_first {n : Nat} (h : n < 8) (x : UInt8) (a : List UInt8) :
    clearBehind n (x :: a) = (x &&& lowerMask n == 0 && clearBehind 0 a) := by
  have hdiv : n / 8 = 0 := Nat.div_eq_of_lt h
  have hmod : n % 8 = n := Nat.mod_eq_of_lt h
  rcases Nat.eq_zero_or_pos n with rfl | hpos
  · have hall : x &&& lowerMask 0 = x := UInt8.and_neg_one
    simp [clearBehind, hall]
  · simp [clearBehind, hdiv, hmod, Nat.ne_of_gt hpos]

theorem clearBehind_zero_iff {a : List UInt8} : clearBehind 0 a = true ↔ bigEndian a = 0 := by
  induction a with
  | nil => exact iff_of_true rfl rfl
  | cons x a ih =>
    have hpos : 0 < 2 ^ (8 * a.length) := Nat.two_pow_pos _
    rw [clearBehind_cons_first (by decide), Bool.and_eq_true, beq_iff_eq, ih, bigEndian_cons,
      ← UInt8.toNat_inj, and_lowerMask x (by decide), Nat.mod_eq_of_lt x.toNat_lt, Nat.add_eq_zero_iff,
      Nat.mul_eq_zero, or_iff_left hpos.ne']
    rfl

/-- **No bit is set behind the first ones** if what these bits are worth divides the number. -/
theorem clearBehind_iff {n : Nat} {a : List UInt8} (hn : n ≤ 8 * a.length) :
    clearBehind n a = true ↔ 2 ^ (8 * a.length - n) ∣ bigEndian a := by
  induction a generalizing n with
  | nil =>
    obtain rfl : n = 0 := Nat.le_zero.mp hn
    exact iff_of_true rfl (one_dvd _)
  | cons x a ih =>
    rw [List.length_cons] at hn ⊢
    rcases Nat.lt_or_ge n 8 with hlt | hge
    · have hbehind : 8 * (a.length + 1) - n = 8 * a.length + (8 - n) := by omega
      rw [clearBehind_cons_first hlt, Bool.and_eq_true, beq_iff_eq, clearBehind_zero_iff, hbehind,
        ← UInt8.toNat_inj, and_lowerMask x hlt, pow_add, bigEndian_cons, Nat.mul_comm x.toNat]
      constructor
      · rintro ⟨hx, ha⟩
        rw [ha, Nat.add_zero]
        exact Nat.mul_dvd_mul_left _ (Nat.dvd_of_mod_eq_zero hx)
      · intro h
        have ha : bigEndian a = 0 := by
          have hdvd := (Nat.dvd_add_right (Nat.dvd_mul_right _ _)).mp (dvd_of_mul_right_dvd h)
          exact Nat.eq_zero_of_dvd_of_lt hdvd (bigEndian_lt a)
        rw [ha, Nat.add_zero] at h
        exact ⟨Nat.mod_eq_zero_of_dvd (Nat.dvd_of_mul_dvd_mul_left (Nat.two_pow_pos _) h), ha⟩
    · obtain ⟨n, rfl⟩ := Nat.exists_eq_add_of_le' hge
      have hn' : n ≤ 8 * a.length := by omega
      have hbehind : 8 * (a.length + 1) - (n + 8) = 8 * a.length - n := by omega
      have hfirst : 2 ^ (8 * a.length - n) ∣ x.toNat * 2 ^ (8 * a.length) :=
        Nat.dvd_mul_left_of_dvd (pow_dvd_pow 2 (Nat.sub_le _ _)) _
      rw [clearBehind_cons, ih hn', hbehind, bigEndian_cons, Nat.dvd_add_right hfirst]

end AccessControl.Network
