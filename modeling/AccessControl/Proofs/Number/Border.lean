import AccessControl.Proofs.Codec.Inquiries

/-!
# Integers at the border of 64 bits

Rounding an integer of 64 bits to a floating point number gives an integer of 64 bits, with one exception:
the last 512 integers are rounded to `2 ^ 63`, the least floating point number beyond them
(`Binary64.integer?_ofInt`, `Binary64.ofInt_of_last`).  A floating point number that compares as equal to a
rounded integer is the same number (`Binary64.eq_of_compare`).  So an integer and a floating point number
are equal exactly if the number is that integer, or if it is `2 ^ 63` and the integer is one of the last 512
(`Value.compareMixed_eq_iff`).
-/

namespace AccessControl

/-! ## Rounded quotients -/

theorem roundedQuotient_one (n : Nat) : roundedQuotient n 1 = n := by
  unfold roundedQuotient
  simp [Nat.mod_one]

/-- A quotient is not rounded beyond an integer. -/
theorem roundedQuotient_le {num den k : Nat} (hden : 0 < den) (h : num ≤ k * den) :
    roundedQuotient num den ≤ k := by
  have hquotient : num / den ≤ k := Nat.div_le_of_le_mul (by rwa [Nat.mul_comm])
  unfold roundedQuotient
  simp only
  split
  · exact hquotient
  · next hup =>
    -- a quotient that is an integer is not rounded up
    refine Nat.lt_of_le_of_ne hquotient fun hk => hup ?_
    have hrest : num % den = 0 := by
      have hsplit := Nat.div_add_mod num den
      rw [hk, Nat.mul_comm] at hsplit
      omega
    rw [hrest, Nat.mul_zero, decide_eq_true hden, Bool.true_or]

/-- Nor is it rounded below one. -/
theorem le_roundedQuotient {num den k : Nat} (hden : 0 < den) (h : k * den ≤ num) :
    k ≤ roundedQuotient num den := by
  have hquotient : k ≤ num / den := (Nat.le_div_iff_mul_le hden).mpr h
  unfold roundedQuotient
  simp only
  split
  · exact hquotient
  · exact Nat.le_succ_of_le hquotient

/-- A quotient is rounded up by a half at most. -/
theorem roundedQuotient_mul_le (num : Nat) {den : Nat} (hden : 0 < den) :
    2 * (roundedQuotient num den * den) ≤ 2 * num + den := by
  have hsplit := Nat.div_add_mod num den
  rw [Nat.mul_comm] at hsplit
  unfold roundedQuotient
  simp only
  split
  · omega
  · next hup =>
    have htwice : den ≤ 2 * (num % den) :=
      Nat.le_of_not_lt (of_decide_eq_false (Bool.or_eq_false_iff.mp (Bool.eq_false_iff.mpr hup)).1)
    rw [Nat.add_mul, Nat.one_mul]
    omega

namespace Binary64

/-! ## Numbers of the same value -/

/-- Of two forms of one value, the one with the greater exponent would have too great a significand. -/
theorem not_exponent_lt {m n : Nat} {e f : Int} (hm : IsCanonical m e) (hn : IsCanonical n f)
    (h : m * 2 ^ (e + 1074).toNat = n * 2 ^ (f + 1074).toNat) : ¬ e < f := by
  intro hef
  obtain ⟨htop, hlow, -, -⟩ := hm
  obtain ⟨-, -, -, hnormal⟩ := hn
  have hnormal : 2 ^ 52 ≤ n := hnormal.resolve_right (by omega)
  have hsum : f + 1074 = (f - e) + (e + 1074) := by omega
  have hsplit : 2 ^ (f + 1074).toNat = 2 ^ (f - e).toNat * 2 ^ (e + 1074).toNat := by
    rw [hsum]
    exact two_pow_split (Int.le_of_lt (Int.sub_pos_of_lt hef)) (by omega)
  rw [hsplit, ← Nat.mul_assoc] at h
  have hsame : m = n * 2 ^ (f - e).toNat := Nat.eq_of_mul_eq_mul_right (Nat.two_pow_pos _) h
  have htwo : 2 ^ 1 ≤ 2 ^ (f - e).toNat := Nat.pow_le_pow_right Nat.two_pos (by omega)
  have hdouble : 2 ^ 52 * 2 ^ 1 ≤ n * 2 ^ (f - e).toNat := Nat.mul_le_mul hnormal htwo
  rw [← hsame] at hdouble
  exact absurd htop (Nat.not_lt.mpr hdouble)

/-- A significand and an exponent are determined by the value. -/
theorem canonical_unique {m n : Nat} {e f : Int} (hm : IsCanonical m e) (hn : IsCanonical n f)
    (h : m * 2 ^ (e + 1074).toNat = n * 2 ^ (f + 1074).toNat) : m = n ∧ e = f := by
  obtain rfl : e = f := Int.le_antisymm (Int.not_lt.mp (not_exponent_lt hn hm h.symm))
    (Int.not_lt.mp (not_exponent_lt hm hn h))
  exact ⟨Nat.eq_of_mul_eq_mul_right (Nat.two_pow_pos _) h, rfl⟩

theorem signed_eq_zero_iff {s : Bool} {n : Nat} : signed s n = 0 ↔ n = 0 := by
  unfold signed
  cases s <;> simp

/-- Numbers that compare as equal are the same, up to the sign of zero. -/
theorem eq_of_compare {d e : Binary64} (h : d.compare e = some .eq) :
    d = e ∨ d.isZero = true ∧ e.isZero = true := by
  cases d with
  | nan => cases h
  | infinity s =>
    cases e with
    | nan => cases h
    | infinity t =>
      have hsame : s = t := by
        revert h
        cases s <;> cases t <;> decide
      exact .inl (hsame ▸ rfl)
    | finite t n f hn => cases s <;> cases h
  | finite s m e' hm =>
    cases e with
    | nan => cases h
    | infinity t => cases t <;> cases h
    | finite t n f hn =>
      rw [compare_finite, Value.compare_self_swap, units, units] at h
      rcases Nat.eq_zero_or_pos m with rfl | hpos
      · rw [Nat.zero_mul, signed_eq_zero_iff.mpr rfl, eq_comm, signed_eq_zero_iff,
          Nat.mul_eq_zero] at h
        have hn0 : n = 0 := h.resolve_right (Nat.ne_of_gt (Nat.two_pow_pos _))
        exact .inr ⟨rfl, beq_iff_eq.mpr hn0⟩
      · obtain ⟨rfl, hsize⟩ := signed_inj (Nat.mul_pos hpos (Nat.two_pow_pos _)) h
        obtain ⟨rfl, rfl⟩ := canonical_unique hm hn hsize
        exact .inl rfl

theorem integer?_of_isZero {d : Binary64} (h : d.isZero = true) : d.integer? = some 0 := by
  cases d with
  | finite s m e hm =>
    obtain rfl : m = 0 := beq_iff_eq.mp h
    exact integer?_zero s hm
  | _ => cases h

/-- Numbers that compare as equal are the same integer, if they are integers of 64 bits. -/
theorem integer?_of_compare {d e : Binary64} (h : d.compare e = some .eq) : d.integer? = e.integer? := by
  rcases eq_of_compare h with rfl | ⟨hd, he⟩
  · rfl
  · rw [integer?_of_isZero hd, integer?_of_isZero he]

/-! ## Rounded integers -/

/-- The least floating point number beyond the integers of 64 bits, `2 ^ 63`. -/
def beyond : Binary64 := .finite false (2 ^ 52) 11 (by decide)

theorem integer?_beyond : beyond.integer? = none := by decide

/-- A number that is a multiple of an integral power of two is an integer, if it is within 64 bits. -/
theorem integer?_of_size {s : Bool} {m : Nat} {e : Int} (hm : IsCanonical m e) (he : 0 ≤ e)
    (hsize : m * 2 ^ e.toNat < 2 ^ 63 ∨ s = true ∧ m * 2 ^ e.toNat = 2 ^ 63) :
    (Binary64.finite s m e hm).integer? = some (signed s (m * 2 ^ e.toNat)) := by
  have hrange : -2 ^ 63 ≤ signed s (m * 2 ^ e.toNat) ∧ signed s (m * 2 ^ e.toNat) < 2 ^ 63 := by
    unfold signed
    rcases hsize with hless | ⟨rfl, hlast⟩
    · cases s with
      | true => rw [if_pos rfl]; omega
      | false => rw [if_neg Bool.false_ne_true]; omega
    · rw [if_pos rfl, hlast]
      decide
  unfold integer?
  simp only [he, if_true, decide_true, Bool.true_or, Bool.true_and]
  rw [if_pos (decide_eq_true hrange)]

theorem binaryExponent_one {n : Nat} (hn : 0 < n) : binaryExponent n 1 = n.log2 := by
  have hreached : 1 * 2 ^ n.log2 ≤ n := by
    rw [Nat.one_mul]
    exact Nat.log2_self_le (Nat.ne_of_gt hn)
  have hone : Nat.log2 1 = 0 := by decide
  unfold binaryExponent
  rw [hone]
  simp only [Int.sub_zero, Int.natCast_nonneg, if_true, Int.toNat_natCast, Nat.cast_zero]
  rw [if_pos hreached]

/-- A rounding that carries gives the same value. -/
theorem ofRounded_value (s : Bool) {m : Nat} {e : Int} (hlow : 2 ^ 52 ≤ m) (hhigh : m ≤ 2 ^ 53)
    (he : 0 ≤ e) (he' : e ≤ 970) : ∃ m' e' h, ofRounded s m e = .finite s m' e' h ∧ 0 ≤ e' ∧
      m' * 2 ^ e'.toNat = m * 2 ^ e.toNat := by
  rcases Nat.lt_or_eq_of_le hhigh with hless | rfl
  · have hcanonical : IsCanonical m e := ⟨hless, by omega, by omega, .inl hlow⟩
    exact ⟨m, e, hcanonical, ofRounded_of_canonical s hcanonical, he, rfl⟩
  · have hcanonical : IsCanonical (2 ^ 52) (e + 1) := ⟨by decide, by omega, by omega, .inl (Nat.le_refl _)⟩
    refine ⟨2 ^ 52, e + 1, hcanonical, ?_, by omega, ?_⟩
    · have hcarry := ofRounded_of_carry s hcanonical
      rwa [Int.add_sub_cancel] at hcarry
    · have hpower : 2 ^ (e + 1).toNat = 2 ^ e.toNat * 2 ^ 1 := two_pow_split he (by decide)
      rw [hpower, Nat.mul_comm (2 ^ e.toNat), ← Nat.mul_assoc, ← Nat.pow_add]

theorem ofRatio_one (s : Bool) {n : Nat} (hn : 0 < n) : ofRatio s n 1 =
    ofRounded s (if 0 ≤ (n.log2 - 52 : Int) then roundedQuotient n (2 ^ (n.log2 - 52 : Int).toNat)
      else n * 2 ^ (-(n.log2 - 52 : Int)).toNat) (n.log2 - 52) := by
  have hexp : max ((n.log2 : Int) - 52) (-1074) = n.log2 - 52 := by omega
  unfold ofRatio
  simp only [if_neg (Nat.ne_of_gt hn), binaryExponent_one hn, hexp, roundedQuotient_one, Nat.one_mul]

/-- The integer of a number that is one when its significand is divided by a power of two. -/
theorem integer?_of_quotient {s : Bool} {n k : Nat} {e : Int} (hm : IsCanonical (n * 2 ^ k) e)
    (he : e < 0) (hk : (-e).toNat = k) (hn : n < 2 ^ 63) :
    (Binary64.finite s (n * 2 ^ k) e hm).integer? = some (signed s n) := by
  have hpos : 0 < 2 ^ k := Nat.two_pow_pos k
  have hrange : -2 ^ 63 ≤ signed s n ∧ signed s n < 2 ^ 63 := by
    unfold signed
    cases s with
    | true => rw [if_pos rfl]; omega
    | false => rw [if_neg Bool.false_ne_true]; omega
  have hquotient : n * 2 ^ k / 2 ^ k = n := Nat.mul_div_cancel n hpos
  have hrest : n * 2 ^ k % 2 ^ k = 0 := Nat.mul_mod_left n (2 ^ k)
  unfold integer?
  simp only [Int.not_le.mpr he, if_false, hk]
  rw [hquotient, hrest, beq_self_eq_true, Bool.or_true, Bool.true_and, if_pos (decide_eq_true hrange)]

/-- An integer of less than 53 bits is rounded to itself. -/
theorem ofRatio_of_small (s : Bool) {n : Nat} (hn : 0 < n) (hlog : n.log2 < 52) :
    (ofRatio s n 1).integer? = some (signed s n) := by
  obtain ⟨k, hk⟩ : ∃ k, n.log2 + k = 52 := ⟨52 - n.log2, by omega⟩
  have hexp : (-(n.log2 - 52 : Int)).toNat = k := by omega
  have hlow : 2 ^ 52 ≤ n * 2 ^ k := by
    rw [← hk, Nat.pow_add]
    exact Nat.mul_le_mul_right _ (Nat.log2_self_le (Nat.ne_of_gt hn))
  have hhigh : n * 2 ^ k < 2 ^ 53 := by
    have hsum : 53 = n.log2 + 1 + k := by omega
    rw [hsum, Nat.pow_add]
    exact Nat.mul_lt_mul_of_pos_right Nat.lt_log2_self (Nat.two_pow_pos k)
  have hcanonical : IsCanonical (n * 2 ^ k) (n.log2 - 52) := ⟨hhigh, by omega, by omega, .inl hlow⟩
  have hless : n < 2 ^ 63 :=
    Nat.lt_of_lt_of_le Nat.lt_log2_self (Nat.pow_le_pow_right Nat.two_pos (by omega))
  rw [ofRatio_one s hn, if_neg (by omega), hexp, ofRounded_of_canonical s hcanonical]
  exact integer?_of_quotient hcanonical (by omega) hexp hless

/-- A greater one is rounded to an integer of 64 bits, or to the first number beyond them. -/
theorem ofRatio_of_large (s : Bool) {n : Nat} (hn : n < 2 ^ 63 ∨ s = true ∧ n = 2 ^ 63)
    (hlog : 52 ≤ n.log2) : (∃ j, (ofRatio s n 1).integer? = some j) ∨
      s = false ∧ 2 ^ 63 - 512 ≤ n ∧ ofRatio s n 1 = beyond := by
  have hpos : 0 < n := Nat.pos_of_ne_zero fun h => by
    subst h
    exact absurd hlog (by decide)
  have hself : 2 ^ n.log2 ≤ n := Nat.log2_self_le (Nat.ne_of_gt hpos)
  have htop : n.log2 ≤ 63 := by
    have hle : 2 ^ n.log2 ≤ 2 ^ 63 := Nat.le_trans hself (by omega)
    exact (Nat.pow_le_pow_iff_right (by decide)).mp hle
  obtain ⟨k, hk⟩ : ∃ k, n.log2 = 52 + k := ⟨n.log2 - 52, by omega⟩
  have hexp : (n.log2 - 52 : Int) = k := by omega
  have hunit : 0 < 2 ^ k := Nat.two_pow_pos k
  -- the significand before a carry
  have hlow : 2 ^ 52 ≤ roundedQuotient n (2 ^ k) := by
    refine le_roundedQuotient hunit ?_
    rw [← Nat.pow_add, ← hk]
    exact hself
  have hhigh : roundedQuotient n (2 ^ k) ≤ 2 ^ 53 := by
    refine roundedQuotient_le hunit (Nat.le_of_lt ?_)
    have hsum : 53 + k = n.log2 + 1 := by omega
    rw [← Nat.pow_add, hsum]
    exact Nat.lt_log2_self
  obtain ⟨m, e, hcanonical, hrounded, he, hsize⟩ :=
    ofRounded_value s hlow hhigh (e := k) (by omega) (by omega)
  rw [Int.toNat_natCast] at hsize
  have hofRatio : ofRatio s n 1 = .finite s m e hcanonical := by
    rw [ofRatio_one s hpos, hexp, if_pos (Int.natCast_nonneg k), Int.toNat_natCast]
    exact hrounded
  have hlast : 2 ^ (63 - k) * 2 ^ k = 2 ^ 63 := by
    rw [← Nat.pow_add, Nat.sub_add_cancel (by omega)]
  have hle : m * 2 ^ e.toNat ≤ 2 ^ 63 := by
    rw [hsize, ← hlast]
    exact Nat.mul_le_mul_right _ (roundedQuotient_le hunit (by omega))
  rw [hofRatio]
  by_cases hwithin : m * 2 ^ e.toNat < 2 ^ 63 ∨ s = true ∧ m * 2 ^ e.toNat = 2 ^ 63
  · exact .inl ⟨_, integer?_of_size hcanonical he hwithin⟩
  · have hbeyond : m * 2 ^ e.toNat = 2 ^ 63 := by omega
    have hpositive : s = false := by
      cases s with
      | true => exact absurd (.inr ⟨rfl, hbeyond⟩) hwithin
      | false => rfl
    subst hpositive
    have hless : n < 2 ^ 63 := hn.resolve_right fun h => nomatch h.1
    refine .inr ⟨rfl, ?_, ?_⟩
    · -- the unit is 1024 at most, and half of it was added
      have hhalf := roundedQuotient_mul_le n hunit
      rw [← hsize, hbeyond] at hhalf
      have hk10 : k ≤ 10 := by
        have hlog63 : n.log2 < 63 := (Nat.log2_lt (Nat.ne_of_gt hpos)).mpr hless
        omega
      have hunit10 : 2 ^ k ≤ 2 ^ 10 := Nat.pow_le_pow_right Nat.two_pos hk10
      omega
    · have hborder : 2 ^ 52 * 2 ^ (11 : Int).toNat = 2 ^ 63 := rfl
      have hvalue : m * 2 ^ (e + 1074).toNat = 2 ^ 52 * 2 ^ ((11 : Int) + 1074).toNat := by
        rw [two_pow_split he (by decide), ← Nat.mul_assoc, hbeyond,
          two_pow_split (a := 11) (by decide) (by decide), ← Nat.mul_assoc, hborder]
      have hcanonical' : IsCanonical (2 ^ 52) 11 := by decide
      obtain ⟨hm, hexponent⟩ := canonical_unique hcanonical hcanonical' hvalue
      subst hm hexponent
      rfl

/-- **An integer of 64 bits is rounded to an integer of 64 bits**, or it is one of the last 512 and is
rounded to the first number beyond them. -/
theorem integer?_ofInt {i : Int} (hlow : -2 ^ 63 ≤ i) (hhigh : i < 2 ^ 63) :
    (∃ j, (ofInt i).integer? = some j) ∨ 2 ^ 63 - 512 ≤ i ∧ ofInt i = beyond := by
  rcases Nat.eq_zero_or_pos i.natAbs with hzero | hpos
  · rw [ofInt, hzero]
    exact .inl ⟨0, integer?_zero _ _⟩
  · rcases Nat.lt_or_ge i.natAbs.log2 52 with hsmall | hlarge
    · exact .inl ⟨_, ofRatio_of_small _ hpos hsmall⟩
    · have hsize : i.natAbs < 2 ^ 63 ∨ decide (i < 0) = true ∧ i.natAbs = 2 ^ 63 := by
        by_cases hneg : i < 0
        · have hsize : i.natAbs ≤ 2 ^ 63 := by omega
          exact (Nat.lt_or_eq_of_le hsize).imp id fun h => ⟨decide_eq_true hneg, h⟩
        · exact .inl (by omega)
      rcases ofRatio_of_large _ hsize hlarge with hinteger | ⟨hpositive, hlast, hbeyond⟩
      · exact .inl hinteger
      · have hpositive := of_decide_eq_false hpositive
        exact .inr ⟨by omega, hbeyond⟩

/-- The last 512 integers of 64 bits are rounded to the first number beyond them. -/
theorem ofInt_of_last {i : Int} (hlow : 2 ^ 63 - 512 ≤ i) (hhigh : i < 2 ^ 63) : ofInt i = beyond := by
  obtain ⟨n, rfl⟩ := Int.eq_ofNat_of_zero_le (a := i) (by omega)
  have hlast : 2 ^ 63 - 512 ≤ n ∧ n < 2 ^ 63 := by omega
  have hlog : n.log2 = 62 := (Nat.log2_eq_iff (by omega)).mpr (by omega)
  have hexp : ((62 : Nat) : Int) - 52 = 10 := rfl
  have hquotient : n / 2 ^ 10 = 2 ^ 53 - 1 := by omega
  have hrest : 512 ≤ n % 2 ^ 10 := by omega
  -- the quotient is odd, so half the unit is rounded up
  have hround : roundedQuotient n (2 ^ 10) = 2 ^ 53 := by
    have hup : ¬ (decide (2 * (n % 2 ^ 10) < 2 ^ 10) ||
        2 * (n % 2 ^ 10) == 2 ^ 10 && (2 ^ 53 - 1) % 2 == 0) = true := by
      rw [Bool.or_eq_true, decide_eq_true_eq, Bool.and_eq_true, beq_iff_eq, beq_iff_eq]
      omega
    unfold roundedQuotient
    simp only [hquotient]
    rw [if_neg hup]
    omega
  have hpositive : decide ((n : Int) < 0) = false := decide_eq_false (by omega)
  rw [ofInt, hpositive, Int.natAbs_natCast, ofRatio_one false (by omega), hlog, hexp, if_pos (by decide)]
  show ofRounded false (roundedQuotient n (2 ^ 10)) 10 = beyond
  rw [hround]
  exact ofRounded_of_carry false (e := 11) (by decide)

end Binary64

namespace Value

open Binary64

/-- **An integer and a floating point number are equal** exactly if the number is the integer, or if it is
the first number beyond 64 bits and the integer is one of the last 512. -/
theorem compareMixed_eq_iff {i : Int} (hlow : -2 ^ 63 ≤ i) (hhigh : i < 2 ^ 63) (d : Binary64) :
    compareMixed i d = some .eq ↔ d.integer? = some i ∨ d = beyond ∧ 2 ^ 63 - 512 ≤ i := by
  unfold compareMixed
  cases hd : d.integer? with
  | some j =>
    have hne : d ≠ beyond := by
      rintro rfl
      rw [integer?_beyond] at hd
      cases hd
    rw [compare_self_swap, Option.some.injEq, eq_comm]
    exact ⟨.inl, fun h => h.resolve_right fun h => hne h.1⟩
  | none =>
    constructor
    · intro h
      rcases integer?_ofInt hlow hhigh with ⟨j, hj⟩ | ⟨hlast, hbeyond⟩
      · rw [integer?_of_compare h, hd] at hj
        cases hj
      · rw [hbeyond] at h
        rcases eq_of_compare h with rfl | ⟨hzero, -⟩
        · exact .inr ⟨rfl, hlast⟩
        · exact absurd hzero (by decide)
    · rintro (h | ⟨rfl, hlast⟩)
      · cases h
      rw [ofInt_of_last hlast hhigh]
      exact Binary64.compare_self (by decide)

end Value

end AccessControl
