import AccessControl.Proofs.Number.Digits
import Mathlib.Data.List.TakeWhile

/-!
# Decimal numbers as they are written

A decimal number is written as digits, a point with further digits and an exponent
(`Decimal.Spelling`).  `Decimal.general` writes one that has the leading digits of the quotient
(`Decimal.general_spelling`), and what is written is read as the number that it spells
(`Spelling.read?_text`).
-/

namespace AccessControl.Decimal

open Bytes

/-! ## Digits -/

theorem foldl_value (digits : Bytes) (n : Nat) :
    digits.foldl (fun n b => 10 * n + (b - '0'.toUInt8).toNat) n =
      n * 10 ^ digits.length + value digits := by
  induction digits generalizing n with
  | nil => simp [value]
  | cons b digits ih =>
    have hself : value (b :: digits) =
        digits.foldl (fun n b => 10 * n + (b - '0'.toUInt8).toNat) (10 * 0 + (b - '0'.toUInt8).toNat) := rfl
    rw [List.foldl_cons, ih, hself, ih, List.length_cons, pow_succ]
    ring

theorem value_append (front back : Bytes) :
    value (front ++ back) = value front * 10 ^ back.length + value back := by
  have happend : value (front ++ back) =
      back.foldl (fun n b => 10 * n + (b - '0'.toUInt8).toNat) (value front) := List.foldl_append
  rw [happend, foldl_value]

theorem value_zeros (k : Nat) : value (List.replicate k '0'.toUInt8) = 0 := by
  induction k with
  | zero => rfl
  | succ k ih =>
    rw [List.replicate_succ', value_append, ih]
    rfl

theorem toNat_digit : ∀ d < 10, (UInt8.ofNat (48 + d) - '0'.toUInt8).toNat = d := by decide

theorem exists_digit : ∀ b : UInt8, Ascii.isDigit b = true → ∃ d < 10, b = UInt8.ofNat (48 + d) := by
  intro b hb
  simp only [Ascii.isDigit, Bool.and_eq_true, decide_eq_true_eq, UInt8.le_iff_toNat_le] at hb
  have hzero : '0'.toUInt8.toNat = 48 := by decide
  have hnine : '9'.toUInt8.toNat = 57 := by decide
  rw [hzero, hnine] at hb
  refine ⟨b.toNat - 48, by omega, UInt8.toNat.inj ?_⟩
  rw [UInt8.toNat_ofNat_of_lt' (show 48 + (b.toNat - 48) < 256 by omega)]
  omega

theorem value_ofNat (n : Nat) : value (ofNat n) = n := by
  refine ofNat_induction (motive := fun n text => value text = n) ?_ ?_ n
  · intro d hd
    have hself : value [UInt8.ofNat (48 + d)] = 10 * 0 + (UInt8.ofNat (48 + d) - '0'.toUInt8).toNat := rfl
    rw [hself, toNat_digit d hd]
    omega
  · intro n d text _ hd ih
    have hself : value [UInt8.ofNat (48 + d)] = 10 * 0 + (UInt8.ofNat (48 + d) - '0'.toUInt8).toNat := rfl
    rw [value_append, ih, hself, toNat_digit d hd, List.length_singleton]
    omega

theorem ofNat_foldl {n : Nat} (hn : 0 < n) {digits : Bytes}
    (hdigits : ∀ b ∈ digits, Ascii.isDigit b = true) :
    ofNat (digits.foldl (fun n b => 10 * n + (b - '0'.toUInt8).toNat) n) = ofNat n ++ digits := by
  induction digits generalizing n with
  | nil => exact (List.append_nil _).symm
  | cons b digits ih =>
    obtain ⟨d, hd, rfl⟩ := exists_digit b (hdigits _ (List.mem_cons_self ..))
    have hdiv : (10 * n + d) / 10 = n := by omega
    have hmod : (10 * n + d) % 10 = d := by omega
    rw [List.foldl_cons, toNat_digit d hd, ih (by omega) fun b hb => hdigits b (List.mem_cons_of_mem _ hb),
      ofNat_of_le (by omega), hdiv, hmod, List.append_assoc]
    rfl

/-- **Digits without a leading zero are the text of their value.** -/
theorem ofNat_value {b : UInt8} {digits : Bytes} (hb : b ≠ '0'.toUInt8)
    (hdigits : ∀ c ∈ b :: digits, Ascii.isDigit c = true) : ofNat (value (b :: digits)) = b :: digits := by
  obtain ⟨d, hd, rfl⟩ := exists_digit b (hdigits _ (List.mem_cons_self ..))
  have hpos : 0 < d := by
    rcases Nat.eq_zero_or_pos d with rfl | hpos
    · exact absurd rfl hb
    · exact hpos
  have hself : value (UInt8.ofNat (48 + d) :: digits) =
      digits.foldl (fun n b => 10 * n + (b - '0'.toUInt8).toNat)
        (10 * 0 + (UInt8.ofNat (48 + d) - '0'.toUInt8).toNat) := rfl
  rw [hself, toNat_digit d hd, Nat.mul_zero, Nat.zero_add,
    ofNat_foldl hpos fun c hc => hdigits c (List.mem_cons_of_mem _ hc), ofNat_of_lt hd]
  rfl

/-- The zeros that are dropped from a number. -/
theorem eq_dropTrailingZeros_append (digits : Bytes) :
    ∃ k, digits = dropTrailingZeros digits ++ List.replicate k '0'.toUInt8 := by
  have hzeros : digits.reverse.takeWhile (· == '0'.toUInt8) =
      List.replicate (digits.reverse.takeWhile (· == '0'.toUInt8)).length '0'.toUInt8 := by
    refine List.eq_replicate_iff.mpr ⟨rfl, fun b hb => ?_⟩
    exact eq_of_beq (List.mem_takeWhile_imp (p := (· == '0'.toUInt8)) hb)
  refine ⟨(digits.reverse.takeWhile (· == '0'.toUInt8)).length, ?_⟩
  have hsplit := List.takeWhile_append_dropWhile (p := (· == '0'.toUInt8)) (l := digits.reverse)
  rw [hzeros] at hsplit
  have hreverse := congrArg List.reverse hsplit
  rw [List.reverse_append, List.reverse_replicate, List.reverse_reverse] at hreverse
  exact hreverse.symm

/-! ## Spellings -/

/-- A decimal number as it is written. -/
structure Spelling where
  whole : Nat
  /-- The digits behind the point. -/
  places : Bytes
  places_digits : ∀ b ∈ places, Ascii.isDigit b = true
  exponent : Option Int

namespace Spelling

/-- An exponent of two digits or more. -/
def exponentText : Option Int → Bytes
  | none => []
  | some e =>
    utf8 (if e < 0 then "e-" else "e+") ++
      (List.replicate (2 - (ofNat e.natAbs).length) '0'.toUInt8 ++ ofNat e.natAbs)

/-- What stands behind the whole part. -/
def rest (s : Spelling) : Bytes := fraction s.places ++ exponentText s.exponent

/-- The text of the number. -/
def text (s : Spelling) : Bytes := ofNat s.whole ++ s.rest

/-- All digits, as one number. -/
def digits (s : Spelling) : Nat := value (ofNat s.whole ++ s.places)

/-- The place of the last digit. -/
def scale (s : Spelling) : Int := s.exponent.getD 0 - s.places.length

/-- Whether only a whole part is written. -/
def IsWhole (s : Spelling) : Prop := s.places = [] ∧ s.exponent = none

theorem rest_of_isWhole {s : Spelling} (h : s.IsWhole) : s.rest = [] := by
  rw [rest, h.1, h.2]
  rfl

theorem exponentText_some (e : Int) : ∃ sign rest, exponentText (some e) = 'e'.toUInt8 :: sign :: rest ∧
    Decimal.sign (sign :: rest) = (decide (e < 0), rest) ∧
    rest = List.replicate (2 - (ofNat e.natAbs).length) '0'.toUInt8 ++ ofNat e.natAbs := by
  simp only [exponentText]
  by_cases h : e < 0
  · rw [if_pos h, decide_eq_true h]
    exact ⟨_, _, rfl, rfl, rfl⟩
  · rw [if_neg h, decide_eq_false h]
    exact ⟨_, _, rfl, rfl, rfl⟩

theorem rest_of_not_isWhole {s : Spelling} (h : ¬ s.IsWhole) : s.rest ≠ [] := by
  intro hrest
  obtain ⟨hfraction, hexponent⟩ := List.append_eq_nil_iff.mp hrest
  refine h ⟨?_, ?_⟩
  · cases hplaces : s.places with
    | nil => rfl
    | cons b places =>
      rw [hplaces] at hfraction
      cases hfraction
  · cases hexp : s.exponent with
    | none => rfl
    | some e =>
      obtain ⟨sign, rest, hcons, -, -⟩ := exponentText_some e
      rw [hexp, hcons] at hexponent
      cases hexponent

theorem mayFollow_exponentText (exponent : Option Int) : Scalar.MayFollow (exponentText exponent) := by
  cases exponent with
  | none => exact Scalar.mayFollow_nil
  | some e =>
    obtain ⟨sign, rest, hcons, -, -⟩ := exponentText_some e
    rw [hcons]
    rintro b ⟨⟩
    exact .inr rfl

theorem mayFollow_rest (s : Spelling) : Scalar.MayFollow s.rest := by
  unfold rest
  cases s.places with
  | nil => exact mayFollow_exponentText s.exponent
  | cons b places =>
    rintro b ⟨⟩
    exact .inl rfl

theorem isDigit_of_mayFollow {rest : Bytes} (h : Scalar.MayFollow rest) :
    ∀ b ∈ rest.head?, Ascii.isDigit b = false := by
  intro b hb
  rcases h b hb with rfl | rfl <;> rfl

/-- An exponent is read as it was written. -/
theorem exponent?_exponentText (exponent : Option Int) :
    exponent? (exponentText exponent) = some (exponent.getD 0, []) := by
  cases exponent with
  | none => rfl
  | some e =>
    obtain ⟨sign, rest, hcons, hsign, hrest⟩ := exponentText_some e
    have hall : ∀ b ∈ rest, Ascii.isDigit b = true := by
      rw [hrest]
      intro b hb
      rcases List.mem_append.mp hb with hb | hb
      · rw [List.eq_of_mem_replicate hb]
        decide
      · exact isDigit_of_mem_ofNat _ b hb
    have hvalue : value rest = e.natAbs := by
      rw [hrest, value_append, value_zeros, Nat.zero_mul, Nat.zero_add, value_ofNat]
    have hend : ∀ b ∈ ([] : Bytes).head?, Ascii.isDigit b = false := fun _ hb => by cases hb
    obtain ⟨htake, hdrop⟩ := Scalar.span_of_head? hall hend
    rw [List.append_nil] at htake hdrop
    have hne : rest.isEmpty = false := by
      rw [hrest]
      obtain ⟨b, text, hcons, -, -⟩ := ofNat_eq_cons e.natAbs
      rw [hcons]
      cases List.replicate (2 - (b :: text).length) '0'.toUInt8 <;> rfl
    rw [hcons]
    unfold exponent?
    simp only [hsign, htake, hdrop, hne, hvalue, Binary64.signed_natAbs]
    rfl

/-- **A spelling is read as the number that it spells.** -/
theorem read?_text (s : Spelling) (negative : Bool) :
    read? (if negative then '-'.toUInt8 :: s.text else s.text) =
      some (Binary64.ofDecimal negative s.digits s.scale, []) := by
  obtain ⟨htake, hdrop⟩ := Scalar.span_of_head? (isDigit_of_mem_ofNat s.whole)
    (isDigit_of_mayFollow s.mayFollow_rest)
  have hne : (ofNat s.whole).isEmpty = false := by
    obtain ⟨b, text, hcons, -, -⟩ := ofNat_eq_cons s.whole
    rw [hcons]
    rfl
  have hexponent := exponent?_exponentText s.exponent
  unfold read? text
  simp only [Scalar.sign_ofNat, htake, hdrop, hne, Bool.false_and, Bool.false_eq_true, if_false]
  -- behind the whole part there is a point or none, and then an exponent or none
  unfold digits scale rest
  cases hplaces : s.places with
  | nil =>
    cases hexp : s.exponent with
    | none => rfl
    | some e =>
      obtain ⟨sign, rest, hcons, -, -⟩ := exponentText_some e
      rw [hexp, hcons] at hexponent
      rw [hcons]
      show (exponent? ('e'.toUInt8 :: sign :: rest) >>= _) = _
      rw [hexponent]
      rfl
  | cons b places =>
    obtain ⟨htake, hdrop⟩ := Scalar.span_of_head? s.places_digits
      (isDigit_of_mayFollow (mayFollow_exponentText s.exponent))
    rw [hplaces] at htake hdrop
    show (exponent? ((b :: places ++ exponentText s.exponent).dropWhile Ascii.isDigit) >>= fun r =>
      pure (Binary64.ofDecimal negative (value (ofNat s.whole ++
        (b :: places ++ exponentText s.exponent).takeWhile Ascii.isDigit)) (r.1 -
          ((b :: places ++ exponentText s.exponent).takeWhile Ascii.isDigit).length), r.2)) = _
    rw [htake, hdrop, hexponent]
    rfl

theorem digits_of_isWhole {s : Spelling} (h : s.IsWhole) : s.digits = s.whole ∧ s.scale = 0 := by
  unfold digits scale
  rw [h.1, h.2, List.append_nil, value_ofNat]
  exact ⟨rfl, rfl⟩

end Spelling

/-! ## The spelling of a quotient -/

section

variable {b : UInt8} {digits : Bytes}

/-- In positional notation of numbers from one the digits are split, or filled up with zeros. -/
theorem positional_spelling_of_nonneg (hb : b ≠ '0'.toUInt8)
    (hdigits : ∀ c ∈ b :: digits, Ascii.isDigit c = true) {y : Int} (hy : 0 ≤ y) :
    ∃ s : Spelling, positional (b :: digits) y = s.text ∧ s.exponent = none ∧
      (s.digits : ℚ) * 10 ^ s.scale =
        value (b :: digits) * 10 ^ (y + 1 - ((b :: digits).length : Int)) := by
  obtain ⟨n, rfl⟩ := Int.eq_ofNat_of_zero_le hy
  have hzero : Ascii.isDigit '0'.toUInt8 = true := by decide
  obtain ⟨whole, hwhole⟩ : ∃ whole, ofNat whole = (b :: digits).take (n + 1) ++
      List.replicate (n + 1 - (b :: digits).length) '0'.toUInt8 := by
    rw [List.take_succ_cons, List.cons_append]
    refine ⟨_, ofNat_value hb fun c hc => ?_⟩
    rw [← List.cons_append, ← List.take_succ_cons] at hc
    rcases List.mem_append.mp hc with hc | hc
    · exact hdigits c (List.mem_of_mem_take hc)
    · exact List.eq_of_mem_replicate hc ▸ hzero
  refine ⟨⟨whole, (b :: digits).drop (n + 1), fun c hc => hdigits c (List.mem_of_mem_drop hc), none⟩,
    ?_, rfl, ?_⟩
  · unfold positional Spelling.text Spelling.rest
    simp only [hy, if_true, Int.toNat_natCast]
    rw [hwhole]
    exact congrArg _ (List.append_nil _).symm
  · unfold Spelling.digits Spelling.scale
    simp only [hwhole]
    rcases Nat.le_total (b :: digits).length (n + 1) with hle | hle
    · -- no digit stands behind the point
      have hexponent : (n : Int) + 1 - ((b :: digits).length : Int) =
          (n + 1 - (b :: digits).length : Nat) := by omega
      rw [List.drop_of_length_le hle, List.take_of_length_le hle, List.append_nil, value_append,
        value_zeros, List.length_replicate, hexponent, zpow_natCast]
      simp
    · -- no zero is filled in
      have hzeros : n + 1 - (b :: digits).length = 0 := by omega
      rw [hzeros, List.replicate_zero, List.append_nil, List.take_append_drop, List.length_drop]
      congr 2
      simp only [Option.getD_none]
      omega

/-- In positional notation of numbers below one zeros stand before the digits. -/
theorem positional_spelling_of_neg (hdigits : ∀ c ∈ b :: digits, Ascii.isDigit c = true) {y : Int}
    (hy : ¬ 0 ≤ y) :
    ∃ s : Spelling, positional (b :: digits) y = s.text ∧ s.exponent = none ∧
      (s.digits : ℚ) * 10 ^ s.scale =
        value (b :: digits) * 10 ^ (y + 1 - ((b :: digits).length : Int)) := by
  have hzero : Ascii.isDigit '0'.toUInt8 = true := by decide
  refine ⟨⟨0, List.replicate ((-y).toNat - 1) '0'.toUInt8 ++ (b :: digits), ?_, none⟩, ?_, rfl, ?_⟩
  · intro c hc
    rcases List.mem_append.mp hc with hc | hc
    · exact List.eq_of_mem_replicate hc ▸ hzero
    · exact hdigits c hc
  · have hne : (List.replicate ((-y).toNat - 1) '0'.toUInt8 ++ (b :: digits)).isEmpty = false := by
      cases List.replicate ((-y).toNat - 1) '0'.toUInt8 <;> rfl
    unfold positional Spelling.text Spelling.rest fraction
    simp only [hy, hne, Bool.false_eq_true, if_false]
    rw [List.append_assoc]
    exact congrArg _ (List.append_nil _).symm
  · unfold Spelling.digits Spelling.scale
    simp only
    rw [value_append, value_append, value_zeros, value_ofNat, Nat.zero_mul, Nat.zero_add,
      Nat.zero_mul, Nat.zero_add, List.length_append, List.length_replicate]
    congr 2
    simp only [Option.getD_none]
    omega

theorem positional_spelling (hb : b ≠ '0'.toUInt8)
    (hdigits : ∀ c ∈ b :: digits, Ascii.isDigit c = true) (y : Int) :
    ∃ s : Spelling, positional (b :: digits) y = s.text ∧ s.exponent = none ∧
      (s.digits : ℚ) * 10 ^ s.scale =
        value (b :: digits) * 10 ^ (y + 1 - ((b :: digits).length : Int)) := by
  by_cases hy : 0 ≤ y
  · exact positional_spelling_of_nonneg hb hdigits hy
  · exact positional_spelling_of_neg hdigits hy

/-- Scientific notation has one digit before the point. -/
theorem scientific_spelling (hb : b ≠ '0'.toUInt8)
    (hdigits : ∀ c ∈ b :: digits, Ascii.isDigit c = true) (y : Int) :
    ∃ s : Spelling, scientific (b :: digits) y = s.text ∧ s.exponent = some y ∧
      (s.digits : ℚ) * 10 ^ s.scale =
        value (b :: digits) * 10 ^ (y + 1 - ((b :: digits).length : Int)) := by
  have hwhole : ofNat (value [b]) = [b] := ofNat_value hb fun c hc => by
    rw [List.mem_singleton.mp hc]
    exact hdigits b (List.mem_cons_self ..)
  refine ⟨⟨value [b], digits, fun c hc => hdigits c (List.mem_cons_of_mem _ hc), some y⟩, ?_, rfl, ?_⟩
  · unfold scientific Spelling.text Spelling.rest Spelling.exponentText
    simp only [hwhole, List.append_assoc]
    rfl
  · unfold Spelling.digits Spelling.scale
    simp only [hwhole]
    rw [List.singleton_append]
    congr 2
    simp only [Option.getD_some, List.length_cons]
    omega

end

/-- Seventeen digits without the zeros at their end. -/
theorem dropTrailingZeros_ofNat {d : Nat} (hlow : 10 ^ 16 ≤ d) (hhigh : d < 10 ^ 17) :
    ∃ b digits k, dropTrailingZeros (ofNat d) = b :: digits ∧ b ≠ '0'.toUInt8 ∧
      (∀ c ∈ b :: digits, Ascii.isDigit c = true) ∧ (b :: digits).length + k = 17 ∧
      d = value (b :: digits) * 10 ^ k := by
  obtain ⟨k, hsplit⟩ := eq_dropTrailingZeros_append (ofNat d)
  have hvalue : d = value (dropTrailingZeros (ofNat d)) * 10 ^ k := by
    have := congrArg value hsplit
    rwa [value_append, value_zeros, value_ofNat, List.length_replicate, Nat.add_zero] at this
  obtain ⟨first, text, hcons, -, hzero⟩ := ofNat_eq_cons d
  cases htrimmed : dropTrailingZeros (ofNat d) with
  | nil =>
    -- only zeros would be dropped completely
    rw [htrimmed] at hvalue
    have hnone : value [] = 0 := rfl
    rw [hnone, Nat.zero_mul] at hvalue
    omega
  | cons b digits =>
    rw [htrimmed] at hsplit hvalue
    have hfirst : first = b := by
      rw [hcons] at hsplit
      exact (List.cons.inj hsplit).1
    refine ⟨b, digits, k, rfl, fun hb => ?_, fun c hc => ?_, ?_, hvalue⟩
    · have := (hzero (hfirst.trans hb)).1
      omega
    · exact isDigit_of_mem_ofNat d c (hsplit ▸ List.mem_append_left _ hc)
    · obtain ⟨-, hless, hmost⟩ := length_bounds d
      have hlow' := (Nat.pow_lt_pow_iff_right (by decide)).mp (Nat.lt_of_le_of_lt hlow hless)
      have hhigh' := (Nat.pow_lt_pow_iff_right (by decide)).mp
        (Nat.lt_of_le_of_lt (hmost (by omega)) hhigh)
      have hlength := congrArg List.length hsplit
      rw [List.length_append, List.length_replicate, ← length_eq] at hlength
      omega

/-- **What is written for a quotient** is off by less than one part in `2 ^ 54`, and by a half at most if
it is an integer. -/
theorem general_spelling {num den : Nat} (hnum : 0 < num) (hden : 0 < den) :
    ∃ s : Spelling, general 17 num den = s.text ∧
      2 ^ 54 * |(num / den : ℚ) - s.digits * 10 ^ s.scale| < num / den ∧
      (s.IsWhole → s.whole ≤ 10 ^ 17 ∧ |(num / den : ℚ) - s.whole| ≤ 1 / 2) := by
  have hten : (10 : ℚ) ≠ 0 := by norm_num
  rcases hleading : leading 17 num den with ⟨d, y⟩
  obtain ⟨hlow, hhigh, x, hxy, hx, hnear⟩ := leading_near (p := 16) hnum hden hleading
  obtain ⟨b, digits, k, htrimmed, hb, hdigits, hlength, hvalue⟩ := dropTrailingZeros_ofNat hlow hhigh
  -- without its trailing zeros the number is the same
  have hsize : (value (b :: digits) : ℚ) * 10 ^ (y + 1 - ((b :: digits).length : Int)) =
      d * 10 ^ (y - 16) := by
    have hsum : y + 1 - ((b :: digits).length : Int) = k + (y - 16) := by omega
    rw [hsum, zpow_add₀ hten, zpow_natCast, ← mul_assoc, hvalue]
    push_cast
    rfl
  -- half a unit of the seventeenth digit is less than one part in `2 ^ 54`
  have hclose : 2 ^ 54 * |(num / den : ℚ) - d * 10 ^ (y - 16)| < num / den := by
    have hsum : x = x - 16 + 16 := by omega
    have hpower : (10 : ℚ) ^ x = 10 ^ (x - 16) * 10 ^ 16 := by
      conv_lhs => rw [hsum, zpow_add₀ hten]
      rfl
    have hunit : (0 : ℚ) < 10 ^ (x - 16) := zpow_pos (by norm_num) _
    calc 2 ^ 54 * |(num / den : ℚ) - d * 10 ^ (y - 16)| ≤ 2 ^ 54 * (10 ^ (x - 16) / 2) :=
        mul_le_mul_of_nonneg_left hnear (by positivity)
      _ < 10 ^ x := by rw [hpower]; linarith
      _ ≤ num / den := hx
  unfold general
  simp only [hleading, htrimmed]
  split
  · next hrange =>
    obtain ⟨s, htext, -, hspelled⟩ := positional_spelling hb hdigits y
    refine ⟨s, htext, by rwa [hspelled, hsize], fun hwhole => ?_⟩
    obtain ⟨hwholedigits, hscale⟩ := Spelling.digits_of_isWhole hwhole
    rw [hwholedigits, hscale, zpow_zero, mul_one, hsize] at hspelled
    have hyle : y ≤ 16 := by omega
    have hxle : x ≤ 16 := by omega
    constructor
    · have hpower : (10 : ℚ) ^ (y - 16) ≤ 1 := zpow_le_one_of_nonpos₀ (by norm_num) (by omega)
      have hdle : (d : ℚ) ≤ 10 ^ 17 := by exact_mod_cast Nat.le_of_lt hhigh
      have : (s.whole : ℚ) ≤ 10 ^ 17 := by
        calc (s.whole : ℚ) = d * 10 ^ (y - 16) := hspelled
          _ ≤ d * 1 := mul_le_mul_of_nonneg_left hpower (Nat.cast_nonneg d)
          _ ≤ 10 ^ 17 := by rw [mul_one]; exact hdle
      exact_mod_cast this
    · have hpower : (10 : ℚ) ^ (x - 16) ≤ 1 := zpow_le_one_of_nonpos₀ (by norm_num) (by omega)
      rw [hspelled]
      have hnear : |(num / den : ℚ) - d * 10 ^ (y - 16)| ≤ 10 ^ (x - 16) / 2 := hnear
      linarith
  · obtain ⟨s, htext, hexponent, hspelled⟩ := scientific_spelling hb hdigits y
    refine ⟨s, htext, by rwa [hspelled, hsize], fun hwhole => ?_⟩
    rw [hwhole.2] at hexponent
    cases hexponent

end AccessControl.Decimal
