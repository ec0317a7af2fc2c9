import AccessControl.Document.Scalar

/-!
# Integers in documents

The decimal text of an integer of 64 bits, as a plain scalar, stands for that integer
(`Scalar.value_ofInt`): it has no leading zero, which would make it one of base eight, and it is none of
the words for null.
-/

namespace AccessControl

namespace Bytes

theorem toUInt8_digitChar : ∀ d < 10, d.digitChar.toUInt8 = UInt8.ofNat (48 + d) := by decide

theorem ofNat_of_lt {n : Nat} (h : n < 10) : ofNat n = [UInt8.ofNat (48 + n)] := by
  rw [ofNat, Nat.toDigits_of_lt_base h, List.map_cons, List.map_nil, toUInt8_digitChar n h]

theorem ofNat_of_le {n : Nat} (h : 10 ≤ n) :
    ofNat n = ofNat (n / 10) ++ [UInt8.ofNat (48 + n % 10)] := by
  have hdigit := toUInt8_digitChar (n % 10) (Nat.mod_lt n (by decide))
  rw [ofNat, Nat.toDigits_of_base_le (by decide) h, List.map_append, List.map_cons, List.map_nil,
    hdigit, ofNat]

/-- What holds of the digits and is kept by a further digit holds of the text of every number. -/
theorem ofNat_induction {motive : Nat → Bytes → Prop}
    (digit : ∀ d < 10, motive d [UInt8.ofNat (48 + d)])
    (further : ∀ n d text, 0 < n → d < 10 → motive n text →
      motive (10 * n + d) (text ++ [UInt8.ofNat (48 + d)])) (n : Nat) : motive n (ofNat n) := by
  induction n using Nat.strongRecOn with
  | _ n ih =>
    by_cases h : n < 10
    · rw [ofNat_of_lt h]
      exact digit n h
    · have h : 10 ≤ n := Nat.le_of_not_lt h
      have hfurther := further (n / 10) (n % 10) _ (by omega) (by omega) (ih (n / 10) (by omega))
      rw [ofNat_of_le h]
      rwa [Nat.div_add_mod] at hfurther

theorem isDigit_digit : ∀ d < 10, Ascii.isDigit (UInt8.ofNat (48 + d)) = true := by decide

theorem hexValue?_digit : ∀ d < 10, Ascii.hexValue? (UInt8.ofNat (48 + d)) = some d := by decide

theorem isDigit_of_mem_ofNat (n : Nat) : ∀ b ∈ ofNat n, Ascii.isDigit b = true := by
  refine ofNat_induction (motive := fun _ text => ∀ b ∈ text, Ascii.isDigit b = true) ?_ ?_ n
  · intro d hd b hb
    rw [List.mem_singleton.mp hb]
    exact isDigit_digit d hd
  · intro n d text _ hd ih b hb
    rcases List.mem_append.mp hb with hb | hb
    · exact ih b hb
    · rw [List.mem_singleton.mp hb]
      exact isDigit_digit d hd

theorem foldl_ofNat (n : Nat) :
    (ofNat n).foldl (fun v b => 10 * v + (Ascii.hexValue? b).getD 0) 0 = n := by
  refine ofNat_induction
    (motive := fun n text => text.foldl (fun v b => 10 * v + (Ascii.hexValue? b).getD 0) 0 = n) ?_ ?_ n
  · intro d hd
    rw [List.foldl_cons, hexValue?_digit d hd]
    exact Nat.zero_add d
  · intro n d text _ hd ih
    rw [List.foldl_append, ih, List.foldl_cons, hexValue?_digit d hd]
    rfl

/-- The text of a number begins with a digit, and with a zero only if the number is zero. -/
theorem ofNat_eq_cons (n : Nat) :
    ∃ b text, ofNat n = b :: text ∧ Ascii.isDigit b = true ∧ (b = '0'.toUInt8 → n = 0 ∧ text = []) := by
  refine ofNat_induction (motive := fun n t => ∃ b text, t = b :: text ∧ Ascii.isDigit b = true ∧
    (b = '0'.toUInt8 → n = 0 ∧ text = [])) ?_ ?_ n
  · intro d hd
    refine ⟨_, [], rfl, isDigit_digit d hd, fun h => ⟨?_, rfl⟩⟩
    have zero_of_digit : ∀ d < 10, UInt8.ofNat (48 + d) = '0'.toUInt8 → d = 0 := by decide
    exact zero_of_digit d hd h
  · rintro n d _ hn hd ⟨b, text, rfl, hb, hzero⟩
    refine ⟨b, text ++ [UInt8.ofNat (48 + d)], rfl, hb, fun h => ?_⟩
    have := (hzero h).1
    omega

end Bytes

namespace Scalar

open Bytes

theorem hexValue?_of_isDigit : ∀ b : UInt8, Ascii.isDigit b = true →
    (Ascii.hexValue? b).any (· < 10) = true := by
  intro b hb
  rw [Ascii.hexValue?, if_pos hb]
  simp only [Ascii.isDigit, Bool.and_eq_true, decide_eq_true_eq, UInt8.le_iff_toNat_le] at hb
  have hzero : '0'.toUInt8.toNat = 48 := by decide
  have hnine : '9'.toUInt8.toNat = 57 := by decide
  rw [hzero, hnine] at hb
  simp only [Option.any_some, decide_eq_true_eq]
  rw [UInt8.toNat_sub_of_le _ _ (UInt8.le_iff_toNat_le.mpr (by omega)), hzero]
  omega

/-- What may follow the digits of a number: a point, an exponent or nothing. -/
def MayFollow (rest : Bytes) : Prop := ∀ b ∈ rest.head?, b = '.'.toUInt8 ∨ b = 'e'.toUInt8

theorem mayFollow_nil : MayFollow [] := fun _ hb => by cases hb

theorem span_of_head? {p : UInt8 → Bool} {front rest : Bytes} (hfront : ∀ b ∈ front, p b = true)
    (hrest : ∀ b ∈ rest.head?, p b = false) :
    (front ++ rest).takeWhile p = front ∧ (front ++ rest).dropWhile p = rest := by
  rw [List.takeWhile_append_of_pos hfront, List.dropWhile_append_of_pos hfront]
  cases rest with
  | nil => exact ⟨List.append_nil _, rfl⟩
  | cons b rest =>
    have hb : ¬ p b = true := by simp [hrest b rfl]
    rw [List.takeWhile_cons_of_neg hb, List.dropWhile_cons_of_neg hb]
    exact ⟨List.append_nil _, rfl⟩

/-- The digits of a number are all that is read. -/
theorem digits_ofNat (n : Nat) {rest : Bytes} (h : MayFollow rest) :
    digits 10 (ofNat n ++ rest) = (ofNat n, n, rest) := by
  have hrest : ∀ b ∈ rest.head?, (Ascii.hexValue? b).any (· < 10) = false := by
    intro b hb
    rcases h b hb with rfl | rfl <;> decide
  obtain ⟨htake, hdrop⟩ := span_of_head? (p := fun b => (Ascii.hexValue? b).any (· < 10))
    (fun b hb => hexValue?_of_isDigit b (isDigit_of_mem_ofNat n b hb)) hrest
  unfold digits
  simp only
  rw [htake, hdrop, foldl_ofNat]

theorem size?_ofNat (n : Nat) {rest : Bytes} (h : MayFollow rest) :
    size? (ofNat n ++ rest) = some (n, rest) := by
  obtain ⟨b, text, hcons, -, hzero⟩ := ofNat_eq_cons n
  have hdigits := digits_ofNat n h
  rw [hcons] at hdigits ⊢
  rw [List.cons_append] at hdigits ⊢
  unfold size?
  simp only
  by_cases hb : b = '0'.toUInt8
  · obtain ⟨rfl, rfl⟩ := hzero hb
    rw [if_pos (beq_iff_eq.mpr hb)]
    -- a zero stands alone, and what follows it has no digit of base eight
    cases rest with
    | nil => rfl
    | cons c rest => rcases h c rfl with rfl | rfl <;> rfl
  · rw [if_neg (by simpa using hb), hdigits]
    rfl

/-- A number has no sign of its own. -/
theorem sign_ofNat (n : Nat) (negative : Bool) (rest : Bytes) :
    Decimal.sign (if negative then '-'.toUInt8 :: (ofNat n ++ rest) else ofNat n ++ rest) =
      (negative, ofNat n ++ rest) := by
  obtain ⟨b, text, hcons, hb, -⟩ := ofNat_eq_cons n
  cases negative with
  | true => rfl
  | false =>
    have hminus : ¬ (b == '-'.toUInt8) = true := by
      intro h
      rw [eq_of_beq h] at hb
      exact absurd hb (by decide)
    have hplus : ¬ (b == '+'.toUInt8) = true := by
      intro h
      rw [eq_of_beq h] at hb
      exact absurd hb (by decide)
    rw [if_neg Bool.false_ne_true, hcons, List.cons_append, Decimal.sign, if_neg hminus,
      if_neg hplus]

/-- An integer of 64 bits is read, unless something follows it. -/
theorem int?_ofNat (negative : Bool) {n : Nat} {i : Int64}
    (h : Binary64.signed negative n = i.toInt) :
    int? (if negative then '-'.toUInt8 :: ofNat n else ofNat n) = some i := by
  have hrange : -2 ^ 63 ≤ i.toInt ∧ i.toInt < 2 ^ 63 := ⟨i.le_toInt, i.toInt_lt⟩
  have hblank : isBlank [] = true := rfl
  have hsign := sign_ofNat n negative []
  have hsize := size?_ofNat n mayFollow_nil
  rw [List.append_nil] at hsign hsize
  unfold int?
  simp only [hsign, hsize, Option.bind_eq_bind, Option.bind_some, h, hblank, hrange, and_self,
    decide_true, Bool.and_self, if_true, Int64.ofInt_toInt]

theorem int?_of_follow (negative : Bool) (n : Nat) {rest : Bytes} (h : MayFollow rest)
    (hne : rest ≠ []) :
    int? (if negative then '-'.toUInt8 :: (ofNat n ++ rest) else ofNat n ++ rest) = none := by
  have hblank : isBlank rest = false := by
    cases rest with
    | nil => exact absurd rfl hne
    | cons b rest => rcases h b rfl with rfl | rfl <;> rfl
  unfold int?
  simp only [sign_ofNat, size?_ofNat n h, Option.bind_eq_bind, Option.bind_some, hblank,
    Bool.false_and, Bool.false_eq_true, if_false]

theorem isNull_cons {b : UInt8} (hb : Ascii.isDigit b = true ∨ b = '-'.toUInt8) (text : Bytes) :
    isNull (b :: text) = false := by
  have htilde : b ≠ 126 := by
    rintro rfl
    exact absurd hb (by decide)
  have hsmall : b ≠ 110 := by
    rintro rfl
    exact absurd hb (by decide)
  have hcapital : b ≠ 78 := by
    rintro rfl
    exact absurd hb (by decide)
  have hwords : ["~", "null", "Null", "NULL"].map utf8 =
      [[126], [110, 117, 108, 108], [78, 117, 108, 108], [78, 85, 76, 76]] := by decide
  have hany : (["~", "null", "Null", "NULL"].any fun s => utf8 s == b :: text) =
      (["~", "null", "Null", "NULL"].map utf8).any fun s => s == b :: text := by
    rw [List.any_map]
    rfl
  rw [isNull, hany, hwords]
  simp [htilde.symm, hsmall.symm, hcapital.symm]

/-- No number is a word for null. -/
theorem isNull_ofNat (n : Nat) (negative : Bool) (rest : Bytes) :
    isNull (if negative then '-'.toUInt8 :: (ofNat n ++ rest) else ofNat n ++ rest) = false := by
  obtain ⟨b, text, hcons, hb, -⟩ := ofNat_eq_cons n
  cases negative with
  | true => exact isNull_cons (.inr rfl) _
  | false =>
    rw [if_neg Bool.false_ne_true, hcons]
    exact isNull_cons (.inl hb) _

theorem value_of_int? {text : Bytes} {i : Int64} (hnull : isNull text = false)
    (h : int? text = some i) : value text = .int i := by
  rw [value, hnull, h]
  rfl

/-- **An integer is read as it was written.** -/
theorem value_ofInt (i : Int64) : value (ofInt i.toInt) = .int i := by
  cases hi : i.toInt with
  | ofNat n =>
    have hnull := isNull_ofNat n false []
    rw [List.append_nil] at hnull
    exact value_of_int? hnull (int?_ofNat false hi.symm)
  | negSucc n =>
    have hnull := isNull_ofNat (n + 1) true []
    rw [List.append_nil] at hnull
    exact value_of_int? hnull (int?_ofNat true (n := n + 1) hi.symm)

end Scalar

end AccessControl
