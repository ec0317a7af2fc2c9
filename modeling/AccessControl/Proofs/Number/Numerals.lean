import AccessControl.Proofs.Number.Integers
import AccessControl.Proofs.Pieces
import Mathlib.Data.List.Induction
import Mathlib.Data.List.TakeWhile
import Mathlib.Data.Nat.Digits.Defs

/-!
# Numerals of integers

An integer in a document is an optional sign, digits of base sixteen behind `0x`, of base eight behind a
zero or of base ten (`Scalar.Numeral`), and blanks.  What is read as an integer of 64 bits is what spells
it so (`Scalar.int?_eq_some_iff`): the digits that are read are as many as there are, and no text spells two
integers.
-/

namespace AccessControl

namespace Bytes

/-- The number that digits are in a base. -/
def inBase (base : Nat) (digits : Bytes) : Nat :=
  Nat.ofDigits base (digits.reverse.map fun b => (Ascii.hexValue? b).getD 0)

theorem inBase_concat (base : Nat) (digits : Bytes) (b : UInt8) :
    inBase base (digits ++ [b]) = base * inBase base digits + (Ascii.hexValue? b).getD 0 := by
  rw [inBase, List.reverse_append, List.reverse_singleton, List.singleton_append, List.map_cons,
    Nat.ofDigits_cons, Nat.add_comm]
  rfl

/-- Digits that are read one after the other. -/
theorem foldl_eq_inBase {f : Nat → UInt8 → Nat} {base : Nat} {digits : Bytes}
    (h : ∀ n, ∀ b ∈ digits, f n b = base * n + (Ascii.hexValue? b).getD 0) :
    digits.foldl f 0 = inBase base digits := by
  induction digits using List.reverseRecOn with
  | nil => rfl
  | append_singleton digits b ih =>
    rw [List.foldl_append, List.foldl_cons, List.foldl_nil, h _ b (by simp), inBase_concat,
      ih fun n c hc => h n c (List.mem_append_left _ hc)]

/-- The value of decimal digits. -/
theorem value_eq_inBase {digits : Bytes} (h : ∀ b ∈ digits, Ascii.isDigit b = true) :
    Decimal.value digits = inBase 10 digits := by
  refine foldl_eq_inBase fun n b hb => ?_
  rw [Ascii.hexValue?, if_pos (h b hb)]
  rfl

end Bytes

namespace Scalar

open Bytes

/-- Whether a byte is a digit of a base. -/
def isDigitOf (base : Nat) (b : UInt8) : Bool := (Ascii.hexValue? b).any (· < base)

/-- A text that is a natural number in one of the bases. -/
inductive Numeral : Bytes → Nat → Prop where
  | sixteen {x : UInt8} {digits : Bytes} (hx : x = 'x'.toUInt8 ∨ x = 'X'.toUInt8) (hne : digits ≠ [])
      (hdigits : ∀ b ∈ digits, isDigitOf 16 b = true) : Numeral ('0'.toUInt8 :: x :: digits) (inBase 16 digits)
  | eight {digits : Bytes} (hdigits : ∀ b ∈ digits, isDigitOf 8 b = true) :
      Numeral ('0'.toUInt8 :: digits) (inBase 8 digits)
  | ten {b : UInt8} {digits : Bytes} (hb : b ≠ '0'.toUInt8)
      (hdigits : ∀ c ∈ b :: digits, isDigitOf 10 c = true) :
      Numeral (b :: digits) (inBase 10 (b :: digits))

/-- A sign in front of a number, and whether it is a minus. -/
inductive Sign : Bytes → Bool → Prop where
  | absent : Sign [] false
  | plus : Sign ['+'.toUInt8] false
  | minus : Sign ['-'.toUInt8] true

/-- A text that is an integer. -/
inductive Spells : Bytes → Int → Prop where
  | intro {sign digits blanks : Bytes} {negative : Bool} {n : Nat} (hsign : Sign sign negative)
      (hdigits : Numeral digits n) (hblanks : ∀ b ∈ blanks, Ascii.isSpace b = true) :
      Spells (sign ++ (digits ++ blanks)) (Binary64.signed negative n)

/-! ## Digits -/

theorem digits_eq (base : Nat) (text : Bytes) :
    digits base text = (text.takeWhile (isDigitOf base), inBase base (text.takeWhile (isDigitOf base)),
      text.dropWhile (isDigitOf base)) :=
  congrArg (fun n => (_, n, _)) (foldl_eq_inBase fun _ _ _ => rfl)

/-- The digits at the front of a text. -/
theorem digits_spec (base : Nat) (text : Bytes) :
    ∃ front rest, digits base text = (front, inBase base front, rest) ∧ text = front ++ rest ∧
      ∀ b ∈ front, isDigitOf base b = true :=
  ⟨_, _, digits_eq base text, List.takeWhile_append_dropWhile.symm, fun _ hb => List.mem_takeWhile_imp hb⟩

/-- No blank is a digit. -/
theorem hexValue?_of_isSpace (b : UInt8) : Ascii.isSpace b = true → Ascii.hexValue? b = none :=
  forall_byte (p := fun b => Ascii.isSpace b = true → Ascii.hexValue? b = none) (by decide +kernel) b

/-- Digits in front of blanks. -/
theorem digits_append_blanks {base : Nat} {front blanks : Bytes}
    (hfront : ∀ b ∈ front, isDigitOf base b = true) (hblanks : ∀ b ∈ blanks, Ascii.isSpace b = true) :
    digits base (front ++ blanks) = (front, inBase base front, blanks) := by
  obtain ⟨htake, hdrop⟩ := span_of_head? hfront fun b hb => show isDigitOf base b = false by
    rw [isDigitOf, hexValue?_of_isSpace b (hblanks b (List.mem_of_mem_head? hb))]
    rfl
  rw [digits_eq, htake, hdrop]

/-! ## Numerals -/

/-- The size at the front of a text is that of a numeral. -/
theorem numeral_of_size? {text rest : Bytes} {n : Nat} (h : size? text = some (n, rest)) :
    ∃ front, text = front ++ rest ∧ Numeral front n := by
  unfold size? at h
  split at h
  · cases h
  · next b text =>
    split at h
    · next hzero =>
      obtain rfl : b = '0'.toUInt8 := eq_of_beq hzero
      split at h
      · next c more =>
        split at h
        · next hx =>
          have hx : c = 'x'.toUInt8 ∨ c = 'X'.toUInt8 := by simpa using hx
          obtain ⟨front, rest', hdigits, rfl, hall⟩ := digits_spec 16 more
          simp only [hdigits] at h
          split at h
          · cases h
          · next hne =>
            cases h
            exact ⟨'0'.toUInt8 :: c :: front, rfl, .sixteen hx (by simpa using hne) hall⟩
        · obtain ⟨front, rest', hdigits, hsplit, hall⟩ := digits_spec 8 (c :: more)
          rw [hdigits] at h
          cases h
          exact ⟨'0'.toUInt8 :: front, congrArg _ hsplit, .eight hall⟩
      · cases h
        have hnone : ∀ b ∈ [], isDigitOf 8 b = true := nofun
        exact ⟨['0'.toUInt8], rfl, .eight hnone⟩
    · next hzero =>
      obtain ⟨front, rest', hdigits, hsplit, hall⟩ := digits_spec 10 (b :: text)
      simp only [hdigits] at h
      split at h
      · cases h
      · next hne =>
        cases h
        obtain ⟨c, front, rfl⟩ := List.exists_cons_of_ne_nil (show front ≠ [] by simpa using hne)
        obtain ⟨rfl, -⟩ := List.cons.inj hsplit
        exact ⟨b :: front, hsplit, .ten (by simpa using hzero) hall⟩

/-- A zero that no `x` follows stands before digits of base eight. -/
theorem size?_zero {text : Bytes} (h : ∀ b ∈ text.head?, b ≠ 'x'.toUInt8 ∧ b ≠ 'X'.toUInt8) :
    size? ('0'.toUInt8 :: text) = some (digits 8 text).2 := by
  cases text with
  | nil => rfl
  | cons b text =>
    obtain ⟨hsmall, hcapital⟩ := h b rfl
    have hx : (b == 'x'.toUInt8 || b == 'X'.toUInt8) = false := by simp [hsmall, hcapital]
    simp only [size?, beq_self_eq_true, if_true, hx, Bool.false_eq_true, if_false]

/-- No digit of base eight and no blank is an `x`. -/
theorem ne_x_of_isDigitOf (b : UInt8) : isDigitOf 8 b = true ∨ Ascii.isSpace b = true →
    b ≠ 'x'.toUInt8 ∧ b ≠ 'X'.toUInt8 := by
  intro h
  constructor
  · rintro rfl
    exact absurd h (by decide)
  · rintro rfl
    exact absurd h (by decide)

/-- A numeral in front of blanks is read as it stands. -/
theorem size?_of_numeral {front blanks : Bytes} {n : Nat} (h : Numeral front n)
    (hblanks : ∀ b ∈ blanks, Ascii.isSpace b = true) : size? (front ++ blanks) = some (n, blanks) := by
  cases h with
  | @sixteen x digits hx hne hdigits =>
    have hx : (x == 'x'.toUInt8 || x == 'X'.toUInt8) = true := by simpa using hx
    have hne : digits.isEmpty = false := by simpa using hne
    simp only [List.cons_append, size?, beq_self_eq_true, if_true, hx, digits_append_blanks hdigits hblanks,
      hne, Bool.false_eq_true, if_false]
  | @eight digits hdigits =>
    have hx : ∀ b ∈ (digits ++ blanks).head?, b ≠ 'x'.toUInt8 ∧ b ≠ 'X'.toUInt8 := by
      intro b hb
      exact ne_x_of_isDigitOf b ((List.mem_append.mp (List.mem_of_mem_head? hb)).imp (hdigits b) (hblanks b))
    rw [List.cons_append, size?_zero hx, digits_append_blanks hdigits hblanks]
  | @ten b digits hb hdigits =>
    have hzero : (b == '0'.toUInt8) = false := by simpa using hb
    have hread := digits_append_blanks hdigits hblanks
    simp only [List.cons_append] at hread ⊢
    simp only [size?, hzero, Bool.false_eq_true, if_false, hread, List.isEmpty_cons]

/-! ## Signs -/

/-- The sign at the front of a text. -/
theorem sign_spec (text : Bytes) : ∃ sign negative rest, Decimal.sign text = (negative, rest) ∧
    text = sign ++ rest ∧ Sign sign negative := by
  cases text with
  | nil => exact ⟨[], false, [], rfl, rfl, .absent⟩
  | cons b rest =>
    by_cases hminus : b = '-'.toUInt8
    · exact ⟨['-'.toUInt8], true, rest, by rw [hminus]; rfl, by rw [hminus]; rfl, .minus⟩
    · by_cases hplus : b = '+'.toUInt8
      · exact ⟨['+'.toUInt8], false, rest, by rw [hplus]; rfl, by rw [hplus]; rfl, .plus⟩
      · refine ⟨[], false, b :: rest, ?_, rfl, .absent⟩
        rw [Decimal.sign, if_neg (by simpa using hminus), if_neg (by simpa using hplus)]

/-- A sign in front of a digit is read. -/
theorem Sign.read {sign : Bytes} {negative : Bool} (h : Sign sign negative) {b : UInt8}
    (hb : Ascii.isDigit b = true) (rest : Bytes) :
    Decimal.sign (sign ++ b :: rest) = (negative, b :: rest) := by
  cases h with
  | absent =>
    have hminus : b ≠ '-'.toUInt8 := by
      rintro rfl
      exact absurd hb (by decide)
    have hplus : b ≠ '+'.toUInt8 := by
      rintro rfl
      exact absurd hb (by decide)
    rw [List.nil_append, Decimal.sign, if_neg (by simpa using hminus), if_neg (by simpa using hplus)]
  | plus => rfl
  | minus => rfl

/-- Neither a sign nor the digit behind it is a blank. -/
theorem Sign.no_space {sign : Bytes} {negative : Bool} (h : Sign sign negative) {b : UInt8}
    (hb : Ascii.isDigit b = true) (rest : Bytes) :
    ∀ c ∈ (sign ++ b :: rest).head?, Ascii.isSpace c = false := by
  have hdigit (b : UInt8) : Ascii.isDigit b = true → Ascii.isSpace b = false :=
    forall_byte (p := fun b => Ascii.isDigit b = true → Ascii.isSpace b = false) (by decide +kernel) b
  rintro c hc
  cases h with
  | absent =>
    obtain rfl : b = c := Option.some.inj hc
    exact hdigit b hb
  | plus =>
    obtain rfl : '+'.toUInt8 = c := Option.some.inj hc
    rfl
  | minus =>
    obtain rfl : '-'.toUInt8 = c := Option.some.inj hc
    rfl

/-- A numeral begins with a decimal digit. -/
theorem Numeral.eq_cons {front : Bytes} {n : Nat} (h : Numeral front n) :
    ∃ b rest, front = b :: rest ∧ Ascii.isDigit b = true := by
  have hdecimal (b : UInt8) : isDigitOf 10 b = true → Ascii.isDigit b = true :=
    forall_byte (p := fun b => isDigitOf 10 b = true → Ascii.isDigit b = true) (by decide +kernel) b
  cases h with
  | sixteen => exact ⟨_, _, rfl, by decide⟩
  | eight => exact ⟨_, _, rfl, by decide⟩
  | ten _ hdigits => exact ⟨_, _, rfl, hdecimal _ (hdigits _ (List.mem_cons_self ..))⟩

/-! ## Integers -/

/-- An integer is read if all that follows its size are blanks and if it has 64 bits. -/
theorem int?_iff_size? {text rest : Bytes} {negative : Bool} (hsign : Decimal.sign text = (negative, rest))
    {i : Int64} : int? text = some i ↔ ∃ n blanks, size? rest = some (n, blanks) ∧
      (∀ b ∈ blanks, Ascii.isSpace b = true) ∧ Binary64.signed negative n = i.toInt := by
  have hrange (j : Int) (hlow : -2 ^ 63 ≤ j) (hhigh : j < 2 ^ 63) : Int64.ofInt j = i ↔ j = i.toInt := by
    rw [← Int64.toInt_inj, Int64.toInt_ofInt_of_le hlow hhigh]
  unfold int?
  simp only [hsign, Option.bind_eq_bind, Option.bind_eq_some_iff, Prod.exists, isBlank]
  refine exists_congr fun n => exists_congr fun blanks => and_congr_right fun _ => ?_
  constructor
  · intro h
    split at h
    · next hall =>
      obtain ⟨hblanks, hbounds⟩ := Bool.and_eq_true_iff.mp hall
      obtain ⟨hlow, hhigh⟩ := of_decide_eq_true hbounds
      exact ⟨List.all_eq_true.mp hblanks, (hrange _ hlow hhigh).mp (Option.some.inj h)⟩
    · cases h
  · rintro ⟨hblanks, hi⟩
    have hlow : -2 ^ 63 ≤ i.toInt := i.le_toInt
    have hhigh : i.toInt < 2 ^ 63 := i.toInt_lt
    rw [List.all_eq_true.mpr hblanks, hi, if_pos (by simpa using ⟨hlow, hhigh⟩), Int64.ofInt_toInt]

/-- **What spells an integer of 64 bits is read as it**, and nothing else is. -/
theorem int?_eq_some_iff {text : Bytes} {i : Int64} : int? text = some i ↔ Spells text i.toInt := by
  constructor
  · intro h
    obtain ⟨sign, negative, rest, hread, rfl, hsign⟩ := sign_spec text
    obtain ⟨n, blanks, hsize, hblanks, hi⟩ := (int?_iff_size? hread).mp h
    obtain ⟨front, rfl, hfront⟩ := numeral_of_size? hsize
    rw [← hi]
    exact .intro hsign hfront hblanks
  · intro h
    generalize hj : i.toInt = j at h
    cases h with
    | @intro sign front blanks negative n hsign hfront hblanks =>
      have hread : Decimal.sign (sign ++ (front ++ blanks)) = (negative, front ++ blanks) := by
        obtain ⟨b, rest, rfl, hb⟩ := hfront.eq_cons
        exact hsign.read hb (rest ++ blanks)
      exact (int?_iff_size? hread).mpr ⟨n, blanks, size?_of_numeral hfront hblanks, hblanks, hj.symm⟩

end Scalar

end AccessControl
