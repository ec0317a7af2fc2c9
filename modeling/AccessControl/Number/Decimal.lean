import AccessControl.Number.Binary64
import AccessControl.Text.Ascii

/-!
# Decimal text of floating point numbers

`Binary64.general p` writes a number with at most `p` significant digits: positional from 0.0001 up
to `p` digits before the point, with an exponent of at least two digits otherwise, and without
trailing zeros.  `Decimal.read?` reads a decimal number, as digits with an optional point and an
optional exponent, to the nearest `Binary64`.  Seventeen digits identify a number.
-/

namespace AccessControl

open Powers

namespace Decimal

/-- The number of decimal digits of `n`, one for zero. -/
def length (n : Nat) : Nat := (Nat.toDigits 10 n).length

/-- The exponent of the greatest power of ten that is at most `num / den`, for a positive
quotient. -/
def exponent (num den : Nat) : Int :=
  if den ≤ num then (length (num / den) : Int) - 1
  else -(length ((den + num - 1) / num - 1) : Int)

/-- The first `precision` digits of `num / den`, rounded to nearest, and the exponent of the first
of them. -/
def leading (precision num den : Nat) : Nat × Int :=
  let x := exponent num den
  let shift : Int := precision - 1 - x
  let d := if 0 ≤ shift then roundedQuotient (num * 10 ^ shift.toNat) den
    else roundedQuotient num (den * 10 ^ (-shift).toNat)
  if d = 10 ^ precision then (10 ^ (precision - 1), x + 1) else (d, x)

/-- The text without the zeros at its end. -/
def dropTrailingZeros (digits : Bytes) : Bytes :=
  (digits.reverse.dropWhile (· == '0'.toUInt8)).reverse

/-- A point and the digits behind it, nothing if there are none. -/
def fraction (digits : Bytes) : Bytes := if digits.isEmpty then [] else '.'.toUInt8 :: digits

/-- The digits, the first of them at the place of `10 ^ exponent`, in positional notation. -/
def positional (digits : Bytes) (exponent : Int) : Bytes :=
  if 0 ≤ exponent then
    let places := exponent.toNat + 1
    digits.take places ++ List.replicate (places - digits.length) '0'.toUInt8 ++
      fraction (digits.drop places)
  else utf8 "0." ++ List.replicate ((-exponent).toNat - 1) '0'.toUInt8 ++ digits

/-- The digits, the first of them before the point, with an exponent of two digits or more. -/
def scientific (digits : Bytes) (exponent : Int) : Bytes :=
  let size := Bytes.ofNat exponent.natAbs
  digits.take 1 ++ fraction (digits.drop 1) ++ utf8 (if exponent < 0 then "e-" else "e+") ++
    List.replicate (2 - size.length) '0'.toUInt8 ++ size

/-- The text of the positive quotient `num / den` with at most `precision` significant digits. -/
def general (precision num den : Nat) : Bytes :=
  let (d, x) := leading precision num den
  let digits := dropTrailingZeros (Bytes.ofNat d)
  if -4 ≤ x ∧ x < precision then positional digits x else scientific digits x

/-- The value of a run of decimal digits. -/
def value (digits : Bytes) : Nat :=
  digits.foldl (fun n b => 10 * n + (b - '0'.toUInt8).toNat) 0

end Decimal

namespace Binary64

/-- The text with at most `precision` significant digits. -/
def general (precision : Nat) : Binary64 → Bytes
  | .nan => utf8 "nan"
  | .infinity negative => utf8 (if negative then "-inf" else "inf")
  | .finite negative m e _ =>
    let size := if m = 0 then utf8 "0"
      else if 0 ≤ e then Decimal.general precision (m * 2 ^ e.toNat) 1
      else Decimal.general precision m (2 ^ (-e).toNat)
    if negative then '-'.toUInt8 :: size else size

/-- The number nearest to `digits * 10 ^ exponent` under the given sign.  Sizes far beyond the
format are settled by the number of digits alone. -/
def ofDecimal (negative : Bool) (digits : Nat) (exponent : Int) : Binary64 :=
  let places : Int := Decimal.length digits + exponent
  if digits = 0 then zero negative
  else if 310 < places then .infinity negative
  else if places < -330 then zero negative
  else if 0 ≤ exponent then ofRatio negative (digits * 10 ^ exponent.toNat) 1
  else ofRatio negative digits (10 ^ (-exponent).toNat)

end Binary64

namespace Decimal

/-- A sign at the front of a text, `true` for `-`, and what follows it. -/
def sign : Bytes → Bool × Bytes
  | b :: rest =>
    if b == '-'.toUInt8 then (true, rest) else if b == '+'.toUInt8 then (false, rest)
    else (false, b :: rest)
  | [] => (false, [])

/-- The exponent at the front of a text: `0` and the whole text if it does not begin with `e`,
none if an `e` is not followed by an integer. -/
def exponent? : Bytes → Option (Int × Bytes)
  | b :: rest =>
    if b == 'e'.toUInt8 || b == 'E'.toUInt8 then
      let (negative, rest) := sign rest
      let digits := rest.takeWhile Ascii.isDigit
      if digits.isEmpty then none
      else some (Binary64.signed negative (value digits), rest.dropWhile Ascii.isDigit)
    else some (0, b :: rest)
  | [] => some (0, [])

/-- The decimal number at the front of a text and what follows it: a sign, digits with a point
before, between or behind them, an exponent.  Sign and exponent may be absent. -/
def read? (text : Bytes) : Option (Binary64 × Bytes) :=
  let (negative, text) := sign text
  let whole := text.takeWhile Ascii.isDigit
  let rest := text.dropWhile Ascii.isDigit
  let (places, rest) := match rest with
    | b :: more =>
      if b == '.'.toUInt8 then (more.takeWhile Ascii.isDigit, more.dropWhile Ascii.isDigit)
      else ([], b :: more)
    | [] => ([], [])
  if whole.isEmpty && places.isEmpty then none
  else do
    let (exponent, rest) ← exponent? rest
    return (Binary64.ofDecimal negative (value (whole ++ places)) (exponent - places.length), rest)

end Decimal

end AccessControl
