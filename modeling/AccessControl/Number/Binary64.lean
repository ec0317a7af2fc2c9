/-!
# Binary floating point of 64 bits

A `Binary64` is a floating point number as a sign, a significand and an exponent, in the one
canonical form that the 64-bit format has for it (`Binary64.IsCanonical`), or an infinity, or not a
number.  `compare` orders two of them by their exact values, `integer?` gives the value of one that
is an integer of 64 bits, and `ofRatio` is the number nearest to a quotient, a tie going to the
even significand.  All arithmetic is on `Nat` and `Int`; a text is read and written in
`AccessControl.Number.Decimal`.
-/

namespace AccessControl

namespace Powers

/-- Powers of natural numbers are those of the core library, also where other instances are in
sight. -/
scoped instance (priority := high) ofNat : Pow Nat Nat := instPowNat

/-- Powers of integers are those of the core library. -/
scoped instance (priority := high) ofInt : Pow Int Nat := instPowNat

end Powers

open Powers

/-- The integer nearest to `num / den`; of two equally near the even one. -/
def roundedQuotient (num den : Nat) : Nat :=
  let q := num / den
  let twice := 2 * (num % den)
  if twice < den || (twice == den && q % 2 == 0) then q else q + 1

/-- The forms `significand * 2 ^ exponent` that the format has: 53 bits of significand, the top
one set unless the exponent is the least. -/
def Binary64.IsCanonical (significand : Nat) (exponent : Int) : Prop :=
  significand < 2 ^ (53 : Nat) ∧ -1074 ≤ exponent ∧ exponent ≤ 971 ∧
    (2 ^ (52 : Nat) ≤ significand ∨ exponent = -1074)

instance (m : Nat) (e : Int) : Decidable (Binary64.IsCanonical m e) :=
  inferInstanceAs (Decidable (_ ∧ _))

/-- A floating point number of the 64-bit binary format.  All that are not a number count as one. -/
inductive Binary64 where
  | nan
  | infinity (negative : Bool)
  | finite (negative : Bool) (significand : Nat) (exponent : Int)
      (canonical : Binary64.IsCanonical significand exponent)
  deriving DecidableEq

namespace Binary64

/-- The zero of either sign. -/
def zero (negative : Bool) : Binary64 := .finite negative 0 (-1074) (by decide)

instance : Inhabited Binary64 := ⟨zero false⟩

/-- Whether the number is a zero of either sign. -/
def isZero : Binary64 → Bool
  | .finite _ m _ _ => m == 0
  | _ => false

/-- An integer of the given sign and size. -/
def signed (negative : Bool) (size : Nat) : Int := if negative then -size else size

/-- The order of the exact values; none if one of the two is not a number. -/
def compare : Binary64 → Binary64 → Option Ordering
  | .nan, _ => none
  | _, .nan => none
  | .infinity a, .infinity b => some (if a == b then .eq else if a then .lt else .gt)
  | .infinity a, .finite .. => some (if a then .lt else .gt)
  | .finite .., .infinity b => some (if b then .gt else .lt)
  | .finite s m e _, .finite t n f _ =>
    let low := min e f
    some (Ord.compare (signed s (m * 2 ^ (e - low).toNat)) (signed t (n * 2 ^ (f - low).toNat)))

/-- The value as an integer, if it is one that 64 bits with a sign hold. -/
def integer? : Binary64 → Option Int
  | .finite s m e _ =>
    let size := if 0 ≤ e then m * 2 ^ e.toNat else m / 2 ^ (-e).toNat
    let whole := decide (0 ≤ e) || m % 2 ^ (-e).toNat == 0
    let i := signed s size
    if whole && decide (-2 ^ (63 : Nat) ≤ i ∧ i < 2 ^ (63 : Nat)) then some i else none
  | _ => none

/-- The exponent of the greatest power of two that is at most `num / den`. -/
def binaryExponent (num den : Nat) : Int :=
  let l : Int := (num.log2 : Int) - den.log2
  let reached := if 0 ≤ l then den * 2 ^ l.toNat ≤ num else den ≤ num * 2 ^ (-l).toNat
  if reached then l else l - 1

/-- The number `significand * 2 ^ exponent` after a rounding that may have carried into a 54th bit;
an infinity where the format has no such number. -/
def ofRounded (negative : Bool) (significand : Nat) (exponent : Int) : Binary64 :=
  let (m, e) := if significand = 2 ^ (53 : Nat) then (2 ^ (52 : Nat), exponent + 1)
    else (significand, exponent)
  if h : IsCanonical m e then .finite negative m e h else .infinity negative

/-- The number nearest to the quotient `num / den` under the given sign. -/
def ofRatio (negative : Bool) (num den : Nat) : Binary64 :=
  if num = 0 then zero negative
  else
    let e := max (binaryExponent num den - 52) (-1074)
    let m := if 0 ≤ e then roundedQuotient num (den * 2 ^ e.toNat)
      else roundedQuotient (num * 2 ^ (-e).toNat) den
    ofRounded negative m e

/-- The number nearest to an integer. -/
def ofInt (i : Int) : Binary64 := ofRatio (decide (i < 0)) i.natAbs 1

end Binary64

end AccessControl
