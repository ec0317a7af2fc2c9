import AccessControl.Text.Bytes

/-!
# ASCII classes

The classes of single bytes that readers and patterns ask about.  A byte of 128 or more belongs to
none of them and has no other case.
-/

namespace AccessControl.Ascii

/-- The decimal digits. -/
def isDigit (b : UInt8) : Bool := '0'.toUInt8 ≤ b && b ≤ '9'.toUInt8

/-- The capital letters. -/
def isUpper (b : UInt8) : Bool := 'A'.toUInt8 ≤ b && b ≤ 'Z'.toUInt8

/-- The small letters. -/
def isLower (b : UInt8) : Bool := 'a'.toUInt8 ≤ b && b ≤ 'z'.toUInt8

/-- The letters. -/
def isAlpha (b : UInt8) : Bool := isUpper b || isLower b

/-- The letters and digits. -/
def isAlnum (b : UInt8) : Bool := isAlpha b || isDigit b

/-- Space, tab, line feed, vertical tab, form feed and carriage return. -/
def isSpace (b : UInt8) : Bool := b == ' '.toUInt8 || (9 ≤ b && b ≤ 13)

/-- Space and tab. -/
def isBlank (b : UInt8) : Bool := b == ' '.toUInt8 || b == '\t'.toUInt8

/-- The control codes: those below the space, and 127. -/
def isControl (b : UInt8) : Bool := b < 32 || b == 127

/-- The codes with a visible mark. -/
def isGraph (b : UInt8) : Bool := 33 ≤ b && b ≤ 126

/-- The codes with a visible mark, and the space. -/
def isPrint (b : UInt8) : Bool := 32 ≤ b && b ≤ 126

/-- The visible marks that are neither letters nor digits. -/
def isPunct (b : UInt8) : Bool := isGraph b && !isAlnum b

/-- The digits of base sixteen. -/
def isHexDigit (b : UInt8) : Bool :=
  isDigit b || ('a'.toUInt8 ≤ b && b ≤ 'f'.toUInt8) || ('A'.toUInt8 ≤ b && b ≤ 'F'.toUInt8)

/-- The bytes of words: letters, digits and `_`. -/
def isWord (b : UInt8) : Bool := isAlnum b || b == '_'.toUInt8

/-- The value of a digit of base sixteen, `none` for any other byte. -/
def hexValue? (b : UInt8) : Option Nat :=
  if isDigit b then some (b - '0'.toUInt8).toNat
  else if 'a'.toUInt8 ≤ b && b ≤ 'f'.toUInt8 then some ((b - 'a'.toUInt8).toNat + 10)
  else if 'A'.toUInt8 ≤ b && b ≤ 'F'.toUInt8 then some ((b - 'A'.toUInt8).toNat + 10)
  else none

/-- The value of a decimal digit, `none` for any other byte. -/
def digitValue? (b : UInt8) : Option Nat :=
  if isDigit b then some (b - '0'.toUInt8).toNat else none

/-- The small letter for a capital one; every other byte is left alone. -/
def lower (b : UInt8) : UInt8 := if isUpper b then b + 32 else b

/-- The text with its capital letters made small. -/
def lowered (text : Bytes) : Bytes := text.map lower

end AccessControl.Ascii
