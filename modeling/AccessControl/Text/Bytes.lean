/-!
# Byte text

Every text in this library is a list of bytes: comparison, search and order are byte by byte
(`<` on lists of `UInt8` is the unsigned lexicographic order), and a text need not be valid UTF-8.
`utf8` gives the bytes of a string literal; `Bytes.ofNat` and `Bytes.ofInt` write numbers in
decimal.  `Bytes.occursIn` is the substring test.
-/

namespace AccessControl

/-- A text: any sequence of bytes. -/
abbrev Bytes := List UInt8

/-- The bytes of a string in UTF-8. -/
def utf8 (s : String) : Bytes := s.toUTF8.data.toList

namespace Bytes

/-- The decimal digits of a natural number, without leading zeros. -/
def ofNat (n : Nat) : Bytes := (Nat.toDigits 10 n).map Char.toUInt8

/-- The decimal text of an integer, with `-` before a negative one. -/
def ofInt : Int → Bytes
  | .ofNat n => ofNat n
  | .negSucc n => '-'.toUInt8 :: ofNat (n + 1)

/-- Whether `pattern` stands somewhere in the text. -/
def occursIn (pattern : Bytes) : Bytes → Bool
  | [] => pattern.isEmpty
  | b :: rest => pattern.isPrefixOf (b :: rest) || occursIn pattern rest

/-- The texts with `separator` between each two of them. -/
def joined (separator : Bytes) : List Bytes → Bytes
  | [] => []
  | [t] => t
  | t :: u :: rest => t ++ separator ++ joined separator (u :: rest)

end Bytes

end AccessControl
