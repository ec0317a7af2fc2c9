import AccessControl.Network.Address
import AccessControl.Number.Decimal

/-!
# Address blocks

A block is a network address with the length of its prefix, no bit being set behind the prefix.
`Block.parse?` reads `address/length`, where the length may have blanks and a sign in front of its
digits; `Block.contains` compares the prefix octet by octet and the last, partial octet under a
mask.
-/

namespace AccessControl.Network

/-- The octet whose first `n` bits are set. -/
def upperMask (n : Nat) : UInt8 := 0xFF <<< UInt8.ofNat (8 - n)

/-- The octet whose bits behind the first `n` are set. -/
def lowerMask (n : Nat) : UInt8 := 0xFF >>> UInt8.ofNat n

/-- Whether the first `n` bits of two rows of octets are the same. -/
def samePrefix (n : Nat) (a b : List UInt8) : Bool :=
  a.take (n / 8) == b.take (n / 8) &&
    (n % 8 == 0 ||
      (a.drop (n / 8)).head?.map (· &&& upperMask (n % 8)) ==
        (b.drop (n / 8)).head?.map (· &&& upperMask (n % 8)))

/-- Whether no bit is set behind the first `n` of a row of octets. -/
def clearBehind (n : Nat) (a : List UInt8) : Bool :=
  let rest := a.drop (n / 8)
  if n % 8 = 0 then rest.all (· == 0)
  else (rest.take 1).all (fun b => b &&& lowerMask (n % 8) == 0) && (rest.drop 1).all (· == 0)

/-- A network and the length of its prefix. -/
structure Block where
  network : Address
  prefixLength : Nat
  prefixLength_le : prefixLength ≤ network.family.width
  clear : clearBehind prefixLength network.octets = true

namespace Block

/-- The integer that a text is, after blanks and a sign. -/
def length? (text : Bytes) : Option Int :=
  let (negative, digits) := Decimal.sign (text.dropWhile Ascii.isSpace)
  if digits.isEmpty || !digits.all Ascii.isDigit then none
  else some (if negative then -(Decimal.value digits : Int) else Decimal.value digits)

/-- The block of a network and a prefix length, if the length fits and the network ends with it. -/
def make? (network : Address) (length : Int) : Option Block :=
  if h : 0 ≤ length ∧ length.toNat ≤ network.family.width ∧
      clearBehind length.toNat network.octets = true then
    some ⟨network, length.toNat, h.2.1, h.2.2⟩
  else none

/-- The block that a text spells. -/
def parse? (text : Bytes) : Option Block := do
  let (address, length) ← Bytes.cut? '/'.toUInt8 text
  let network ← Address.parse? address
  make? network (← length? length)

/-- Whether an address is in the block. -/
def contains (block : Block) (address : Address) : Bool :=
  address.family == block.network.family &&
    samePrefix block.prefixLength address.octets block.network.octets

/-- Whether a text spells an address in the block. -/
def containsText (block : Block) (text : Bytes) : Bool :=
  (Address.parse? text).any block.contains

end Block

end AccessControl.Network
