import AccessControl.Text.Ascii

/-!
# Network addresses

Addresses of the two internet families, as octets in network order.  `Address.parse?` reads a
literal: four decimal octets without leading zeros, or groups of up to four digits of base sixteen
with at most one `::` for the groups of zeros, the last two groups possibly as a dotted quad.  The
family is chosen by a colon anywhere in the text, and the literal ends at the first zero byte.
-/

namespace AccessControl

/-- The text in front of the first `separator` and that behind it. -/
def Bytes.cut? (separator : UInt8) : Bytes → Option (Bytes × Bytes)
  | [] => none
  | b :: rest =>
    if b == separator then some ([], rest)
    else (Bytes.cut? separator rest).map fun p => (b :: p.1, p.2)

/-- The pieces of a text between the separators in it. -/
def Bytes.pieces (separator : UInt8) : Bytes → List Bytes
  | [] => [[]]
  | b :: rest =>
    if b == separator then [] :: pieces separator rest
    else match pieces separator rest with
      | [] => [[b]]
      | p :: ps => (b :: p) :: ps

namespace Network

/-- The address families. -/
inductive Family where
  | v4
  | v6
  deriving DecidableEq, Repr

/-- The octets of an address of a family. -/
def Family.octets : Family → Nat
  | v4 => 4
  | v6 => 16

/-- The bits of an address of a family. -/
def Family.width (f : Family) : Nat := 8 * f.octets

/-- An address, the most significant octet first. -/
structure Address where
  family : Family
  octets : List UInt8
  length_octets : octets.length = family.octets
  deriving DecidableEq

namespace Address

/-- A decimal number up to 255 without leading zeros. -/
def octet? (text : Bytes) : Option UInt8 :=
  let n := text.foldl (fun n b => 10 * n + (b - '0'.toUInt8).toNat) 0
  if text.all Ascii.isDigit && !text.isEmpty && (text.length == 1 || text.head? != some '0'.toUInt8)
      && decide (n ≤ 255)
  then some (UInt8.ofNat n) else none

/-- The octets of a dotted quad. -/
def quad? (text : Bytes) : Option (List UInt8) :=
  let parts := Bytes.pieces '.'.toUInt8 text
  if parts.length = 4 then parts.mapM octet? else none

/-- The two octets of a group of one to four digits of base sixteen. -/
def group? (text : Bytes) : Option (List UInt8) :=
  let n := text.foldl (fun n b => 16 * n + (Ascii.hexValue? b).getD 0) 0
  if text.all Ascii.isHexDigit && !text.isEmpty && decide (text.length ≤ 4) then
    some [UInt8.ofNat (n / 256), UInt8.ofNat n]
  else none

/-- The octets of groups between colons, the last of which may be a dotted quad. -/
def groups? (quadLast : Bool) : List Bytes → Option (List UInt8)
  | [] => some []
  | [g] => if quadLast then (group? g).or (quad? g) else group? g
  | g :: rest => do return (← group? g) ++ (← groups? quadLast rest)

/-- The text in front of the first `::` and that behind it. -/
def cutGap? : Bytes → Option (Bytes × Bytes)
  | [] => none
  | b :: rest =>
    if b == ':'.toUInt8 && rest.head? == some ':'.toUInt8 then some ([], rest.tail)
    else (cutGap? rest).map fun p => (b :: p.1, p.2)

/-- The groups of a text, none for the empty text. -/
def colonGroups (text : Bytes) : List Bytes :=
  if text.isEmpty then [] else Bytes.pieces ':'.toUInt8 text

/-- The octets of an address of the sixth version. -/
def sixteen? (text : Bytes) : Option (List UInt8) :=
  match cutGap? text with
  | none => groups? true (colonGroups text)
  | some (front, back) => do
    let front ← groups? false (colonGroups front)
    let back ← groups? true (colonGroups back)
    let known := front.length + back.length
    if known < 16 then return front ++ List.replicate (16 - known) 0 ++ back else none

/-- The address of a family with the given octets, if their number is right. -/
def ofOctets? (family : Family) (octets : List UInt8) : Option Address :=
  if h : octets.length = family.octets then some ⟨family, octets, h⟩ else none

/-- The address that a text spells. -/
def parse? (text : Bytes) : Option Address :=
  let literal := text.takeWhile (· != 0)
  if text.contains ':'.toUInt8 then (sixteen? literal).bind (ofOctets? .v6)
  else (quad? literal).bind (ofOctets? .v4)

end Address

end Network

end AccessControl
