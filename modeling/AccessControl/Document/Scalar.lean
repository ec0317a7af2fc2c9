import AccessControl.Document.Node
import AccessControl.Value.Basic

/-!
# Plain scalars

What a scalar without quotation marks stands for.  `Scalar.value` tries the readings null, integer,
floating point number and boolean in turn and leaves any other text a text.  Blanks may follow a
number and may not stand before it.  An integer may be written in decimal, in base sixteen after
`0x` or in base eight after a leading zero; one beyond 64 bits is no integer, and a decimal number
beyond the floating point range is no number.
-/

namespace AccessControl.Scalar

open Powers

/-- Whether a text is nothing but blanks. -/
def isBlank (text : Bytes) : Bool := text.all Ascii.isSpace

/-- The digits of `base` at the front of a text, with their value and what follows them. -/
def digits (base : Nat) (text : Bytes) : Bytes × Nat × Bytes :=
  let isDigit b := (Ascii.hexValue? b).any (· < base)
  let front := text.takeWhile isDigit
  (front, front.foldl (fun n b => base * n + (Ascii.hexValue? b).getD 0) 0, text.dropWhile isDigit)

/-- The size of an integer at the front of a text and what follows it. -/
def size? (text : Bytes) : Option (Nat × Bytes) :=
  let some_digits (base : Nat) (t : Bytes) :=
    let (front, n, rest) := digits base t
    if front.isEmpty then none else some (n, rest)
  match text with
  | [] => none
  | b :: rest =>
    if b == '0'.toUInt8 then
      match rest with
      | c :: more =>
        if c == 'x'.toUInt8 || c == 'X'.toUInt8 then some_digits 16 more else some (digits 8 rest).2
      | [] => some (0, [])
    else some_digits 10 text

/-- The integer of 64 bits that a scalar spells. -/
def int? (text : Bytes) : Option Int64 := do
  let (negative, rest) := Decimal.sign text
  let (size, rest) ← size? rest
  let i := Binary64.signed negative size
  if isBlank rest && decide (-2 ^ (63 : Nat) ≤ i ∧ i < 2 ^ (63 : Nat)) then some (Int64.ofInt i)
  else none

/-- The spellings of numbers that have no digits. -/
def specialNumbers : List (Bytes × Binary64) :=
  [".inf", ".Inf", ".INF", "+.inf", "+.Inf", "+.INF"].map (fun s => (utf8 s, .infinity false)) ++
  ["-.inf", "-.Inf", "-.INF"].map (fun s => (utf8 s, .infinity true)) ++
  [".nan", ".NaN", ".NAN"].map (fun s => (utf8 s, .nan))

/-- The decimal number that a scalar spells. -/
def decimal? (text : Bytes) : Option Binary64 := do
  let (d, rest) ← Decimal.read? text
  match d with
  | .infinity _ => none
  | _ => if isBlank rest then some d else none

/-- The floating point number that a scalar spells. -/
def double? (text : Bytes) : Option Binary64 :=
  (decimal? text).or (specialNumbers.lookup text)

/-- The words for booleans. -/
def booleanWords : List (String × Bool) :=
  [("y", true), ("n", false), ("yes", true), ("no", false), ("true", true), ("false", false),
    ("on", true), ("off", false)]

/-- A word in small letters, in capitals, and with a capital in front. -/
def spellings (word : Bytes) : List Bytes :=
  let capitals := word.map fun b => if Ascii.isLower b then b - 32 else b
  [word, capitals, capitals.take 1 ++ word.drop 1]

/-- The boolean that a scalar spells. -/
def bool? (text : Bytes) : Option Bool :=
  (booleanWords.find? fun w => (spellings (utf8 w.1)).contains text).map Prod.snd

/-- Whether a scalar spells null. -/
def isNull (text : Bytes) : Bool :=
  text.isEmpty || ["~", "null", "Null", "NULL"].any fun s => utf8 s == text

/-- What a plain scalar stands for. -/
def value (text : Bytes) : Value :=
  if isNull text then .null
  else match int? text with
    | some i => .int i
    | none => match double? text with
      | some d => .double d
      | none => match bool? text with
        | some b => .bool b
        | none => .string text

/-- The scalar for a floating point number: seventeen digits, or a word. -/
def ofDouble : Binary64 → Bytes
  | .nan => utf8 ".nan"
  | .infinity negative => utf8 (if negative then "-.inf" else ".inf")
  | d => d.general 17

end AccessControl.Scalar
