import AccessControl.Number.Decimal
import AccessControl.Regex.Syntax

/-!
# Tokens of regular expressions

`Token.read?` takes the first token off a text and `tokens?` splits a whole text; both fail where
the text is no regular expression whatever stands around it, such as after a backslash at the end
or within an open bracket.  A set between brackets and a repetition with its counts and its `?` are
one token each.
-/

namespace AccessControl.Regex

open Powers

/-- A token of a regular expression. -/
inductive Token where
  | byte (b : UInt8)
  | any
  | set (s : ByteSet)
  | backref (number : Nat)
  | lineStart
  | lineEnd
  | wordBoundary (negated : Bool)
  | quantifier (q : Quantifier) (greedy : Bool)
  | bar
  | openGroup
  | openPlain
  | openLook (negated : Bool)
  | close
  deriving Repr, DecidableEq

namespace Token

/-- A quantifier and what follows it; a question mark behind it makes it lazy. -/
def quantified (q : Quantifier) : Bytes → Token × Bytes
  | b :: rest => if b == '?'.toUInt8 then (.quantifier q false, rest) else (.quantifier q true, b :: rest)
  | [] => (.quantifier q true, [])

/-- The number that digits stand for in an expression: a signed one of 32 bits, so that greater ones
wrap around. -/
def number (digits : Bytes) : Int := Int.bmod (Decimal.value digits) (2 ^ (32 : Nat))

/-- A count at the front of a text and what follows it. -/
def count? (text : Bytes) : Option (Int × Bytes) :=
  let front := text.takeWhile Ascii.isDigit
  if front.isEmpty then none else some (number front, text.dropWhile Ascii.isDigit)

/-- The counts behind an opening brace, up to the closing one.  No copy is required where the first
count is negative; how many more are allowed is the difference of the two all the same. -/
def counts? (text : Bytes) : Option (Quantifier × Bytes) := do
  let (least, rest) ← count? text
  match rest with
  | [] => none
  | b :: more =>
    if b == '}'.toUInt8 then some (.counted least.toNat (some 0), more)
    else if b == ','.toUInt8 then
      match more with
      | [] => none
      | c :: behind =>
        if c == '}'.toUInt8 then some (.counted least.toNat none, behind)
        else do
          let (most, rest) ← count? more
          match rest with
          | d :: behind =>
            if d == '}'.toUInt8 && decide (least ≤ most) then
              some (.counted least.toNat (some (most - least).toNat), behind)
            else none
          | [] => none
    else none

/-- The token of an escape. -/
def escaped? : Bytes → Option (Token × Bytes)
  | [] => none
  | b :: rest =>
    let c := Char.ofUInt8 b
    match quotedClass? c with
    | some (cls, complement) => some (.set ⟨complement, [.cls cls]⟩, rest)
    | none =>
      if c == 'b' then some (.wordBoundary false, rest)
      else if c == 'B' then some (.wordBoundary true, rest)
      else if Ascii.isDigit b && c != '0' then
        let n := number ((b :: rest).takeWhile Ascii.isDigit)
        if 0 < n then some (.backref n.toNat, (b :: rest).dropWhile Ascii.isDigit) else none
      else (escapedByte? (b :: rest)).map fun e => (.byte e.1, e.2)

/-- The token of an opening parenthesis. -/
def opened? : Bytes → Option (Token × Bytes)
  | [] => some (.openGroup, [])
  | b :: rest =>
    if b == '?'.toUInt8 then
      match rest with
      | [] => none
      | c :: more =>
        match Char.ofUInt8 c with
        | ':' => some (.openPlain, more)
        | '=' => some (.openLook false, more)
        | '!' => some (.openLook true, more)
        | _ => none
    else some (.openGroup, b :: rest)

/-- The token at the front of a text, and what follows it. -/
def read? : Bytes → Option (Token × Bytes)
  | [] => none
  | b :: rest =>
    match Char.ofUInt8 b with
    | '\\' => escaped? rest
    | '(' => opened? rest
    | ')' => some (.close, rest)
    | '[' => (ByteSet.parse? rest).map fun p => (.set p.1, p.2)
    | '\x7b' => (counts? rest).map fun p => quantified p.1 p.2
    | '*' => some (quantified .star rest)
    | '+' => some (quantified .plus rest)
    | '?' => some (quantified .optional rest)
    | '.' => some (.any, rest)
    | '^' => some (.lineStart, rest)
    | '$' => some (.lineEnd, rest)
    | '|' => some (.bar, rest)
    | _ => some (.byte b, rest)

end Token

/-- The tokens of a text, with `fuel` for their number. -/
def tokensWithin? : Nat → Bytes → Option (List Token)
  | _, [] => some []
  | 0, _ :: _ => none
  | fuel + 1, text => do
    let (token, rest) ← Token.read? text
    return token :: (← tokensWithin? fuel rest)

/-- The tokens of a text. -/
def tokens? (text : Bytes) : Option (List Token) := tokensWithin? text.length text

end AccessControl.Regex
