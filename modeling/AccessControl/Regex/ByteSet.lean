import AccessControl.Text.Ascii

/-!
# Sets of bytes in patterns

What stands between square brackets in a pattern: single bytes, ranges, named classes and their
complements, and letters that count in either case.  Ranges are in the order of signed bytes, so
that a byte of 128 or more comes before every other one.
-/

namespace AccessControl.Regex

/-- The named classes. -/
inductive ByteClass where
  | digit | word | space | alnum | alpha | blank | cntrl | graph | lower | print | punct | upper
  | xdigit
  deriving DecidableEq, Repr

namespace ByteClass

/-- Whether a byte is in the class. -/
def contains : ByteClass → UInt8 → Bool
  | digit => Ascii.isDigit
  | word => Ascii.isWord
  | space => Ascii.isSpace
  | alnum => Ascii.isAlnum
  | alpha => Ascii.isAlpha
  | blank => Ascii.isBlank
  | cntrl => Ascii.isControl
  | graph => Ascii.isGraph
  | lower => Ascii.isLower
  | print => Ascii.isPrint
  | punct => Ascii.isPunct
  | upper => Ascii.isUpper
  | xdigit => Ascii.isHexDigit

/-- The names of the classes. -/
def names : List (String × ByteClass) :=
  [("d", digit), ("w", word), ("s", space), ("alnum", alnum), ("alpha", alpha), ("blank", blank),
    ("cntrl", cntrl), ("digit", digit), ("graph", graph), ("lower", lower), ("print", print),
    ("punct", punct), ("space", space), ("upper", upper), ("xdigit", xdigit)]

/-- The class with a name, in letters of either case. -/
def ofName? (name : Bytes) : Option ByteClass :=
  (names.find? fun e => utf8 e.1 == Ascii.lowered name).map Prod.snd

end ByteClass

/-- The names of the ASCII codes, in the order of the codes. -/
def codeNames : List String :=
  ["NUL", "SOH", "STX", "ETX", "EOT", "ENQ", "ACK", "alert", "backspace", "tab", "newline",
    "vertical-tab", "form-feed", "carriage-return", "SO", "SI", "DLE", "DC1", "DC2", "DC3", "DC4",
    "NAK", "SYN", "ETB", "CAN", "EM", "SUB", "ESC", "IS4", "IS3", "IS2", "IS1", "space",
    "exclamation-mark", "quotation-mark", "number-sign", "dollar-sign", "percent-sign",
    "ampersand", "apostrophe", "left-parenthesis", "right-parenthesis", "asterisk", "plus-sign",
    "comma", "hyphen", "period", "slash", "zero", "one", "two", "three", "four", "five", "six",
    "seven", "eight", "nine", "colon", "semicolon", "less-than-sign", "equals-sign",
    "greater-than-sign", "question-mark", "commercial-at", "A", "B", "C", "D", "E", "F", "G", "H",
    "I", "J", "K", "L", "M", "N", "O", "P", "Q", "R", "S", "T", "U", "V", "W", "X", "Y", "Z",
    "left-square-bracket", "backslash", "right-square-bracket", "circumflex", "underscore",
    "grave-accent", "a", "b", "c", "d", "e", "f", "g", "h", "i", "j", "k", "l", "m", "n", "o",
    "p", "q", "r", "s", "t", "u", "v", "w", "x", "y", "z", "left-curly-bracket", "vertical-line",
    "right-curly-bracket", "tilde", "DEL"]

/-- The code with a name. -/
def codeOfName? (name : Bytes) : Option UInt8 :=
  (codeNames.findIdx? fun n => utf8 n == name).map UInt8.ofNat

/-- An item of a set. -/
inductive SetItem where
  | byte (b : UInt8)
  | range (first last : UInt8)
  | cls (c : ByteClass)
  | outside (c : ByteClass)
  /-- A byte in either case. -/
  | letter (b : UInt8)
  deriving DecidableEq, Repr

/-- Whether a byte is among those of an item. -/
def SetItem.contains : SetItem → UInt8 → Bool
  | byte a, b => a == b
  | range first last, b => decide (first.toInt8 ≤ b.toInt8) && decide (b.toInt8 ≤ last.toInt8)
  | cls c, b => c.contains b
  | outside c, b => !c.contains b
  | letter a, b => Ascii.lower a == Ascii.lower b

/-- A set of bytes: those of its items, or all others. -/
structure ByteSet where
  negated : Bool
  items : List SetItem
  deriving DecidableEq, Repr

namespace ByteSet

/-- Whether a byte is in the set. -/
def contains (s : ByteSet) (b : UInt8) : Bool := s.items.any (·.contains b) != s.negated

/-- A token between square brackets. -/
inductive Token where
  | dash
  | close
  | byte (b : UInt8)
  /-- A byte given by name, which may begin a range and not end one. -/
  | named (b : UInt8)
  /-- An item that is not a single byte. -/
  | item (i : SetItem)

/-- The name in front of `mark` and a closing bracket, and what follows these. -/
def name? (mark : UInt8) (text : Bytes) : Option (Bytes × Bytes) :=
  match text.dropWhile (· != mark) with
  | _ :: b :: rest => if b == ']'.toUInt8 then some (text.takeWhile (· != mark), rest) else none
  | _ => none

end ByteSet

/-- The value of `n` digits of base sixteen at the front of a text, as a byte, and what follows
them. -/
def hexByte? (n : Nat) (text : Bytes) : Option (UInt8 × Bytes) :=
  let front := text.take n
  if front.length = n && front.all Ascii.isHexDigit then
    some (UInt8.ofNat (front.foldl (fun v b => 16 * v + (Ascii.hexValue? b).getD 0) 0), text.drop n)
  else none

/-- The class that a letter after a backslash names, and whether it names the complement. -/
def quotedClass? : Char → Option (ByteClass × Bool)
  | 'd' => some (.digit, false)
  | 'D' => some (.digit, true)
  | 's' => some (.space, false)
  | 'S' => some (.space, true)
  | 'w' => some (.word, false)
  | 'W' => some (.word, true)
  | _ => none

/-- The byte that an escape stands for, and what follows it: a control code, the byte behind `c`,
a code in base sixteen behind `x` or `u`, and any other byte itself. -/
def escapedByte? : Bytes → Option (UInt8 × Bytes)
  | [] => none
  | b :: rest =>
    match Char.ofUInt8 b with
    | '0' => some (0, rest)
    | 'f' => some (12, rest)
    | 'n' => some (10, rest)
    | 'r' => some (13, rest)
    | 't' => some (9, rest)
    | 'v' => some (11, rest)
    | 'c' => match rest with
      | [] => none
      | x :: more => some (x, more)
    | 'x' => hexByte? 2 rest
    | 'u' => hexByte? 4 rest
    | _ => some (b, rest)

namespace ByteSet

/-- The escape at the front of a text, between square brackets: as elsewhere, but `b` is the
backspace, and neither a word boundary nor a reference to a group may stand here. -/
def escaped? : Bytes → Option (Token × Bytes)
  | [] => none
  | b :: rest =>
    let c := Char.ofUInt8 b
    match quotedClass? c with
    | some (cls, complement) => some (.item (if complement then .outside cls else .cls cls), rest)
    | none =>
      if c == 'b' then some (.byte 8, rest)
      else if c == 'B' || (Ascii.isDigit b && c != '0') then none
      else (escapedByte? (b :: rest)).map fun e => (.byte e.1, e.2)

/-- The token at the front of a text between square brackets, and what follows it. -/
def read? : Bytes → Option (Token × Bytes)
  | [] => none
  | b :: rest =>
    match Char.ofUInt8 b with
    | '-' => some (.dash, rest)
    | ']' => some (.close, rest)
    | '\\' => escaped? rest
    | '[' => match rest with
      | [] => none
      | mark :: more =>
        match Char.ofUInt8 mark with
        | '.' => do
          let (name, rest) ← name? mark more
          return (.named (← codeOfName? name), rest)
        | ':' => do
          let (name, rest) ← name? mark more
          return (.item (.cls (← ByteClass.ofName? name)), rest)
        | '=' => do
          let (name, rest) ← name? mark more
          return (.item (.letter (← codeOfName? name)), rest)
        | _ => some (.byte b, rest)
    | _ => some (.byte b, rest)

/-- What stands in front of a token and may begin a range. -/
inductive Pending where
  | nothing
  | byte (b : UInt8)
  | item

/-- The items with the pending byte. -/
def flushed (pending : Pending) (items : List SetItem) : List SetItem :=
  match pending with
  | .byte b => .byte b :: items
  | _ => items

/-- The byte at which a range may end. -/
def rangeEnd? : Token → Option UInt8
  | .byte b => some b
  | .dash => some '-'.toUInt8
  | _ => none

/-- The items up to the closing bracket, and what follows it.  A dash between two bytes makes a
range of them; at the front, at the end and behind a range it is a byte itself; behind a class it
is an error.  `fuel` bounds the number of tokens. -/
def items? (fuel : Nat) (pending : Pending) (items : List SetItem) (text : Bytes) :
    Option (List SetItem × Bytes) :=
  match fuel with
  | 0 => none
  | fuel + 1 => do
    let (token, rest) ← read? text
    match token with
    | .close => some (flushed pending items, rest)
    | .byte b | .named b => items? fuel (.byte b) (flushed pending items) rest
    | .item i => items? fuel .item (i :: flushed pending items) rest
    | .dash =>
      let (next, behind) ← read? rest
      match next, pending with
      | .close, _ => some (.byte '-'.toUInt8 :: flushed pending items, behind)
      | _, .item => none
      | _, .nothing => items? fuel (.byte '-'.toUInt8) items rest
      | next, .byte a => do
        let b ← rangeEnd? next
        if a.toInt8 ≤ b.toInt8 then items? fuel .nothing (.range a b :: items) behind else none

/-- The set behind an opening bracket, and what follows its closing bracket. -/
def parse? (text : Bytes) : Option (ByteSet × Bytes) :=
  let (negated, text) := match text with
    | b :: rest => if b == '^'.toUInt8 then (true, rest) else (false, text)
    | [] => (false, text)
  (items? text.length .nothing [] text).map fun p => (⟨negated, p.1⟩, p.2)

end ByteSet

end AccessControl.Regex
