import AccessControl.Text.Bytes

/-!
# Texts in JSON

`Json.quoted` writes a text as a JSON string: quotation marks, backslashes and control bytes are
escaped and every other byte stands for itself, so that the string is printed on one line.
-/

namespace AccessControl.Json

/-- The digit for a number below sixteen. -/
def hexDigit (n : Nat) : UInt8 := ((utf8 "0123456789abcdef")[n]?).getD 0

/-- A byte as it stands within a string. -/
def escapedByte (b : UInt8) : Bytes :=
  if b = 0x22 then utf8 "\\\""
  else if b = 0x5c then utf8 "\\\\"
  else if b = 0x08 then utf8 "\\b"
  else if b = 0x0c then utf8 "\\f"
  else if b = 0x0a then utf8 "\\n"
  else if b = 0x0d then utf8 "\\r"
  else if b = 0x09 then utf8 "\\t"
  else if b < 0x20 then utf8 "\\u00" ++ [hexDigit (b.toNat / 16), hexDigit (b.toNat % 16)]
  else [b]

/-- A text as it stands within a string. -/
def escaped (text : Bytes) : Bytes := text.flatMap escapedByte

/-- A text as a string. -/
def quoted (text : Bytes) : Bytes := 0x22 :: escaped text ++ [0x22]

end AccessControl.Json
