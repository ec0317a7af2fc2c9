import AccessControl.Text.Bytes

/-!
# Timestamps

The text of a point in time, given in nanoseconds since the beginning of 1970.  `Timestamp.text`
writes the date and the time of day in UTC down to milliseconds.  Seconds and milliseconds are both
rounded toward zero, so that before 1970 the milliseconds have a sign, which counts for the width.
-/

namespace AccessControl.Timestamp

/-- A decimal number in at least `width` places, zeros in front. -/
def padded (width : Nat) (digits : Bytes) : Bytes :=
  List.replicate (width - digits.length) '0'.toUInt8 ++ digits

/-- The year, month and day of the day with a number, the first of January 1970 having the number
zero.  A year begins in March here and has its leap day at its end, and the four hundred years from
March 2000 on repeat. -/
def civil (day : Int) : Int × Nat × Nat :=
  let shifted := day + 719468
  let era := shifted.fdiv 146097
  let dayOfEra := (shifted - era * 146097).toNat
  let yearOfEra := (dayOfEra - dayOfEra / 1460 + dayOfEra / 36524 - dayOfEra / 146096) / 365
  let dayOfYear := dayOfEra - (365 * yearOfEra + yearOfEra / 4 - yearOfEra / 100)
  let month := (5 * dayOfYear + 2) / 153
  let dayOfMonth := dayOfYear - (153 * month + 2) / 5 + 1
  let year := (yearOfEra : Int) + era * 400
  if month < 10 then (year, month + 3, dayOfMonth) else (year + 1, month - 9, dayOfMonth)

/-- The text of a point in time. -/
def text (nanoseconds : Int) : Bytes :=
  let seconds := nanoseconds.tdiv 1000000000
  let milliseconds := nanoseconds.tdiv 1000000 - seconds * 1000
  let day := seconds.fdiv 86400
  let second := (seconds - day * 86400).toNat
  let (year, month, dayOfMonth) := civil day
  let two n := padded 2 (Bytes.ofNat n)
  padded 4 (Bytes.ofInt year) ++ utf8 "-" ++ two month ++ utf8 "-" ++ two dayOfMonth ++ utf8 "T" ++
    two (second / 3600) ++ utf8 ":" ++ two (second / 60 % 60) ++ utf8 ":" ++ two (second % 60) ++
    utf8 "." ++ padded 3 (Bytes.ofInt milliseconds) ++ utf8 "Z"

end AccessControl.Timestamp
