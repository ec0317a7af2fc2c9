import AccessControl.Value.Basic

/-!
# Order and equality of values

`Value.compare` orders numbers by value, texts by their bytes, booleans with `false` first and lists
from their first difference; any two other values are unordered.  An integer and a floating point
number that is an integer of 64 bits are compared as integers, an integer and any other one as
floating point numbers.  `Value.equal` holds of numbers that compare as equal and otherwise of
values of one kind with equal parts; callables are equal if they are one instance.
-/

namespace AccessControl

/-- The byte order of two texts. -/
def Bytes.order (s t : Bytes) : Ordering := if s = t then .eq else if s < t then .lt else .gt

namespace Value

/-- The order of an integer and a floating point number. -/
def compareMixed (i : Int) (d : Binary64) : Option Ordering :=
  match d.integer? with
  | some j => some (Ord.compare i j)
  | none => (Binary64.ofInt i).compare d

mutual

/-- The order of two values, none if they have no order. -/
def compare : Value → Value → Option Ordering
  | .null, .null => some .eq
  | .bool a, .bool b => some (Ord.compare a b)
  | .int i, .int j => some (Ord.compare i.toInt j.toInt)
  | .int i, .double d => compareMixed i.toInt d
  | .double d, .int i => (compareMixed i.toInt d).map Ordering.swap
  | .double d, .double e => d.compare e
  | .string s, .string t => some (Bytes.order s t)
  | .list xs, .list ys => compareItems xs ys
  | _, _ => none
termination_by structural a => a

/-- The order of two lists: that of their first items that are not equal in order, or else the
shorter first. -/
def compareItems : List Value → List Value → Option Ordering
  | [], [] => some .eq
  | [], _ :: _ => some .lt
  | _ :: _, [] => some .gt
  | x :: xs, y :: ys =>
    match compare x y with
    | some .eq => compareItems xs ys
    | c => c
termination_by structural a => a

end

mutual

/-- Whether two values are equal. -/
def equal : Value → Value → Bool
  | .null, .null => true
  | .bool a, .bool b => a == b
  | .int i, .int j => i == j
  | .int i, .double d => compareMixed i.toInt d == some .eq
  | .double d, .int i => compareMixed i.toInt d == some .eq
  | .double d, .double e => d.compare e == some .eq
  | .string s, .string t => s == t
  | .list xs, .list ys => equalItems xs ys
  | .map xs, .map ys => equalEntries xs ys
  | .thunk i _, .thunk j _ => i == j
  | _, _ => false
termination_by structural a => a

/-- Whether two lists are equal item by item. -/
def equalItems : List Value → List Value → Bool
  | [], [] => true
  | x :: xs, y :: ys => equal x y && equalItems xs ys
  | _, _ => false
termination_by structural a => a

/-- Whether two lists of entries are equal entry by entry. -/
def equalEntries : List (Bytes × Value) → List (Bytes × Value) → Bool
  | [], [] => true
  | (k, x) :: xs, (l, y) :: ys => k == l && equal x y && equalEntries xs ys
  | _, _ => false
termination_by structural a => a

end

instance : BEq Value := ⟨equal⟩

end Value

end AccessControl
