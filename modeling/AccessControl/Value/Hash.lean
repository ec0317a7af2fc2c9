import AccessControl.Value.Order

/-!
# Hash codes of values

`Value.hash` builds the code of a value from the codes that a `HashFamily` gives to booleans,
integers, floating point numbers, texts and instances, whatever these are.  A floating point number
that is an integer of 64 bits has the code of that integer, so that numbers which are equal as
integers have one code.
-/

namespace AccessControl

open Powers

/-- A code for every indivisible part of a value. -/
structure HashFamily where
  bool : Bool → UInt64
  int : Int → UInt64
  double : Binary64 → UInt64
  text : Bytes → UInt64
  identity : Nat → UInt64

namespace HashFamily

/-- The code `seed` with the code `h` mixed into it. -/
def combine (seed h : UInt64) : UInt64 :=
  let shifted : UInt64 := (seed <<< (6 : UInt64)) + (seed >>> (2 : UInt64))
  seed ^^^ (h + 0x9e3779b97f4a7c15 + shifted)

/-- One step of the code of a text. -/
def step (h : UInt64) (b : UInt8) : UInt64 := (h ^^^ b.toUInt64) * 0x100000001b3

/-- The code of a number written in base 256. -/
def ofNat (n : Nat) : UInt64 :=
  (List.range 8).foldl (fun h i => step h (UInt8.ofNat (n / 256 ^ i))) 0xcbf29ce484222325

/-- The codes that memo tables use. -/
def standard : HashFamily where
  bool b := if b then 1 else 0
  int i := UInt64.ofInt i
  double
    | .nan => 1
    | .infinity s => ofNat (if s then 2 else 3)
    | .finite s m e _ => combine (ofNat m) (combine (ofNat (e + 1074).toNat) (if s then 1 else 0))
  text t := t.foldl step 0xcbf29ce484222325
  identity n := ofNat n

end HashFamily

namespace Value

variable (H : HashFamily)

/-- The code with which the code of a value of a kind begins. -/
def kindSeed (k : ValueKind) : UInt64 := UInt64.ofNat k.number

mutual

/-- The code of a value. -/
def hash : Value → UInt64
  | .null => kindSeed .null
  | .bool b => HashFamily.combine (kindSeed .bool) (H.bool b)
  | .int i => HashFamily.combine (kindSeed .int) (H.int i.toInt)
  | .double d =>
    match d.integer? with
    | some i => HashFamily.combine (kindSeed .int) (H.int i)
    | none => HashFamily.combine (kindSeed .double) (H.double d)
  | .string s => HashFamily.combine (kindSeed .string) (H.text s)
  | .list items => hashItems items (kindSeed .list)
  | .map entries => hashEntries entries (kindSeed .map)
  | .thunk i _ => HashFamily.combine (kindSeed .thunk) (H.identity i)
termination_by structural v => v

/-- The code `seed` with the codes of the items mixed into it in turn. -/
def hashItems : List Value → UInt64 → UInt64
  | [], seed => seed
  | v :: rest, seed => hashItems rest (HashFamily.combine seed (hash v))
termination_by structural l => l

/-- The code `seed` with the codes of keys and values mixed into it in turn. -/
def hashEntries : List (Bytes × Value) → UInt64 → UInt64
  | [], seed => seed
  | (key, v) :: rest, seed =>
    hashEntries rest (HashFamily.combine (HashFamily.combine seed (H.text key)) (hash v))
termination_by structural l => l

end

end Value

end AccessControl
