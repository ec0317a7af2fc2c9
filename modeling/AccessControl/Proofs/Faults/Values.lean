import AccessControl.Proofs.Codec.Values

/-!
# Values read by kind

A value is read as of some kind, and that fails unless it is of that kind (`Checked.read`).  Here values
are called true, compared and found equal by such readings alone, each behind a look at the kinds: none of
them fails, and what comes out is what `Value.truthy`, `Value.compare` and `Value.equal` say
(`Checked.truthy_eq`, `Checked.compare_eq`, `Checked.equal_eq`).
-/

namespace AccessControl

/-- What may go wrong in an evaluation that takes nothing for granted. -/
inductive Fault where
  /-- A value is read as of a kind that it is not of. -/
  | wrongKind
  /-- A rule is asked that is missing. -/
  | missingRule
  /-- A condition is tested that is none for the checker. -/
  | wrongCondition
  | failure (f : Failure)

/-- The fault of an exception. -/
def Fault.ofEscape (e : Escape) : Fault := .failure (.escaped e)

namespace Checked

open Value

/-- What a value is read as. -/
def read {α : Type} : Option α → Except Fault α
  | some a => .ok a
  | none => .error .wrongKind

/-- The number of the instance that a callable is. -/
def instance? : Value → Option Nat
  | .thunk i _ => some i
  | _ => none

/-- Whether a value is an integer or a floating point number. -/
def isNumber (v : Value) : Bool := v.kind == .int || v.kind == .double

/-- Whether a value counts as true. -/
def truthy : Value → Except Fault Bool
  | .thunk _ (.returns v) => truthy v
  | .thunk _ (.raises text) => .error (.ofEscape (.raised text))
  | .thunk _ .raisesForeign => .error (.ofEscape .foreign)
  | .thunk _ .missing => .ok false
  | v =>
    match v.kind with
    | .null => .ok false
    | .bool => read v.asBool?
    | .int => (read v.asInt?).map (· != 0)
    | .double => (read v.asDouble?).map (!·.isZero)
    | .string => (read v.asString?).map (!·.isEmpty)
    | .list => (read v.asList?).map (!·.isEmpty)
    | .map => (read v.asMap?).map (!·.isEmpty)
    | .thunk => .error .wrongKind
termination_by structural v => v

/-- The order of two numbers; an integer and a floating point number that is an integer of 64 bits are
compared as integers. -/
def compareNumbers (a b : Value) : Except Fault (Option Ordering) := do
  if a.kind = .int ∧ b.kind = .int then
    return some (Ord.compare (← read a.asInt?).toInt (← read b.asInt?).toInt)
  if a.kind ≠ b.kind then
    let d ← read (if a.kind = .int then b.asDouble? else a.asDouble?)
    if let some i := d.integer? then
      if a.kind = .int then return some (Ord.compare (← read a.asInt?).toInt i)
      else return some (Ord.compare i (← read b.asInt?).toInt)
  return (← read a.asDouble?).compare (← read b.asDouble?)

theorem sizeOf_asList? {v : Value} {items : List Value} (h : v.asList? = some items) :
    sizeOf items < sizeOf v := by
  cases v <;> cases h
  simp

theorem sizeOf_asMap? {v : Value} {entries : List (Bytes × Value)} (h : v.asMap? = some entries) :
    sizeOf entries < sizeOf v := by
  cases v <;> cases h
  simp

mutual

/-- The order of two values. -/
def compare (a b : Value) : Except Fault (Option Ordering) :=
  if isNumber a && isNumber b then compareNumbers a b
  else if a.kind ≠ b.kind then .ok none
  else
    match a.kind with
    | .null => .ok (some .eq)
    | .bool => return some (Ord.compare (← read a.asBool?) (← read b.asBool?))
    | .string => return some (Bytes.order (← read a.asString?) (← read b.asString?))
    | .list =>
      match h : a.asList? with
      | none => .error .wrongKind
      | some xs => have := sizeOf_asList? h; read b.asList? >>= compareItems xs
    | _ => .ok none
termination_by sizeOf a

/-- The order of two lists. -/
def compareItems (xs ys : List Value) : Except Fault (Option Ordering) :=
  match xs, ys with
  | [], [] => .ok (some .eq)
  | [], _ :: _ => .ok (some .lt)
  | _ :: _, [] => .ok (some .gt)
  | x :: xs, y :: ys => do
    match ← compare x y with
    | some .eq => compareItems xs ys
    | c => return c
termination_by sizeOf xs

end

mutual

/-- Whether two values are equal. -/
def equal (a b : Value) : Except Fault Bool :=
  if isNumber a && isNumber b then (compare a b).map (· == some .eq)
  else if a.kind ≠ b.kind then .ok false
  else
    match a.kind with
    | .null => .ok true
    | .bool => return (← read a.asBool?) == (← read b.asBool?)
    | .string => return (← read a.asString?) == (← read b.asString?)
    | .list =>
      match h : a.asList? with
      | none => .error .wrongKind
      | some xs => have := sizeOf_asList? h; read b.asList? >>= equalItems xs
    | .map =>
      match h : a.asMap? with
      | none => .error .wrongKind
      | some xs => have := sizeOf_asMap? h; read b.asMap? >>= equalEntries xs
    | .thunk => return (← read (instance? a)) == (← read (instance? b))
    | _ => .ok false
termination_by sizeOf a

/-- Whether two lists are equal item by item. -/
def equalItems (xs ys : List Value) : Except Fault Bool :=
  match xs, ys with
  | [], [] => .ok true
  | x :: xs, y :: ys => do if ← equal x y then equalItems xs ys else return false
  | [], _ :: _ | _ :: _, [] => .ok false
termination_by sizeOf xs

/-- Whether two lists of entries are equal entry by entry. -/
def equalEntries (xs ys : List (Bytes × Value)) : Except Fault Bool :=
  match xs, ys with
  | [], [] => .ok true
  | (k, x) :: xs, (l, y) :: ys => do
    if k == l then if ← equal x y then equalEntries xs ys else return false else return false
  | [], _ :: _ | _ :: _, [] => .ok false
termination_by sizeOf xs

end

/-! ## No reading fails -/

/-- **Truth is read without a fault**; exceptions of callables pass through. -/
theorem truthy_eq : ∀ v : Value, truthy v = v.truthy.mapError Fault.ofEscape
  | .null | .bool _ | .int _ | .double _ | .string _ | .list _ | .map _
  | .thunk _ (.raises _) | .thunk _ .raisesForeign | .thunk _ .missing => rfl
  | .thunk _ (.returns v) => truthy_eq v

theorem compareNumbers_mixed (i : Int64) (d : Binary64) :
    compareNumbers (.int i) (.double d) = .ok (compareMixed i.toInt d) ∧
      compareNumbers (.double d) (.int i) = .ok ((compareMixed i.toInt d).map Ordering.swap) := by
  rw [compareMixed]
  cases hd : d.integer? with
  | none =>
    simp [compareNumbers, kind, read, asDouble?, hd, bind, Except.bind, pure, Except.pure,
      Binary64.compare_symm]
  | some j =>
    simp [compareNumbers, kind, read, asDouble?, asInt?, hd, bind, Except.bind, pure, Except.pure,
      compare_swap]

mutual

/-- **Values are compared without a fault.** -/
theorem compare_eq : ∀ a b : Value, compare a b = .ok (a.compare b)
  | .list xs, b => by
    cases b with
    | list ys =>
      rw [compare, Value.compare, ← compareItems_eq xs ys]
      rfl
    | _ => rw [compare]; rfl
  | .int i, b => by
    cases b with
    | double d =>
      rw [compare]
      exact (compareNumbers_mixed i d).1
    | _ => rw [compare]; rfl
  | .double d, b => by
    cases b with
    | int i =>
      rw [compare]
      exact (compareNumbers_mixed i d).2
    | _ => rw [compare]; rfl
  | .null, b | .bool _, b | .string _, b | .map _, b | .thunk .., b => by
    cases b <;> rw [compare] <;> rfl

theorem compareItems_eq : ∀ xs ys : List Value, compareItems xs ys = .ok (Value.compareItems xs ys)
  | [], [] | [], _ :: _ | _ :: _, [] => by rw [compareItems]; rfl
  | x :: xs, y :: ys => by
    rw [compareItems, Value.compareItems, compare_eq x y, compareItems_eq xs ys]
    rcases x.compare y with _ | _ | _ | _ <;> rfl

end

mutual

/-- **Values are found equal without a fault.** -/
theorem equal_eq : ∀ a b : Value, equal a b = .ok (a.equal b)
  | .int i, b => by
    cases b with
    | int j =>
      have hsame : (some (Ord.compare i.toInt j.toInt) == some .eq) = (i == j) := by
        rw [Bool.eq_iff_iff, beq_iff_eq, beq_iff_eq, compare_self_swap, Int64.toInt_inj]
      rw [equal, compare_eq, Value.equal, ← hsame]
      rfl
    | double d =>
      rw [equal, compare_eq]
      rfl
    | _ => rw [equal]; rfl
  | .double d, b => by
    cases b with
    | int i =>
      rw [equal, compare_eq, Value.equal, Value.compare]
      rcases compareMixed i.toInt d with _ | _ | _ | _ <;> rfl
    | double e =>
      rw [equal, compare_eq]
      rfl
    | _ => rw [equal]; rfl
  | .list xs, b => by
    cases b with
    | list ys =>
      rw [equal, Value.equal, ← equalItems_eq xs ys]
      rfl
    | _ => rw [equal]; rfl
  | .map xs, b => by
    cases b with
    | map ys =>
      rw [equal, Value.equal, ← equalEntries_eq xs ys]
      rfl
    | _ => rw [equal]; rfl
  | .null, b | .bool _, b | .string _, b | .thunk .., b => by
    cases b <;> rw [equal] <;> rfl

theorem equalItems_eq : ∀ xs ys : List Value, equalItems xs ys = .ok (Value.equalItems xs ys)
  | [], [] | [], _ :: _ | _ :: _, [] => by rw [equalItems]; rfl
  | x :: xs, y :: ys => by
    rw [equalItems, Value.equalItems, equal_eq x y, equalItems_eq xs ys]
    cases x.equal y <;> rfl

theorem equalEntries_eq : ∀ xs ys : List (Bytes × Value),
    equalEntries xs ys = .ok (Value.equalEntries xs ys)
  | [], [] | [], _ :: _ | _ :: _, [] => by rw [equalEntries]; rfl
  | (k, x) :: xs, (l, y) :: ys => by
    rw [equalEntries, Value.equalEntries, equal_eq x y, equalEntries_eq xs ys]
    cases k == l <;> cases x.equal y <;> rfl

end

end Checked

end AccessControl
