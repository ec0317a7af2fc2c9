import AccessControl.Policy.Basic
import AccessControl.Run

/-!
# Checkers

A checker decides whether a policy fits an inquiry.  It says of what kind it is; the kind determines
the type of the policies that it looks at.
-/

namespace AccessControl

/-- The kinds of checkers. -/
inductive CheckerKind where
  | exact | fuzzy | regex | rules
  /-- A kind beyond these, which nothing in this library makes. -/
  | other (n : Fin 252)
  deriving DecidableEq, Repr

namespace CheckerKind

/-- The number of a kind, below 256. -/
def number : CheckerKind → Nat
  | exact => 0
  | fuzzy => 1
  | regex => 2
  | rules => 3
  | other n => n + 4

/-- The kind with a number. -/
def ofNumber (n : UInt8) : CheckerKind :=
  if h : 4 ≤ n.toNat then other (n.toFin.subNat 4 h)
  else
    match n.toNat with
    | 0 => exact
    | 1 => fuzzy
    | 2 => regex
    | _ => rules

/-- The name of a kind. -/
def name : CheckerKind → Bytes
  | exact => utf8 "exact"
  | fuzzy => utf8 "fuzzy"
  | regex => utf8 "regex"
  | rules => utf8 "rules"
  | other _ => utf8 "unknown"

/-- The kinds that have a name of their own. -/
def all : List CheckerKind := [exact, fuzzy, regex, rules]

/-- The kind with a name of its own. -/
def ofName? (text : Bytes) : Option CheckerKind := all.find? fun k => k.name == text

/-- The type of the policies that a checker looks at. -/
def family : CheckerKind → PolicyType
  | rules => .rule
  | _ => .pattern

end CheckerKind

/-- A checker in a world `σ`. -/
structure Checker (σ : Type) where
  kind : CheckerKind
  /-- Whether a policy fits an inquiry. -/
  fits : Policy → Inquiry → Run Failure σ Bool

end AccessControl
