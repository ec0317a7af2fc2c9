import AccessControl.Text.Bytes

/-!
# Changes of a store

What a store tells its listeners after it has changed.
-/

namespace AccessControl

/-- The kinds of changes. -/
inductive ChangeKind where
  | added | updated | removed
  deriving DecidableEq, Repr

namespace ChangeKind

/-- The kinds in the order of their numbers. -/
def all : List ChangeKind := [added, updated, removed]

/-- The name of a kind. -/
def name : ChangeKind → Bytes
  | added => utf8 "added"
  | updated => utf8 "updated"
  | removed => utf8 "removed"

/-- The name of the kind with a number, `unknown` for any other number. -/
def nameOfNumber (n : Nat) : Bytes := all[n]?.elim (utf8 "unknown") name

end ChangeKind

/-- A change of the policy with an identifier. -/
structure PolicyChange where
  kind : ChangeKind
  uid : Bytes
  deriving DecidableEq, Repr

end AccessControl
