import AccessControl.Number.Binary64

/-!
# Statistics of decisions

How many decisions were made, and how many of them allowed, denied and failed.  A failed decision
is also a denied one.
-/

namespace AccessControl

/-- Counters of decisions. -/
structure DecisionStats where
  total : Nat := 0
  allowed : Nat := 0
  denied : Nat := 0
  failed : Nat := 0
  deriving DecidableEq, Repr

namespace DecisionStats

/-- The counters after a further decision. -/
def count (s : DecisionStats) (allowed failed : Bool) : DecisionStats where
  total := s.total + 1
  allowed := if allowed then s.allowed + 1 else s.allowed
  denied := if allowed then s.denied else s.denied + 1
  failed := if failed then s.failed + 1 else s.failed

/-- The part of the decisions that denied, zero without decisions. -/
def denyRate (s : DecisionStats) : Binary64 :=
  if s.total = 0 then .zero false else .ofRatio false s.denied s.total

end DecisionStats

end AccessControl
