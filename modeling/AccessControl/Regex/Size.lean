import AccessControl.Regex.Syntax

/-!
# The size of regular expressions

An expression is as large as the automaton made of it: `states` counts those of one copy, and
`built` all that are made on the way.  The two differ by counted repetitions, whose body is made
once as a pattern for the copies and then laid aside.  `isSmall` is the limit for whole expressions.
-/

namespace AccessControl.Regex

/-- The number of states of a counted repetition of a body with `body` states: an entry, the copies
that are required, and then a loop over one more copy or, in front of an exit, one choice for each
of the copies that are not required. -/
def countedStates (least : Nat) (extra : Option Nat) (body : Nat) : Nat :=
  1 + least * body +
    match extra with
    | none => body + 1
    | some n => n * (body + 1) + 1

/-- The number of states of one copy of an expression. -/
def states : Regex → Nat
  | .empty | .byte _ | .any | .set _ | .backref _ | .lineStart | .lineEnd | .wordBoundary _ => 1
  | .seq r s => r.states + s.states
  | .alt r s => r.states + s.states + 2
  | .group _ r | .look _ r | .optional _ r => r.states + 2
  | .star _ r | .plus _ r => r.states + 1
  | .counted least extra _ r => countedStates least extra r.states

/-- The number of states made for an expression. -/
def built : Regex → Nat
  | .empty | .byte _ | .any | .set _ | .backref _ | .lineStart | .lineEnd | .wordBoundary _ => 1
  | .seq r s => r.built + s.built
  | .alt r s => r.built + s.built + 2
  | .group _ r | .look _ r | .optional _ r => r.built + 2
  | .star _ r | .plus _ r => r.built + 1
  | .counted least extra _ r => r.built + countedStates least extra r.states

/-- The greatest number of states of an automaton. -/
def maxStates : Nat := 100000

/-- Whether a whole expression is within the limit, with three states for its start, its end and
success. -/
def isSmall (r : Regex) : Bool := decide (r.built + 3 ≤ maxStates)

end AccessControl.Regex
