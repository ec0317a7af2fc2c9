import AccessControl.Regex.ByteSet

/-!
# Regular expressions

The tree of a regular expression.  Groups that capture carry their number, counted by their opening
parentheses from one; a counted repetition stands for so many copies of its body, each with the
same groups.  Such a tree is read by `Regex.parse?` and run by `Regex.run`.
-/

namespace AccessControl

/-- A regular expression on bytes. -/
inductive Regex where
  | empty
  | byte (b : UInt8)
  /-- Any byte that does not end a line. -/
  | any
  | set (s : Regex.ByteSet)
  | seq (r s : Regex)
  | alt (r s : Regex)
  | group (number : Nat) (r : Regex)
  | backref (number : Nat)
  | lineStart
  | lineEnd
  | wordBoundary (negated : Bool)
  | look (negated : Bool) (r : Regex)
  | star (greedy : Bool) (r : Regex)
  | plus (greedy : Bool) (r : Regex)
  | optional (greedy : Bool) (r : Regex)
  /-- `least` copies, and up to `extra` more, or any number more. -/
  | counted (least : Nat) (extra : Option Nat) (greedy : Bool) (r : Regex)
  deriving Repr, DecidableEq

namespace Regex

instance : Inhabited Regex := ⟨.empty⟩

/-- How often something is repeated. -/
inductive Quantifier where
  | star
  | plus
  | optional
  | counted (least : Nat) (extra : Option Nat)
  deriving Repr, DecidableEq

/-- The repetition of an expression. -/
def Quantifier.apply (greedy : Bool) (r : Regex) : Quantifier → Regex
  | star => .star greedy r
  | plus => .plus greedy r
  | optional => .optional greedy r
  | counted least extra => .counted least extra greedy r

/-- The sequence of expressions. -/
def sequence (terms : List Regex) : Regex := terms.foldr .seq .empty

end Regex

end AccessControl
