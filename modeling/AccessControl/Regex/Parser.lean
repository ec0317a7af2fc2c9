import AccessControl.Regex.Size
import AccessControl.Regex.Token

/-!
# Reading regular expressions

The tree of a regular expression is built from its tokens from left to right.  A `Frame` holds what
has been read of one parenthesis; `Builder.step` takes one token.  A repetition needs something in
front of it that is not an assertion, and a reference must be to a group that is closed.  `read?`
reads expressions of any size and `parse?` those within the limit of `Regex.isSmall`.  A `Pattern` is
a text together with its tree.
-/

namespace AccessControl.Regex

/-- What an open parenthesis is for. -/
inductive FrameKind where
  | plain
  | group (number : Nat)
  | look (negated : Bool)
  deriving Repr, DecidableEq

/-- What has been read of a parenthesis, or of the whole expression. -/
structure Frame where
  kind : FrameKind := .plain
  /-- The alternatives in front of the last bar. -/
  done : Option Regex := none
  /-- The terms behind it, the last one first. -/
  terms : List Regex := []
  /-- Whether the last term may be repeated. -/
  repeatable : Bool := false

namespace Frame

/-- The expression read so far. -/
def regex (f : Frame) : Regex :=
  let last := sequence f.terms.reverse
  match f.done with
  | none => last
  | some r => .alt r last

/-- The frame with a further term. -/
def push (f : Frame) (r : Regex) (repeatable : Bool) : Frame :=
  { f with terms := r :: f.terms, repeatable := repeatable }

/-- The frame with its last term repeated. -/
def repeated? (f : Frame) (q : Quantifier) (greedy : Bool) : Option Frame :=
  match f.terms with
  | r :: rest => if f.repeatable then some { f with terms := q.apply greedy r :: rest } else none
  | [] => none

/-- The frame at the start of a further alternative. -/
def bar (f : Frame) : Frame := { f with done := some f.regex, terms := [], repeatable := false }

/-- The term that a closed parenthesis is, and whether it may be repeated.  One that does not capture
has an empty term at its front. -/
def closed (f : Frame) : Regex × Bool :=
  match f.kind with
  | .plain => (.seq .empty f.regex, true)
  | .group n => (.group n f.regex, true)
  | .look negated => (.look negated f.regex, false)

end Frame

/-- What has been read of an expression. -/
structure Builder where
  /-- The innermost open parenthesis. -/
  top : Frame := {}
  /-- Those around it. -/
  outer : List Frame := []
  /-- The number of groups opened. -/
  groups : Nat := 0

namespace Builder

/-- Whether the group with a number is open. -/
def isOpen (b : Builder) (n : Nat) : Bool := (b.top :: b.outer).any fun f => f.kind == .group n

/-- The builder within a new parenthesis. -/
def opened (b : Builder) (kind : FrameKind) (groups : Nat) : Builder :=
  ⟨{ kind := kind }, b.top :: b.outer, groups⟩

/-- The builder with a further term. -/
def push (b : Builder) (r : Regex) (repeatable : Bool := true) : Builder :=
  { b with top := b.top.push r repeatable }

/-- The builder after a token; none if the token cannot stand here. -/
def step (b : Builder) : Token → Option Builder
  | .byte c => some (b.push (.byte c))
  | .any => some (b.push .any)
  | .set s => some (b.push (.set s))
  | .backref n =>
    if n ≤ b.groups && !b.isOpen n then some (b.push (.backref n)) else none
  | .lineStart => some (b.push .lineStart false)
  | .lineEnd => some (b.push .lineEnd false)
  | .wordBoundary negated => some (b.push (.wordBoundary negated) false)
  | .quantifier q greedy => (b.top.repeated? q greedy).map fun top => { b with top := top }
  | .bar => some { b with top := b.top.bar }
  | .openGroup => some (b.opened (.group (b.groups + 1)) (b.groups + 1))
  | .openPlain => some (b.opened .plain b.groups)
  | .openLook negated => some (b.opened (.look negated) b.groups)
  | .close =>
    match b.outer with
    | [] => none
    | f :: rest =>
      let (r, repeatable) := b.top.closed
      some ⟨f.push r repeatable, rest, b.groups⟩

/-- The builder after a row of tokens. -/
def run (b : Builder) (tokens : List Token) : Option Builder := tokens.foldlM step b

/-- The whole expression with the number of its groups, if every parenthesis is closed. -/
def finish? (b : Builder) : Option (Regex × Nat) :=
  if b.outer.isEmpty then some (b.top.regex, b.groups) else none

end Builder

/-- The tree of a regular expression of any size and the number of its groups. -/
def read? (source : Bytes) : Option (Regex × Nat) := do
  let tokens ← tokens? source
  let b ← Builder.run {} tokens
  b.finish?

/-- The tree of a regular expression within the limit and the number of its groups. -/
def parse? (source : Bytes) : Option (Regex × Nat) := (read? source).filter fun p => p.1.isSmall

end AccessControl.Regex

namespace AccessControl

/-- A text that is a regular expression, with its tree. -/
structure Pattern where
  source : Bytes
  root : Regex
  groups : Nat
  parsed : Regex.parse? source = some (root, groups)

/-- The pattern of a text, if it is a regular expression. -/
def Pattern.ofSource? (source : Bytes) : Option Pattern :=
  match h : Regex.parse? source with
  | some (root, groups) => some ⟨source, root, groups, h⟩
  | none => none

end AccessControl
