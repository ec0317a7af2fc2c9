import AccessControl.Regex.Match
import AccessControl.Template.Scan

/-!
# Compiled templates

`Template.compile` makes a pattern of a template: the literals stand for themselves, each hole is a
regular expression in a group of its own, and the pattern matches whole texts only.  A
`CompiledTemplate` tells whether a text matches (`accepts`) and which parts of it the holes matched
(`capture?`).
-/

namespace AccessControl

/-- A template as a pattern. -/
structure CompiledTemplate where
  pattern : Pattern
  /-- The texts of the holes. -/
  holes : List Bytes
  /-- The numbers of the groups of the holes. -/
  holeGroups : List Nat

namespace CompiledTemplate

/-- The text of the pattern. -/
def source (t : CompiledTemplate) : Bytes := t.pattern.source

/-- Whether a text matches. -/
def accepts (t : CompiledTemplate) (subject : Bytes) : Bool := t.pattern.accepts subject

/-- The texts that the holes matched, none if the text does not match. -/
def capture? (t : CompiledTemplate) (subject : Bytes) : Option (List Bytes) :=
  (t.pattern.match? subject).map fun caps =>
    t.holeGroups.map fun n => (caps[n - 1]?.join).getD []

end CompiledTemplate

namespace Template

/-- The bytes that mean something else in a regular expression, and the slash. -/
def specials : Bytes := utf8 "\\^$.|?*+()[]\x7b\x7d/"

/-- A literal as a regular expression. -/
def escaped (literal : Bytes) : Bytes :=
  literal.flatMap fun b => if specials.contains b then ['\\'.toUInt8, b] else [b]

/-- The regular expression of a template: the pieces in front of its holes, the holes in
parentheses and the tail, between the anchors. -/
def sourceOf (pieces : List (Bytes × Bytes)) (tail : Bytes) : Bytes :=
  utf8 "^" ++ pieces.flatMap (fun p => escaped p.1 ++ utf8 "(" ++ p.2 ++ utf8 ")") ++ escaped tail ++
    utf8 "$"

/-- The numbers of the groups within the holes, or the first hole that is no regular expression. -/
def innerGroups : List Bytes → Except TemplateError (List Nat)
  | [] => .ok []
  | hole :: rest =>
    match Regex.parse? hole with
    | none => .error (.invalidHole hole)
    | some (_, groups) => (innerGroups rest).map (groups :: ·)

/-- The numbers of the groups of the holes, when the first is `next` and the holes have so many
groups within. -/
def groupNumbers (next : Nat) : List Nat → List Nat
  | [] => []
  | inner :: rest => next :: groupNumbers (next + 1 + inner) rest

/-- The pattern of a template.  Of several faults the leftmost is reported, a hole that is no
regular expression being one at its end. -/
def compile (template : Bytes) (start stop : UInt8) : Except TemplateError CompiledTemplate := do
  let scan := Scan.of template start stop
  let inner ← innerGroups scan.holes
  let tail ← scan.tail
  match Pattern.ofSource? (sourceOf scan.pieces tail) with
  | some pattern => .ok ⟨pattern, scan.holes, groupNumbers 1 inner⟩
  | none => .error .invalidPattern

end Template

end AccessControl
