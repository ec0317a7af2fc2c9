import AccessControl.Regex.Parser

/-!
# Matching

`Regex.run r path k c` matches `r` from the cursor `c` on and goes on with `k`; it answers with the
groups of the first success, trying the left of two alternatives first, a greedy repetition with one
more copy first and a lazy one without.

A cursor carries the groups captured so far and, for each repetition, where its body was last
entered: a repetition may enter its body at most twice at one place, so that a body which matches
nothing ends.  A repetition is known by its `path` in the tree, and each copy that a counted
repetition makes has a path of its own.  A look-ahead is matched as a text of its own that begins at
the cursor; what it captures stays captured, also where the match goes back past it.
-/

namespace AccessControl.Regex

/-- The texts of the groups, none for a group without a match. -/
abbrev Captures := List (Option Bytes)

/-- A place in a tree, from the inside out. -/
abbrev Path := List Nat

/-- A visit to a repetition: the place of the last entry and the number of entries there. -/
structure Visit where
  position : Nat
  count : Nat
  deriving Repr, DecidableEq

/-- A place in a text, with what has been noted on the way. -/
structure Cursor where
  /-- The byte in front, none at the beginning. -/
  before : Option UInt8 := none
  /-- The number of bytes passed. -/
  position : Nat := 0
  /-- The bytes ahead. -/
  rest : Bytes
  captures : Captures := []
  visits : List (Path × Visit) := []

/-- The groups of a match, or those left behind by a failure. -/
inductive Outcome where
  | matched (captures : Captures)
  | failed (captures : Captures)
  deriving Repr, DecidableEq

/-- How a match goes on. -/
abbrev Rest := Cursor → Outcome

namespace Outcome

/-- Another try after a failure. -/
def orElse (o : Outcome) (next : Captures → Outcome) : Outcome :=
  match o with
  | matched caps => matched caps
  | failed caps => next caps

/-- The outcome with a group reset if it is a failure. -/
def resetting (n : Nat) (old : Option Bytes) : Outcome → Outcome
  | matched caps => matched caps
  | failed caps => failed (caps.set (n - 1) old)

end Outcome

namespace Cursor

/-- No match from here on. -/
def fail (c : Cursor) : Outcome := .failed c.captures

/-- The cursor with the given groups. -/
def withCaptures (c : Cursor) (caps : Captures) : Cursor := { c with captures := caps }

/-- The text of a group. -/
def group? (c : Cursor) (n : Nat) : Option Bytes := c.captures[n - 1]?.join

/-- The cursor after the next `n` bytes. -/
def advance (c : Cursor) (n : Nat) : Cursor :=
  if n = 0 then c
  else { c with
    before := (c.rest.take n).getLast?
    position := c.position + n
    rest := c.rest.drop n }

/-- The cursor with the text since `start` as that of a group. -/
def capture (c : Cursor) (n : Nat) (start : Cursor) : Cursor :=
  c.withCaptures (c.captures.set (n - 1) (some (start.rest.take (c.position - start.position))))

/-- Whether a repetition may enter its body. -/
def mayEnter (c : Cursor) (path : Path) : Bool :=
  match c.visits.lookup path with
  | none => true
  | some v => v.position != c.position || decide (v.count < 2)

/-- The cursor within the body of a repetition. -/
def enter (c : Cursor) (path : Path) : Cursor :=
  let count := match c.visits.lookup path with
    | none => 1
    | some v => if v.position = c.position then v.count + 1 else 1
  { c with visits := (path, ⟨c.position, count⟩) :: c.visits.filter fun v => v.1 != path }

/-- Whether the cursor stands between a byte of words and another byte or an end. -/
def atWordBoundary (c : Cursor) : Bool :=
  c.before.any Ascii.isWord != c.rest.head?.any Ascii.isWord

/-- Whether no byte stands in front. -/
def atStart (c : Cursor) : Bool := c.before.isNone

end Cursor

/-- One byte that passes a test. -/
def consume (test : UInt8 → Bool) (k : Rest) (c : Cursor) : Outcome :=
  match c.rest with
  | b :: _ => if test b then k (c.advance 1) else c.fail
  | [] => c.fail

/-- Goes on where a condition holds. -/
def require (condition : Bool) (k : Rest) (c : Cursor) : Outcome :=
  if condition then k c else c.fail

/-- Into the body of a repetition or past it, greedily or lazily. -/
def branch (greedy : Bool) (path : Path) (body exit : Rest) (c : Cursor) : Outcome :=
  let entered (c : Cursor) : Outcome := if c.mayEnter path then body (c.enter path) else c.fail
  if greedy then (entered c).orElse fun caps => exit (c.withCaptures caps)
  else (exit c).orElse fun caps => entered (c.withCaptures caps)

/-- Any number of copies of a body; `fuel` bounds the number of entries. -/
def loop (greedy : Bool) (path : Path) (body : Rest → Rest) (exit : Rest) : Nat → Rest
  | 0, c => exit c
  | fuel + 1, c => branch greedy path (body (loop greedy path body exit fuel)) exit c

/-- A bound for the entries into one repetition: two at each place ahead. -/
def entries (c : Cursor) : Nat := 2 * (c.rest.length + 1)

/-- `count` copies of a body, numbered from `first` on. -/
def copies (body : Path → Rest → Rest) (path : Path) (first : Nat) : (count : Nat) → Rest → Rest
  | 0, k, c => k c
  | count + 1, k, c => body (first :: path) (copies body path (first + 1) count k) c

/-- Up to `count` copies of a body, numbered from `first` on. -/
def upTo (greedy : Bool) (body : Path → Rest → Rest) (path : Path) (first : Nat) :
    (count : Nat) → Rest → Rest
  | 0, k, c => k c
  | count + 1, k, c =>
    branch greedy (first :: path)
      (body (0 :: first :: path) (upTo greedy body path (first + 1) count k)) k c

/-- The groups after a look-ahead: its captures where it has some. -/
def merged (old new : Captures) : Captures := List.zipWith (fun o n => n.or o) old new

/-- Matches an expression from a cursor on. -/
def run : Regex → Path → Rest → Rest
  | .empty, _, k, c => k c
  | .byte b, _, k, c => consume (· == b) k c
  | .any, _, k, c => consume (fun b => b != '\n'.toUInt8 && b != '\r'.toUInt8) k c
  | .set s, _, k, c => consume s.contains k c
  | .seq r s, path, k, c => run r (0 :: path) (run s (1 :: path) k) c
  | .alt r s, path, k, c =>
    (run r (0 :: path) k c).orElse fun caps => run s (1 :: path) k (c.withCaptures caps)
  | .group n r, path, k, c =>
    run r (0 :: path) (fun d => (k (d.capture n c)).resetting n (d.group? n)) c
  | .backref n, _, k, c =>
    match c.group? n with
    | some t => require (t.isPrefixOf c.rest) (fun d => k (d.advance t.length)) c
    | none => c.fail
  | .lineStart, _, k, c => require c.atStart k c
  | .lineEnd, _, k, c => require c.rest.isEmpty k c
  | .wordBoundary negated, _, k, c => require (c.atWordBoundary != negated) k c
  | .look negated r, path, k, c =>
    match run r (0 :: path) (fun d => .matched d.captures) { c with before := none, visits := [] } with
    | .matched caps => require (!negated) k (c.withCaptures (merged c.captures caps))
    | .failed _ => require negated k c
  | .star greedy r, path, k, c => loop greedy path (run r (0 :: path)) k (entries c) c
  | .plus greedy r, path, k, c =>
    run r (0 :: path) (fun d => loop greedy path (run r (0 :: path)) k (entries d) d) c
  | .optional greedy r, path, k, c => branch greedy path (run r (0 :: path) k) k c
  | .counted least extra greedy r, path, k, c =>
    copies (run r) path 0 least (fun d =>
      match extra with
      | some n => upTo greedy (run r) path least n k d
      | none => loop greedy (least :: path) (run r (0 :: least :: path)) k (entries d) d) c
termination_by structural r => r

end AccessControl.Regex

namespace AccessControl

namespace Pattern

/-- The groups of the match of a whole text, none if it does not match. -/
def match? (p : Pattern) (subject : Bytes) : Option Regex.Captures :=
  let accept (c : Regex.Cursor) : Regex.Outcome :=
    if c.rest.isEmpty then .matched c.captures else c.fail
  match p.root.run [] accept { rest := subject, captures := List.replicate p.groups none } with
  | .matched caps => some caps
  | .failed _ => none

/-- Whether a whole text matches. -/
def accepts (p : Pattern) (subject : Bytes) : Bool := (p.match? subject).isSome

end Pattern

end AccessControl
