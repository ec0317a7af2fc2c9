import AccessControl.Error

/-!
# Splitting templates

A template is literal text with holes between a start and an end tag, each a single byte.  Tags
within a hole may nest, and only the outermost pair delimits it; if both tags are the same byte they
open and close in turn.  `Scan.of` splits a template into its closed holes, each with the literal
in front of it, and what is behind the last of them: a literal, or the tag that does not fit.
-/

namespace AccessControl.Template

/-- A template split at its holes. -/
structure Scan where
  /-- The literals in front of the holes and the holes. -/
  pieces : List (Bytes × Bytes)
  /-- The literal behind the last hole, or why there is none. -/
  tail : Except TemplateError Bytes

namespace Scan

/-- The split with a further hole in front. -/
def cons (literal inner : Bytes) (s : Scan) : Scan := { s with pieces := (literal, inner) :: s.pieces }

/-- The split of the rest of a template, from `position` on, within `depth` open tags; `literal`
and `inner` are the texts read so far in front of and within the open hole. -/
def run (start stop : UInt8) (position depth : Nat) (literal inner : Bytes) : Bytes → Scan
  | [] => ⟨[], if depth = 0 then .ok literal else .error (.neverClosed start)⟩
  | b :: rest =>
    if b = start ∧ (start ≠ stop ∨ depth = 0) then
      match depth with
      | 0 => run start stop (position + 1) 1 literal [] rest
      | d + 1 => run start stop (position + 1) (d + 2) literal (inner ++ [b]) rest
    else if b = stop then
      match depth with
      | 0 => ⟨[], .error (.strayEnd stop position)⟩
      | 1 => (run start stop (position + 1) 0 [] [] rest).cons literal inner
      | d + 2 => run start stop (position + 1) (d + 1) literal (inner ++ [b]) rest
    else if depth = 0 then run start stop (position + 1) 0 (literal ++ [b]) inner rest
    else run start stop (position + 1) depth literal (inner ++ [b]) rest

/-- The split of a template. -/
def of (template : Bytes) (start stop : UInt8) : Scan := run start stop 0 0 [] [] template

/-- The texts of the holes. -/
def holes (s : Scan) : List Bytes := s.pieces.map Prod.snd

end Scan

end AccessControl.Template
