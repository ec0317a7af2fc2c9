import AccessControl.Text.Bytes

/-!
# Document nodes

A document is a tree of nodes: null, scalars (a text with a tag), sequences and maps.  A map is a
list of pairs of nodes, in which keys may repeat and need not be scalars.  A key is looked up by the
text of the first scalar key that has it (`Node.get?`).  A document that is not there at all is
`none` of `Option Node`, which is different from `Node.null`.
-/

namespace AccessControl

/-- A node of a document. -/
inductive Node where
  | null
  | scalar (tag text : Bytes)
  | sequence (items : List Node)
  | map (entries : List (Node × Node))

namespace Node

instance : Inhabited Node := ⟨.null⟩

/-- The tag of a scalar that was written in quotation marks. -/
def quotedTag : Bytes := utf8 "!"

/-- The tag that makes a scalar a text. -/
def textTag : Bytes := utf8 "tag:yaml.org,2002:str"

/-- A scalar without a tag. -/
def plain (text : Bytes) : Node := .scalar [] text

/-- Whether the node is a scalar with the text `key`. -/
def isKey (key : Bytes) : Node → Bool
  | .scalar _ text => text == key
  | _ => false

/-- The text of a scalar. -/
def scalar? : Node → Option Bytes
  | .scalar _ text => some text
  | _ => none

/-- The value of the first pair whose key has the text `key`. -/
def lookup (key : Bytes) (entries : List (Node × Node)) : Option Node :=
  (entries.find? fun e => e.1.isKey key).map Prod.snd

/-- The value under a key of a map. -/
def get? (key : Bytes) : Node → Option Node
  | .map entries => lookup key entries
  | _ => none

/-- The map with the given texts as keys. -/
def ofFields (fields : List (Bytes × Node)) : Node := .map (fields.map fun f => (plain f.1, f.2))

mutual

/-- Whether two nodes are the same tree. -/
def same : Node → Node → Bool
  | .null, .null => true
  | .scalar s a, .scalar t b => s == t && a == b
  | .sequence xs, .sequence ys => sameItems xs ys
  | .map xs, .map ys => sameEntries xs ys
  | _, _ => false
termination_by structural n => n

/-- Whether two lists of nodes are the same. -/
def sameItems : List Node → List Node → Bool
  | [], [] => true
  | x :: xs, y :: ys => same x y && sameItems xs ys
  | _, _ => false
termination_by structural l => l

/-- Whether two lists of pairs are the same. -/
def sameEntries : List (Node × Node) → List (Node × Node) → Bool
  | [], [] => true
  | (k, x) :: xs, (l, y) :: ys => same k l && same x y && sameEntries xs ys
  | _, _ => false
termination_by structural l => l

end

end Node

end AccessControl
