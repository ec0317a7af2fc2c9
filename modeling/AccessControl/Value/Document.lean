import AccessControl.Document.Scalar

/-!
# Values in documents

`Value.toNode` writes a value as a node and `Value.ofNode` reads one.  A text that would be read as
another kind of value is written with a tag that makes it a text; a callable has no written form and
becomes null.
-/

namespace AccessControl.Value

/-- Whether a text needs a tag to stay a text. -/
def needsTextTag (s : Bytes) : Bool :=
  match Scalar.value s with
  | .string _ => false
  | _ => true

mutual

/-- The node for a value. -/
def toNode : Value → Node
  | .null => .null
  | .bool b => .plain (utf8 (if b then "true" else "false"))
  | .int i => .plain (Bytes.ofInt i.toInt)
  | .double d => .plain (Scalar.ofDouble d)
  | .string s => .scalar (if needsTextTag s then Node.textTag else []) s
  | .list items => .sequence (nodesOfItems items)
  | .map entries => .map (nodesOfEntries entries)
  | .thunk .. => .null
termination_by structural v => v

/-- The nodes for the items of a list. -/
def nodesOfItems : List Value → List Node
  | [] => []
  | v :: rest => v.toNode :: nodesOfItems rest
termination_by structural l => l

/-- The pairs of nodes for the entries of a map. -/
def nodesOfEntries : List (Bytes × Value) → List (Node × Node)
  | [] => []
  | (key, v) :: rest => (.plain key, v.toNode) :: nodesOfEntries rest
termination_by structural l => l

end

mutual

/-- The value that a node stands for. -/
def ofNode : Node → Except DocumentError Value
  | .null => .ok .null
  | .scalar tag text =>
    .ok (if tag == Node.quotedTag || tag == Node.textTag then .string text else Scalar.value text)
  | .sequence items => (ofItems items).map .list
  | .map entries => (ofEntries entries).map ofPairs
termination_by structural n => n

/-- The values of the items of a sequence. -/
def ofItems : List Node → Except DocumentError (List Value)
  | [] => .ok []
  | n :: rest => do
    let v ← ofNode n
    let vs ← ofItems rest
    return v :: vs
termination_by structural l => l

/-- The pairs of a map whose keys are all scalars, in their order. -/
def ofEntries : List (Node × Node) → Except DocumentError (List (Bytes × Value))
  | [] => .ok []
  | (k, n) :: rest =>
    match k with
    | .scalar _ key => do
      let v ← ofNode n
      let vs ← ofEntries rest
      return (key, v) :: vs
    | _ => .error .keyNotScalar
termination_by structural l => l

end

/-- The value of a document that may be missing. -/
def ofDocument (document : Option Node) : Except DocumentError Value :=
  match document with
  | none => .error .undefinedValue
  | some n => ofNode n

end AccessControl.Value
