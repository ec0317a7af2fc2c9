import AccessControl.Value.Document
import AccessControl.Value.Hash

/-!
# Inquiries

An inquiry asks whether a subject may do an action to a resource in a context.  Two inquiries are
equal if their parts are; equal inquiries have one hash code as far as their values have.
-/

namespace AccessControl

/-- A question to be decided. -/
structure Inquiry where
  subject : Value := .string []
  resource : Value := .string []
  action : Value := .string []
  context : Dict Value := Keyed.empty

namespace Inquiry

/-- Whether two inquiries are equal. -/
def equal (a b : Inquiry) : Bool :=
  a.subject == b.subject && a.resource == b.resource && a.action == b.action &&
    Value.equalEntries a.context.toList b.context.toList

instance : BEq Inquiry := ⟨equal⟩

/-- The hash code of an inquiry. -/
def hash (H : HashFamily) (q : Inquiry) : UInt64 :=
  let seed := HashFamily.combine (HashFamily.combine (q.subject.hash H) (q.resource.hash H))
    (q.action.hash H)
  Value.hashEntries H q.context.toList seed

/-- The context as a value. -/
def contextValue (q : Inquiry) : Value := .map q.context.toList

/-- The text of an inquiry in logs. -/
def text (q : Inquiry) : Bytes :=
  utf8 "subject=" ++ q.subject.text ++ utf8 " resource=" ++ q.resource.text ++
    utf8 " action=" ++ q.action.text ++ utf8 " context=" ++ q.contextValue.text

/-- The document of an inquiry. -/
def toNode (q : Inquiry) : Node :=
  .ofFields [(utf8 "subject", q.subject.toNode), (utf8 "resource", q.resource.toNode),
    (utf8 "action", q.action.toNode), (utf8 "context", q.contextValue.toNode)]

/-- The value of an attribute in a document; the empty text if it is missing. -/
def attributeOf (document : Option Node) : Except DocumentError Value :=
  match document with
  | none => .ok (.string [])
  | some n => Value.ofNode n

/-- The context in a document; the empty one if it is missing or null. -/
def contextOf (document : Option Node) : Except DocumentError (Dict Value) :=
  match document with
  | none | some .null => .ok Keyed.empty
  | some (.map entries) => (Value.ofEntries entries).map Dict.ofPairs
  | some n =>
    match Value.ofNode n with
    | .error e => .error e
    | .ok _ => .error .inquiryContextNotMap

/-- The inquiry that a document describes. -/
def ofDocument (document : Option Node) : Except DocumentError Inquiry :=
  match document with
  | some (.map entries) => do
    let subject ← attributeOf (Node.lookup (utf8 "subject") entries)
    let resource ← attributeOf (Node.lookup (utf8 "resource") entries)
    let action ← attributeOf (Node.lookup (utf8 "action") entries)
    let context ← contextOf (Node.lookup (utf8 "context") entries)
    return { subject, resource, action, context }
  | _ => .error .inquiryNotMap

end Inquiry

end AccessControl
