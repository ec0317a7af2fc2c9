import AccessControl.Policy.Basic
import AccessControl.Rule.Document

/-!
# Policies in documents

`Policy.toNode` writes a policy as a map and `Policy.ofDocument` reads one.  A scalar among the
conditions is a pattern, a map that names a known kind of rule is that rule, and any other map gives
rules for fields.  Where only a rule can stand, anything that is no rule stands for equality with
its value.
-/

namespace AccessControl

namespace Policy

/-- The document of a condition. -/
def Condition.toNode : Condition → Node
  | pattern p => .plain p
  | rule r => Rule.documentOf r
  | fields rules => .ofFields (rules.map Rule.documentOf).toList

/-- The document of a policy. -/
def toNode (p : Policy) : Node :=
  let conditions := p.conditions.map Condition.toNode
  .ofFields
    [(utf8 "uid", .plain p.uid), (utf8 "description", .plain p.description),
      (utf8 "effect", .plain p.effect.name), (utf8 "type", .plain p.type.name),
      (utf8 "subjects", .sequence conditions.subjects),
      (utf8 "resources", .sequence conditions.resources),
      (utf8 "actions", .sequence conditions.actions),
      (utf8 "context", .ofFields (p.context.map Rule.toNode).toList),
      (utf8 "start_tag", .plain [p.startTag]), (utf8 "end_tag", .plain [p.endTag])]

/-! ### Reading -/

/-- The rule that a document describes, or equality with its value. -/
def ruleOrLiteral (registry : RuleRegistry) (n : Node) : Except DocumentError (Option Rule) :=
  if registry.isRule n then registry.decode n
  else (Value.ofNode n).map fun v => some (.compare .eq v)

/-- The rules under the keys of a map; `keyFault` is what is wrong if a key is no scalar. -/
def rulesOf (registry : RuleRegistry) (keyFault : DocumentError) :
    List (Node × Node) → Except DocumentError (List (Bytes × Option Rule))
  | [] => .ok []
  | (.scalar _ key, n) :: rest => do
    let r ← ruleOrLiteral registry n
    let rs ← rulesOf registry keyFault rest
    return (key, r) :: rs
  | _ => .error keyFault

/-- The condition that a document describes. -/
def conditionOf (registry : RuleRegistry) (field : Bytes) (n : Node) :
    Except DocumentError Condition :=
  match n with
  | .scalar _ text => .ok (.pattern text)
  | .map entries =>
    if registry.isRule n then (registry.decode n).map .rule
    else (rulesOf registry (.fieldKeyNotScalar field) entries).map fun rules =>
      .fields (.ofPairs rules)
  | _ => .error (.fieldElement field)

/-- The conditions under a key, none if it is missing or null. -/
def conditionsOf (registry : RuleRegistry) (field : Bytes) (entries : List (Node × Node)) :
    Except DocumentError (List Condition) :=
  match Node.lookup field entries with
  | none | some .null => .ok []
  | some (.sequence items) => items.mapM (conditionOf registry field)
  | some _ => .error (.fieldNotSequence field)

/-- The text under a key, empty if no scalar is there. -/
def scalarOf (key : Bytes) (entries : List (Node × Node)) : Bytes :=
  ((Node.lookup key entries).bind Node.scalar?).getD []

/-- The effect in the document of the policy `uid`; it denies if none is given. -/
def effectOf (uid : Bytes) (entries : List (Node × Node)) : Except DocumentError Effect :=
  match Node.lookup (utf8 "effect") entries with
  | none | some .null => .ok .deny
  | some n =>
    match n.scalar?.bind Effect.ofName? with
    | some e => .ok e
    | none => .error (.invalidEffect uid)

/-- The rules for the context in the document of the policy `uid`. -/
def contextOf (registry : RuleRegistry) (uid : Bytes) (entries : List (Node × Node)) :
    Except DocumentError (Dict (Option Rule)) :=
  match Node.lookup (utf8 "context") entries with
  | none | some .null => .ok {}
  | some (.map rules) => (rulesOf registry (.contextKeyNotScalar uid) rules).map .ofPairs
  | some _ => .error (.contextNotMap uid)

/-- The tag under a key, `usual` if it is missing or null. -/
def tagOf (key : Bytes) (usual : UInt8) (entries : List (Node × Node)) :
    Except DocumentError UInt8 :=
  match Node.lookup key entries with
  | none | some .null => .ok usual
  | some (.scalar _ [tag]) => .ok tag
  | some _ => .error (.tagNotByte key)

/-- The definition that a document gives. -/
def definitionOf (registry : RuleRegistry) (entries : List (Node × Node)) :
    Except DocumentError Definition := do
  let uid := scalarOf (utf8 "uid") entries
  let effect ← effectOf uid entries
  let subjects ← conditionsOf registry (utf8 "subjects") entries
  let resources ← conditionsOf registry (utf8 "resources") entries
  let actions ← conditionsOf registry (utf8 "actions") entries
  let context ← contextOf registry uid entries
  let startTag ← tagOf (utf8 "start_tag") '<'.toUInt8 entries
  let endTag ← tagOf (utf8 "end_tag") '>'.toUInt8 entries
  return {
    subjects, resources, actions, uid, effect, context, startTag, endTag
    description := scalarOf (utf8 "description") entries }

/-- The policy that a document describes.  The type that it declares has to be that of its
conditions. -/
def ofDocument (registry : RuleRegistry) (document : Option Node) : Except PolicyError Policy :=
  match document with
  | some (.map entries) => do
    let p ← create (← (definitionOf registry entries).mapError .document)
    match Node.lookup (utf8 "type") entries with
    | some (.scalar _ declared) =>
      if declared = p.type.name then return p
      else throw (.document (.typeMismatch declared p.type.name p.uid))
    | _ => return p
  | _ => .error (.document .policyNotMap)

end Policy

end AccessControl
