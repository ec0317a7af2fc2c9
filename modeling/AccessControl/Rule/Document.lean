import AccessControl.Rule.Basic

/-!
# Rules in documents

A rule is written as a map with its kind under `type` and its arguments under other keys
(`Rule.toNode`), missing operands being left out.  A `RuleRegistry` reads such maps: a kind may be
given a fixed rule in place of its usual reading, and further kinds may be defined in this way.
-/

namespace AccessControl

namespace Rule

/-- The map of a kind and its arguments. -/
def node (kind : RuleKind) (arguments : List (Bytes × Node)) : Node :=
  .ofFields ((utf8 "type", .plain kind.name) :: arguments)

mutual

/-- The document of a rule. -/
def toNode : Rule → Node
  | .compare op operand => node (.compare op) [(utf8 "value", operand.toNode)]
  | .truth expected => node (.truth expected) []
  | .text test operand ignoreCase =>
    node (.text test) [(utf8 "value", (Value.string operand).toNode),
      (utf8 "ci", (Value.bool ignoreCase).toNode)]
  | .regex pattern => node .regex [(utf8 "value", (Value.string pattern.source).toNode)]
  | .pairsEqual => node .pairsEqual []
  | .list test items => node (.list test) [(utf8 "values", (Value.list items).toNode)]
  | .cidr block => node .cidr [(utf8 "cidr", (Value.string block).toNode)]
  | .inquiry which none => node (.inquiry which) []
  | .inquiry which (some f) => node (.inquiry which) [(utf8 "field", (Value.string f).toNode)]
  | .and rules => node .and [(utf8 "rules", .sequence (nodesOf rules))]
  | .or rules => node .or [(utf8 "rules", .sequence (nodesOf rules))]
  | .not none => node .not []
  | .not (some r) => node .not [(utf8 "rule", r.toNode)]
  | .any => node .any []
  | .neither => node .neither []
termination_by structural r => r

/-- The documents of the rules that are there. -/
def nodesOf : List (Option Rule) → List Node
  | [] => []
  | none :: rest => nodesOf rest
  | some r :: rest => r.toNode :: nodesOf rest
termination_by structural l => l

end

/-- The document of a rule that may be missing. -/
def documentOf : Option Rule → Node
  | none => .null
  | some r => r.toNode

/-! ### Arguments -/

/-- The value of a required argument. -/
def valueArgument (key : Bytes) (arguments : List (Node × Node)) : Except DocumentError Value :=
  match Node.lookup key arguments with
  | none => .error (.missingArgument key)
  | some n => Value.ofNode n

/-- The text of a required argument. -/
def textArgument (key : Bytes) (arguments : List (Node × Node)) : Except DocumentError Bytes := do
  match ← valueArgument key arguments with
  | .string s => .ok s
  | _ => .error (.notString key)

/-- The items of a required argument. -/
def listArgument (key : Bytes) (arguments : List (Node × Node)) :
    Except DocumentError (List Value) := do
  match ← valueArgument key arguments with
  | .list items => .ok items
  | _ => .error (.notSequence key)

/-- The boolean of an argument, `false` if it is missing or null. -/
def flagArgument (key : Bytes) (arguments : List (Node × Node)) : Except DocumentError Bool :=
  match Node.lookup key arguments with
  | none | some .null => .ok false
  | some n =>
    match Value.ofNode n with
    | .ok (.bool b) => .ok b
    | _ => .error (.notBoolean key)

/-- The text of an argument that may be missing or null. -/
def optionalTextArgument (key : Bytes) (arguments : List (Node × Node)) :
    Except DocumentError (Option Bytes) :=
  match Node.lookup key arguments with
  | none | some .null => .ok none
  | some _ => (textArgument key arguments).map some

/-- The rule of a kind with its arguments; `rules` and `rule` are what the arguments of these names
are read as. -/
def ofArguments (kind : RuleKind) (arguments : List (Node × Node))
    (rules : Except DocumentError (List (Option Rule))) (rule : Except DocumentError (Option Rule)) :
    Except DocumentError Rule :=
  match kind with
  | .compare op => (valueArgument (utf8 "value") arguments).map (.compare op)
  | .truth expected => .ok (.truth expected)
  | .text test => do
    let operand ← textArgument (utf8 "value") arguments
    let ignoreCase ← flagArgument (utf8 "ci") arguments
    return .text test operand ignoreCase
  | .regex => do
    let source ← textArgument (utf8 "value") arguments
    match Pattern.ofSource? source with
    | some pattern => .ok (.regex pattern)
    | none => .error (.invalidRegex source)
  | .pairsEqual => .ok .pairsEqual
  | .list test => (listArgument (utf8 "values") arguments).map (.list test)
  | .cidr => (textArgument (utf8 "cidr") arguments).map .cidr
  | .inquiry which => (optionalTextArgument (utf8 "field") arguments).map (.inquiry which)
  | .and => rules.map .and
  | .or => rules.map .or
  | .not => rule.map .not
  | .any => .ok .any
  | .neither => .ok .neither

end Rule

/-- The rules that stand for kinds in place of the usual reading, the last definition first. -/
structure RuleRegistry where
  defined : List (Bytes × Option Rule) := []

namespace RuleRegistry

/-- The registry that reads every kind in the usual way. -/
def builtin : RuleRegistry := {}

/-- The registry with a rule for a kind. -/
def define (registry : RuleRegistry) (tag : Bytes) (rule : Option Rule) : RuleRegistry :=
  ⟨(tag, rule) :: registry.defined⟩

/-- How a kind is read. -/
inductive Reading where
  | fixed (rule : Option Rule)
  | arguments (kind : RuleKind)

/-- How the kind with a name is read. -/
def reading? (registry : RuleRegistry) (tag : Bytes) : Option Reading :=
  match registry.defined.lookup tag with
  | some rule => some (.fixed rule)
  | none => (RuleKind.ofName? tag).map .arguments

/-- Whether a kind is known. -/
def contains (registry : RuleRegistry) (tag : Bytes) : Bool := (registry.reading? tag).isSome

/-- The kind that a map names. -/
def kindOf (entries : List (Node × Node)) : Except DocumentError Bytes :=
  match Node.lookup (utf8 "type") entries with
  | some (.scalar _ tag) => .ok tag
  | _ => .error .ruleWithoutType

/-- Whether a document is a map that names a known kind. -/
def isRule (registry : RuleRegistry) : Node → Bool
  | .map entries =>
    match kindOf entries with
    | .ok tag => registry.contains tag
    | .error _ => false
  | _ => false

mutual

/-- The rule that a document describes. -/
def decode (registry : RuleRegistry) : Node → Except DocumentError (Option Rule)
  | .map entries =>
    match kindOf entries with
    | .error e => .error e
    | .ok tag =>
      match registry.reading? tag with
      | none => .error (.unknownRule tag)
      | some (.fixed rule) => .ok rule
      | some (.arguments kind) =>
        (Rule.ofArguments kind entries (decodeRules registry entries)
          (decodeRule registry entries)).map some
  | _ => .error .ruleNotMap
termination_by structural n => n

/-- The rules under `rules`, none if it is missing or null. -/
def decodeRules (registry : RuleRegistry) :
    List (Node × Node) → Except DocumentError (List (Option Rule))
  | [] => .ok []
  | (k, n) :: rest =>
    if k.isKey (utf8 "rules") then
      match n with
      | .null => .ok []
      | .sequence items => decodeItems registry items
      | _ => .error (.notSequence (utf8 "rules"))
    else decodeRules registry rest
termination_by structural l => l

/-- The rule under `rule`. -/
def decodeRule (registry : RuleRegistry) : List (Node × Node) → Except DocumentError (Option Rule)
  | [] => .error (.missingArgument (utf8 "rule"))
  | (k, n) :: rest =>
    if k.isKey (utf8 "rule") then decode registry n else decodeRule registry rest
termination_by structural l => l

/-- The rules of a sequence. -/
def decodeItems (registry : RuleRegistry) : List Node → Except DocumentError (List (Option Rule))
  | [] => .ok []
  | n :: rest => do
    let r ← decode registry n
    let rs ← decodeItems registry rest
    return r :: rs
termination_by structural l => l

end

end RuleRegistry

end AccessControl
