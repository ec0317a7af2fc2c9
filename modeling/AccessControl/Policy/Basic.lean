import AccessControl.Rule.Basic

/-!
# Policies

A policy allows or denies what fits its conditions on the subject, the resource and the action of an
inquiry and its rules on the context.  The conditions of a policy are either all patterns or all
rules (`Policy.Body`); a policy without conditions counts as one of patterns.  `Policy.create` makes
a policy of a `Policy.Definition`, in which anything may stand, and `Policy.definition` is the
definition of a policy.
-/

namespace AccessControl

/-- What a policy does to an inquiry that fits it. -/
inductive Effect where
  | deny | allow
  deriving DecidableEq, Repr

namespace Effect

/-- The effect with a number; every number but 1 denies. -/
def ofNumber (n : Nat) : Effect := if n = 1 then allow else deny

/-- The name of an effect. -/
def name : Effect → Bytes
  | allow => utf8 "allow"
  | deny => utf8 "deny"

/-- The effect with a name, in letters of either case. -/
def ofName? (text : Bytes) : Option Effect :=
  [allow, deny].find? fun e => e.name == Ascii.lowered text

end Effect

/-- What the conditions of a policy are. -/
inductive PolicyType where
  | pattern | rule
  deriving DecidableEq, Repr

namespace PolicyType

/-- The type with a number; every number but 1 stands for patterns. -/
def ofNumber (n : Nat) : PolicyType := if n = 1 then rule else pattern

/-- The name of a type. -/
def name : PolicyType → Bytes
  | pattern => utf8 "string"
  | rule => utf8 "rule"

end PolicyType

/-- Something for each of the three attributes of an inquiry. -/
structure Targets (α : Type) where
  subjects : List α := []
  resources : List α := []
  actions : List α := []

namespace Targets

variable {α β : Type}

/-- The parts of all three. -/
def all (t : Targets α) : List α := t.subjects ++ t.resources ++ t.actions

/-- The images of the parts. -/
def map (f : α → β) (t : Targets α) : Targets β :=
  ⟨t.subjects.map f, t.resources.map f, t.actions.map f⟩

/-- The images of the parts that have one. -/
def filterMap (f : α → Option β) (t : Targets α) : Targets β :=
  ⟨t.subjects.filterMap f, t.resources.filterMap f, t.actions.filterMap f⟩

end Targets

namespace Policy

/-- A condition of a definition. -/
inductive Condition where
  | pattern (text : Bytes)
  /-- A rule for the whole attribute. -/
  | rule (rule : Option Rule)
  /-- Rules for fields of the attribute. -/
  | fields (rules : Dict (Option Rule))

/-- A condition of a policy of rules. -/
inductive RuleCondition where
  /-- A rule for the whole attribute. -/
  | rule (rule : Rule)
  /-- Rules for fields of the attribute. -/
  | fields (rules : Dict Rule)

namespace Condition

/-- The pattern that a condition is. -/
def pattern? : Condition → Option Bytes
  | pattern p => some p
  | _ => none

/-- The rules that a condition is, without those that are missing. -/
def rule? : Condition → Option RuleCondition
  | pattern _ => none
  | rule r => r.map .rule
  | fields rules => some (.fields (rules.filterMap id))

/-- Whether a condition is a pattern. -/
def isPattern (c : Condition) : Bool := c.pattern?.isSome

/-- Whether a rule of the condition is missing. -/
def isIncomplete : Condition → Bool
  | pattern _ => false
  | rule r => r.isNone
  | fields rules => rules.toList.any fun e => e.2.isNone

end Condition

/-- The condition that a condition of a policy was defined by. -/
def RuleCondition.condition : RuleCondition → Condition
  | rule r => .rule (some r)
  | fields rules => .fields (rules.map some)

/-- What is to become a policy. -/
structure Definition extends Targets Condition where
  uid : Bytes := []
  description : Bytes := []
  effect : Effect := .deny
  context : Dict (Option Rule) := {}
  startTag : UInt8 := '<'.toUInt8
  endTag : UInt8 := '>'.toUInt8

/-- The conditions of a policy. -/
inductive Body where
  | patterns (targets : Targets Bytes)
  | rules (targets : Targets RuleCondition) (some_condition : targets.all ≠ [])

end Policy

/-- A policy. -/
structure Policy where
  uid : Bytes
  uid_ne_nil : uid ≠ []
  description : Bytes
  effect : Effect
  body : Policy.Body
  /-- A rule for each value of the context that the policy asks for. -/
  context : Dict Rule
  startTag : UInt8
  endTag : UInt8

namespace Policy

/-- Why a definition is no policy; of several faults the first of this list. -/
def Definition.fault? (d : Definition) : Option CreationError :=
  if d.uid = [] then some .uidMissing
  else if d.all.any (·.isPattern) && !d.all.all (·.isPattern) then some .mixedConditions
  else if d.all.any (·.isIncomplete) then some .nullCondition
  else (d.context.toList.find? fun e => e.2.isNone).map fun e => .nullContextRule e.1

/-- The conditions of a definition without fault. -/
def Definition.body (d : Definition) : Body :=
  let rules := d.filterMap Condition.rule?
  if h : rules.all = [] then .patterns (d.filterMap Condition.pattern?) else .rules rules h

/-- The policy of a definition. -/
def create (d : Definition) : Except PolicyError Policy :=
  match h : d.fault? with
  | some fault => .error (.creation fault d.uid)
  | none => .ok
    { uid := d.uid
      uid_ne_nil := fun hd => by simp [Definition.fault?, hd] at h
      description := d.description
      effect := d.effect
      body := d.body
      context := d.context.filterMap id
      startTag := d.startTag
      endTag := d.endTag }

variable (p : Policy)

/-- Whether the conditions are patterns or rules. -/
def type : PolicyType :=
  match p.body with
  | .patterns _ => .pattern
  | .rules .. => .rule

/-- Whether the policy allows what fits it. -/
def allows : Bool := p.effect == .allow

/-- The conditions as a definition has them. -/
def conditions : Targets Condition :=
  match p.body with
  | .patterns targets => targets.map .pattern
  | .rules targets _ => targets.map (·.condition)

/-- The definition of a policy. -/
def definition : Definition :=
  { p.conditions with
    uid := p.uid
    description := p.description
    effect := p.effect
    context := p.context.map some
    startTag := p.startTag
    endTag := p.endTag }

end Policy

end AccessControl
