import AccessControl.Inquiry
import AccessControl.Network.Block
import AccessControl.Regex.Match

/-!
# Rules

A rule is a test of one value in the light of an inquiry.  `Rule.satisfied` evaluates it: operands
are evaluated from left to right and no further than needed, and the exception of a callable that
is called on the way is the outcome.  Values of a wrong kind do not satisfy a rule.  The operands of
`and`, `or` and `not` may be missing: a missing operand of `and` or `or` is not satisfied, and `not`
without an operand is.
-/

namespace AccessControl

/-- The comparisons of a value with an operand. -/
inductive Comparison where
  | eq | notEq | greater | less | greaterOrEqual | lessOrEqual
  deriving DecidableEq, Repr

/-- The tests of a text with an operand. -/
inductive TextTest where
  | equal | startsWith | endsWith | contains
  deriving DecidableEq, Repr

/-- The tests of a value, or of each item of a list, with a list. -/
inductive ListTest where
  | isIn | notIn | allIn | allNotIn | anyIn | anyNotIn
  deriving DecidableEq, Repr

/-- The attributes of an inquiry that a rule may name. -/
inductive Attribute where
  | subject | action | resource
  deriving DecidableEq, Repr

/-- A rule. -/
inductive Rule where
  | compare (op : Comparison) (operand : Value)
  /-- Whether the value counts as true. -/
  | truth (expected : Bool)
  | text (test : TextTest) (operand : Bytes) (ignoreCase : Bool)
  | regex (pattern : Pattern)
  /-- A list of pairs of equal values. -/
  | pairsEqual
  | list (test : ListTest) (items : List Value)
  /-- An address in the block that the text spells; no value if it spells none. -/
  | cidr (block : Bytes)
  /-- Equality with an attribute of the inquiry or a field of it, or for the resource
  membership in it. -/
  | inquiry (which : Attribute) (field : Option Bytes)
  | and (rules : List (Option Rule))
  | or (rules : List (Option Rule))
  | not (rule : Option Rule)
  | any
  | neither

instance : Inhabited Rule := ⟨.neither⟩

/-- The kinds of rules. -/
inductive RuleKind where
  | compare (op : Comparison)
  | truth (expected : Bool)
  | text (test : TextTest)
  | regex
  | pairsEqual
  | list (test : ListTest)
  | cidr
  | inquiry (which : Attribute)
  | and
  | or
  | not
  | any
  | neither
  deriving DecidableEq, Repr

namespace RuleKind

/-- The kinds of rules, all of them. -/
def all : List RuleKind :=
  [compare .eq, compare .notEq, compare .greater, compare .less, compare .greaterOrEqual,
    compare .lessOrEqual, truth true, truth false, text .equal, text .startsWith, text .endsWith,
    text .contains, pairsEqual, regex, list .isIn, list .notIn, list .allIn, list .allNotIn,
    list .anyIn, list .anyNotIn, cidr, inquiry .subject, inquiry .action, inquiry .resource,
    and, or, any, neither, not]

/-- The name of a kind in documents. -/
def name : RuleKind → Bytes
  | compare .eq => utf8 "eq"
  | compare .notEq => utf8 "not_eq"
  | compare .greater => utf8 "greater"
  | compare .less => utf8 "less"
  | compare .greaterOrEqual => utf8 "greater_or_equal"
  | compare .lessOrEqual => utf8 "less_or_equal"
  | truth true => utf8 "is_true"
  | truth false => utf8 "is_false"
  | text .equal => utf8 "str_equal"
  | text .startsWith => utf8 "starts_with"
  | text .endsWith => utf8 "ends_with"
  | text .contains => utf8 "contains"
  | pairsEqual => utf8 "pairs_equal"
  | regex => utf8 "regex_match"
  | list .isIn => utf8 "in_list"
  | list .notIn => utf8 "not_in_list"
  | list .allIn => utf8 "all_in_list"
  | list .allNotIn => utf8 "all_not_in_list"
  | list .anyIn => utf8 "any_in_list"
  | list .anyNotIn => utf8 "any_not_in_list"
  | cidr => utf8 "cidr"
  | inquiry .subject => utf8 "subject_equal"
  | inquiry .action => utf8 "action_equal"
  | inquiry .resource => utf8 "resource_in"
  | and => utf8 "and"
  | or => utf8 "or"
  | any => utf8 "any"
  | neither => utf8 "neither"
  | not => utf8 "not"

/-- The kind with a name. -/
def ofName? (text : Bytes) : Option RuleKind := all.find? fun k => k.name == text

end RuleKind

/-- Whether a value compares with an operand as told. -/
def Comparison.holds (op : Comparison) (what operand : Value) : Bool :=
  match op with
  | eq => what == operand
  | notEq => !(what == operand)
  | greater => what.compare operand == some .gt
  | less => what.compare operand == some .lt
  | greaterOrEqual => what.compare operand == some .gt || what.compare operand == some .eq
  | lessOrEqual => what.compare operand == some .lt || what.compare operand == some .eq

/-- Whether a text passes a test with an operand. -/
def TextTest.holds (test : TextTest) (what operand : Bytes) : Bool :=
  match test with
  | equal => what == operand
  | startsWith => operand.isPrefixOf what
  | endsWith => operand.isSuffixOf what
  | contains => Bytes.occursIn operand what

/-- Whether some item is equal to a value. -/
def Value.isAmong (what : Value) (items : List Value) : Bool := items.any fun item => item == what

/-- Whether a value passes a test with a list. -/
def ListTest.holds (test : ListTest) (what : Value) (items : List Value) : Bool :=
  match test, what with
  | isIn, v => v.isAmong items
  | notIn, v => !v.isAmong items
  | allIn, .list vs => vs.all fun v => v.isAmong items
  | allNotIn, .list vs => vs.all fun v => !v.isAmong items
  | anyIn, .list vs => vs.any fun v => v.isAmong items
  | anyNotIn, .list vs => !vs.all fun v => v.isAmong items
  | _, _ => false

/-- Whether a value is a list of two equal values. -/
def Value.isEqualPair : Value → Bool
  | .list [a, b] => a == b
  | _ => false

/-- Whether a resource holds a value: a text a part of it, a list an item, a map a key. -/
def Value.holds (resource what : Value) : Bool :=
  match resource, what with
  | .string s, .string part => Bytes.occursIn part s
  | .list items, what => what.isAmong items
  | .map entries, .string key => entries.any fun e => e.1 == key
  | _, _ => false

/-- The attribute of an inquiry. -/
def Inquiry.part (q : Inquiry) : Attribute → Value
  | .subject => q.subject
  | .action => q.action
  | .resource => q.resource

/-- Whether a value agrees with an attribute of an inquiry, or with a field of it. -/
def Attribute.holds (which : Attribute) (field : Option Bytes) (what : Value) (q : Inquiry) : Bool :=
  let target := match field with
    | none => some (q.part which)
    | some f => (q.part which).find? f
  match target, which with
  | none, _ => false
  | some v, .resource => v.holds what
  | some v, _ => what == v

namespace Rule

/-- The kind of a rule. -/
def kind : Rule → RuleKind
  | .compare op _ => .compare op
  | .truth expected => .truth expected
  | .text test _ _ => .text test
  | .regex _ => .regex
  | .pairsEqual => .pairsEqual
  | .list test _ => .list test
  | .cidr _ => .cidr
  | .inquiry which _ => .inquiry which
  | .and _ => .and
  | .or _ => .or
  | .not _ => .not
  | .any => .any
  | .neither => .neither

/-- Whether a text passes a test with an operand, the letters in either case if told so. -/
def textSatisfied (test : TextTest) (operand : Bytes) (ignoreCase : Bool) : Value → Bool
  | .string s =>
    if ignoreCase then test.holds (Ascii.lowered s) (Ascii.lowered operand) else test.holds s operand
  | _ => false

/-- Whether a value is a text that matches a pattern. -/
def regexSatisfied (pattern : Pattern) : Value → Bool
  | .string s => pattern.accepts s
  | _ => false

/-- Whether a value is a list of pairs of equal values. -/
def pairsSatisfied : Value → Bool
  | .list items => items.all Value.isEqualPair
  | _ => false

/-- Whether a value is the text of an address in the block that a text spells. -/
def cidrSatisfied (block : Bytes) : Value → Bool
  | .string s => (Network.Block.parse? block).any fun b => b.containsText s
  | _ => false

mutual

/-- Whether a value satisfies a rule; the exception of a callable that was called is the outcome. -/
def satisfied : Rule → Value → Option Inquiry → Except Escape Bool
  | .compare op operand, what, _ => .ok (op.holds what operand)
  | .truth expected, what, _ => what.truthy.map (· == expected)
  | .text test operand ignoreCase, what, _ => .ok (textSatisfied test operand ignoreCase what)
  | .regex pattern, what, _ => .ok (regexSatisfied pattern what)
  | .pairsEqual, what, _ => .ok (pairsSatisfied what)
  | .list test items, what, _ => .ok (test.holds what items)
  | .cidr block, what, _ => .ok (cidrSatisfied block what)
  | .inquiry which field, what, q => .ok (q.any (which.holds field what))
  | .and rules, what, q => allSatisfied rules what q
  | .or rules, what, q => anySatisfied rules what q
  | .not none, _, _ => .ok true
  | .not (some r), what, q => (r.satisfied what q).map (!·)
  | .any, _, _ => .ok true
  | .neither, _, _ => .ok false
termination_by structural r => r

/-- Whether a value satisfies all rules, up to the first that it does not satisfy. -/
def allSatisfied : List (Option Rule) → Value → Option Inquiry → Except Escape Bool
  | [], _, _ => .ok true
  | none :: _, _, _ => .ok false
  | some r :: rest, what, q =>
    match r.satisfied what q with
    | .ok true => allSatisfied rest what q
    | outcome => outcome
termination_by structural l => l

/-- Whether a value satisfies one of the rules, up to the first that it satisfies. -/
def anySatisfied : List (Option Rule) → Value → Option Inquiry → Except Escape Bool
  | [], _, _ => .ok false
  | none :: rest, what, q => anySatisfied rest what q
  | some r :: rest, what, q =>
    match r.satisfied what q with
    | .ok false => anySatisfied rest what q
    | outcome => outcome
termination_by structural l => l

end

end Rule

end AccessControl
