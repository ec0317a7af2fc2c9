import AccessControl.Checker.Basic
import AccessControl.Template.Memo

/-!
# Fitting policies to inquiries

A policy fits if for each attribute some condition does and every rule on the context is satisfied
by the value that the inquiry has for it (`Policy.contextFits`).  Conditions are tried in their order
and no further than needed.  Rules look at the whole attribute or at its fields
(`Policy.RuleCondition.fits`); patterns look at attributes that are texts, and are the text, a part
of it, or a template for it (`PatternTest`).  A `Checker.ofKind` looks at policies of its family only.
-/

namespace AccessControl

/-- Whether for each attribute of an inquiry some part of the targets passes the test. -/
def Targets.fit {m : Type → Type} [Monad m] {α : Type} (t : Targets α) (test : α → Value → m Bool)
    (q : Inquiry) : m Bool := do
  if ← t.subjects.anyM (test · q.subject) then
    if ← t.resources.anyM (test · q.resource) then
      t.actions.anyM (test · q.action)
    else return false
  else return false

namespace Policy

/-- Whether the context of an inquiry satisfies the rules on it.  A value that is not there
satisfies no rule. -/
def contextFits (p : Policy) (q : Inquiry) : Except Escape Bool :=
  p.context.toList.allM fun (name, r) =>
    match q.context.get? name with
    | none => .ok false
    | some v => r.satisfied v (some q)

/-- Whether an attribute satisfies a condition.  Rules for fields need a map that has them all. -/
def RuleCondition.fits (q : Inquiry) (c : RuleCondition) (what : Value) : Except Escape Bool :=
  match c, what with
  | .rule r, _ => r.satisfied what (some q)
  | .fields rules, .map entries =>
    rules.toList.allM fun (key, r) =>
      match (Value.map entries).find? key with
      | none => .ok false
      | some v => r.satisfied v (some q)
  | .fields _, _ => .ok false

end Policy

/-- How a pattern is compared with a text. -/
inductive PatternTest where
  | exact | fuzzy | regex
  deriving DecidableEq, Repr

namespace PatternTest

/-- Whether a text fits the template of a policy.  A template without tags is compared as it is. -/
def templateFits (p : Policy) (template text : Bytes) : Run Failure TemplateMemo Bool :=
  if template.contains p.startTag || template.contains p.endTag then
    fun memo => match memo.compile template p.startTag p.endTag with
      | (.ok t, memo) => (.ok (t.accepts text), memo)
      | (.error e, memo) => (.error (.refused (.template e template)), memo)
  else return template == text

/-- Whether a text fits a pattern of a policy. -/
def textFits (test : PatternTest) (p : Policy) (pattern text : Bytes) :
    Run Failure TemplateMemo Bool :=
  match test with
  | exact => return pattern == text
  | fuzzy => return Bytes.occursIn pattern text
  | regex => templateFits p pattern text

/-- Whether an attribute fits a pattern of a policy. -/
def fits (test : PatternTest) (p : Policy) (pattern : Bytes) (what : Value) :
    Run Failure TemplateMemo Bool :=
  match what with
  | .string text => test.textFits p pattern text
  | _ => return false

end PatternTest

namespace Checker

/-- Whether a policy of patterns fits an inquiry. -/
def patternsFit (test : PatternTest) (p : Policy) (targets : Targets Bytes) (q : Inquiry) :
    Run Failure TemplateMemo Bool := do
  if ← targets.fit (test.fits p) q then Run.ofExcept (p.contextFits q) else return false

/-- Whether a policy of rules fits an inquiry. -/
def rulesFit (p : Policy) (targets : Targets Policy.RuleCondition) (q : Inquiry) :
    Except Escape Bool := do
  if ← targets.fit (Policy.RuleCondition.fits q) q then p.contextFits q else return false

/-- Whether a policy fits an inquiry by a checker of a kind. -/
def fitsBy (kind : CheckerKind) (p : Policy) (q : Inquiry) : Run Failure TemplateMemo Bool :=
  match kind, p.body with
  | .exact, .patterns targets => patternsFit .exact p targets q
  | .fuzzy, .patterns targets => patternsFit .fuzzy p targets q
  | .regex, .patterns targets | .other _, .patterns targets => patternsFit .regex p targets q
  | .rules, .rules targets _ => Run.ofExcept (rulesFit p targets q)
  | _, _ => return false

/-- The kind of the checker made for a kind: for a kind beyond those with a name it is one of
templates. -/
def madeKind : CheckerKind → CheckerKind
  | .other _ => .regex
  | kind => kind

/-- The checker for a kind that remembers templates at a place. -/
def ofKind {σ : Type} (kind : CheckerKind) (memo : Place σ TemplateMemo) : Checker σ where
  kind := madeKind kind
  fits p q := memo.run (fitsBy (madeKind kind) p q)

end Checker

end AccessControl
