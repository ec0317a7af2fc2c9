import AccessControl.Policy.Basic

/-!
# Verdicts

The outcome of a decision.  A verdict allows if it is `Verdict.allowed` and denies otherwise; a
decision that could not be made is `Verdict.failed` and denies.
-/

namespace AccessControl

/-- Why a decision could not be made. -/
inductive DecisionFault where
  | notConfigured
  /-- The store refused to answer. -/
  | store (reason : PolicyError)
  /-- The checker refused to judge a policy. -/
  | checker (uid : Bytes) (reason : PolicyError)
  | escaped (escape : Escape)
  deriving DecidableEq, Repr

/-- The outcome of a decision. -/
inductive Verdict where
  | failed (fault : DecisionFault)
  /-- Policies that deny fit. -/
  | denied (uids : List Bytes)
  /-- Policies that allow fit, and none that denies. -/
  | allowed (uids : List Bytes)
  /-- No policy fits. -/
  | unmatched
  deriving DecidableEq, Repr

/-- The wording of a fault. -/
def DecisionFault.text : DecisionFault → Bytes
  | notConfigured => utf8 "guard is not configured"
  | store reason => utf8 "storage error: " ++ reason.message
  | checker uid reason =>
    utf8 "checker error on policy " ++ quoted uid ++ utf8 ": " ++ reason.message
  | escaped (.raised what) => utf8 "exception: " ++ what
  | escaped .foreign => utf8 "unknown exception"

namespace Verdict

/-- Whether the decision could not be made. -/
def isFailed : Verdict → Bool
  | failed _ => true
  | _ => false

/-- What the verdict does. -/
def effect : Verdict → Effect
  | allowed _ => .allow
  | _ => .deny

/-- The policies that determined the verdict. -/
def matched : Verdict → List Bytes
  | denied uids | allowed uids => uids
  | _ => []

/-- Why the verdict is what it is. -/
def reason : Verdict → Bytes
  | failed fault => fault.text
  | denied _ => utf8 "denied by matching policy"
  | allowed _ => utf8 "allowed by matching policy"
  | unmatched => utf8 "no matching policy (default deny)"

/-- The verdict on an inquiry that some policies fit. -/
def ofFitting (fitting : List Policy) : Verdict :=
  match fitting.filter fun p => !p.allows, fitting with
  | d :: denying, _ => denied ((d :: denying).map Policy.uid)
  | [], p :: allowing => allowed ((p :: allowing).map Policy.uid)
  | [], [] => unmatched

end Verdict

end AccessControl
