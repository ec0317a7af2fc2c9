import AccessControl.Audit.Log
import AccessControl.Guard.Cache
import AccessControl.Guard.Stats
import AccessControl.Guard.Verdict

/-!
# Guards

A guard decides inquiries: it asks its store for candidates, through its cache if it has one, and its
checker which of them fit (`Guard.decide`).  A policy that denies prevails, and nothing is allowed
unless a policy allows it.  `Guard.evaluate` always comes to a verdict, for what keeps a decision from
being made denies; it counts the decision and writes it to the audit log.
-/

namespace AccessControl

/-- A guard in a world `σ`. -/
structure Guard (σ : Type) where
  store : Option (Store σ) := none
  checker : Option (Checker σ) := none
  cache : Option (Place σ GuardCache) := none
  audit : Option (Place σ AuditLog) := none
  stats : Place σ DecisionStats

namespace Guard

variable {σ α : Type}

/-- A step of a decision; `refusal` is what a refusal means. -/
def step (refusal : PolicyError → DecisionFault) (x : Run Failure σ α) : Run DecisionFault σ α :=
  ExceptT.adapt (fun
    | .refused reason => refusal reason
    | .escaped escape => .escaped escape) x

/-- The candidates that fit an inquiry, gaps left out. -/
def fitting (checker : Checker σ) (q : Inquiry) :
    List (Option Policy) → Run DecisionFault σ (List Policy)
  | [] => return []
  | none :: rest => fitting checker q rest
  | some p :: rest => do
    let fits ← step (.checker p.uid) (checker.fits p q)
    let others ← fitting checker q rest
    return if fits then p :: others else others

/-- The candidates for an inquiry. -/
def candidates (g : Guard σ) (store : Store σ) (kind : CheckerKind) (q : Inquiry) :
    Run Failure σ (List (Option Policy)) :=
  match g.cache with
  | some cache => GuardCache.find cache store q kind
  | none => store.find q kind

/-- The verdict on an inquiry, unless something keeps it from being made. -/
def decide (g : Guard σ) (q : Inquiry) : Run DecisionFault σ Verdict := do
  match g.store, g.checker with
  | some store, some checker =>
    let candidates ← step .store (g.candidates store checker.kind q)
    return .ofFitting (← fitting checker q candidates)
  | _, _ => throw .notConfigured

/-- The log entry of a verdict. -/
def entry (g : Guard σ) (q : Inquiry) (v : Verdict) (log : AuditLog) : Audit.Decision where
  subject := q.subject.text
  resource := q.resource.text
  action := q.action.text
  context := q.contextValue.text
  checker := g.checker.elim [] fun c => c.kind.name
  effect := v.effect.name
  matched := v.matched
  reason := v.reason
  failed := v.isFailed
  time := log.time
  duration := log.duration

/-- Counts a verdict and writes it to the audit log. -/
def record (g : Guard σ) (q : Inquiry) (v : Verdict) (s : σ) : σ :=
  let s := g.stats.write ((g.stats.read s).count (v.effect == .allow) v.isFailed) s
  match g.audit with
  | none => s
  | some audit => audit.write ((audit.read s).decision (g.entry q v (audit.read s))) s

/-- The verdict on an inquiry. -/
def evaluate (g : Guard σ) (q : Inquiry) : StateM σ Verdict := fun s =>
  let (outcome, s) := g.decide q s
  let v := match outcome with
    | .ok v => v
    | .error fault => .failed fault
  (v, g.record q v s)

/-- Whether an inquiry is allowed. -/
def allows (g : Guard σ) (q : Inquiry) : StateM σ Bool := do
  return (← g.evaluate q).effect == .allow

end Guard

end AccessControl
