import AccessControl.Checker.Fit
import AccessControl.Config
import AccessControl.Guard.Basic
import AccessControl.Store.Observed
import AccessControl.Store.Table
import AccessControl.Store.TwoTier

/-!
# Engines

An engine is what a configuration describes, put together: two tables of policies, one the cache tier
of the other, behind a store that tells the cache of answers and the audit log of changes, and a guard
on that store.  `Engine.build` fills both tables with the policies of the configuration.  The engine
is a world of its own: `Engine.store`, `Engine.cachePlace` and `Engine.evaluate` work on it.
-/

namespace AccessControl

/-- Who listens to the store of an engine. -/
inductive EngineListener where
  | cache | audit
  deriving DecidableEq, Repr

/-- The state of an engine. -/
structure Engine where
  checker : CheckerKind
  primary : PolicyTable := {}
  tier : PolicyTable := {}
  listeners : Subscribers EngineListener := {}
  templates : TemplateMemo
  cache : GuardCache
  audit : Option AuditLog := none
  stats : DecisionStats := {}

namespace Engine

/-- The place of the primary table. -/
def primaryPlace : Place Engine PolicyTable := ⟨primary, fun t e => { e with primary := t }⟩

/-- The place of the cache tier. -/
def tierPlace : Place Engine PolicyTable := ⟨tier, fun t e => { e with tier := t }⟩

/-- The place of the remembered templates. -/
def templatesPlace : Place Engine TemplateMemo :=
  ⟨templates, fun t e => { e with templates := t }⟩

/-- The place of the remembered answers. -/
def cachePlace : Place Engine GuardCache := ⟨cache, fun c e => { e with cache := c }⟩

/-- The place of the counters. -/
def statsPlace : Place Engine DecisionStats := ⟨stats, fun s e => { e with stats := s }⟩

/-- Writes to the audit log, if there is one. -/
def updateAudit (f : AuditLog → AuditLog) (e : Engine) : Engine :=
  { e with audit := e.audit.map f }

/-- What a listener does when it is told of a change. -/
def call (listener : EngineListener) (change : PolicyChange) : Run Escape Engine Unit :=
  match listener with
  | .cache => cachePlace.modify GuardCache.policiesChanged
  | .audit => modify (updateAudit fun log =>
      log.change { change := change.kind.name, uid := change.uid, time := log.time })

/-- The store of two tiers. -/
def tiers : Store Engine :=
  TwoTier.store (PolicyTable.store primaryPlace) (PolicyTable.store tierPlace)

/-- The store of an engine. -/
def store : Store Engine := Observed.store tiers (fun e => e.listeners.listeners) call

/-- The guard of an engine. -/
def guard (e : Engine) : Guard Engine where
  store := some store
  checker := some (Checker.ofKind e.checker templatesPlace)
  cache := some cachePlace
  audit := e.audit.map fun log => ⟨fun e => e.audit.getD log, fun log e => { e with audit := some log }⟩
  stats := statsPlace

/-- The verdict of an engine on an inquiry. -/
def evaluate (q : Inquiry) : StateM Engine Verdict := fun e => e.guard.evaluate q e

/-- The engine without policies. -/
def ofSettings (config : Config) : Engine where
  checker := Checker.madeKind config.checker
  templates := Lru.ofCapacity config.compilerCacheSize
  cache := GuardCache.ofCapacity config.guardCacheSize

/-- The primary table of policies that are added one by one. -/
def tableOf (policies : List (Option Policy)) : Except PolicyError PolicyTable :=
  policies.foldlM PolicyTable.add {}

/-- The engine with the policies of its primary table in its cache tier.  Tables raise no exceptions,
so a refusal is all that can keep it from that. -/
def warmed (batch : UInt64) (e : Engine) : Except PolicyError Engine :=
  match TwoTier.populate (PolicyTable.store primaryPlace) (PolicyTable.store tierPlace) batch e with
  | (.error (.refused reason), _) => .error reason
  | (_, e) => .ok e

/-- The audit log of a configuration. -/
def auditOf (config : Config) : Except PolicyError (Option AuditLog) :=
  if config.auditLogPath.isEmpty then .ok none
  else match AuditLog.openAt config.logLevel config.auditLogPath with
    | .ok log => .ok (some log)
    | .error what => .error (.auditLog what config.auditLogPath)

/-- The subscriptions of the cache and, if there is one, the audit log. -/
def subscribersOf (audit : Option AuditLog) : Subscribers EngineListener :=
  let subscribers := (Subscribers.subscribe {} EngineListener.cache).2
  if audit.isSome then (subscribers.subscribe .audit).2 else subscribers

/-- The engine that a configuration describes. -/
def build (config : Config) : Except PolicyError Engine := do
  let primary ← tableOf config.policies
  let e ← ({ ofSettings config with primary } : Engine).warmed config.warmupBatchSize
  let audit ← auditOf config
  return { e with audit, listeners := subscribersOf audit, cache := e.cache.markFresh }

end Engine

end AccessControl
