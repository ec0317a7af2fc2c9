import AccessControl.Scenario.World

/-!
# Setting up worlds

How components come into a world.  A new component takes over its name from an older one, which stays
in the world for those that refer to it.  `World.install` takes an engine apart into components, so
that its store can get further listeners and its cache and its guard can be looked at.
-/

namespace AccessControl.Scenario.World

/-- The world with a further store. -/
def putStore (w : World) (name : Bytes) (node : StoreNode) : World :=
  { w with stores := w.stores.put name node }

/-- The world with a further checker; without remembered templates it gets its own. -/
def putChecker (w : World) (name : Bytes) (kind : CheckerKind) (templates : Option Nat) : World :=
  match templates with
  | some id => { w with checkers := w.checkers.put name (.made kind id) }
  | none =>
    { w with
      checkers := w.checkers.put name (.made kind w.templates.next)
      templates := w.templates.append default }

/-- The world with a further checker that always gives the same answer. -/
def putFixedChecker (w : World) (name : Bytes) (kind : CheckerKind) (answer : Except Failure Bool) :
    World :=
  { w with checkers := w.checkers.put name (.fixed kind answer) }

/-- The world with a further guard; without counters it gets its own. -/
def putGuard (w : World) (name : Bytes) (store checker cache audit stats : Option Nat) : World :=
  match stats with
  | some id => { w with guards := w.guards.put name ⟨store, checker, cache, audit, id⟩ }
  | none =>
    { w with
      guards := w.guards.put name ⟨store, checker, cache, audit, w.stats.next⟩
      stats := w.stats.append {} }

/-- The world with a further listener to a store, and the number of its subscription. -/
def subscribe (w : World) (store : Nat) (listener : Listener) : Nat × World :=
  let (id, listeners) := ((listenersAt store).read w).subscribe listener
  (id, (listenersAt store).write listeners w)

/-- The world in which a subscription to a store has ended. -/
def unsubscribe (w : World) (store id : Nat) : World :=
  (listenersAt store).write (((listenersAt store).read w).unsubscribe id) w

/-- The listener that an engine has under `cache` and `audit`. -/
def listenerOf (cache audit : Nat) : EngineListener → Listener
  | .cache => .cache cache
  | .audit => .audit audit

/-- The world with the components of an engine. -/
def install (w : World) (e : Engine) : World :=
  let primary := w.stores.next
  let listeners : Subscribers Listener :=
    ⟨e.listeners.next, e.listeners.entries.map fun l =>
      (l.1, listenerOf w.caches.next w.audits.next l.2)⟩
  { w with
    stores := (((w.stores.append (.table e.primary)).append (.table e.tier)).append
      (.twoTier primary (primary + 1))).put (utf8 "storage") (.observed (primary + 2) listeners)
    caches := w.caches.put (utf8 "cache") e.cache
    templates := w.templates.put (utf8 "compiler") e.templates
    checkers := w.checkers.put (utf8 "checker") (.made e.checker w.templates.next)
    guards := w.guards.put (utf8 "guard") {
      store := some (primary + 3), checker := some w.checkers.next, cache := some w.caches.next
      audit := e.audit.map fun _ => w.audits.next, stats := w.stats.next }
    stats := w.stats.put (utf8 "stats") e.stats
    audits := e.audit.elim w.audits w.audits.append }

end AccessControl.Scenario.World
