import AccessControl.Engine
import AccessControl.Scenario.Script

/-!
# Worlds of components

A world holds stores, caches, checkers, guards and what they are made of, under numbers and partly
under names.  A component refers to others by their numbers, a store only to stores of smaller ones,
so that `World.storeAt` can put together what a store does.  A world keeps what its listeners
recorded and one journal for all its audit logs.
-/

namespace AccessControl.Scenario

/-- Components of one sort; the number of a component is its position. -/
structure Roster (α : Type) where
  items : List α := []
  /-- The names and the numbers that they stand for, the last given first. -/
  names : List (Bytes × Nat) := []

namespace Roster

variable {α : Type}

/-- The number of the next component. -/
def next (r : Roster α) : Nat := r.items.length

/-- The roster with a further component without a name. -/
def append (r : Roster α) (a : α) : Roster α := { r with items := r.items ++ [a] }

/-- The roster with a further component that takes over a name. -/
def put (r : Roster α) (name : Bytes) (a : α) : Roster α :=
  ⟨r.items ++ [a], (name, r.next) :: r.names⟩

/-- The number that a name stands for. -/
def id? (r : Roster α) (name : Bytes) : Option Nat := r.names.lookup name

/-- Whether some name stands for the component of a number. -/
def isNamed (r : Roster α) (id : Nat) : Bool :=
  r.names.any fun e => e.2 == id && r.id? e.1 == some id

/-- The roster in which a name stands for nothing. -/
def forget (r : Roster α) (name : Bytes) : Roster α :=
  { r with names := r.names.filter fun e => e.1 != name }

/-- The place of the component of a number. -/
def place [Inhabited α] (id : Nat) : Place (Roster α) α :=
  ⟨fun r => r.items.getD id default, fun a r => { r with items := r.items.set id a }⟩

end Roster

/-- What a recording listener does after it has recorded a change. -/
inductive Reaction where
  | returns
  | escapes (escape : Escape)
  /-- Reads the first page of the store and records how many policies are on it. -/
  | reads

/-- Who listens to a store. -/
inductive Listener where
  | cache (id : Nat)
  | audit (id : Nat)
  | recorder (name : Bytes) (reaction : Reaction)

/-- What recording listeners record. -/
inductive Event where
  | change (name : Bytes) (change : PolicyChange)
  | reading (name : Bytes) (count : Int)

/-- A store and its own part of the world. -/
inductive StoreNode where
  | table (policies : PolicyTable)
  | twoTier (primary cache : Nat)
  | observed (inner : Nat) (listeners : Subscribers Listener)
  | scripted (inner : Nat) (script : Script)

instance : Inhabited StoreNode := ⟨.table {}⟩

/-- A checker. -/
inductive CheckerNode where
  | made (kind : CheckerKind) (templates : Nat)
  /-- One that always gives the same answer. -/
  | fixed (kind : CheckerKind) (answer : Except Failure Bool)

instance : Inhabited CheckerNode := ⟨.made .regex 0⟩

/-- A guard. -/
structure GuardNode where
  store : Option Nat := none
  checker : Option Nat := none
  cache : Option Nat := none
  audit : Option Nat := none
  stats : Nat := 0

instance : Inhabited GuardNode := ⟨{}⟩

instance : Inhabited GuardCache := ⟨GuardCache.ofCapacity GuardCache.defaultCapacity⟩

instance : Inhabited TemplateMemo := ⟨Lru.ofCapacity TemplateMemo.defaultCapacity⟩

instance : Inhabited DecisionStats := ⟨{}⟩

instance : Inhabited AuditLog := ⟨{ level := .info, path := [] }⟩

/-- A world of components. -/
structure World where
  stores : Roster StoreNode := {}
  caches : Roster GuardCache := {}
  templates : Roster TemplateMemo := {}
  checkers : Roster CheckerNode := {}
  guards : Roster GuardNode := {}
  stats : Roster DecisionStats := {}
  audits : Roster AuditLog := {}
  /-- What was recorded, in order. -/
  events : List Event := []
  /-- The lines of all audit logs, in order. -/
  journal : List Bytes := []

namespace World

/-- The place of a store. -/
def nodeAt (id : Nat) : Place World StoreNode :=
  ⟨fun w => (Roster.place id).read w.stores,
    fun n w => { w with stores := (Roster.place id).write n w.stores }⟩

/-- The place of a cache of answers. -/
def cacheAt (id : Nat) : Place World GuardCache :=
  ⟨fun w => (Roster.place id).read w.caches,
    fun c w => { w with caches := (Roster.place id).write c w.caches }⟩

/-- The place of remembered templates. -/
def templatesAt (id : Nat) : Place World TemplateMemo :=
  ⟨fun w => (Roster.place id).read w.templates,
    fun m w => { w with templates := (Roster.place id).write m w.templates }⟩

/-- The place of counters. -/
def statsAt (id : Nat) : Place World DecisionStats :=
  ⟨fun w => (Roster.place id).read w.stats,
    fun s w => { w with stats := (Roster.place id).write s w.stats }⟩

/-- The place of an audit log, whose lines are those of the journal. -/
def auditAt (id : Nat) : Place World AuditLog :=
  ⟨fun w => { (Roster.place id).read w.audits with lines := w.journal },
    fun log w => { w with journal := log.lines }⟩

/-- Whether an audit log is still kept: by its name, or by a guard that has one. -/
def keepsAudit (w : World) (id : Nat) : Bool :=
  w.audits.isNamed id ||
    w.guards.items.zipIdx.any fun (g, n) => g.audit == some id && w.guards.isNamed n

/-! ### Stores -/

/-- The table of a store. -/
def tableAt (id : Nat) : Place World PolicyTable :=
  ⟨fun w => match (nodeAt id).read w with
    | .table policies => policies
    | _ => {},
  fun policies => (nodeAt id).write (.table policies)⟩

/-- The listeners of a store. -/
def listenersAt (id : Nat) : Place World (Subscribers Listener) :=
  ⟨fun w => match (nodeAt id).read w with
    | .observed _ listeners => listeners
    | _ => {},
  fun listeners w => match (nodeAt id).read w with
    | .observed inner _ => (nodeAt id).write (.observed inner listeners) w
    | _ => w⟩

/-- The script of a store. -/
def scriptAt (id : Nat) : Place World Script :=
  ⟨fun w => match (nodeAt id).read w with
    | .scripted _ script => script
    | _ => {},
  fun script w => match (nodeAt id).read w with
    | .scripted inner _ => (nodeAt id).write (.scripted inner script) w
    | _ => w⟩

/-- Records an event. -/
def record (e : Event) : Run Escape World Unit :=
  modify fun w => { w with events := w.events ++ [e] }

/-- How many policies are on the first page of a store, a refusal counting as minus one. -/
def firstPage (store : Store World) : Run Escape World Int := fun w =>
  match store.getAll 100 0 w with
  | (.ok page, w) => (.ok page.length, w)
  | (.error (.refused _), w) => (.ok (-1), w)
  | (.error (.escaped escape), w) => (.error escape, w)

/-- Writes a change to an audit log, if it is still kept. -/
def log (id : Nat) (change : PolicyChange) : Run Escape World Unit :=
  modify fun w =>
    if w.keepsAudit id then
      let log := (auditAt id).read w
      (auditAt id).write
        (log.change { change := change.kind.name, uid := change.uid, time := log.time }) w
    else w

/-- What a listener of the store within which `inner` stands does when it is told of a change. -/
def call (inner : Store World) (listener : Listener) (change : PolicyChange) :
    Run Escape World Unit :=
  match listener with
  | .cache id => (cacheAt id).modify GuardCache.policiesChanged
  | .audit id => log id change
  | .recorder name reaction => do
    record (.change name change)
    match reaction with
    | .returns => return
    | .escapes escape => throw escape
    | .reads => record (.reading name (← firstPage inner))

/-- What the store of a number does, given what stores of smaller numbers do. -/
def storeOfNode (below : Nat → Store World) (id : Nat) : StoreNode → Store World
  | .table _ => PolicyTable.store (tableAt id)
  | .twoTier primary cache => TwoTier.store (below primary) (below cache)
  | .observed inner _ =>
    Observed.store (below inner) (fun w => ((listenersAt id).read w).listeners) (call (below inner))
  | .scripted inner _ => Script.store (scriptAt id) cacheAt (below inner)

/-- The store of a number. -/
def storeAt (id : Nat) : Store World :=
  Store.selected fun w =>
    storeOfNode (fun n => if _ : n < id then storeAt n else PolicyTable.store (tableAt n)) id
      ((nodeAt id).read w)
termination_by id

/-! ### Checkers and guards -/

/-- The checker that a node describes. -/
def checkerOfNode : CheckerNode → Checker World
  | .made kind templates => Checker.ofKind kind (templatesAt templates)
  | .fixed kind answer => ⟨kind, fun _ _ => ExceptT.mk (pure answer)⟩

/-- The checker of a number. -/
def checkerOf (w : World) (id : Nat) : Checker World :=
  checkerOfNode ((Roster.place id).read w.checkers)

/-- The guard that a node describes. -/
def guardOfNode (w : World) (g : GuardNode) : Guard World where
  store := g.store.map storeAt
  checker := g.checker.map w.checkerOf
  cache := g.cache.map cacheAt
  audit := g.audit.map auditAt
  stats := statsAt g.stats

/-- The guard of a number. -/
def guardOf (w : World) (id : Nat) : Guard World := w.guardOfNode ((Roster.place id).read w.guards)

end World

end AccessControl.Scenario
