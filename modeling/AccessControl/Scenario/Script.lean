import AccessControl.Guard.Cache

/-!
# Scripts of stores

A script makes a store fail in foreseen ways and counts its calls.  A call is counted first; then it
raises the exception planned for its method, if there is one; then a search runs its hook; then the
refusal planned for the method is given.  Searches that succeed may get gaps at both ends.
-/

namespace AccessControl.Scenario

/-- The methods of a store. -/
inductive Method where
  | add | find | get | getAll | remove | update
  deriving DecidableEq, Repr

namespace Method

/-- The methods in the order of their names. -/
def all : List Method := [add, find, get, getAll, remove, update]

/-- The name of a method. -/
def name : Method → Bytes
  | add => utf8 "add"
  | find => utf8 "find"
  | get => utf8 "get"
  | getAll => utf8 "get_all"
  | remove => utf8 "remove"
  | update => utf8 "update"

/-- The method with a name. -/
def ofName? (text : Bytes) : Option Method := all.find? fun m => m.name == text

end Method

/-- What can be done to a cache of answers. -/
inductive CacheAction where
  | stale | fresh | invalidate | changed
  deriving DecidableEq, Repr

namespace CacheAction

/-- The action with a name. -/
def ofName? (text : Bytes) : Option CacheAction :=
  [(utf8 "stale", stale), (utf8 "fresh", fresh), (utf8 "invalidate", invalidate),
    (utf8 "changed", changed)].lookup text

/-- The cache after an action. -/
def apply : CacheAction → GuardCache → GuardCache
  | stale => GuardCache.markStale
  | fresh => GuardCache.markFresh
  | invalidate => GuardCache.invalidate
  | changed => GuardCache.policiesChanged

end CacheAction

/-- How a store behaves and how it was called. -/
structure Script where
  plans : List (Method × Failure) := []
  /-- Whether searches get gaps. -/
  gaps : Bool := false
  /-- The number of a cache and what a search does to it. -/
  hook : Option (Nat × CacheAction) := none
  calls : List Method := []

namespace Script

/-- The failure planned for a method. -/
def plan? (s : Script) (m : Method) : Option Failure := s.plans.lookup m

/-- The script with a failure planned for a method. -/
def planned (s : Script) (m : Method) (failure : Failure) : Script :=
  { s with plans := (m, failure) :: s.plans }

/-- The script without plans; the calls stay counted. -/
def healed (s : Script) : Script := { calls := s.calls }

/-- The methods that were called, with how often. -/
def counts (s : Script) : List (Method × Nat) :=
  (Method.all.map fun m => (m, s.calls.count m)).filter fun e => e.2 != 0

/-- The answer of a search with its gaps. -/
def widened (s : Script) (found : List (Option Policy)) : List (Option Policy) :=
  if s.gaps then none :: found ++ [none] else found

variable {σ : Type}

/-- What a call does before the store within is asked. -/
def preamble (place : Place σ Script) (cacheAt : Nat → Place σ GuardCache) (m : Method) :
    Run Failure σ Unit := do
  place.modify fun s => { s with calls := m :: s.calls }
  let script ← place.get
  if let some (.escaped escape) := script.plan? m then throw (.escaped escape)
  if m = .find then
    if let some (cache, action) := script.hook then (cacheAt cache).modify action.apply
  if let some (.refused reason) := script.plan? m then throw (.refused reason)

/-- The store within another one that behaves by the script at a place. -/
def store (place : Place σ Script) (cacheAt : Nat → Place σ GuardCache) (inner : Store σ) :
    Store σ where
  add p := do
    preamble place cacheAt .add
    inner.add p
  get uid := do
    preamble place cacheAt .get
    inner.get uid
  getAll limit offset := do
    preamble place cacheAt .getAll
    inner.getAll limit offset
  find q kind := do
    preamble place cacheAt .find
    return (← place.get).widened (← inner.find q kind)
  update p := do
    preamble place cacheAt .update
    inner.update p
  remove uid := do
    preamble place cacheAt .remove
    inner.remove uid
  extent := inner.extent

end Script

end AccessControl.Scenario
