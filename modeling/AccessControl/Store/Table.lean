import AccessControl.Collection.Keyed
import AccessControl.Store.Basic

/-!
# Tables of policies

A `PolicyTable` is a finite map from identifiers to policies, listed in the byte order of the
identifiers.  Its operations are functions on tables that refuse what a table cannot do:
`PolicyTable.add` an identifier that is there, `update` one that is not, `page` a limit that is not
positive or an offset that is negative, and `candidates` a checker of a kind that has no name.
`PolicyTable.store` is the store with its table at a place.
-/

namespace AccessControl

/-- A map from identifiers to policies. -/
abbrev PolicyTable := Keyed Policy.uid

namespace PolicyTable

/-- The table with a further policy. -/
def add (t : PolicyTable) : Option Policy → Except PolicyError PolicyTable
  | none => .error .nullPolicy
  | some p => if t.contains p.uid then .error (.exists p.uid) else .ok (t.insertNew p)

/-- The table with a policy in place of the one with its identifier. -/
def update (t : PolicyTable) : Option Policy → Except PolicyError PolicyTable
  | none => .error .nullPolicy
  | some p => if t.contains p.uid then .ok (t.replace p) else .error (.notFound p.uid)

/-- At most `limit` policies from the one numbered `offset` on. -/
def page (t : PolicyTable) (limit offset : Int64) : Except PolicyError (List Policy) :=
  if limit ≤ 0 ∨ offset < 0 then .error (.pagination limit.toInt offset.toInt)
  else .ok ((t.toList.drop offset.toInt.toNat).take limit.toInt.toNat)

/-- The policies that a checker of some kind looks at; all of them without a checker. -/
def candidates (t : PolicyTable) : Option CheckerKind → Except PolicyError (List Policy)
  | none => .ok t.toList
  | some (.other n) => .error (.unknownChecker (CheckerKind.other n).number)
  | some kind => .ok (t.toList.filter fun p => p.type == kind.family)

/-- Asks a table. -/
def ask {σ α : Type} (place : Place σ PolicyTable) (f : PolicyTable → Except PolicyError α) :
    Run Failure σ α := fun s => ((f (place.read s)).mapError .refused, s)

/-- Exchanges a table, unless that is refused. -/
def exchange {σ : Type} (place : Place σ PolicyTable)
    (f : PolicyTable → Except PolicyError PolicyTable) : Run Failure σ Unit := fun s =>
  match f (place.read s) with
  | .ok t => (.ok (), place.write t s)
  | .error e => (.error (.refused e), s)

/-- The store with its table at a place. -/
def store {σ : Type} (place : Place σ PolicyTable) : Store σ where
  add p := exchange place fun t => PolicyTable.add t p
  get uid := ask place fun t => .ok (t.find? uid)
  getAll limit offset := ask place fun t => page t limit offset
  find _ kind := ask place fun t => (candidates t kind).map (·.map some)
  update p := exchange place fun t => update t p
  remove uid := exchange place fun t => .ok (t.erase uid)
  extent s := (place.read s).size

end PolicyTable

end AccessControl
