import AccessControl.Checker.Basic

/-!
# Stores

A store keeps policies by their identifiers.  `Store σ` is any store in a world `σ`: it may be made of
other stores, refuse what it is told, raise exceptions and change the rest of the world.  Where a
policy is to be stored it may be missing, and where policies are found there may be gaps.
-/

namespace AccessControl

/-- A store in a world `σ`. -/
structure Store (σ : Type) where
  /-- Stores a policy under an identifier that has none. -/
  add : Option Policy → Run Failure σ Unit
  /-- The policy with an identifier. -/
  get : Bytes → Run Failure σ (Option Policy)
  /-- At most `limit` policies from the one numbered `offset` on. -/
  getAll : (limit offset : Int64) → Run Failure σ (List Policy)
  /-- The policies that may fit an inquiry by a checker of some kind; all of them without a
  checker. -/
  find : Inquiry → Option CheckerKind → Run Failure σ (List (Option Policy))
  /-- Exchanges the policy with an identifier. -/
  update : Option Policy → Run Failure σ Unit
  /-- Drops the policy with an identifier. -/
  remove : Bytes → Run Failure σ Unit
  /-- How many policies the world keeps for the store; no page reaches beyond that. -/
  extent : σ → Nat

namespace Store

variable {σ : Type}

/-- The store that the state of the world selects for each call. -/
def selected (select : σ → Store σ) : Store σ where
  add p s := (select s).add p s
  get uid s := (select s).get uid s
  getAll limit offset s := (select s).getAll limit offset s
  find q kind s := (select s).find q kind s
  update p s := (select s).update p s
  remove uid s := (select s).remove uid s
  extent s := (select s).extent s

/-- The store in a world that has the world of the store at a place. -/
def within {τ : Type} (place : Place τ σ) (store : Store σ) : Store τ where
  add p := place.run (store.add p)
  get uid := place.run (store.get uid)
  getAll limit offset := place.run (store.getAll limit offset)
  find q kind := place.run (store.find q kind)
  update p := place.run (store.update p)
  remove uid := place.run (store.remove uid)
  extent t := store.extent (place.read t)

end Store

end AccessControl
