import AccessControl.Error

/-!
# Computations

A `Run ε σ α` is a computation in a world `σ` that gives a result or fails; what it did to the world
before it failed stays done.  A `Place σ α` is a part of the world, which `Place.get`, `Place.modify`
and `Place.run` work on alone.
-/

namespace AccessControl

/-- A computation in a world `σ` that may fail with an `ε`. -/
abbrev Run (ε σ : Type) := ExceptT ε (StateM σ)

/-- A computation that raises an exception or gives a result and changes nothing. -/
def Run.ofExcept {σ α : Type} (r : Except Escape α) : Run Failure σ α :=
  ExceptT.mk (pure (r.mapError .escaped))

/-- A part of the world. -/
structure Place (σ α : Type) where
  read : σ → α
  write : α → σ → σ

namespace Place

variable {ε σ α β : Type}

/-- The world itself. -/
def whole : Place σ σ := ⟨id, fun s _ => s⟩

/-- The first of two worlds. -/
def fst : Place (σ × α) σ := ⟨Prod.fst, fun s t => (s, t.2)⟩

/-- A computation at the place. -/
def run (p : Place σ α) (x : Run ε α β) : Run ε σ β := fun s =>
  let (result, a) := x (p.read s)
  (result, p.write a s)

/-- What is at the place. -/
def get (p : Place σ α) : Run ε σ α := fun s => (.ok (p.read s), s)

/-- Changes what is at the place. -/
def modify (p : Place σ α) (f : α → α) : Run ε σ Unit := fun s => (.ok (), p.write (f (p.read s)) s)

end Place

end AccessControl
