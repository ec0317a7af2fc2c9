import AccessControl.Store.Basic
import AccessControl.Store.Change

/-!
# Observed stores

An observed store hands every call to the store within it and tells its listeners of each change that
was made, in the order in which they subscribed.  An exception of a listener that says what happened
is dropped and the next listener told (`Observed.notify`); an exception that says nothing passes
through.
-/

namespace AccessControl

/-- Listeners under the numbers of their subscriptions. -/
structure Subscribers (ι : Type) where
  /-- The number of the next subscription. -/
  next : Nat := 1
  entries : List (Nat × ι) := []

namespace Subscribers

variable {ι : Type}

/-- The subscribers with a further listener, and the number of its subscription. -/
def subscribe (s : Subscribers ι) (listener : ι) : Nat × Subscribers ι :=
  (s.next, ⟨s.next + 1, s.entries ++ [(s.next, listener)]⟩)

/-- The subscribers without the subscription of a number. -/
def unsubscribe (s : Subscribers ι) (id : Nat) : Subscribers ι :=
  { s with entries := s.entries.filter fun e => e.1 != id }

/-- The listeners, in the order of their subscriptions. -/
def listeners (s : Subscribers ι) : List ι := s.entries.map Prod.snd

end Subscribers

namespace Observed

variable {σ ι : Type}

/-- Tells listeners of a change, one after the other. -/
def notify (call : ι → PolicyChange → Run Escape σ Unit) (change : PolicyChange) :
    List ι → Run Failure σ Unit
  | [] => return
  | listener :: rest => fun s =>
    match call listener change s with
    | (.error .foreign, s) => (.error (.escaped .foreign), s)
    | (_, s) => notify call change rest s

/-- The identifier of a policy, empty if the policy is missing. -/
def uidOf (p : Option Policy) : Bytes := p.elim [] Policy.uid

/-- The store that tells listeners of the changes of another; who listens is part of the world. -/
def store (inner : Store σ) (listeners : σ → List ι)
    (call : ι → PolicyChange → Run Escape σ Unit) : Store σ :=
  let announce (kind : ChangeKind) (uid : Bytes) : Run Failure σ Unit := do
    notify call ⟨kind, uid⟩ (listeners (← MonadState.get))
  { inner with
    add := fun p => do
      inner.add p
      announce .added (uidOf p)
    update := fun p => do
      inner.update p
      announce .updated (uidOf p)
    remove := fun uid => do
      inner.remove uid
      announce .removed uid }

end Observed

end AccessControl
