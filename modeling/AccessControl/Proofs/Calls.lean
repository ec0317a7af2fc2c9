import AccessControl.Proofs.Answers
import AccessControl.Store.Observed

/-!
# Calls of a store

What a store is asked, as data.  A `StoreChange` is a call that may change the policies, with what
listeners hear of it (`StoreChange.announcement`); a `StoreCall` is a change or a question.  What calls
come to, one after the other, is `StoreCall.outcomes`: the results and refusals, and the world that the
calls leave.
-/

namespace AccessControl

namespace Run

variable {ε σ α β : Type}

theorem map_apply (f : α → β) (x : Run ε σ α) (s : σ) : (f <$> x) s = ((x s).1.map f, (x s).2) := by
  rw [map_eq_pure_bind, bind_apply]
  rcases x s with ⟨_ | _, _⟩ <;> rfl

end Run

/-- A change of the policies of a store. -/
inductive StoreChange where
  | add (p : Option Policy)
  | update (p : Option Policy)
  | remove (uid : Bytes)

namespace StoreChange

variable {σ τ ι : Type}

/-- Makes the change. -/
def on (store : Store σ) : StoreChange → Run Failure σ Unit
  | add p => store.add p
  | update p => store.update p
  | remove uid => store.remove uid

/-- What listeners hear of the change. -/
def announcement : StoreChange → PolicyChange
  | add p => ⟨.added, Observed.uidOf p⟩
  | update p => ⟨.updated, Observed.uidOf p⟩
  | remove uid => ⟨.removed, uid⟩

theorem on_within (place : Place τ σ) (store : Store σ) (change : StoreChange) :
    change.on (store.within place) = place.run (change.on store) := by
  cases change <;> rfl

/-- An observed store makes a change and then announces it. -/
theorem on_observed (inner : Store σ) (listeners : σ → List ι)
    (call : ι → PolicyChange → Run Escape σ Unit) (change : StoreChange) :
    change.on (Observed.store inner listeners call) = (do
      change.on inner
      Observed.notify call change.announcement (listeners (← MonadState.get))) := by
  cases change <;> rfl

end StoreChange

/-- A call of a store. -/
inductive StoreCall where
  | change (c : StoreChange)
  | get (uid : Bytes)
  | getAll (limit offset : Int64)
  | find (q : Inquiry) (kind : Option CheckerKind)

/-- The result of a call. -/
inductive StoreAnswer where
  | done
  | policy (p : Option Policy)
  | page (policies : List Policy)
  | candidates (policies : List (Option Policy))

namespace StoreCall

variable {σ : Type}

/-- Makes the call. -/
def on (store : Store σ) : StoreCall → Run Failure σ StoreAnswer
  | change c => (fun _ => .done) <$> c.on store
  | get uid => .policy <$> store.get uid
  | getAll limit offset => .page <$> store.getAll limit offset
  | find q kind => .candidates <$> store.find q kind

/-- What calls come to, one after the other, and the world that they leave. -/
def outcomes (store : Store σ) : List StoreCall → σ → List (Except Failure StoreAnswer) × σ
  | [], s => ([], s)
  | call :: rest, s =>
    let (answer, s) := call.on store s
    let (answers, s) := outcomes store rest s
    (answer :: answers, s)

end StoreCall

end AccessControl
