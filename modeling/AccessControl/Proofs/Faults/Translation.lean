import AccessControl.Checker.Fit
import AccessControl.Proofs.Answers

/-!
# Translations of computations

A translation of computations keeps results and translates a sequence step by step (`Translation`).  So it
translates a search by translating each test (`Translation.anyM`, `Translation.allM`), and the search for
what fits an inquiry, too (`Translation.fit`).  Renaming errors is a translation.
-/

namespace AccessControl

/-- A translation of computations. -/
structure Translation (m n : Type → Type) [Monad m] [Monad n] where
  apply : {α : Type} → m α → n α
  apply_pure : ∀ {α : Type} (a : α), apply (pure a) = pure a
  apply_bind : ∀ {α β : Type} (x : m α) (f : α → m β),
    apply (x >>= f) = apply x >>= fun a => apply (f a)

namespace Translation

variable {m n : Type → Type} [Monad m] [Monad n] {ε ε' σ α : Type}

/-- Errors are renamed. -/
def mapError (f : ε → ε') : Translation (Except ε) (Except ε') where
  apply := Except.mapError f
  apply_pure _ := rfl
  apply_bind x _ := by cases x <;> rfl

/-- Errors of computations in a world are renamed. -/
def adapt (f : ε → ε') : Translation (Run ε σ) (Run ε' σ) where
  apply := ExceptT.adapt f
  apply_pure _ := rfl
  apply_bind x g := by
    have happly {β : Type} (y : Run ε σ β) (s : σ) :
        ExceptT.adapt f y s = ((y s).1.mapError f, (y s).2) := rfl
    funext s
    rw [happly, Run.bind_apply, Run.bind_apply, happly]
    rcases x s with ⟨_ | _, _⟩ <;> rfl

theorem mapError_apply (f : ε → ε') (x : Except ε α) : (mapError f).apply x = x.mapError f := rfl

theorem adapt_apply (f : ε → ε') (x : Run ε σ α) : (adapt f).apply x = ExceptT.adapt f x := rfl

variable (T : Translation m n)

theorem anyM (test : α → m Bool) (l : List α) :
    T.apply (l.anyM test) = l.anyM fun a => T.apply (test a) := by
  induction l with
  | nil => exact T.apply_pure false
  | cons a l ih =>
    rw [List.anyM, List.anyM, T.apply_bind]
    congr 1
    funext b
    cases b with
    | false => exact ih
    | true => exact T.apply_pure true

theorem allM (test : α → m Bool) (l : List α) :
    T.apply (l.allM test) = l.allM fun a => T.apply (test a) := by
  induction l with
  | nil => exact T.apply_pure true
  | cons a l ih =>
    rw [List.allM, List.allM, T.apply_bind]
    congr 1
    funext b
    cases b with
    | false => exact T.apply_pure false
    | true => exact ih

theorem fit (t : Targets α) (test : α → Value → m Bool) (q : Inquiry) :
    T.apply (t.fit test q) = t.fit (fun a what => T.apply (test a what)) q := by
  unfold Targets.fit
  rw [T.apply_bind, T.anyM]
  congr 1
  funext subject
  cases subject with
  | false => exact T.apply_pure false
  | true =>
    simp only [if_true]
    rw [T.apply_bind, T.anyM]
    congr 1
    funext resource
    cases resource with
    | false => exact T.apply_pure false
    | true => exact T.anyM _ _

end Translation

end AccessControl
