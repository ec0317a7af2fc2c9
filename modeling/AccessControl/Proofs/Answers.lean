import AccessControl.Run

/-!
# Computations with a known answer

A computation may consult memory that only saves work.  `Run.Answers I J x r` says so of a
computation `x`: begun in any world of `I`, it comes to `r` and ends in a world of `J`.  Such
computations compose (`Answers.bind`), search lists (`Answers.anyM`) and work at a place
(`Answers.run`), so that what is built of them is built of their answers.
-/

namespace AccessControl.Run

variable {ε ε' σ τ α β : Type} {I J : σ → Prop}

/-- In every world of `I` the computation comes to `r`, and it leaves a world of `J`. -/
def Answers (I J : σ → Prop) (x : Run ε σ α) (r : Except ε α) : Prop :=
  ∀ s, I s → (x s).1 = r ∧ J (x s).2

/-- A sequence of computations runs the second on what the first leaves. -/
theorem bind_apply (x : Run ε σ α) (f : α → Run ε σ β) (s : σ) :
    (x >>= f) s =
      (match x s with
        | (.ok a, s') => f a s'
        | (.error e, s') => (.error e, s')) := by
  show (ExceptT.bindCont f (x s).1) (x s).2 = _
  rcases x s with ⟨_ | _, _⟩ <;> rfl

/-- A failure is handled in the world that it leaves. -/
theorem tryCatch_apply (x : Run ε σ α) (handle : ε → Run ε σ α) (s : σ) :
    (tryCatch x handle : Run ε σ α) s =
      (match x s with
        | (.ok a, s') => (.ok a, s')
        | (.error e, s') => handle e s') := by
  show (match (x s).1 with
    | .ok a => (pure (.ok a) : StateM σ (Except ε α))
    | .error e => handle e) (x s).2 = _
  rcases x s with ⟨_ | _, _⟩ <;> rfl

namespace Answers

theorem of_pure (a : α) : Answers J J (pure a : Run ε σ α) (.ok a) := fun _ hs => ⟨rfl, hs⟩

theorem bind {x : Run ε σ α} {r : Except ε α} {f : α → Run ε σ β} {g : α → Except ε β}
    (hx : Answers I J x r) (hf : ∀ a, r = .ok a → Answers J J (f a) (g a)) :
    Answers I J (x >>= f) (r >>= g) := by
  intro s hs
  obtain ⟨h1, h2⟩ := hx s hs
  rw [bind_apply]
  rcases hxs : x s with ⟨_ | a, s'⟩
  · rw [hxs] at h1 h2
    subst h1
    exact ⟨rfl, h2⟩
  · rw [hxs] at h1 h2
    subst h1
    exact hf a rfl s' h2

/-- Renaming errors renames those of the answer. -/
theorem adapt {x : Run ε σ α} {r : Except ε α} (f : ε → ε') (hx : Answers I J x r) :
    Answers I J (ExceptT.adapt f x) (r.mapError f) := by
  intro s hs
  obtain ⟨h1, h2⟩ := hx s hs
  exact ⟨h1 ▸ rfl, h2⟩

/-- A search asks one element after the other and answers as a search among the answers. -/
theorem anyM {f : α → Run ε σ Bool} {g : α → Except ε Bool} (l : List α)
    (h : ∀ a, Answers J J (f a) (g a)) : Answers J J (l.anyM f) (l.anyM g) := by
  induction l with
  | nil => exact of_pure false
  | cons a l ih =>
    refine bind (h a) fun b _ => ?_
    cases b with
    | true => exact of_pure true
    | false => exact ih

/-- At a place of a greater world the answer is the same. -/
theorem run {I' J' : τ → Prop} (place : Place τ σ) {x : Run ε σ α} {r : Except ε α}
    (hx : Answers I J x r) (hread : ∀ t, I' t → I (place.read t))
    (hwrite : ∀ t s, I' t → J s → J' (place.write s t)) : Answers I' J' (place.run x) r := by
  intro t ht
  obtain ⟨h1, h2⟩ := hx (place.read t) (hread t ht)
  exact ⟨h1, hwrite t _ ht h2⟩

end Answers

end AccessControl.Run
