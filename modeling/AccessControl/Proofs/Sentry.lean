import AccessControl.Proofs.Transparency

/-!
# Guards on a bare table

Nobody tells the cache of a guard on a bare table that the policies have changed, unless the caller
does.  A `Sentry` is such a guard with all that it uses, with a cache or without one.  What is done to
it (`EngineAct`) keeps its templates right, and answers that its cache recalls are right as long as the
table stays as it is (`Sentry.onSentry_spec`).  So a sentry decides as its policies say, if its cache
serves nothing or every change of the table was followed by an invalidation (`Sentry.evaluate_left`).
-/

namespace AccessControl

/-- A guard on a table, with all that it uses. -/
structure Sentry where
  checker : CheckerKind
  /-- Whether the guard asks its cache. -/
  cached : Bool
  table : PolicyTable := {}
  templates : TemplateMemo
  cache : GuardCache
  audit : Option AuditLog := none
  stats : DecisionStats := {}

namespace Sentry

/-- The place of the table. -/
def tablePlace : Place Sentry PolicyTable := ⟨table, fun t w => { w with table := t }⟩

/-- The place of the remembered templates. -/
def templatesPlace : Place Sentry TemplateMemo := ⟨templates, fun t w => { w with templates := t }⟩

/-- The place of the remembered answers. -/
def cachePlace : Place Sentry GuardCache := ⟨cache, fun c w => { w with cache := c }⟩

/-- The place of the counters. -/
def statsPlace : Place Sentry DecisionStats := ⟨stats, fun s w => { w with stats := s }⟩

/-- The table as a store. -/
def store : Store Sentry := PolicyTable.store tablePlace

/-- The guard on the table. -/
def guard (w : Sentry) : Guard Sentry where
  store := some store
  checker := some (Checker.ofKind w.checker templatesPlace)
  cache := if w.cached then some cachePlace else none
  audit := w.audit.map fun log => ⟨fun w => w.audit.getD log, fun log w => { w with audit := some log }⟩
  stats := statsPlace

/-- The verdict of a sentry on an inquiry. -/
def evaluate (q : Inquiry) : StateM Sentry Verdict := fun w => w.guard.evaluate q w

/-- A sentry whose cache recalls nothing and whose templates are right. -/
structure IsClear (w : Sentry) : Prop where
  templates : w.templates.Sound
  cache : w.cache.table.entries = []

end Sentry

/-- What an act leaves of a sentry. -/
def EngineAct.onSentry (act : EngineAct) (w : Sentry) : Sentry :=
  match act with
  | add p => (Sentry.store.add p w).2
  | update p => (Sentry.store.update p w).2
  | remove uid => (Sentry.store.remove uid w).2
  | markStale => { w with cache := w.cache.markStale }
  | markFresh => { w with cache := w.cache.markFresh }
  | invalidate => { w with cache := w.cache.invalidate }
  | evaluate q => (w.evaluate q).2

namespace Sentry

/-- What acts leave of a sentry. -/
def left : List EngineAct → Sentry → Sentry
  | [], w => w
  | act :: rest, w => left rest (act.onSentry w)

/-- Every change of the table is followed by an invalidation of the cache. -/
def Told : List EngineAct → Sentry → Prop
  | [], _ => True
  | act :: rest, w =>
    ((act.onSentry w).table ≠ w.table → EngineAct.invalidate ∈ rest) ∧ Told rest (act.onSentry w)

variable {w : Sentry}

theorem cachePlace_lawful : cachePlace.Lawful := ⟨fun _ _ => rfl, fun _ => rfl, fun _ _ _ => rfl⟩

/-- The kind of the checker that the guard has. -/
def kind (w : Sentry) : CheckerKind := Checker.madeKind w.checker

/-- What the table answers to the checker. -/
def candidates (w : Sentry) : List (Option Policy) :=
  (w.table.toList.filter fun p => p.type == w.kind.family).map some

/-! ## Decisions -/

/-- What becomes of a sentry has the same checker and right templates, and its cache recalls what the
table answered before, if it did so before. -/
structure Keeps (w w' : Sentry) : Prop where
  checker : w'.checker = w.checker
  cached : w'.cached = w.cached
  templates : w'.templates.Sound
  recalls : w.cache.Recalls w.candidates → w'.cache.Recalls w.candidates

theorem store_find_eq (w : Sentry) (q : Inquiry) :
    store.find q (some w.kind) w = (.ok w.candidates, w) := by
  show (((w.table.candidates (some w.kind)).map (List.map some)).mapError Failure.refused, w) = _
  unfold candidates kind
  cases w.checker <;> rfl

/-- The candidates are fetched through the cache if the guard asks one. -/
theorem guard_candidates (w : Sentry) (q : Inquiry) :
    w.guard.candidates store w.kind q =
      if w.cached then GuardCache.find cachePlace store q (some w.kind)
      else store.find q (some w.kind) := by
  unfold Guard.candidates guard
  cases w.cached <;> rfl

/-- What is fetched are the candidates of the table, unless a fresh cache recalls something else. -/
theorem fetched_spec (hsound : w.templates.Sound) (q : Inquiry) :
    ∃ a, w.guard.fetched q w = some (.ok a) ∧
      Keeps w (w.guard.candidates store w.kind q w).2 ∧
      ((w.cached = true → w.cache.stale = true ∨ w.cache.Recalls w.candidates) → a = w.candidates) := by
  have hfetched : w.guard.fetched q w = some (w.guard.candidates store w.kind q w).1 := rfl
  rw [hfetched, guard_candidates]
  cases w.cached with
  | false =>
    rw [if_neg Bool.false_ne_true, store_find_eq]
    exact ⟨_, rfl, ⟨rfl, rfl, hsound, id⟩, fun _ => rfl⟩
  | true =>
    have hstore : ∀ c, store.find q (some w.kind) (cachePlace.write c w) =
        (.ok w.candidates, cachePlace.write c w) := fun c => store_find_eq (cachePlace.write c w) q
    obtain ⟨a, c, hfind, hstale, hrecalls⟩ := GuardCache.find_answers cachePlace_lawful hstore
    rw [if_pos rfl, hfind]
    refine ⟨a, rfl, ⟨rfl, rfl, hsound, fun h => (hrecalls h).2⟩, fun h => ?_⟩
    exact (h rfl).elim hstale fun h => (hrecalls h).1

theorem keeps_record {w' : Sentry} (h : Keeps w w') (g : Sentry) (q : Inquiry) (v : Verdict) :
    Keeps w (g.guard.record q v w') := by
  unfold Guard.record
  cases haudit : g.guard.audit with
  | none => exact ⟨h.checker, h.cached, h.templates, h.recalls⟩
  | some audit =>
    obtain ⟨log, -, rfl⟩ := Option.map_eq_some_iff.mp haudit
    exact ⟨h.checker, h.cached, h.templates, h.recalls⟩

/-- A decision is the verdict on what was fetched. -/
theorem evaluate_eq (hsound : w.templates.Sound) (q : Inquiry) :
    Keeps w (w.evaluate q).2 ∧
      (w.evaluate q).1 = (Checker.judge w.kind).verdict q (w.guard.fetched q w) := by
  obtain ⟨a, hfetched, hkept, -⟩ := fetched_spec hsound q
  obtain ⟨w', hw', heval⟩ := Guard.evaluate_of_answers (J := Keeps w) (g := w.guard)
    (Checker.judge w.kind) q (s := w) ⟨rfl, rfl, hsound, id⟩
    (by
      rintro _ ⟨⟩ _ ⟨⟩
      exact hkept)
    (by
      rintro _ ⟨⟩ p
      refine (Checker.answers_fitsBy w.kind p q).run templatesPlace (fun w' hw' => hw'.templates) ?_
      exact fun w' memo hw' hmemo => ⟨hw'.checker, hw'.cached, hmemo, hw'.recalls⟩)
  have heval : w.evaluate q = _ := heval
  rw [heval]
  exact ⟨keeps_record hw' w q _, rfl⟩

/-- **A decision** is the verdict on all policies of the table, unless a fresh cache recalls something
else. -/
theorem evaluate_spec (hsound : w.templates.Sound) (q : Inquiry) :
    Keeps w (w.evaluate q).2 ∧
      ((w.cached = true → w.cache.stale = true ∨ w.cache.Recalls w.candidates) →
        (w.evaluate q).1 = (Checker.judge w.kind).verdict q (some (.ok (w.table.toList.map some)))) := by
  obtain ⟨a, hfetched, -, hanswer⟩ := fetched_spec hsound q
  obtain ⟨hkept, heval⟩ := evaluate_eq hsound q
  refine ⟨hkept, fun h => ?_⟩
  rw [heval, hfetched, hanswer h]
  simp only [Judgement.verdict, candidates, Checker.fitting_family]

/-! ## Histories -/

theorem keeps_exchange (hsound : w.templates.Sound)
    (f : PolicyTable → Except PolicyError PolicyTable) :
    Keeps w (PolicyTable.exchange tablePlace f w).2 := by
  rw [PolicyTable.exchange]
  cases f (tablePlace.read w) <;> exact ⟨rfl, rfl, hsound, id⟩

/-- **What an act keeps.**  After an invalidation nothing is recalled. -/
theorem onSentry_spec (hsound : w.templates.Sound) (act : EngineAct) :
    Keeps w (act.onSentry w) ∧
      (act = .invalidate → ∀ answer, (act.onSentry w).cache.Recalls answer) := by
  cases act with
  | add p => exact ⟨keeps_exchange hsound (·.add p), nofun⟩
  | update p => exact ⟨keeps_exchange hsound (·.update p), nofun⟩
  | remove uid => exact ⟨keeps_exchange hsound fun t => .ok (t.erase uid), nofun⟩
  | markStale => exact ⟨⟨rfl, rfl, hsound, id⟩, nofun⟩
  | markFresh => exact ⟨⟨rfl, rfl, hsound, id⟩, nofun⟩
  | invalidate =>
    exact ⟨⟨rfl, rfl, hsound, fun _ => Lru.holds_clear _⟩, fun _ _ => Lru.holds_clear _⟩
  | evaluate q => exact ⟨(evaluate_spec hsound q).1, nofun⟩

theorem sound_left (hsound : w.templates.Sound) (acts : List EngineAct) :
    (left acts w).templates.Sound ∧ (left acts w).checker = w.checker ∧
      (left acts w).cached = w.cached := by
  induction acts generalizing w with
  | nil => exact ⟨hsound, rfl, rfl⟩
  | cons act rest ih =>
    obtain ⟨hkept, -⟩ := onSentry_spec hsound act
    obtain ⟨hleft, hchecker, hcached⟩ := ih hkept.templates
    exact ⟨hleft, hchecker.trans hkept.checker, hcached.trans hkept.cached⟩

/-- A cache that was told of every change recalls what the table answers now. -/
theorem recalls_left (hsound : w.templates.Sound) {acts : List EngineAct} (htold : Told acts w)
    (h : w.cache.Recalls w.candidates ∨ EngineAct.invalidate ∈ acts) :
    (left acts w).cache.Recalls (left acts w).candidates := by
  induction acts generalizing w with
  | nil => exact h.resolve_right List.not_mem_nil
  | cons act rest ih =>
    obtain ⟨hkept, hcleared⟩ := onSentry_spec hsound act
    obtain ⟨hnow, hlater⟩ := htold
    refine ih hkept.templates hlater ?_
    by_cases htable : (act.onSentry w).table = w.table
    · rcases h with h | h
      · -- the table answers as before
        have hsame : (act.onSentry w).candidates = w.candidates := by
          unfold candidates kind
          rw [htable, hkept.checker]
        rw [hsame]
        exact .inl (hkept.recalls h)
      · rcases List.mem_cons.mp h with hact | h
        · exact .inl (hcleared hact.symm _)
        · exact .inr h
    · exact .inr (hnow htable)

theorem IsClear.recalls (h : w.IsClear) (answer : List (Option Policy)) : w.cache.Recalls answer := by
  intro e he
  rw [h.cache] at he
  cases he

/-- **A sentry decides as its policies say**, if it asks no cache, or the cache serves nothing, or the
cache was told of every change. -/
theorem evaluate_left (hclear : w.IsClear) {acts : List EngineAct}
    (htold : w.cached = true → (left acts w).cache.stale = true ∨ Told acts w) (q : Inquiry) :
    ((left acts w).evaluate q).1 = (Checker.judge w.kind).verdict q
      (some (.ok ((left acts w).table.toList.map some))) := by
  obtain ⟨hsound, hchecker, hcached⟩ := sound_left hclear.templates acts
  have hkind : (left acts w).kind = w.kind := congrArg Checker.madeKind hchecker
  rw [← hkind]
  refine (evaluate_spec hsound q).2 fun hasks => ?_
  exact (htold (hcached ▸ hasks)).imp_right fun htold =>
    recalls_left hclear.templates htold (.inl (hclear.recalls _))

end Sentry

end AccessControl
