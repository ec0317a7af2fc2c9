import AccessControl.Proofs.Sentry

/-!
# What decisions depend on

A rule sees the value that it is asked about and the subject, the resource and the action of the
inquiry, but no context (`Rule.satisfied_congr`), and a policy asks for the values of its own context
names only.  So a policy is judged alike for two inquiries that agree on its names
(`Checker.judge_congr`), and what else is in their contexts, be it callables that raise exceptions or
not-a-number, influences no verdict: neither that of an engine, whatever has been done to it, nor that
of a guard on a bare table (`Sentry`), if its cache hears of changes.  A cache that is fresh and was not
told may serve an old answer to one of the inquiries.
-/

namespace AccessControl

/-! ## Inquiries that agree -/

namespace Inquiry

/-- The inquiries are alike but for values of the context with other names. -/
structure AgreesOn (names : List Bytes) (q q' : Inquiry) : Prop where
  subject : q.subject = q'.subject
  resource : q.resource = q'.resource
  action : q.action = q'.action
  context : ∀ name ∈ names, q.context.get? name = q'.context.get? name

variable {names : List Bytes} {q q' : Inquiry}

theorem AgreesOn.part (h : q.AgreesOn names q') : q.part = q'.part := by
  funext which
  cases which with
  | subject => exact h.subject
  | action => exact h.action
  | resource => exact h.resource

theorem AgreesOn.mono {names' : List Bytes} (h : q.AgreesOn names q')
    (hsub : ∀ name ∈ names', name ∈ names) : q.AgreesOn names' q' :=
  ⟨h.subject, h.resource, h.action, fun name hname => h.context name (hsub name hname)⟩

end Inquiry

/-- The context names of a policy. -/
def Policy.contextNames (p : Policy) : List Bytes := p.context.toList.map Prod.fst

/-- The context names of all policies of a table. -/
def PolicyTable.contextNames (t : PolicyTable) : List Bytes := t.toList.flatMap Policy.contextNames

/-! ## Rules -/

namespace Rule

variable {q q' : Inquiry}

theorem holds_congr (h : q.part = q'.part) (which : Attribute) (field : Option Bytes) (what : Value) :
    which.holds field what q = which.holds field what q' := by
  unfold Attribute.holds
  rw [h]

mutual

/-- **A rule sees no context.** -/
theorem satisfied_congr (h : q.part = q'.part) : ∀ (r : Rule) (what : Value),
    r.satisfied what (some q) = r.satisfied what (some q')
  | .compare .., _ | .truth _, _ | .text .., _ | .regex _, _ | .pairsEqual, _ | .list .., _
  | .cidr _, _ | .not none, _ | .any, _ | .neither, _ => rfl
  | .inquiry which field, what => by
    rw [satisfied, satisfied, Option.any_some, Option.any_some, holds_congr h]
  | .and rules, what => by
    rw [satisfied, satisfied, allSatisfied_congr h rules what]
  | .or rules, what => by
    rw [satisfied, satisfied, anySatisfied_congr h rules what]
  | .not (some r), what => by
    rw [satisfied, satisfied, satisfied_congr h r what]

theorem allSatisfied_congr (h : q.part = q'.part) : ∀ (rules : List (Option Rule)) (what : Value),
    allSatisfied rules what (some q) = allSatisfied rules what (some q')
  | [], _ | none :: _, _ => rfl
  | some r :: rest, what => by
    rw [allSatisfied, allSatisfied, satisfied_congr h r what, allSatisfied_congr h rest what]

theorem anySatisfied_congr (h : q.part = q'.part) : ∀ (rules : List (Option Rule)) (what : Value),
    anySatisfied rules what (some q) = anySatisfied rules what (some q')
  | [], _ => rfl
  | none :: rest, what => by
    rw [anySatisfied, anySatisfied, anySatisfied_congr h rest what]
  | some r :: rest, what => by
    rw [anySatisfied, anySatisfied, satisfied_congr h r what, anySatisfied_congr h rest what]

end

end Rule

/-! ## Policies -/

theorem allM_congr_mem {m : Type → Type} [Monad m] {α : Type} {test test' : α → m Bool} {l : List α}
    (h : ∀ a ∈ l, test a = test' a) : l.allM test = l.allM test' := by
  induction l with
  | nil => rfl
  | cons a l ih =>
    have hrest := ih fun b hb => h b (List.mem_cons_of_mem _ hb)
    simp only [List.allM, h a (List.mem_cons_self ..), hrest]

namespace Policy

variable {q q' : Inquiry}

theorem contextFits_congr {p : Policy} (h : q.AgreesOn p.contextNames q') :
    p.contextFits q = p.contextFits q' := by
  unfold contextFits
  refine allM_congr_mem fun ⟨name, r⟩ he => ?_
  have hname : name ∈ p.contextNames := List.mem_map_of_mem he
  simp only
  rw [h.context name hname]
  cases q'.context.get? name with
  | none => rfl
  | some v => exact Rule.satisfied_congr h.part r v

theorem RuleCondition.fits_congr (h : q.part = q'.part) (c : RuleCondition) (what : Value) :
    c.fits q what = c.fits q' what := by
  cases c with
  | rule r => exact Rule.satisfied_congr h r what
  | fields rules =>
    cases what with
    | map entries =>
      refine allM_congr_mem fun ⟨key, r⟩ _ => ?_
      simp only
      cases (Value.map entries).find? key with
      | none => rfl
      | some v => exact Rule.satisfied_congr h r v
    | _ => rfl

end Policy

namespace Checker

variable {q q' : Inquiry} {p : Policy}

/-- Targets see the subject, the resource and the action. -/
theorem fit_congr {m : Type → Type} [Monad m] {α : Type} {names : List Bytes}
    (h : q.AgreesOn names q') (t : Targets α) (test : α → Value → m Bool) :
    t.fit test q = t.fit test q' := by
  rw [Targets.fit, Targets.fit, h.subject, h.resource, h.action]

theorem judgePatterns_congr (h : q.AgreesOn p.contextNames q') (test : PatternTest)
    (targets : Targets Bytes) : judgePatterns test p targets q = judgePatterns test p targets q' := by
  rw [judgePatterns, judgePatterns, fit_congr h, Policy.contextFits_congr h]

theorem rulesFit_congr (h : q.AgreesOn p.contextNames q') (targets : Targets Policy.RuleCondition) :
    rulesFit p targets q = rulesFit p targets q' := by
  have hconditions : Policy.RuleCondition.fits q = Policy.RuleCondition.fits q' := by
    funext c what
    exact Policy.RuleCondition.fits_congr h.part c what
  rw [rulesFit, rulesFit, fit_congr h, hconditions, Policy.contextFits_congr h]

/-- **A policy is judged by its own context names.** -/
theorem judge_congr (kind : CheckerKind) (h : q.AgreesOn p.contextNames q') :
    judge kind p q = judge kind p q' := by
  unfold judge
  cases kind <;> cases p.body <;>
    first
      | exact judgePatterns_congr h _ _
      | exact congrArg (Except.mapError Failure.escaped) (rulesFit_congr h _)
      | rfl

end Checker

namespace Judgement

variable {judge : Judgement} {q q' : Inquiry}

theorem fitting_congr {candidates : List (Option Policy)}
    (h : ∀ p, some p ∈ candidates → judge p q = judge p q') :
    judge.fitting q candidates = judge.fitting q' candidates := by
  induction candidates with
  | nil => rfl
  | cons c rest ih =>
    have hrest := ih fun p hp => h p (List.mem_cons_of_mem _ hp)
    cases c with
    | none => exact hrest
    | some p => rw [fitting, fitting, h p (List.mem_cons_self ..), hrest]

/-- Inquiries that agree on the context names of the policies have one verdict. -/
theorem verdict_of_agreesOn {kind : CheckerKind} {t : PolicyTable}
    (h : q.AgreesOn t.contextNames q') :
    (Checker.judge kind).verdict q (some (.ok (t.toList.map some))) =
      (Checker.judge kind).verdict q' (some (.ok (t.toList.map some))) := by
  have hfitting : (Checker.judge kind).fitting q (t.toList.map some) =
      (Checker.judge kind).fitting q' (t.toList.map some) := by
    refine fitting_congr fun p hp => Checker.judge_congr kind (h.mono fun name hname => ?_)
    have hmem : p ∈ t.toList := by simpa using hp
    exact List.mem_flatMap.mpr ⟨p, hmem, hname⟩
  rw [verdict, verdict, hfitting]

end Judgement

/-! ## Engines and guards -/

namespace Engine

/-- What acts leave of an engine. -/
def left : List EngineAct → Engine → Engine
  | [], e => e
  | act :: rest, e => left rest (act.onEngine e).2

variable {e : Engine} {kind : CheckerKind}

theorem left_mirrors {t : PolicyTable} (h : e.Mirrors kind t) (acts : List EngineAct) :
    (left acts e).Mirrors kind (left acts e).primary := by
  induction acts generalizing e t with
  | nil =>
    obtain rfl := h.primary
    exact h
  | cons act rest ih => exact ih (onEngine_mirrors h act).2

/-- An engine that was built decides as its policies say. -/
theorem evaluate_left {config : Config} (hbuild : build config = .ok e) (acts : List EngineAct)
    (q : Inquiry) :
    ((left acts e).evaluate q).1 = (Checker.judge (Checker.madeKind config.checker)).verdict q
      (some (.ok ((left acts e).primary.toList.map some))) :=
  (evaluate_mirrors (left_mirrors (build_mirrors hbuild) acts) q).1

end Engine

namespace Inquiry

/-- **Unmentioned context influences no decision.**  Two engines with one kind of checker, whatever was
done to each since it was built, give one verdict on two inquiries, if they store the same policies and
the inquiries agree on the context names of these; so does one engine before and after a decision.  The
same holds of guards on a table, with a cache or without one, if the cache serves nothing or was told of
every change of the table. -/
theorem evaluate_eq_of_agreesOn (q q' : Inquiry) :
    (∀ (config config' : Config) (e e' : Engine) (acts acts' : List EngineAct),
      Engine.build config = .ok e → Engine.build config' = .ok e' →
      Checker.madeKind config.checker = Checker.madeKind config'.checker →
      (Engine.left acts e).primary = (Engine.left acts' e').primary →
      q.AgreesOn (Engine.left acts e).primary.contextNames q' →
      ((Engine.left acts e).evaluate q).1 = ((Engine.left acts' e').evaluate q').1) ∧
    ∀ (w w' : Sentry) (acts acts' : List EngineAct), w.IsClear → w'.IsClear → w.kind = w'.kind →
      (w.cached = true → (Sentry.left acts w).cache.stale = true ∨ Sentry.Told acts w) →
      (w'.cached = true → (Sentry.left acts' w').cache.stale = true ∨ Sentry.Told acts' w') →
      (Sentry.left acts w).table = (Sentry.left acts' w').table →
      q.AgreesOn (Sentry.left acts w).table.contextNames q' →
      ((Sentry.left acts w).evaluate q).1 = ((Sentry.left acts' w').evaluate q').1 := by
  constructor
  · intro config config' e e' acts acts' hbuild hbuild' hkind htable hagrees
    rw [Engine.evaluate_left hbuild, Engine.evaluate_left hbuild', ← hkind, ← htable]
    exact Judgement.verdict_of_agreesOn hagrees
  · intro w w' acts acts' hclear hclear' hkind htold htold' htable hagrees
    rw [Sentry.evaluate_left hclear htold, Sentry.evaluate_left hclear' htold', ← hkind, ← htable]
    exact Judgement.verdict_of_agreesOn hagrees

/-- The inquiry of the subject `a` on duty. -/
def plain : Inquiry :=
  { subject := .string [97]
    context := ⟨[(utf8 "duty", .bool true)], List.pairwise_singleton ..⟩ }

/-- The same with a callable in its context that raises an exception. -/
def laden : Inquiry :=
  { plain with context := ⟨[(utf8 "duty", .bool true), (utf8 "x", .thunk 0 .raisesForeign)], by decide⟩ }

/-- They differ in nothing that a policy looks at if it asks for duty alone. -/
theorem plain_agreesOn_laden {names : List Bytes} (h : names = [utf8 "duty"]) :
    plain.AgreesOn names laden where
  subject := rfl
  resource := rfl
  action := rfl
  context name hname := by
    rw [h] at hname
    obtain rfl := List.mem_singleton.mp hname
    rfl

theorem evaluate_eq_of_agreesOn_laden :
    let w : Sentry :=
      { checker := .exact, cached := true, table := Keyed.ofList [Policy.allowingOnDuty]
        templates := Lru.ofCapacity 1, cache := GuardCache.ofCapacity 1 }
    plain.context.get? (utf8 "x") ≠ laden.context.get? (utf8 "x") ∧
    (∃ e, Engine.build { checker := .exact, policies := [some Policy.allowingOnDuty] } = .ok e ∧
      e.primary.contextNames = [utf8 "duty"] ∧
      ((Engine.left [.evaluate plain] e).evaluate laden).1 = .allowed [[112]]) ∧
    ((Sentry.left [.markFresh, .evaluate plain] w).evaluate laden).1 = .allowed [[112]] := by
  intro w
  have hclear : w.IsClear := ⟨Lru.holds_ofCapacity 1, rfl⟩
  refine ⟨nofun, ?_, ?_⟩
  · obtain ⟨e, he, hnames, hkept, hverdict⟩ :
        ∃ e, Engine.build { checker := .exact, policies := [some Policy.allowingOnDuty] } = .ok e ∧
          e.primary.contextNames = [utf8 "duty"] ∧
          e.primary = (Engine.left [.evaluate plain] e).primary ∧
          (e.evaluate plain).1 = .allowed [[112]] := ⟨_, rfl, rfl, rfl, rfl⟩
    have hsame := (evaluate_eq_of_agreesOn plain laden).1 _ _ e e [] [.evaluate plain] he he rfl hkept
      (plain_agreesOn_laden hnames)
    exact ⟨e, he, hnames, hsame.symm.trans hverdict⟩
  · exact ((evaluate_eq_of_agreesOn plain laden).2 w w [.markFresh] [.markFresh, .evaluate plain]
      hclear hclear rfl (fun _ => .inr ⟨fun h => absurd rfl h, trivial⟩)
      (fun _ => .inr ⟨fun h => absurd rfl h, fun h => absurd rfl h, trivial⟩) rfl
      (plain_agreesOn_laden rfl)).symm

/-- A cache that is fresh and was not told of a change serves an old answer to the one inquiry but not
to the other. -/
theorem evaluate_ne_of_untold :
    let w : Sentry :=
      { checker := .exact, cached := true, templates := Lru.ofCapacity 1
        cache := GuardCache.ofCapacity 1 }
    let w' := Sentry.left [.markFresh, .evaluate plain, .add (some Policy.allowingOnDuty)] w
    plain.AgreesOn w'.table.contextNames laden ∧ (w'.evaluate plain).1 = .unmatched ∧
      (w'.evaluate laden).1 = .allowed [[112]] :=
  ⟨plain_agreesOn_laden rfl, rfl, rfl⟩

end Inquiry

end AccessControl
