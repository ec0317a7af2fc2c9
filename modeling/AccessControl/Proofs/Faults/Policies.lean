import AccessControl.Proofs.Codec.Policies
import AccessControl.Proofs.Faults.Rules
import AccessControl.Proofs.Faults.Translation

/-!
# Policies that are tested

A definition is accepted as a policy if its conditions are all patterns, or all of them rules, and no rule
is missing (`Policy.Definition.accepted_of_create`); the policy keeps the definition as it is
(`Policy.definition_of_create`).  `Checked.fitsBy` tests the conditions of that definition, where each may
be anything and rules may be missing: it fails where a condition is none of those that the checker tests,
where a missing rule is asked and where a value is read as of another kind.  None of that happens, and
what it comes to is what `Checker.fitsBy` says (`Checked.fitsBy_eq`).
-/

namespace AccessControl

/-! ## What is accepted -/

namespace Policy

/-- All conditions are patterns, or all of them are rules, and no rule is missing. -/
structure Definition.Accepted (d : Definition) : Prop where
  uniform : (∀ c ∈ d.all, c.isPattern = true) ∨ ∀ c ∈ d.all, c.isPattern = false
  complete : ∀ c ∈ d.all, c.isIncomplete = false
  context : ∀ e ∈ d.context.toList, e.2.isSome = true

theorem Definition.accepted_of_fault? {d : Definition} (h : d.fault? = none) : d.Accepted := by
  unfold fault? at h
  split at h
  · cases h
  split at h
  · cases h
  next hmixed =>
  split at h
  · cases h
  next hnull =>
  refine ⟨?_, ?_, ?_⟩
  · by_cases hsome : d.all.any (·.isPattern) = true
    · left
      simpa [hsome] using hmixed
    · right
      simpa using hsome
  · simpa using hnull
  · simpa [List.find?_eq_none, Option.isSome_iff_ne_none] using h

variable {d : Definition} {p : Policy}

/-- **What is accepted** is all patterns or all rules. -/
theorem Definition.accepted_of_create (h : create d = .ok p) : d.Accepted :=
  accepted_of_fault? (create_eq h).1

/-- Items that are all kept, and come back, are all there. -/
theorem map_filterMap_of_mem {α β : Type} {f : α → Option β} {g : β → α} {l : List α}
    (h : ∀ a ∈ l, ∃ b, f a = some b ∧ g b = a) : (l.filterMap f).map g = l := by
  have hback : ∀ a ∈ l, (f a).map g = some a := by
    intro a ha
    obtain ⟨b, hb, hab⟩ := h a ha
    rw [hb, Option.map_some, hab]
  rw [List.map_filterMap, List.filterMap_congr hback, List.filterMap_some]

theorem targets_map_filterMap {α β : Type} {f : α → Option β} {g : β → α} {t : Targets α}
    (h : ∀ a ∈ t.all, ∃ b, f a = some b ∧ g b = a) : (t.filterMap f).map g = t := by
  have hmem (a : α) (ha : a ∈ t.subjects ∨ a ∈ t.resources ∨ a ∈ t.actions) : a ∈ t.all := by
    simpa [Targets.all, or_assoc] using ha
  rw [Targets.filterMap, Targets.map, map_filterMap_of_mem fun a ha => h a (hmem a (.inl ha)),
    map_filterMap_of_mem fun a ha => h a (hmem a (.inr (.inl ha))),
    map_filterMap_of_mem fun a ha => h a (hmem a (.inr (.inr ha)))]

theorem map_filterMap_id {α : Type} {rules : Dict (Option α)}
    (h : ∀ e ∈ rules.toList, e.2.isSome = true) : (rules.filterMap id).map some = rules := by
  refine Keyed.ext (map_filterMap_of_mem fun e he => ?_)
  obtain ⟨a, ha⟩ := Option.isSome_iff_exists.mp (h e he)
  exact ⟨(e.1, a), by rw [id_eq, ha]; rfl, by rw [← ha]⟩

/-- A condition that is no pattern and that no rule is missing from is one of rules. -/
theorem Condition.exists_rule? {c : Condition} (hpattern : c.isPattern = false)
    (hcomplete : c.isIncomplete = false) : ∃ r, c.rule? = some r ∧ r.condition = c := by
  cases c with
  | pattern text => cases hpattern
  | rule r =>
    cases r with
    | none => cases hcomplete
    | some r => exact ⟨.rule r, rfl, rfl⟩
  | fields rules =>
    refine ⟨_, rfl, ?_⟩
    have hsome : ∀ e ∈ rules.toList, e.2.isSome = true := by
      simpa [isIncomplete, Option.isSome_iff_ne_none] using hcomplete
    exact congrArg Condition.fields (map_filterMap_id hsome)

theorem Condition.exists_pattern? {c : Condition} (hpattern : c.isPattern = true) :
    c.rule? = none ∧ ∃ text, c.pattern? = some text ∧ Condition.pattern text = c := by
  cases c with
  | pattern text => exact ⟨rfl, text, rfl, rfl⟩
  | _ => cases hpattern

/-- **What is accepted has one type**: a body of patterns comes of patterns, and one of rules of rules. -/
theorem Definition.Accepted.conditions_eq (h : d.Accepted) (hbody : p.body = d.body) :
    p.conditions = d.toTargets := by
  by_cases hrules : (d.filterMap Condition.rule?).all = []
  · rw [Definition.body_of_patterns hrules] at hbody
    rw [conditions_of_patterns hbody]
    refine targets_map_filterMap fun c hc => ?_
    by_cases hpattern : c.isPattern = true
    · exact (Condition.exists_pattern? hpattern).2
    · -- then the condition is one of rules
      obtain ⟨r, hr, -⟩ := Condition.exists_rule? (Bool.eq_false_iff.mpr hpattern) (h.complete c hc)
      have hmem := mem_all_filterMap.mpr ⟨c, hc, hr⟩
      rw [hrules] at hmem
      cases hmem
  · rw [Definition.body_of_rules rfl hrules] at hbody
    rw [conditions_of_rules hbody]
    refine targets_map_filterMap fun c hc => ?_
    -- there is a condition of rules, so no condition is a pattern
    obtain ⟨r, hr⟩ := List.exists_mem_of_ne_nil _ hrules
    obtain ⟨c', hc', hr'⟩ := mem_all_filterMap.mp hr
    rcases h.uniform with hall | hall
    · rw [(Condition.exists_pattern? (hall c' hc')).1] at hr'
      cases hr'
    · exact Condition.exists_rule? (hall c hc) (h.complete c hc)

/-- **A policy keeps its definition.** -/
theorem definition_of_create (h : create d = .ok p) : p.definition = d := by
  obtain ⟨hfault, huid, hdescription, heffect, hbody, hcontext, hstart, hend⟩ := create_eq h
  have haccepted := Definition.accepted_of_fault? hfault
  have hrules : p.context.map some = d.context := by
    rw [hcontext]
    exact map_filterMap_id haccepted.context
  unfold definition
  rw [haccepted.conditions_eq hbody, hrules, huid, hdescription, heffect, hstart, hend]

/-- **What a policy is made of is of its type**, and no rule is missing. -/
theorem elements_of_type (p : Policy) :
    (p.type = .pattern → ∀ c ∈ p.definition.all, c.isPattern = true) ∧
      (p.type = .rule → ∀ c ∈ p.definition.all, c.isPattern = false) ∧
      (∀ c ∈ p.definition.all, c.isIncomplete = false) ∧
      ∀ e ∈ p.definition.context.toList, e.2.isSome = true := by
  have haccepted := Definition.accepted_of_create (create_definition p)
  have hall : p.definition.all = p.conditions.all := rfl
  refine ⟨fun htype => ?_, fun htype => ?_, haccepted.complete, haccepted.context⟩ <;>
    rw [hall] <;> unfold type at htype
  · cases hbody : p.body with
    | patterns targets =>
      rw [conditions_of_patterns hbody, all_map]
      exact List.forall_mem_map.mpr fun _ _ => rfl
    | rules targets hne =>
      rw [hbody] at htype
      cases htype
  · cases hbody : p.body with
    | patterns targets =>
      rw [hbody] at htype
      cases htype
    | rules targets hne =>
      rw [conditions_of_rules hbody, all_map]
      exact List.forall_mem_map.mpr fun c _ => isPattern_condition c

end Policy

/-! ## Testing what may be anything -/

namespace Checked

open Policy (Condition)

/-- Whether the context of an inquiry satisfies the rules on it, each of which has to be there. -/
def contextFits (p : Policy) (q : Inquiry) : Except Fault Bool :=
  p.definition.context.toList.allM fun (name, r) =>
    match q.context.get? name with
    | none => .ok false
    | some v => ask r v (some q)

/-- Whether an attribute satisfies a condition, which has to be one of rules. -/
def ruleFits (q : Inquiry) (c : Condition) (what : Value) : Except Fault Bool :=
  match c with
  | .pattern _ => .error .wrongCondition
  | .rule r => ask r what (some q)
  | .fields rules => do
    if what.kind ≠ .map then return false
    rules.toList.allM fun (key, r) => do
      match ← find? key what with
      | none => return false
      | some v => ask r v (some q)

/-- Whether the conditions of a policy, which have to be of rules, fit an inquiry. -/
def rulesFit (p : Policy) (q : Inquiry) : Except Fault Bool := do
  if ← p.definition.fit (ruleFits q) q then contextFits p q else return false

/-- Whether an attribute fits a condition, which has to be a pattern. -/
def patternFits (test : PatternTest) (p : Policy) (c : Condition) (what : Value) :
    Run Fault TemplateMemo Bool := do
  if what.kind ≠ .string then return false
  match c with
  | .pattern pattern =>
    ExceptT.adapt Fault.failure (test.textFits p pattern (← read what.asString?))
  | _ => throw .wrongCondition

/-- Whether the conditions of a policy, which have to be patterns, fit an inquiry. -/
def patternsFit (test : PatternTest) (p : Policy) (q : Inquiry) : Run Fault TemplateMemo Bool := do
  if ← p.definition.fit (patternFits test p) q then contextFits p q else return false

/-- Whether a policy fits an inquiry by a checker of a kind, which looks at the type of the policy and
takes its conditions to be of this type. -/
def fitsBy (kind : CheckerKind) (p : Policy) (q : Inquiry) : Run Fault TemplateMemo Bool :=
  match kind, p.type with
  | .exact, .pattern => patternsFit .exact p q
  | .fuzzy, .pattern => patternsFit .fuzzy p q
  | .regex, .pattern | .other _, .pattern => patternsFit .regex p q
  | .rules, .rule => rulesFit p q
  | _, _ => return false

/-! ## No test fails -/

theorem fit_map {m : Type → Type} [Monad m] {α β : Type} (f : α → β) (t : Targets α)
    (test : β → Value → m Bool) (q : Inquiry) :
    (t.map f).fit test q = t.fit (fun a => test (f a)) q := by
  simp only [Targets.fit, Targets.map, Policy.anyM_map]

theorem contextFits_eq (p : Policy) (q : Inquiry) :
    contextFits p q = (p.contextFits q).mapError Fault.ofEscape := by
  unfold contextFits Policy.contextFits
  rw [← Translation.mapError_apply, Translation.allM]
  show (p.context.map some).toList.allM _ = _
  rw [Dict.map, Policy.allM_map]
  congr 1
  funext e
  obtain ⟨name, r⟩ := e
  simp only [Translation.mapError_apply]
  cases q.context.get? name with
  | none => rfl
  | some v => exact ask_eq r v (some q)

theorem ruleFits_eq (q : Inquiry) (c : Policy.RuleCondition) (what : Value) :
    ruleFits q c.condition what = (c.fits q what).mapError Fault.ofEscape := by
  cases c with
  | rule r => exact ask_eq r what (some q)
  | fields rules =>
    cases what with
    | map entries =>
      show (rules.map some).toList.allM _ = _
      unfold Policy.RuleCondition.fits
      rw [← Translation.mapError_apply, Translation.allM, Dict.map, Policy.allM_map]
      congr 1
      funext e
      obtain ⟨key, r⟩ := e
      simp only [Translation.mapError_apply, find?_eq]
      cases (Value.map entries).find? key with
      | none => rfl
      | some v => exact ask_eq r v (some q)
    | _ => rfl

variable {p : Policy}

theorem rulesFit_eq {targets : Targets Policy.RuleCondition} {hne : targets.all ≠ []}
    (hbody : p.body = .rules targets hne) (q : Inquiry) :
    rulesFit p q = (Checker.rulesFit p targets q).mapError Fault.ofEscape := by
  have hfit : p.definition.fit (ruleFits q) q =
      (targets.fit (Policy.RuleCondition.fits q) q).mapError Fault.ofEscape := by
    show p.conditions.fit (ruleFits q) q = _
    rw [Policy.conditions_of_rules hbody, fit_map, ← Translation.mapError_apply, Translation.fit]
    congr 1
    funext c what
    exact ruleFits_eq q c what
  unfold rulesFit Checker.rulesFit
  rw [hfit, contextFits_eq]
  rcases targets.fit (Policy.RuleCondition.fits q) q with _ | _ | _ <;> rfl

theorem patternFits_eq (test : PatternTest) (p : Policy) (pattern : Bytes) (what : Value) :
    patternFits test p (.pattern pattern) what =
      ExceptT.adapt Fault.failure (test.fits p pattern what) := by
  cases what <;> rfl

theorem patternsFit_eq (test : PatternTest) {targets : Targets Bytes}
    (hbody : p.body = .patterns targets) (q : Inquiry) :
    patternsFit test p q = ExceptT.adapt Fault.failure (Checker.patternsFit test p targets q) := by
  have hfit : p.definition.fit (patternFits test p) q =
      ExceptT.adapt Fault.failure (targets.fit (test.fits p) q) := by
    show p.conditions.fit (patternFits test p) q = _
    rw [Policy.conditions_of_patterns hbody, fit_map, ← Translation.adapt_apply, Translation.fit]
    congr 1
    funext pattern what
    exact patternFits_eq test p pattern what
  unfold patternsFit Checker.patternsFit
  rw [hfit, contextFits_eq, ← Translation.adapt_apply, ← Translation.adapt_apply,
    Translation.apply_bind]
  congr 1
  funext fits
  cases fits with
  | false => rfl
  | true =>
    cases p.contextFits q <;> rfl

/-- **No policy is tested with a fault.**  What keeps a checker from its answer is a failure that it
reports. -/
theorem fitsBy_eq (kind : CheckerKind) (p : Policy) (q : Inquiry) :
    fitsBy kind p q = ExceptT.adapt Fault.failure (Checker.fitsBy kind p q) := by
  unfold fitsBy Checker.fitsBy Policy.type
  cases hbody : p.body with
  | patterns targets =>
    cases kind with
    | rules => rfl
    | _ => exact patternsFit_eq _ hbody q
  | rules targets hne =>
    cases kind with
    | rules =>
      simp only [rulesFit_eq hbody q]
      cases Checker.rulesFit p targets q <;> rfl
    | _ => rfl

end Checked

end AccessControl
