import AccessControl.Checker.Fit
import AccessControl.Policy.Document
import AccessControl.Policy.Samples
import AccessControl.Proofs.Codec.Rules

/-!
# Policies through documents

A policy whose rules can be written is read from its document as it was written, up to the operands of
its rules that are floating point numbers (`Policy.ofDocument_toNode`), and is judged in the same way by
checkers of every kind (`Policy.fitsBy_reread`).  Every policy that is read can be written
(`Policy.isWritable_of_ofDocument`).
-/

namespace AccessControl

namespace Policy

/-! ## Policies that can be written -/

/-- The rules of a condition can be written. -/
def RuleCondition.IsWritable : RuleCondition → Prop
  | rule r => r.IsWritable
  | fields rules => ∀ e ∈ rules.toList, e.2.IsWritable

/-- The rules of a body can be written. -/
def Body.IsWritable : Body → Prop
  | patterns _ => True
  | rules targets _ => ∀ c ∈ targets.all, c.IsWritable

/-- All rules of the policy can be written. -/
def IsWritable (p : Policy) : Prop :=
  p.body.IsWritable ∧ ∀ e ∈ p.context.toList, e.2.IsWritable

/-- The condition that comes back from a document. -/
def RuleCondition.reread : RuleCondition → RuleCondition
  | rule r => .rule r.reread
  | fields rules => .fields (rules.map Rule.reread)

theorem all_map_ne_nil {α β : Type} {t : Targets α} (h : t.all ≠ []) (f : α → β) :
    (t.map f).all ≠ [] := by
  simpa [Targets.all, Targets.map] using h

/-- The conditions that come back from a document. -/
def Body.reread : Body → Body
  | patterns targets => .patterns targets
  | rules targets h => .rules (targets.map RuleCondition.reread) (all_map_ne_nil h _)

/-- The policy that comes back from a document. -/
def reread (p : Policy) : Policy :=
  { p with body := p.body.reread, context := p.context.map Rule.reread }

theorem type_reread (p : Policy) : p.reread.type = p.type := by
  unfold type reread
  cases p.body <;> rfl

/-- What is seen of a condition without looking into its rules. -/
inductive Shape where
  | pattern (text : Bytes)
  | rule
  | fields (names : List Bytes)

/-- The shape of a condition. -/
def Condition.shape : Condition → Shape
  | pattern p => .pattern p
  | rule _ => .rule
  | fields rules => .fields (rules.toList.map Prod.fst)

theorem names_map {α β : Type} (f : α → β) (d : Dict α) :
    (d.map f).toList.map Prod.fst = d.toList.map Prod.fst := by
  rw [Dict.map, List.map_map]
  rfl

theorem shape_reread (c : RuleCondition) : c.reread.condition.shape = c.condition.shape := by
  cases c with
  | rule r => rfl
  | fields rules =>
    show Shape.fields _ = Shape.fields _
    rw [names_map, names_map, names_map]

/-- **Number, kinds and order of the conditions are kept**, and the names of their fields. -/
theorem conditions_reread (p : Policy) :
    p.reread.conditions.map Condition.shape = p.conditions.map Condition.shape := by
  unfold conditions reread
  cases p.body with
  | patterns targets => rfl
  | rules targets h =>
    simp only [Body.reread, Targets.map, List.map_map]
    congr 1 <;> exact List.map_congr_left fun c _ => shape_reread c

/-! ## Judging what comes back -/

theorem anyM_map {m : Type → Type} [Monad m] {α β : Type} (f : α → β) (test : β → m Bool) (l : List α) :
    (l.map f).anyM test = l.anyM fun a => test (f a) := by
  induction l with
  | nil => rfl
  | cons a l ih => simp only [List.map_cons, List.anyM, ih]

theorem allM_map {m : Type → Type} [Monad m] {α β : Type} (f : α → β) (test : β → m Bool) (l : List α) :
    (l.map f).allM test = l.allM fun a => test (f a) := by
  induction l with
  | nil => rfl
  | cons a l ih => simp only [List.map_cons, List.allM, ih]

theorem contextFits_reread (p : Policy) (q : Inquiry) : p.reread.contextFits q = p.contextFits q := by
  unfold contextFits reread
  simp only [Dict.map, allM_map, Rule.satisfied_reread]

theorem RuleCondition.fits_reread (c : RuleCondition) (what : Value) (q : Inquiry) :
    c.reread.fits q what = c.fits q what := by
  cases c with
  | rule r => exact r.satisfied_reread what (some q)
  | fields rules =>
    cases what with
    | map entries =>
      unfold fits reread
      simp only [Dict.map, allM_map, Rule.satisfied_reread]
    | _ => rfl

theorem rulesFit_reread (p : Policy) (targets : Targets RuleCondition) (q : Inquiry) :
    Checker.rulesFit p.reread (targets.map RuleCondition.reread) q =
      Checker.rulesFit p targets q := by
  have hfit : (targets.map RuleCondition.reread).fit (RuleCondition.fits q) q =
      targets.fit (RuleCondition.fits q) q := by
    simp only [Targets.fit, Targets.map, anyM_map, RuleCondition.fits_reread]
  rw [Checker.rulesFit, Checker.rulesFit, hfit, contextFits_reread]

theorem patternsFit_reread (test : PatternTest) (p : Policy) (targets : Targets Bytes) (q : Inquiry) :
    Checker.patternsFit test p.reread targets q = Checker.patternsFit test p targets q := by
  have htest : test.fits p.reread = test.fits p := rfl
  rw [Checker.patternsFit, Checker.patternsFit, htest, contextFits_reread]

/-- **Checkers of every kind judge what comes back in the same way.** -/
theorem fitsBy_reread (kind : CheckerKind) (p : Policy) (q : Inquiry) :
    Checker.fitsBy kind p.reread q = Checker.fitsBy kind p q := by
  have hbody : p.reread.body = p.body.reread := rfl
  unfold Checker.fitsBy
  rw [hbody]
  cases hp : p.body with
  | patterns targets =>
    cases kind <;> simp only [Body.reread, patternsFit_reread]
  | rules targets h =>
    cases kind <;> simp only [Body.reread, rulesFit_reread]

/-! ## Creation -/

theorem rule?_condition (c : RuleCondition) : c.condition.rule? = some c := by
  cases c with
  | rule r => rfl
  | fields rules =>
    have hsome : (rules.map some).filterMap id = rules := by
      apply Keyed.ext
      simp [Dict.map, Dict.filterMap, List.filterMap_map]
    show some (RuleCondition.fields ((rules.map some).filterMap id)) = _
    rw [hsome]

theorem isIncomplete_condition (c : RuleCondition) : c.condition.isIncomplete = false := by
  cases c with
  | rule r => rfl
  | fields rules => simp [RuleCondition.condition, Condition.isIncomplete, Dict.map]

theorem isPattern_condition (c : RuleCondition) : c.condition.isPattern = false := by
  cases c <;> rfl

theorem all_map {α β : Type} (t : Targets α) (f : α → β) : (t.map f).all = t.all.map f := by
  simp [Targets.all, Targets.map]

theorem filterMap_map {α β γ : Type} (t : Targets α) (f : α → β) (g : β → Option γ) :
    (t.map f).filterMap g = t.filterMap fun a => g (f a) := by
  simp [Targets.filterMap, Targets.map, List.filterMap_map]

theorem filterMap_some {α : Type} (t : Targets α) : t.filterMap some = t := by
  simp [Targets.filterMap]

theorem filterMap_none {α β : Type} (t : Targets α) :
    (t.filterMap fun _ => (none : Option β)).all = [] := by
  simp [Targets.filterMap, Targets.all]

theorem mem_all_filterMap {α β : Type} {f : α → Option β} {t : Targets α} {b : β} :
    b ∈ (t.filterMap f).all ↔ ∃ a ∈ t.all, f a = some b := by
  simp [Targets.all, Targets.filterMap, or_and_right, exists_or]

variable {p : Policy}

theorem conditions_of_patterns {targets : Targets Bytes} (h : p.body = .patterns targets) :
    p.conditions = targets.map .pattern := by
  rw [conditions, h]

theorem conditions_of_rules {targets : Targets RuleCondition} {hne : targets.all ≠ []}
    (h : p.body = .rules targets hne) : p.conditions = targets.map (·.condition) := by
  rw [conditions, h]

theorem fault?_definition (p : Policy) : p.definition.fault? = none := by
  have huid : p.definition.uid ≠ [] := p.uid_ne_nil
  have hcontext : p.definition.context.toList.find? (fun e => e.2.isNone) = none := by
    simp [definition, Dict.map]
  have hall : p.definition.all = p.conditions.all := rfl
  unfold Definition.fault?
  rw [if_neg huid, hcontext, hall]
  cases hbody : p.body with
  | patterns targets =>
    rw [conditions_of_patterns hbody, all_map]
    simp [Condition.isPattern, Condition.pattern?, Condition.isIncomplete]
  | rules targets h =>
    rw [conditions_of_rules hbody, all_map]
    simp [isPattern_condition, isIncomplete_condition]

theorem Definition.body_of_rules {d : Definition} {targets : Targets RuleCondition}
    (h : d.filterMap Condition.rule? = targets) (hne : targets.all ≠ []) :
    d.body = .rules targets hne := by
  subst h
  unfold body
  exact dif_neg hne

theorem Definition.body_of_patterns {d : Definition}
    (h : (d.filterMap Condition.rule?).all = []) :
    d.body = .patterns (d.filterMap Condition.pattern?) := by
  unfold body
  exact dif_pos h

theorem body_definition (p : Policy) : p.definition.body = p.body := by
  have htargets : p.definition.toTargets = p.conditions := rfl
  cases hbody : p.body with
  | patterns targets =>
    have hnone : (p.definition.filterMap Condition.rule?).all = [] := by
      rw [htargets, conditions_of_patterns hbody, filterMap_map]
      exact filterMap_none targets
    rw [Definition.body_of_patterns hnone, htargets, conditions_of_patterns hbody, filterMap_map]
    exact congrArg _ (filterMap_some targets)
  | rules targets h =>
    refine Definition.body_of_rules ?_ h
    rw [htargets, conditions_of_rules hbody, filterMap_map]
    simp only [rule?_condition]
    exact filterMap_some targets

/-- What a policy is created with. -/
theorem create_eq {d : Definition} (h : create d = .ok p) :
    d.fault? = none ∧ p.uid = d.uid ∧ p.description = d.description ∧ p.effect = d.effect ∧
      p.body = d.body ∧ p.context = d.context.filterMap id ∧ p.startTag = d.startTag ∧
      p.endTag = d.endTag := by
  unfold create at h
  split at h
  · cases h
  · next hfault =>
    cases h
    exact ⟨hfault, rfl, rfl, rfl, rfl, rfl, rfl, rfl⟩

/-- **Every policy is created from its definition.** -/
theorem create_definition (p : Policy) : create p.definition = .ok p := by
  have hcontext : p.definition.context.filterMap id = p.context := by
    apply Keyed.ext
    simp [definition, Dict.map, Dict.filterMap, List.filterMap_map]
  unfold create
  split
  · next fault hfault =>
    rw [fault?_definition] at hfault
    cases hfault
  · simp only [body_definition, hcontext]
    rfl

/-! ## Reading what was written -/

/-- All rules of the condition are there and can be written. -/
def Condition.IsWritable : Condition → Prop
  | pattern _ => True
  | rule r => ∃ r', r = some r' ∧ r'.IsWritable
  | fields rules => ∀ e ∈ rules.toList, ∃ r', e.2 = some r' ∧ r'.IsWritable

/-- The condition that comes back from a document. -/
def Condition.reread : Condition → Condition
  | pattern p => .pattern p
  | rule r => .rule (r.map Rule.reread)
  | fields rules => .fields (rules.map (Option.map Rule.reread))

theorem isWritable_condition {c : RuleCondition} (h : c.IsWritable) : c.condition.IsWritable := by
  cases c with
  | rule r => exact ⟨r, rfl, h⟩
  | fields rules =>
    intro e he
    obtain ⟨e', he', rfl⟩ := List.mem_map.mp he
    exact ⟨e'.2, rfl, h e' he'⟩

theorem IsWritable.condition (h : p.IsWritable) {c : Condition} (hc : c ∈ p.conditions.all) :
    c.IsWritable := by
  have hbody := h.1
  cases hp : p.body with
  | patterns targets =>
    rw [conditions_of_patterns hp, all_map] at hc
    obtain ⟨text, -, rfl⟩ := List.mem_map.mp hc
    trivial
  | rules targets hne =>
    rw [conditions_of_rules hp, all_map] at hc
    rw [hp] at hbody
    obtain ⟨c', hc', rfl⟩ := List.mem_map.mp hc
    exact isWritable_condition (hbody c' hc')

theorem conditions_reread_eq (p : Policy) :
    p.reread.conditions = p.conditions.map Condition.reread := by
  have hbody : p.reread.body = p.body.reread := rfl
  have hcondition (c : RuleCondition) : c.reread.condition = c.condition.reread := by
    cases c with
    | rule r => rfl
    | fields rules =>
      refine congrArg Condition.fields (Keyed.ext ?_)
      simp [Dict.map]
  cases hp : p.body with
  | patterns targets =>
    rw [hp] at hbody
    rw [conditions_of_patterns hp, conditions_of_patterns hbody]
    simp [Targets.map, Condition.reread]
  | rules targets h =>
    rw [hp] at hbody
    rw [conditions_of_rules hp, conditions_of_rules hbody]
    simp [Targets.map, hcondition]

open RuleRegistry

theorem scalar?_documentOf (r : Option Rule) : (Rule.documentOf r).scalar? = none := by
  cases r with
  | none => rfl
  | some r =>
    cases r with
    | inquiry which field => cases field <;> rfl
    | not r => cases r <;> rfl
    | _ => rfl

/-- Maps of rules for fields are not taken for rules, whatever the names of the fields. -/
theorem isRule_entriesOf {fields : List (Bytes × Node)} (h : ∀ f ∈ fields, f.2.scalar? = none)
    (registry : RuleRegistry) : registry.isRule (.map (Node.entriesOf fields)) = false := by
  have hkind : kindOf (Node.entriesOf fields) = .error .ruleWithoutType := by
    unfold kindOf
    split
    · next tag text hlookup =>
      obtain ⟨e, he, hscalar⟩ := Option.map_eq_some_iff.mp hlookup
      obtain ⟨f, hf, rfl⟩ := List.mem_map.mp (List.mem_of_find?_eq_some he)
      have hnone := h f hf
      rw [show f.2 = .scalar tag text from hscalar] at hnone
      cases hnone
    · rfl
  rw [isRule, hkind]

/-- The entries for rules under names. -/
def fieldEntries (rules : List (Bytes × Option Rule)) : List (Node × Node) :=
  Node.entriesOf (rules.map fun e => (e.1, Rule.documentOf e.2))

theorem isRule_fieldEntries (rules : List (Bytes × Option Rule)) :
    builtin.isRule (.map (fieldEntries rules)) = false := by
  refine isRule_entriesOf (fun f hf => ?_) builtin
  obtain ⟨e, -, rfl⟩ := List.mem_map.mp hf
  exact scalar?_documentOf e.2

theorem ruleOrLiteral_toNode {r : Rule} (h : r.IsWritable) :
    ruleOrLiteral builtin r.toNode = .ok (some r.reread) := by
  rw [ruleOrLiteral, isRule_toNode, if_pos rfl, decode_toNode r h]

theorem rulesOf_fieldEntries (fault : DocumentError) {rules : List (Bytes × Option Rule)}
    (h : ∀ e ∈ rules, ∃ r, e.2 = some r ∧ r.IsWritable) :
    rulesOf builtin fault (fieldEntries rules) =
      .ok (rules.map fun e => (e.1, e.2.map Rule.reread)) := by
  induction rules with
  | nil => rfl
  | cons e rest ih =>
    obtain ⟨key, _⟩ := e
    obtain ⟨r, rfl, hr⟩ := h _ (List.mem_cons_self ..)
    have hrest := ih fun e he => h e (List.mem_cons_of_mem _ he)
    have hcons : fieldEntries ((key, some r) :: rest) =
        (.scalar [] key, r.toNode) :: fieldEntries rest := rfl
    rw [hcons, rulesOf, ruleOrLiteral_toNode hr, hrest]
    rfl

/-- **A condition is read as what it is**: a pattern, a rule or rules for fields. -/
theorem conditionOf_toNode (field : Bytes) {c : Condition} (h : c.IsWritable) :
    conditionOf builtin field c.toNode = .ok c.reread := by
  cases c with
  | pattern text => rfl
  | rule r =>
    obtain ⟨r, rfl, hr⟩ := h
    have hrule := isRule_toNode r
    have hdecode := decode_toNode r hr
    -- a rule is written as a map that names its kind
    show conditionOf builtin field r.toNode = _
    cases hn : r.toNode with
    | map entries =>
      rw [hn] at hrule hdecode
      rw [conditionOf, hrule, if_pos rfl, hdecode]
      rfl
    | _ =>
      rw [hn] at hrule
      cases hrule
  | fields rules =>
    -- a map of fields is not taken for a rule, and its entries come back in their order
    have hnode : (Condition.fields rules).toNode = .map (fieldEntries rules.toList) := rfl
    have hofList := Keyed.ofList_toList (rules.map (Option.map Rule.reread))
    rw [hnode, conditionOf, isRule_fieldEntries, if_neg Bool.false_ne_true,
      rulesOf_fieldEntries _ h]
    show Except.ok (Condition.fields (Dict.ofPairs (rules.map (Option.map Rule.reread)).toList)) = _
    rw [Dict.ofPairs, hofList, Condition.reread]

theorem mapM_eq_ok {ε α β : Type} {f : α → Except ε β} {g : α → β} {l : List α}
    (h : ∀ a ∈ l, f a = .ok (g a)) : l.mapM f = .ok (l.map g) := by
  induction l with
  | nil => rfl
  | cons a l ih =>
    rw [List.mapM_cons, h a (List.mem_cons_self ..), ih fun b hb => h b (List.mem_cons_of_mem _ hb)]
    rfl

theorem Effect_ofName?_name (e : Effect) : Effect.ofName? e.name = some e := by
  cases e <;> decide

/-- What stands under the keys of the document of a policy. -/
structure IsDocumentedBy (p : Policy) (entries : List (Node × Node)) : Prop where
  uid : Node.lookup (utf8 "uid") entries = some (.plain p.uid)
  description : Node.lookup (utf8 "description") entries = some (.plain p.description)
  effect : Node.lookup (utf8 "effect") entries = some (.plain p.effect.name)
  type : Node.lookup (utf8 "type") entries = some (.plain p.type.name)
  subjects : Node.lookup (utf8 "subjects") entries =
    some (.sequence (p.conditions.subjects.map Condition.toNode))
  resources : Node.lookup (utf8 "resources") entries =
    some (.sequence (p.conditions.resources.map Condition.toNode))
  actions : Node.lookup (utf8 "actions") entries =
    some (.sequence (p.conditions.actions.map Condition.toNode))
  context : Node.lookup (utf8 "context") entries =
    some (.map (fieldEntries (p.context.map some).toList))
  startTag : Node.lookup (utf8 "start_tag") entries = some (.plain [p.startTag])
  endTag : Node.lookup (utf8 "end_tag") entries = some (.plain [p.endTag])

theorem toNode_isDocumentedBy (p : Policy) :
    ∃ entries, p.toNode = .map entries ∧ p.IsDocumentedBy entries := by
  have hcontext : Node.ofFields (p.context.map Rule.toNode).toList =
      .map (fieldEntries (p.context.map some).toList) := by
    simp [Node.ofFields, fieldEntries, Node.entriesOf, Dict.map, Rule.documentOf]
  refine ⟨_, rfl, rfl, rfl, rfl, rfl, rfl, rfl, rfl, ?_, rfl, rfl⟩
  rw [← hcontext]
  rfl

section

variable {entries : List (Node × Node)}

theorem scalarOf_eq {key text : Bytes} (h : Node.lookup key entries = some (.plain text)) :
    scalarOf key entries = text := by
  rw [scalarOf, h]
  rfl

theorem effectOf_eq {uid : Bytes} {e : Effect}
    (h : Node.lookup (utf8 "effect") entries = some (.plain e.name)) :
    effectOf uid entries = .ok e := by
  rw [effectOf, h]
  simp only [Node.plain, Node.scalar?, Option.bind_some, Effect_ofName?_name]

theorem conditionsOf_eq {field : Bytes} {conditions : List Condition}
    (h : Node.lookup field entries = some (.sequence (conditions.map Condition.toNode)))
    (hwritable : ∀ c ∈ conditions, c.IsWritable) :
    conditionsOf builtin field entries = .ok (conditions.map Condition.reread) := by
  rw [conditionsOf, h]
  show (conditions.map Condition.toNode).mapM (conditionOf builtin field) = _
  rw [List.mapM_map]
  exact mapM_eq_ok fun c hc => conditionOf_toNode field (hwritable c hc)

theorem contextOf_eq {uid : Bytes} {rules : Dict (Option Rule)}
    (h : Node.lookup (utf8 "context") entries = some (.map (fieldEntries rules.toList)))
    (hwritable : ∀ e ∈ rules.toList, ∃ r, e.2 = some r ∧ r.IsWritable) :
    contextOf builtin uid entries = .ok (rules.map (Option.map Rule.reread)) := by
  rw [contextOf, h]
  simp only [rulesOf_fieldEntries _ hwritable]
  exact congrArg _ (Keyed.ofList_toList (rules.map (Option.map Rule.reread)))

theorem tagOf_eq {key : Bytes} {usual tag : UInt8}
    (h : Node.lookup key entries = some (.plain [tag])) : tagOf key usual entries = .ok tag := by
  rw [tagOf, h]
  rfl

theorem definitionOf_eq (h : p.IsDocumentedBy entries) (hwritable : p.IsWritable) :
    definitionOf builtin entries = .ok p.reread.definition := by
  have hconditions (c : Condition) (hc : c ∈ p.conditions.subjects ∨ c ∈ p.conditions.resources ∨
      c ∈ p.conditions.actions) : c.IsWritable := by
    refine hwritable.condition ?_
    rwa [Targets.all, List.mem_append, List.mem_append, or_assoc]
  have hcontext : ∀ e ∈ (p.context.map some).toList, ∃ r, e.2 = some r ∧ r.IsWritable := by
    intro e he
    obtain ⟨e', he', rfl⟩ := List.mem_map.mp he
    exact ⟨e'.2, rfl, hwritable.2 e' he'⟩
  have hreread : p.reread.definition =
      { p.conditions.map Condition.reread with
        uid := p.uid
        description := p.description
        effect := p.effect
        context := (p.context.map some).map (Option.map Rule.reread)
        startTag := p.startTag
        endTag := p.endTag } := by
    have hrules : (p.context.map Rule.reread).map some =
        (p.context.map some).map (Option.map Rule.reread) := by
      apply Keyed.ext
      simp [Dict.map]
    unfold definition
    rw [conditions_reread_eq, ← hrules]
    rfl
  unfold definitionOf
  simp only [scalarOf_eq h.uid, scalarOf_eq h.description, effectOf_eq h.effect,
    conditionsOf_eq h.subjects fun c hc => hconditions c (.inl hc),
    conditionsOf_eq h.resources fun c hc => hconditions c (.inr (.inl hc)),
    conditionsOf_eq h.actions fun c hc => hconditions c (.inr (.inr hc)),
    contextOf_eq h.context hcontext, tagOf_eq h.startTag, tagOf_eq h.endTag]
  rw [hreread]
  rfl

end

/-- **A policy is read as it was written.** -/
theorem ofDocument_toNode {p : Policy} (h : p.IsWritable) :
    ofDocument builtin (some p.toNode) = .ok p.reread := by
  obtain ⟨entries, hnode, hentries⟩ := toNode_isDocumentedBy p
  rw [hnode, ofDocument, definitionOf_eq hentries h]
  show (create p.reread.definition >>= _) = _
  rw [create_definition]
  simp only [bind, Except.bind, hentries.type, Node.plain, type_reread, if_true]
  rfl

/-! ## What is read -/

theorem isWritable_of_ruleOrLiteral {n : Node} {r : Option Rule}
    (h : ruleOrLiteral builtin n = .ok r) : ∃ r', r = some r' ∧ r'.IsWritable := by
  unfold ruleOrLiteral at h
  split at h
  · exact isWritable_of_decode n h
  · obtain ⟨v, hv, rfl⟩ := map_eq_ok.mp h
    exact ⟨_, rfl, Value.isData_of_ofNode n hv⟩

theorem isWritable_of_rulesOf {fault : DocumentError} :
    ∀ {entries : List (Node × Node)} {rules : List (Bytes × Option Rule)},
      rulesOf builtin fault entries = .ok rules → ∀ e ∈ rules, ∃ r, e.2 = some r ∧ r.IsWritable
  | [], _, h => by
    cases h
    exact fun _ he => by cases he
  | (.scalar _ key, n) :: rest, _, h => by
    obtain ⟨r, hr, h⟩ := bind_eq_ok.mp h
    obtain ⟨rs, hrs, h⟩ := bind_eq_ok.mp h
    cases h
    intro e he
    rcases List.mem_cons.mp he with rfl | he
    · exact isWritable_of_ruleOrLiteral hr
    · exact isWritable_of_rulesOf hrs e he
  | (.null, _) :: _, _, h | (.sequence _, _) :: _, _, h | (.map _, _) :: _, _, h => by cases h

theorem isWritable_of_conditionOf {field : Bytes} {n : Node} {c : Condition}
    (h : conditionOf builtin field n = .ok c) : c.IsWritable := by
  cases n with
  | scalar tag text =>
    cases h
    trivial
  | map entries =>
    unfold conditionOf at h
    simp only at h
    split at h
    · obtain ⟨r, hr, rfl⟩ := map_eq_ok.mp h
      exact isWritable_of_decode _ hr
    · obtain ⟨rules, hrules, rfl⟩ := map_eq_ok.mp h
      exact fun e he => isWritable_of_rulesOf hrules e (Keyed.mem_of_mem_ofList he)
  | null => cases h
  | sequence items => cases h

theorem exists_of_mapM_eq_ok {ε α β : Type} {f : α → Except ε β} {l : List α} {l' : List β}
    (h : l.mapM f = .ok l') : ∀ b ∈ l', ∃ a ∈ l, f a = .ok b := by
  induction l generalizing l' with
  | nil =>
    cases h
    exact fun _ hb => by cases hb
  | cons a l ih =>
    rw [List.mapM_cons] at h
    obtain ⟨b, hb, h⟩ := bind_eq_ok.mp h
    obtain ⟨bs, hbs, h⟩ := bind_eq_ok.mp h
    cases h
    intro b' hb'
    rcases List.mem_cons.mp hb' with rfl | hb'
    · exact ⟨a, List.mem_cons_self .., hb⟩
    · obtain ⟨a', ha', hf⟩ := ih hbs b' hb'
      exact ⟨a', List.mem_cons_of_mem _ ha', hf⟩

theorem isWritable_of_conditionsOf {field : Bytes} {entries : List (Node × Node)}
    {conditions : List Condition} (h : conditionsOf builtin field entries = .ok conditions) :
    ∀ c ∈ conditions, c.IsWritable := by
  unfold conditionsOf at h
  split at h
  · cases h
    exact fun _ hc => by cases hc
  · cases h
    exact fun _ hc => by cases hc
  · intro c hc
    obtain ⟨n, -, hn⟩ := exists_of_mapM_eq_ok h c hc
    exact isWritable_of_conditionOf hn
  · cases h

theorem isWritable_of_contextOf {uid : Bytes} {entries : List (Node × Node)}
    {rules : Dict (Option Rule)} (h : contextOf builtin uid entries = .ok rules) :
    ∀ e ∈ rules.toList, ∃ r, e.2 = some r ∧ r.IsWritable := by
  unfold contextOf at h
  split at h
  · cases h
    exact fun _ he => by cases he
  · cases h
    exact fun _ he => by cases he
  · obtain ⟨pairs, hpairs, rfl⟩ := map_eq_ok.mp h
    exact fun e he => isWritable_of_rulesOf hpairs e (Keyed.mem_of_mem_ofList he)
  · cases h

/-- All rules of the definition are there and can be written. -/
def Definition.IsWritable (d : Definition) : Prop :=
  (∀ c ∈ d.all, c.IsWritable) ∧ ∀ e ∈ d.context.toList, ∃ r, e.2 = some r ∧ r.IsWritable

theorem isWritable_of_definitionOf {entries : List (Node × Node)} {d : Definition}
    (h : definitionOf builtin entries = .ok d) : d.IsWritable := by
  unfold definitionOf at h
  obtain ⟨effect, -, h⟩ := bind_eq_ok.mp h
  obtain ⟨subjects, hsubjects, h⟩ := bind_eq_ok.mp h
  obtain ⟨resources, hresources, h⟩ := bind_eq_ok.mp h
  obtain ⟨actions, hactions, h⟩ := bind_eq_ok.mp h
  obtain ⟨context, hcontext, h⟩ := bind_eq_ok.mp h
  obtain ⟨startTag, -, h⟩ := bind_eq_ok.mp h
  obtain ⟨endTag, -, h⟩ := bind_eq_ok.mp h
  cases h
  refine ⟨fun c hc => ?_, isWritable_of_contextOf hcontext⟩
  rcases List.mem_append.mp hc with hc | hc
  · rcases List.mem_append.mp hc with hc | hc
    · exact isWritable_of_conditionsOf hsubjects c hc
    · exact isWritable_of_conditionsOf hresources c hc
  · exact isWritable_of_conditionsOf hactions c hc

theorem isWritable_of_rule? {c : Condition} {c' : RuleCondition} (h : c.IsWritable)
    (hc : c.rule? = some c') : c'.IsWritable := by
  cases c with
  | pattern text => cases hc
  | rule r =>
    obtain ⟨r, rfl, hr⟩ := h
    cases hc
    exact hr
  | fields rules =>
    cases hc
    intro e he
    obtain ⟨e', he', he⟩ := List.mem_filterMap.mp he
    obtain ⟨r, hr, hwritable⟩ := h e' he'
    rw [hr] at he
    cases he
    exact hwritable

theorem isWritable_of_create {d : Definition} (h : d.IsWritable) (hcreate : create d = .ok p) :
    p.IsWritable := by
  obtain ⟨-, -, -, -, hbody, hcontext, -, -⟩ := create_eq hcreate
  refine ⟨?_, fun e he => ?_⟩
  · rw [hbody]
    by_cases hrules : (d.filterMap Condition.rule?).all = []
    · rw [Definition.body_of_patterns hrules]
      trivial
    · rw [Definition.body_of_rules rfl hrules]
      intro c hc
      obtain ⟨c', hc', hrule⟩ := mem_all_filterMap.mp hc
      exact isWritable_of_rule? (h.1 c' hc') hrule
  · rw [hcontext] at he
    obtain ⟨e', he', he⟩ := List.mem_filterMap.mp he
    obtain ⟨r, hr, hwritable⟩ := h.2 e' he'
    rw [hr] at he
    cases he
    exact hwritable

/-- **Every policy that is read can be written.** -/
theorem isWritable_of_ofDocument {document : Option Node}
    (h : ofDocument builtin document = .ok p) : p.IsWritable := by
  unfold ofDocument at h
  split at h
  · next entries =>
    obtain ⟨d, hd, h⟩ := bind_eq_ok.mp h
    obtain ⟨p', hcreate, h⟩ := bind_eq_ok.mp h
    have hd : definitionOf builtin entries = .ok d := by
      cases hdefinition : definitionOf builtin entries with
      | error e =>
        rw [hdefinition] at hd
        cases hd
      | ok d' =>
        rw [hdefinition] at hd
        cases hd
        rfl
    have hwritable := isWritable_of_create (isWritable_of_definitionOf hd) hcreate
    split at h
    · split at h
      · cases h
        exact hwritable
      · cases h
    · cases h
      exact hwritable
  · cases h

/-- **Policies survive their documents.**  A policy whose rules can be written is read from its document
with everything that is seen of it: uid, description, effect, type, tags, the number, order and kinds of
its conditions, the names of fields and of the context; and checkers of every kind judge it in the same
way, with the same errors.  Every policy that is read from any document is such a policy, so writing and
reading it once more does not change how it is judged. -/
theorem document_roundTrip :
    (∀ p : Policy, p.IsWritable → ∃ p', ofDocument builtin (some p.toNode) = .ok p' ∧
      p'.uid = p.uid ∧ p'.description = p.description ∧ p'.effect = p.effect ∧ p'.type = p.type ∧
      p'.startTag = p.startTag ∧ p'.endTag = p.endTag ∧
      p'.conditions.map Condition.shape = p.conditions.map Condition.shape ∧
      p'.context.toList.map Prod.fst = p.context.toList.map Prod.fst ∧
      ∀ kind q, Checker.fitsBy kind p' q = Checker.fitsBy kind p q) ∧
    ∀ document p, ofDocument builtin document = .ok p → p.IsWritable ∧
      ∃ p', ofDocument builtin (some p.toNode) = .ok p' ∧
        ∀ kind q, Checker.fitsBy kind p' q = Checker.fitsBy kind p q := by
  refine ⟨fun p h => ?_, fun document p hread => ?_⟩
  · exact ⟨p.reread, ofDocument_toNode h, rfl, rfl, rfl, type_reread p, rfl, rfl,
      conditions_reread p, names_map _ _, fun kind q => fitsBy_reread kind p q⟩
  · have h := isWritable_of_ofDocument hread
    exact ⟨h, p.reread, ofDocument_toNode h, fun kind q => fitsBy_reread kind p q⟩

/-- A policy with a field called `type`, a text that looks like null and tags that are no marks. -/
def deceptive : Policy :=
  { allowingA with
    body := .rules
      ⟨[.fields ⟨[(utf8 "type", .compare .eq (.double (.finite false (2 ^ 52) (-53) (by decide))))],
          .cons (fun _ h => by cases h) .nil⟩],
        [.rule (.not (some .neither))], [.rule (.compare .eq (.string (utf8 "~")))]⟩
      (List.cons_ne_nil _ _)
    startTag := 0
    endTag := 255 }

theorem document_roundTrip_deceptive :
    deceptive.IsWritable ∧ ∃ p', ofDocument builtin (some deceptive.toNode) = .ok p' ∧
      p'.IsWritable ∧ p'.startTag = 0 ∧
      p'.conditions.subjects.map Condition.shape = [.fields [utf8 "type"]] := by
  have hwritable : deceptive.IsWritable := by
    refine ⟨fun c hc => ?_, fun e he => by cases he⟩
    obtain rfl | rfl | rfl : c = _ ∨ c = _ ∨ c = _ := by simpa [Targets.all] using hc
    · intro e he
      obtain rfl : e = _ := by simpa using he
      trivial
    · trivial
    · trivial
  obtain ⟨p', hread, -, -, -, -, hstart, -, hconditions, -, -⟩ := document_roundTrip.1 _ hwritable
  have hsubjects := congrArg Targets.subjects hconditions
  exact ⟨hwritable, p', hread, (document_roundTrip.2 _ _ hread).1, hstart, hsubjects⟩

end Policy

end AccessControl
