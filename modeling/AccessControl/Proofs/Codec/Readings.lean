import AccessControl.Policy.Document
import AccessControl.Proofs.Keyed
import Mathlib.Data.List.Forall2
import Mathlib.Data.Option.Basic

/-!
# Documents that are read alike

Two documents are read alike if they have the same shape and whatever may be read of them, a value, a rule,
rules, conditions or a policy, is the same for both or refused for both (`ReadAlike`); why it is refused may
differ.  Sequences of documents that are read alike are read alike (`ReadAlike.sequence`), and so are maps,
if the pairs are found alike by their keys and give the same maps of values and of rules
(`EntriesAlike.map`).
-/

namespace AccessControl

variable {ε ε' α β : Type}

/-! ## Results without reasons -/

@[simp] theorem toOption_ok (a : α) : (Except.ok a : Except ε α).toOption = some a := rfl

@[simp] theorem toOption_error (e : ε) : (Except.error e : Except ε α).toOption = none := rfl

@[simp] theorem toOption_bind (x : Except ε α) (f : α → Except ε β) :
    (x >>= f).toOption = x.toOption.bind fun a => (f a).toOption := by
  cases x <;> rfl

@[simp] theorem toOption_map (f : α → β) (x : Except ε α) : (x.map f).toOption = x.toOption.map f := by
  cases x <;> rfl

@[simp] theorem toOption_mapError (f : ε → ε') (x : Except ε α) : (x.mapError f).toOption = x.toOption := by
  cases x <;> rfl

/-- Results that are the same but for reasons. -/
theorem cases_of_toOption_eq {x : Except ε α} {y : Except ε' α} (h : x.toOption = y.toOption) :
    (∃ a, x = .ok a ∧ y = .ok a) ∨ ∃ e e', x = .error e ∧ y = .error e' := by
  cases x with
  | error e =>
    cases y with
    | error e' => exact .inr ⟨e, e', rfl, rfl⟩
    | ok b => cases h
  | ok a =>
    cases y with
    | error e => cases h
    | ok b =>
      obtain rfl : a = b := Option.some.inj h
      exact .inl ⟨a, rfl, rfl⟩

theorem toOption_mapM (f : α → Except ε β) (l : List α) :
    (l.mapM f).toOption = l.mapM fun a => (f a).toOption := by
  induction l with
  | nil => rfl
  | cons a rest ih =>
    rw [List.mapM_cons, List.mapM_cons, toOption_bind]
    refine congrArg _ (funext fun b => ?_)
    rw [toOption_bind, ih]
    rfl

/-- A list is read as another one if its elements are. -/
theorem mapM_congr {f : α → Option β} {l l' : List α} (h : List.Forall₂ (fun a b => f a = f b) l l') :
    l.mapM f = l'.mapM f := by
  induction h with
  | nil => rfl
  | cons hab _ ih => rw [List.mapM_cons, List.mapM_cons, hab, ih]

/-- In another order a list is read as the same elements in another order. -/
theorem perm_of_mapM {f : α → Option β} {l l' : List α} (h : l.Perm l') :
    ∀ {r : List β}, l.mapM f = some r → ∃ r', l'.mapM f = some r' ∧ r.Perm r' := by
  induction h with
  | nil => exact fun hr => ⟨_, hr, .refl _⟩
  | @cons a l l' _ ih =>
    intro r hr
    simp only [List.mapM_cons, Option.bind_eq_bind, Option.bind_eq_some_iff] at hr
    obtain ⟨b, hb, bs, hbs, hr⟩ := hr
    obtain rfl : b :: bs = r := Option.some.inj hr
    obtain ⟨bs', hbs', hperm⟩ := ih hbs
    exact ⟨b :: bs', by rw [List.mapM_cons, hb, hbs']; rfl, hperm.cons b⟩
  | swap a c l =>
    intro r hr
    simp only [List.mapM_cons, Option.bind_eq_bind, Option.bind_eq_some_iff] at hr
    obtain ⟨d, hd, rest, ⟨b, hb, bs, hbs, hrest⟩, hr⟩ := hr
    obtain rfl : b :: bs = rest := Option.some.inj hrest
    obtain rfl : d :: b :: bs = r := Option.some.inj hr
    exact ⟨b :: d :: bs, by rw [List.mapM_cons, List.mapM_cons, hb, hd, hbs]; rfl, .swap ..⟩
  | trans _ _ ih ih' =>
    intro r hr
    obtain ⟨r', hr', hperm⟩ := ih hr
    obtain ⟨r'', hr'', hperm'⟩ := ih' hr'
    exact ⟨r'', hr'', hperm.trans hperm'⟩

/-! ## What is read of a document -/

namespace Node

/-- Two documents of one kind; null and scalars are the same. -/
inductive SameShape : Node → Node → Prop
  | null : SameShape .null .null
  | scalar (tag text : Bytes) : SameShape (.scalar tag text) (.scalar tag text)
  | sequence (xs ys : List Node) : SameShape (.sequence xs) (.sequence ys)
  | map (xs ys : List (Node × Node)) : SameShape (.map xs) (.map ys)

theorem SameShape.refl (a : Node) : SameShape a a := by cases a <;> constructor

theorem SameShape.trans {a b c : Node} (h : SameShape a b) (h' : SameShape b c) : SameShape a c := by
  cases h <;> cases h' <;> constructor

theorem SameShape.scalar?_eq {a b : Node} (h : SameShape a b) : a.scalar? = b.scalar? := by cases h <;> rfl

theorem isKey_eq (key : Bytes) (n : Node) : n.isKey key = (n.scalar? == some key) := by
  cases n with
  | scalar tag text => exact (Option.some_beq_some ..).symm
  | _ => rfl

theorem lookup_cons (key : Bytes) (e : Node × Node) (rest : List (Node × Node)) :
    lookup key (e :: rest) = if e.1.isKey key then some e.2 else lookup key rest := by
  rw [lookup, List.find?_cons]
  cases e.1.isKey key <;> rfl

end Node

namespace RuleRegistry

variable (registry : RuleRegistry)

theorem decodeItems_eq_mapM (items : List Node) :
    registry.decodeItems items = items.mapM registry.decode := by
  induction items with
  | nil => rfl
  | cons n rest ih =>
    rw [decodeItems, ih, List.mapM_cons]

/-- What is read as a list of rules. -/
def rulesAt : Option Node → Except DocumentError (List (Option Rule))
  | none | some .null => .ok []
  | some (.sequence items) => registry.decodeItems items
  | some _ => .error (.notSequence (utf8 "rules"))

/-- What is read as a rule. -/
def ruleAt : Option Node → Except DocumentError (Option Rule)
  | none => .error (.missingArgument (utf8 "rule"))
  | some n => registry.decode n

theorem decodeRules_eq (entries : List (Node × Node)) :
    registry.decodeRules entries = registry.rulesAt (Node.lookup (utf8 "rules") entries) := by
  induction entries with
  | nil => rfl
  | cons e rest ih =>
    obtain ⟨k, n⟩ := e
    have hread : registry.decodeRules ((k, n) :: rest) =
        if k.isKey (utf8 "rules") then registry.rulesAt (some n) else registry.decodeRules rest := by
      cases n <;> rfl
    rw [hread, Node.lookup_cons, ih]
    split <;> rfl

theorem decodeRule_eq (entries : List (Node × Node)) :
    registry.decodeRule entries = registry.ruleAt (Node.lookup (utf8 "rule") entries) := by
  induction entries with
  | nil => rfl
  | cons e rest ih =>
    rw [decodeRule, Node.lookup_cons, ih]
    split <;> rfl

end RuleRegistry

theorem Value.ofItems_eq_mapM (items : List Node) : Value.ofItems items = items.mapM Value.ofNode := by
  induction items with
  | nil => rfl
  | cons n rest ih => rw [ofItems, ih, List.mapM_cons]

namespace Policy

variable (registry : RuleRegistry)

/-- What is read as rules for fields. -/
def fieldsAt (keyFault : DocumentError) : Node → Except DocumentError (Dict (Option Rule))
  | .map entries => (rulesOf registry keyFault entries).map .ofPairs
  | _ => .error keyFault

/-- What is read as a list of conditions. -/
def conditionsAt (field : Bytes) : Option Node → Except DocumentError (List Condition)
  | none | some .null => .ok []
  | some (.sequence items) => items.mapM (conditionOf registry field)
  | some _ => .error (.fieldNotSequence field)

theorem conditionsOf_eq_at (field : Bytes) (entries : List (Node × Node)) :
    conditionsOf registry field entries =
      conditionsAt registry field (Node.lookup field entries) := rfl

end Policy

/-- Whatever is read of one document is read of the other one, or refused for both. -/
structure ReadAlike (registry : RuleRegistry) (a b : Node) : Prop where
  shape : Node.SameShape a b
  value : (Value.ofNode a).toOption = (Value.ofNode b).toOption
  isRule : registry.isRule a = registry.isRule b
  rule : (registry.decode a).toOption = (registry.decode b).toOption
  rules : (registry.rulesAt (some a)).toOption = (registry.rulesAt (some b)).toOption
  fields : ∀ fault,
    (Policy.fieldsAt registry fault a).toOption = (Policy.fieldsAt registry fault b).toOption
  conditions : ∀ field, (Policy.conditionsAt registry field (some a)).toOption =
    (Policy.conditionsAt registry field (some b)).toOption
  policy : (Policy.ofDocument registry (some a)).toOption = (Policy.ofDocument registry (some b)).toOption

namespace ReadAlike

variable {registry : RuleRegistry} {a b c : Node}

theorem refl (a : Node) : ReadAlike registry a a :=
  ⟨.refl a, rfl, rfl, rfl, rfl, fun _ => rfl, fun _ => rfl, rfl⟩

theorem trans (h : ReadAlike registry a b) (h' : ReadAlike registry b c) : ReadAlike registry a c where
  shape := h.shape.trans h'.shape
  value := h.value.trans h'.value
  isRule := h.isRule.trans h'.isRule
  rule := h.rule.trans h'.rule
  rules := h.rules.trans h'.rules
  fields fault := (h.fields fault).trans (h'.fields fault)
  conditions field := (h.conditions field).trans (h'.conditions field)
  policy := h.policy.trans h'.policy

theorem ruleOrLiteral (h : ReadAlike registry a b) :
    (Policy.ruleOrLiteral registry a).toOption = (Policy.ruleOrLiteral registry b).toOption := by
  rw [Policy.ruleOrLiteral, Policy.ruleOrLiteral, h.isRule]
  split
  · exact h.rule
  · rw [toOption_map, toOption_map, h.value]

theorem condition (h : ReadAlike registry a b) (field : Bytes) :
    (Policy.conditionOf registry field a).toOption = (Policy.conditionOf registry field b).toOption := by
  have hfields (n : List (Node × Node)) :
      (Policy.conditionOf registry field (.map n)).toOption =
        if registry.isRule (.map n) then (registry.decode (.map n)).toOption.map .rule
        else (Policy.fieldsAt registry (.fieldKeyNotScalar field) (.map n)).toOption.map .fields := by
    rw [Policy.conditionOf, Policy.fieldsAt]
    split
    · exact toOption_map ..
    · rw [toOption_map, toOption_map, Option.map_map]
      rfl
  cases hshape : h.shape with
  | map xs ys => rw [hfields, hfields, h.isRule, h.rule, h.fields]
  | _ => rfl

/-- **Sequences of documents that are read alike are read alike.** -/
theorem sequence {xs ys : List Node} (h : List.Forall₂ (ReadAlike registry) xs ys) :
    ReadAlike registry (.sequence xs) (.sequence ys) where
  shape := .sequence xs ys
  value := by
    rw [Value.ofNode, Value.ofNode, toOption_map, toOption_map, Value.ofItems_eq_mapM,
      Value.ofItems_eq_mapM, toOption_mapM, toOption_mapM,
      mapM_congr (h.imp fun _ _ hab => hab.value)]
  isRule := rfl
  rule := rfl
  rules := by
    rw [RuleRegistry.rulesAt, RuleRegistry.rulesAt, RuleRegistry.decodeItems_eq_mapM,
      RuleRegistry.decodeItems_eq_mapM, toOption_mapM, toOption_mapM,
      mapM_congr (h.imp fun _ _ hab => hab.rule)]
  fields _ := rfl
  conditions field := by
    rw [Policy.conditionsAt, Policy.conditionsAt, toOption_mapM, toOption_mapM,
      mapM_congr (h.imp fun _ _ hab => hab.condition field)]
  policy := rfl

end ReadAlike

/-! ## Maps -/

/-- The pairs of two maps are found alike by their keys, and give the same maps of values and of rules. -/
structure EntriesAlike (registry : RuleRegistry) (xs ys : List (Node × Node)) : Prop where
  lookup : ∀ key, Option.Rel (ReadAlike registry) (Node.lookup key xs) (Node.lookup key ys)
  value : (Value.ofNode (.map xs)).toOption = (Value.ofNode (.map ys)).toOption
  fields : ∀ fault, (Policy.fieldsAt registry fault (.map xs)).toOption =
    (Policy.fieldsAt registry fault (.map ys)).toOption

namespace EntriesAlike

variable {registry : RuleRegistry} {xs ys : List (Node × Node)}

/-- What is under a key is missing in both or read alike. -/
theorem cases_lookup (h : EntriesAlike registry xs ys) (key : Bytes) :
    Node.lookup key xs = none ∧ Node.lookup key ys = none ∨
      ∃ a b, Node.lookup key xs = some a ∧ Node.lookup key ys = some b ∧ ReadAlike registry a b := by
  have hrel := h.lookup key
  revert hrel
  generalize Node.lookup key xs = o
  generalize Node.lookup key ys = o'
  rintro (hab | _)
  · exact .inr ⟨_, _, rfl, rfl, hab⟩
  · exact .inl ⟨rfl, rfl⟩

theorem kindOf_eq (h : EntriesAlike registry xs ys) : RuleRegistry.kindOf xs = RuleRegistry.kindOf ys := by
  unfold RuleRegistry.kindOf
  obtain ⟨hx, hy⟩ | ⟨a, b, hx, hy, hab⟩ := h.cases_lookup (utf8 "type")
  · rw [hx, hy]
  · rw [hx, hy]
    cases hab.shape <;> rfl

theorem rulesAt_eq (h : EntriesAlike registry xs ys) (key : Bytes) :
    (registry.rulesAt (Node.lookup key xs)).toOption = (registry.rulesAt (Node.lookup key ys)).toOption := by
  obtain ⟨hx, hy⟩ | ⟨a, b, hx, hy, hab⟩ := h.cases_lookup key
  · rw [hx, hy]
  · rw [hx, hy]
    exact hab.rules

theorem ruleAt_eq (h : EntriesAlike registry xs ys) (key : Bytes) :
    (registry.ruleAt (Node.lookup key xs)).toOption = (registry.ruleAt (Node.lookup key ys)).toOption := by
  obtain ⟨hx, hy⟩ | ⟨a, b, hx, hy, hab⟩ := h.cases_lookup key
  · rw [hx, hy]
  · rw [hx, hy]
    exact hab.rule

theorem conditionsAt_eq (h : EntriesAlike registry xs ys) (field key : Bytes) :
    (Policy.conditionsAt registry field (Node.lookup key xs)).toOption =
      (Policy.conditionsAt registry field (Node.lookup key ys)).toOption := by
  obtain ⟨hx, hy⟩ | ⟨a, b, hx, hy, hab⟩ := h.cases_lookup key
  · rw [hx, hy]
  · rw [hx, hy]
    exact hab.conditions field

/-! ### Arguments of rules -/

theorem valueArgument_eq (h : EntriesAlike registry xs ys) (key : Bytes) :
    (Rule.valueArgument key xs).toOption = (Rule.valueArgument key ys).toOption := by
  unfold Rule.valueArgument
  obtain ⟨hx, hy⟩ | ⟨a, b, hx, hy, hab⟩ := h.cases_lookup key
  · rw [hx, hy]
  · rw [hx, hy]
    exact hab.value

theorem textArgument_eq (h : EntriesAlike registry xs ys) (key : Bytes) :
    (Rule.textArgument key xs).toOption = (Rule.textArgument key ys).toOption := by
  rw [Rule.textArgument, Rule.textArgument, toOption_bind, toOption_bind, h.valueArgument_eq]

theorem listArgument_eq (h : EntriesAlike registry xs ys) (key : Bytes) :
    (Rule.listArgument key xs).toOption = (Rule.listArgument key ys).toOption := by
  rw [Rule.listArgument, Rule.listArgument, toOption_bind, toOption_bind, h.valueArgument_eq]

theorem flagArgument_eq (h : EntriesAlike registry xs ys) (key : Bytes) :
    (Rule.flagArgument key xs).toOption = (Rule.flagArgument key ys).toOption := by
  unfold Rule.flagArgument
  obtain ⟨hx, hy⟩ | ⟨a, b, hx, hy, hab⟩ := h.cases_lookup key
  · rw [hx, hy]
  · rw [hx, hy]
    have hvalue := cases_of_toOption_eq hab.value
    cases hab.shape with
    | null => rfl
    | _ =>
      obtain ⟨v, ha, hb⟩ | ⟨e, e', ha, hb⟩ := hvalue
      · simp only [ha, hb]
      · simp only [ha, hb]

theorem optionalTextArgument_eq (h : EntriesAlike registry xs ys) (key : Bytes) :
    (Rule.optionalTextArgument key xs).toOption = (Rule.optionalTextArgument key ys).toOption := by
  have htext := congrArg (Option.map some) (h.textArgument_eq key)
  rw [← toOption_map, ← toOption_map] at htext
  unfold Rule.optionalTextArgument
  obtain ⟨hx, hy⟩ | ⟨a, b, hx, hy, hab⟩ := h.cases_lookup key
  · rw [hx, hy]
  · rw [hx, hy]
    cases hab.shape with
    | null => rfl
    | _ => exact htext

theorem ofArguments_eq (h : EntriesAlike registry xs ys) (kind : RuleKind)
    {rules rules' : Except DocumentError (List (Option Rule))} {rule rule' : Except DocumentError (Option Rule)}
    (hrules : rules.toOption = rules'.toOption) (hrule : rule.toOption = rule'.toOption) :
    (Rule.ofArguments kind xs rules rule).toOption = (Rule.ofArguments kind ys rules' rule').toOption := by
  cases kind with
  | compare op => simp only [Rule.ofArguments, toOption_map, h.valueArgument_eq]
  | text test =>
    simp only [Rule.ofArguments, toOption_bind, h.textArgument_eq, h.flagArgument_eq]
  | regex => simp only [Rule.ofArguments, toOption_bind, h.textArgument_eq]
  | list test => simp only [Rule.ofArguments, toOption_map, h.listArgument_eq]
  | cidr => simp only [Rule.ofArguments, toOption_map, h.textArgument_eq]
  | inquiry which => simp only [Rule.ofArguments, toOption_map, h.optionalTextArgument_eq]
  | and => simp only [Rule.ofArguments, toOption_map, hrules]
  | or => simp only [Rule.ofArguments, toOption_map, hrules]
  | not => simp only [Rule.ofArguments, toOption_map, hrule]
  | _ => rfl

/-- A map is read as a rule by what is under its keys. -/
theorem decode_eq (h : EntriesAlike registry xs ys) :
    (registry.decode (.map xs)).toOption = (registry.decode (.map ys)).toOption := by
  simp only [RuleRegistry.decode, h.kindOf_eq, RuleRegistry.decodeRules_eq, RuleRegistry.decodeRule_eq]
  cases RuleRegistry.kindOf ys with
  | error e => rfl
  | ok tag =>
    rcases hreading : registry.reading? tag with _ | (fixed | kind)
    · simp only [hreading, toOption_error]
    · simp only [hreading]
    · simp only [hreading, toOption_map]
      rw [h.ofArguments_eq kind (h.rulesAt_eq _) (h.ruleAt_eq _)]

theorem isRule_eq (h : EntriesAlike registry xs ys) :
    registry.isRule (.map xs) = registry.isRule (.map ys) := by
  rw [RuleRegistry.isRule, RuleRegistry.isRule, h.kindOf_eq]

/-! ### Policies -/

theorem scalarOf_eq (h : EntriesAlike registry xs ys) (key : Bytes) :
    Policy.scalarOf key xs = Policy.scalarOf key ys := by
  rw [Policy.scalarOf, Policy.scalarOf]
  obtain ⟨hx, hy⟩ | ⟨a, b, hx, hy, hab⟩ := h.cases_lookup key
  · rw [hx, hy]
  · rw [hx, hy, Option.bind_some, Option.bind_some, hab.shape.scalar?_eq]

theorem effectOf_eq (h : EntriesAlike registry xs ys) (uid : Bytes) :
    Policy.effectOf uid xs = Policy.effectOf uid ys := by
  unfold Policy.effectOf
  obtain ⟨hx, hy⟩ | ⟨a, b, hx, hy, hab⟩ := h.cases_lookup (utf8 "effect")
  · rw [hx, hy]
  · rw [hx, hy]
    cases hab.shape <;> rfl

theorem tagOf_eq (h : EntriesAlike registry xs ys) (key : Bytes) (usual : UInt8) :
    Policy.tagOf key usual xs = Policy.tagOf key usual ys := by
  unfold Policy.tagOf
  obtain ⟨hx, hy⟩ | ⟨a, b, hx, hy, hab⟩ := h.cases_lookup key
  · rw [hx, hy]
  · rw [hx, hy]
    cases hab.shape <;> rfl

theorem contextOf_eq (h : EntriesAlike registry xs ys) (uid : Bytes) :
    (Policy.contextOf registry uid xs).toOption = (Policy.contextOf registry uid ys).toOption := by
  unfold Policy.contextOf
  obtain ⟨hx, hy⟩ | ⟨a, b, hx, hy, hab⟩ := h.cases_lookup (utf8 "context")
  · rw [hx, hy]
  · rw [hx, hy]
    cases hshape : hab.shape with
    | map rules rules' => exact hab.fields (.contextKeyNotScalar uid)
    | _ => rfl

theorem definitionOf_eq (h : EntriesAlike registry xs ys) :
    (Policy.definitionOf registry xs).toOption = (Policy.definitionOf registry ys).toOption := by
  simp only [Policy.definitionOf, toOption_bind, h.scalarOf_eq, h.effectOf_eq, Policy.conditionsOf_eq_at,
    h.conditionsAt_eq, h.contextOf_eq, h.tagOf_eq]

theorem ofDocument_eq (h : EntriesAlike registry xs ys) :
    (Policy.ofDocument registry (some (.map xs))).toOption =
      (Policy.ofDocument registry (some (.map ys))).toOption := by
  simp only [Policy.ofDocument, toOption_bind, toOption_mapError, h.definitionOf_eq]
  obtain ⟨hx, hy⟩ | ⟨a, b, hx, hy, hab⟩ := h.cases_lookup (utf8 "type")
  · rw [hx, hy]
  · rw [hx, hy]
    cases hab.shape <;> rfl

/-- **Maps whose pairs are alike are read alike.** -/
theorem map (h : EntriesAlike registry xs ys) : ReadAlike registry (.map xs) (.map ys) where
  shape := .map xs ys
  value := h.value
  isRule := h.isRule_eq
  rule := h.decode_eq
  rules := rfl
  fields := h.fields
  conditions _ := rfl
  policy := h.ofDocument_eq

end EntriesAlike

end AccessControl
