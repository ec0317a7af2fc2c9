import AccessControl.Proofs.Codec.Values
import AccessControl.Rule.Document

/-!
# Rules through documents

A rule in which no operand is missing and no operand has callables (`Rule.IsWritable`) is read as it was
written, up to its operands that are floating point numbers (`RuleRegistry.decode_toNode`), and what is
read is satisfied by the same values with the same exceptions (`Rule.satisfied_reread`).  All rules that
the usual registry reads are of this kind (`RuleRegistry.isWritable_of_decode`).
-/

namespace AccessControl

namespace Rule

/-! ## Rules that can be written -/

mutual

/-- No operand is missing, at any depth, and no operand has callables. -/
def IsWritable : Rule → Prop
  | .compare _ operand => operand.IsData
  | .list _ items => Value.ItemsAreData items
  | .and rules => AreWritable rules
  | .or rules => AreWritable rules
  | .not none => False
  | .not (some r) => r.IsWritable
  | _ => True
termination_by structural r => r

/-- All rules are there and can be written. -/
def AreWritable : List (Option Rule) → Prop
  | [] => True
  | none :: _ => False
  | some r :: rest => r.IsWritable ∧ AreWritable rest
termination_by structural l => l

end

mutual

/-- The rule that comes back from a document. -/
def reread : Rule → Rule
  | .compare op operand => .compare op operand.reread
  | .list test items => .list test (Value.rereadItems items)
  | .and rules => .and (rereadAll rules)
  | .or rules => .or (rereadAll rules)
  | .not none => .not none
  | .not (some r) => .not (some r.reread)
  | r => r
termination_by structural r => r

/-- The rules of a list that come back. -/
def rereadAll : List (Option Rule) → List (Option Rule)
  | [] => []
  | none :: rest => none :: rereadAll rest
  | some r :: rest => some r.reread :: rereadAll rest
termination_by structural l => l

end

end Rule

/-! ## What satisfies a rule that comes back -/

theorem Comparison.holds_reread (op : Comparison) (what operand : Value) :
    op.holds what operand.reread = op.holds what operand := by
  have hequal : (what == operand.reread) = (what == operand) := Value.equal_reread_right operand what
  have hcompare := Value.compare_reread_right operand what
  cases op <;> simp only [holds, hequal, hcompare]

theorem Value.isAmong_rereadItems (what : Value) (items : List Value) :
    what.isAmong (rereadItems items) = what.isAmong items := by
  have hequal (item : Value) : (item.reread == what) = (item == what) := equal_reread item what
  rw [isAmong, isAmong, rereadItems_eq_map, List.any_map]
  exact congrArg _ (funext hequal)

theorem ListTest.holds_rereadItems (test : ListTest) (what : Value) (items : List Value) :
    test.holds what (Value.rereadItems items) = test.holds what items := by
  cases test <;> cases what <;> simp only [holds, Value.isAmong_rereadItems]

namespace Rule

mutual

/-- **The rule that comes back is satisfied by the same values**, and the same exceptions pass through
it. -/
theorem satisfied_reread : ∀ (r : Rule) (what : Value) (q : Option Inquiry),
    r.reread.satisfied what q = r.satisfied what q
  | .compare op operand, what, q => by
    rw [reread, satisfied, satisfied, op.holds_reread]
  | .list test items, what, q => by
    rw [reread, satisfied, satisfied, test.holds_rereadItems]
  | .and rules, what, q => by rw [reread, satisfied, satisfied, allSatisfied_rereadAll]
  | .or rules, what, q => by rw [reread, satisfied, satisfied, anySatisfied_rereadAll]
  | .not none, _, _ => rfl
  | .not (some r), what, q => by rw [reread, satisfied, satisfied, satisfied_reread r]
  | .truth _, _, _ | .text .., _, _ | .regex _, _, _ | .pairsEqual, _, _ | .cidr _, _, _
  | .inquiry .., _, _ | .any, _, _ | .neither, _, _ => rfl

theorem allSatisfied_rereadAll : ∀ (l : List (Option Rule)) (what : Value) (q : Option Inquiry),
    allSatisfied (rereadAll l) what q = allSatisfied l what q
  | [], _, _ => rfl
  | none :: _, _, _ => rfl
  | some r :: rest, what, q => by
    rw [rereadAll, allSatisfied, allSatisfied, satisfied_reread r, allSatisfied_rereadAll rest]

theorem anySatisfied_rereadAll : ∀ (l : List (Option Rule)) (what : Value) (q : Option Inquiry),
    anySatisfied (rereadAll l) what q = anySatisfied l what q
  | [], _, _ => rfl
  | none :: rest, what, q => by
    rw [rereadAll, anySatisfied, anySatisfied, anySatisfied_rereadAll rest]
  | some r :: rest, what, q => by
    rw [rereadAll, anySatisfied, anySatisfied, satisfied_reread r, anySatisfied_rereadAll rest]

end

end Rule

/-! ## Writing and reading -/

theorem RuleKind.ofName?_name (kind : RuleKind) : ofName? kind.name = some kind := by
  cases kind with
  | compare op => cases op <;> decide
  | truth b => cases b <;> decide
  | text test => cases test <;> decide
  | list test => cases test <;> decide
  | inquiry which => cases which <;> decide
  | _ => decide

theorem Pattern.ofSource?_source (p : Pattern) : ofSource? p.source = some p := by
  obtain ⟨source, root, groups, h⟩ := p
  unfold ofSource?
  split
  · next root' groups' h' =>
    rw [h] at h'
    cases h'
    rfl
  · next h' =>
    rw [h] at h'
    cases h'

namespace Node

/-- The entries of a map with texts as keys. -/
def entriesOf (fields : List (Bytes × Node)) : List (Node × Node) :=
  fields.map fun f => (plain f.1, f.2)

end Node

namespace RuleRegistry

open Rule

variable {kind : RuleKind} {arguments : List (Bytes × Node)}

/-- The entries of the map of a rule. -/
def ruleEntries (kind : RuleKind) (arguments : List (Bytes × Node)) : List (Node × Node) :=
  Node.entriesOf ((utf8 "type", .plain kind.name) :: arguments)

theorem kindOf_ruleEntries : kindOf (ruleEntries kind arguments) = .ok kind.name := rfl

theorem reading?_name : builtin.reading? kind.name = some (.arguments kind) := by
  have hdefined : builtin.defined.lookup kind.name = none := rfl
  rw [reading?, hdefined, RuleKind.ofName?_name]
  rfl

theorem isRule_node : builtin.isRule (node kind arguments) = true := by
  show builtin.isRule (.map (ruleEntries kind arguments)) = true
  rw [isRule, kindOf_ruleEntries]
  simp only [contains, reading?_name, Option.isSome_some]

/-- Every rule is written as one. -/
theorem isRule_toNode (r : Rule) : builtin.isRule r.toNode = true := by
  cases r with
  | inquiry which field => cases field <;> exact isRule_node
  | not r => cases r <;> exact isRule_node
  | _ => exact isRule_node

theorem decode_node : decode builtin (node kind arguments) =
    (ofArguments kind (ruleEntries kind arguments)
      (decodeRules builtin (ruleEntries kind arguments))
      (decodeRule builtin (ruleEntries kind arguments))).map some := by
  show decode builtin (.map (ruleEntries kind arguments)) = _
  rw [decode, kindOf_ruleEntries]
  simp only [reading?_name]

/-! ### Arguments -/

theorem valueArgument_eq {key : Bytes} {entries : List (Node × Node)} {v : Value}
    (hlookup : Node.lookup key entries = some v.toNode) (hv : v.IsData) :
    valueArgument key entries = .ok v.reread := by
  rw [valueArgument, hlookup]
  exact Value.ofNode_toNode v hv

theorem textArgument_eq {key s : Bytes} {entries : List (Node × Node)}
    (hlookup : Node.lookup key entries = some (Value.string s).toNode) :
    textArgument key entries = .ok s := by
  rw [textArgument, valueArgument_eq hlookup trivial]
  rfl

theorem listArgument_eq {key : Bytes} {items : List Value} {entries : List (Node × Node)}
    (hlookup : Node.lookup key entries = some (Value.list items).toNode)
    (hitems : Value.ItemsAreData items) :
    listArgument key entries = .ok (Value.rereadItems items) := by
  rw [listArgument, valueArgument_eq hlookup hitems]
  rfl

theorem flagArgument_eq {key : Bytes} {b : Bool} {entries : List (Node × Node)}
    (hlookup : Node.lookup key entries = some (Value.bool b).toNode) :
    flagArgument key entries = .ok b := by
  have hread := Value.ofNode_toNode (.bool b) trivial
  rw [Value.toNode] at hlookup hread
  rw [flagArgument, hlookup]
  simp only [Node.plain] at hread ⊢
  rw [hread]
  rfl

theorem optionalTextArgument_none {key : Bytes} {entries : List (Node × Node)}
    (hlookup : Node.lookup key entries = none) : optionalTextArgument key entries = .ok none := by
  rw [optionalTextArgument, hlookup]

theorem optionalTextArgument_some {key s : Bytes} {entries : List (Node × Node)}
    (hlookup : Node.lookup key entries = some (Value.string s).toNode) :
    optionalTextArgument key entries = .ok (some s) := by
  have htext := textArgument_eq hlookup
  rw [Value.toNode] at hlookup
  rw [optionalTextArgument, hlookup]
  simp only
  rw [htext]
  rfl

/-! ### Rules -/

theorem decodeRules_ruleEntries (items : List Node) :
    decodeRules builtin (ruleEntries kind [(utf8 "rules", .sequence items)]) =
      decodeItems builtin items := rfl

theorem decodeRule_ruleEntries (n : Node) :
    decodeRule builtin (ruleEntries kind [(utf8 "rule", n)]) = decode builtin n := rfl

mutual

/-- **A rule is read as it was written.** -/
theorem decode_toNode : ∀ r : Rule, r.IsWritable → decode builtin r.toNode = .ok (some r.reread)
  | .compare op operand, h => by
    rw [IsWritable] at h
    rw [toNode, decode_node, ofArguments, valueArgument_eq rfl h, reread]
    rfl
  | .truth expected, _ => by
    rw [toNode, decode_node]
    rfl
  | .text test operand ignoreCase, _ => by
    rw [toNode, decode_node, ofArguments, textArgument_eq rfl, flagArgument_eq rfl]
    rfl
  | .regex pattern, _ => by
    rw [toNode, decode_node, ofArguments, textArgument_eq rfl]
    simp only [Except.map, bind, Except.bind, Pattern.ofSource?_source]
    rfl
  | .pairsEqual, _ => by
    rw [toNode, decode_node]
    rfl
  | .list test items, h => by
    rw [IsWritable] at h
    rw [toNode, decode_node, ofArguments, listArgument_eq rfl h, reread]
    rfl
  | .cidr block, _ => by
    rw [toNode, decode_node, ofArguments, textArgument_eq rfl]
    rfl
  | .inquiry which none, _ => by
    rw [toNode, decode_node, ofArguments, optionalTextArgument_none rfl]
    rfl
  | .inquiry which (some f), _ => by
    rw [toNode, decode_node, ofArguments, optionalTextArgument_some rfl]
    rfl
  | .and rules, h => by
    rw [IsWritable] at h
    rw [toNode, decode_node, ofArguments, decodeRules_ruleEntries, decodeItems_nodesOf rules h, reread]
    rfl
  | .or rules, h => by
    rw [IsWritable] at h
    rw [toNode, decode_node, ofArguments, decodeRules_ruleEntries, decodeItems_nodesOf rules h, reread]
    rfl
  | .not none, h => by
    rw [IsWritable] at h
    exact h.elim
  | .not (some r), h => by
    rw [IsWritable] at h
    rw [toNode, decode_node, ofArguments, decodeRule_ruleEntries, decode_toNode r h, reread]
    rfl
  | .any, _ => by
    rw [toNode, decode_node]
    rfl
  | .neither, _ => by
    rw [toNode, decode_node]
    rfl

theorem decodeItems_nodesOf : ∀ l : List (Option Rule), AreWritable l →
    decodeItems builtin (nodesOf l) = .ok (rereadAll l)
  | [], _ => rfl
  | none :: _, h => by
    rw [AreWritable] at h
    exact h.elim
  | some r :: rest, h => by
    rw [AreWritable] at h
    rw [nodesOf, decodeItems, decode_toNode r h.1, decodeItems_nodesOf rest h.2, rereadAll]
    rfl

end

/-! ### What is read -/

theorem isData_of_valueArgument {key : Bytes} {entries : List (Node × Node)} {v : Value}
    (h : valueArgument key entries = .ok v) : v.IsData := by
  unfold valueArgument at h
  split at h
  · cases h
  · next n _ => exact Value.isData_of_ofNode n h

theorem itemsAreData_of_listArgument {key : Bytes} {entries : List (Node × Node)}
    {items : List Value} (h : listArgument key entries = .ok items) : Value.ItemsAreData items := by
  unfold listArgument at h
  obtain ⟨v, hv, h⟩ := bind_eq_ok.mp h
  split at h
  · cases h
    exact isData_of_valueArgument hv
  · cases h

theorem isWritable_of_ofArguments {entries : List (Node × Node)}
    {rules : Except DocumentError (List (Option Rule))} {rule : Except DocumentError (Option Rule)}
    (hrules : ∀ l, rules = .ok l → AreWritable l)
    (hrule : ∀ r, rule = .ok r → ∃ r', r = some r' ∧ r'.IsWritable) {r : Rule}
    (h : ofArguments kind entries rules rule = .ok r) : r.IsWritable := by
  cases kind with
  | compare op =>
    obtain ⟨v, hv, rfl⟩ := map_eq_ok.mp h
    exact isData_of_valueArgument hv
  | list test =>
    obtain ⟨items, hitems, rfl⟩ := map_eq_ok.mp h
    exact itemsAreData_of_listArgument hitems
  | and =>
    obtain ⟨l, hl, rfl⟩ := map_eq_ok.mp h
    exact hrules l hl
  | or =>
    obtain ⟨l, hl, rfl⟩ := map_eq_ok.mp h
    exact hrules l hl
  | not =>
    obtain ⟨r, hr, rfl⟩ := map_eq_ok.mp h
    obtain ⟨r', rfl, hr'⟩ := hrule r hr
    exact hr'
  | text test =>
    obtain ⟨operand, _, h⟩ := bind_eq_ok.mp h
    obtain ⟨ignoreCase, _, h⟩ := bind_eq_ok.mp h
    cases h
    trivial
  | regex =>
    obtain ⟨source, _, h⟩ := bind_eq_ok.mp h
    split at h <;> cases h
    trivial
  | cidr =>
    obtain ⟨block, _, rfl⟩ := map_eq_ok.mp h
    trivial
  | inquiry which =>
    obtain ⟨field, _, rfl⟩ := map_eq_ok.mp h
    trivial
  | _ =>
    cases h
    trivial

mutual

/-- **Every rule that is read can be written.** -/
theorem isWritable_of_decode : ∀ (n : Node) {r : Option Rule}, decode builtin n = .ok r →
    ∃ r', r = some r' ∧ r'.IsWritable
  | .map entries, r, h => by
    rw [decode] at h
    split at h
    · cases h
    · split at h
      · cases h
      · next hreading =>
        obtain ⟨kind, _, hkind⟩ := Option.map_eq_some_iff.mp hreading
        cases hkind
      · obtain ⟨r', hr', rfl⟩ := map_eq_ok.mp h
        exact ⟨r', rfl, isWritable_of_ofArguments (fun _ => areWritable_of_decodeRules entries)
          (fun _ => isWritable_of_decodeRule entries) hr'⟩
  | .null, _, h | .scalar .., _, h | .sequence _, _, h => by cases h

theorem areWritable_of_decodeRules : ∀ (l : List (Node × Node)) {rs : List (Option Rule)},
    decodeRules builtin l = .ok rs → AreWritable rs
  | [], _, h => by
    cases h
    trivial
  | (k, n) :: rest, rs, h => by
    unfold decodeRules at h
    split at h
    · split at h
      · cases h
        trivial
      · next items => exact areWritable_of_decodeItems items h
      · cases h
    · exact areWritable_of_decodeRules rest h

theorem isWritable_of_decodeRule : ∀ (l : List (Node × Node)) {r : Option Rule},
    decodeRule builtin l = .ok r → ∃ r', r = some r' ∧ r'.IsWritable
  | [], _, h => by cases h
  | (k, n) :: rest, r, h => by
    rw [decodeRule] at h
    split at h
    · exact isWritable_of_decode n h
    · exact isWritable_of_decodeRule rest h

theorem areWritable_of_decodeItems : ∀ (l : List Node) {rs : List (Option Rule)},
    decodeItems builtin l = .ok rs → AreWritable rs
  | [], _, h => by
    cases h
    trivial
  | n :: rest, rs, h => by
    rw [decodeItems] at h
    obtain ⟨r, hr, h⟩ := bind_eq_ok.mp h
    obtain ⟨rs', hrs', h⟩ := bind_eq_ok.mp h
    cases h
    obtain ⟨r', rfl, hr'⟩ := isWritable_of_decode n hr
    exact ⟨hr', areWritable_of_decodeItems rest hrs'⟩

end

end RuleRegistry

end AccessControl
