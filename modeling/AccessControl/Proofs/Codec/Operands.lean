import AccessControl.Proofs.Codec.Policies

/-!
# Operands through documents

Two results on the trees that rules are.  A rule that can be written keeps the kind of every rule in it
and is satisfied as before (`Rule.decode_document_faithful`); rules are found by the positions of the
operands that lead to them (`Rule.at?`).

The operands of `and`, `or` and `not` may be missing, and a document leaves missing operands out.  What
is read is the rule without them (`Rule.present`), unless a `not` stands without operand, for which
there is no reading (`Rule.decode_document_of_missing`).  For `or` this changes nothing, since a missing
operand satisfies nothing.  For `and` it does: a rule that nothing satisfies may be read as one that
everything satisfies (`Rule.decode_document_and_missing`), and a policy that fits no inquiry as one that
fits all of them.
-/

namespace AccessControl

namespace Rule

/-! ## Rules by their position -/

/-- The operands that are rules. -/
def operands : Rule → List (Option Rule)
  | .and rules => rules
  | .or rules => rules
  | .not r => [r]
  | _ => []

/-- The rule to which a path of positions among operands leads. -/
def at? (r : Rule) : List Nat → Option Rule
  | [] => some r
  | i :: path => r.operands[i]?.join.bind fun operand => operand.at? path

theorem rereadAll_eq_map (l : List (Option Rule)) : rereadAll l = l.map (Option.map reread) := by
  induction l with
  | nil => rfl
  | cons r rest ih => cases r <;> rw [rereadAll, ih] <;> rfl

theorem operands_reread (r : Rule) : r.reread.operands = r.operands.map (Option.map reread) := by
  cases r with
  | and rules => rw [reread, operands, operands, rereadAll_eq_map]
  | or rules => rw [reread, operands, operands, rereadAll_eq_map]
  | not r => cases r <;> rfl
  | _ => rfl

theorem kind_reread (r : Rule) : r.reread.kind = r.kind := by
  cases r with
  | not r => cases r <;> rfl
  | _ => rfl

/-- The same paths lead somewhere, and to what comes back of the same rules. -/
theorem at?_reread (path : List Nat) (r : Rule) : r.reread.at? path = (r.at? path).map reread := by
  induction path generalizing r with
  | nil => rfl
  | cons i path ih =>
    rw [at?, at?, operands_reread, List.getElem?_map]
    cases r.operands[i]? with
    | none => rfl
    | some operand =>
      cases operand with
      | none => rfl
      | some operand => exact ih operand

/-- **Rules survive their documents.**  A rule in which no operand is missing and no operand has
callables is read from its document with the kind of every rule in it, and is satisfied by the same
values in the light of the same inquiries, with the same exceptions. -/
theorem decode_document_faithful {r : Rule} (h : r.IsWritable) :
    ∃ r', RuleRegistry.builtin.decode (documentOf (some r)) = .ok (some r') ∧
      (∀ path, (r'.at? path).map kind = (r.at? path).map kind) ∧
      ∀ what q, r'.satisfied what q = r.satisfied what q := by
  refine ⟨r.reread, RuleRegistry.decode_toNode r h, fun path => ?_, satisfied_reread r⟩
  rw [at?_reread, Option.map_map]
  exact congrArg (Option.map · (r.at? path)) (funext kind_reread)

/-- A text that looks like null, a number that is written as an integer, and no address. -/
def intricate : Rule :=
  .and [some (.not (some (.list .isIn [.string (utf8 "~"), .null]))),
    some (.or [some (.cidr (utf8 "10.0.0.1/8")),
      some (.compare .lessOrEqual (.double (.finite false (2 ^ 52) (-51) (by decide))))])]

theorem decode_document_faithful_intricate :
    intricate.IsWritable ∧
      ∃ r', RuleRegistry.builtin.decode (documentOf (some intricate)) = .ok (some r') ∧
        (r'.at? [0, 0]).map kind = some (.list .isIn) ∧
        (r'.at? [1, 1]).map kind = some (.compare .lessOrEqual) ∧
        r'.satisfied (.int 2) none = .ok true ∧ r'.satisfied (.string (utf8 "~")) none = .ok false := by
  have hwritable : intricate.IsWritable := by
    simp [intricate, IsWritable, AreWritable, Value.ItemsAreData, Value.IsData]
  obtain ⟨r', hread, hkinds, hsatisfied⟩ := decode_document_faithful hwritable
  refine ⟨hwritable, r', hread, (hkinds [0, 0]).trans rfl, (hkinds [1, 1]).trans rfl, ?_, ?_⟩
  · rw [hsatisfied]
    decide
  · rw [hsatisfied]
    decide

/-! ## Missing operands -/

mutual

/-- No operand has callables; operands may be missing. -/
def HasData : Rule → Prop
  | .compare _ operand => operand.IsData
  | .list _ items => Value.ItemsAreData items
  | .and rules => HaveData rules
  | .or rules => HaveData rules
  | .not none => True
  | .not (some r) => r.HasData
  | _ => True
termination_by structural r => r

/-- The rules that are there have no callables. -/
def HaveData : List (Option Rule) → Prop
  | [] => True
  | none :: rest => HaveData rest
  | some r :: rest => r.HasData ∧ HaveData rest
termination_by structural l => l

end

mutual

/-- Whether some `not` stands without operand, at any depth. -/
def hasBareNot : Rule → Bool
  | .and rules => haveBareNot rules
  | .or rules => haveBareNot rules
  | .not none => true
  | .not (some r) => r.hasBareNot
  | _ => false
termination_by structural r => r

/-- Whether some `not` in one of the rules stands without operand. -/
def haveBareNot : List (Option Rule) → Bool
  | [] => false
  | none :: rest => haveBareNot rest
  | some r :: rest => r.hasBareNot || haveBareNot rest
termination_by structural l => l

end

mutual

/-- Whether some `and` lacks an operand, at any depth. -/
def hasGap : Rule → Bool
  | .and rules => rules.any Option.isNone || haveGap rules
  | .or rules => haveGap rules
  | .not none => false
  | .not (some r) => r.hasGap
  | _ => false
termination_by structural r => r

/-- Whether some `and` in one of the rules lacks an operand. -/
def haveGap : List (Option Rule) → Bool
  | [] => false
  | none :: rest => haveGap rest
  | some r :: rest => r.hasGap || haveGap rest
termination_by structural l => l

end

mutual

/-- The rule without the operands that are missing from `and` and `or`. -/
def present : Rule → Rule
  | .and rules => .and (allPresent rules)
  | .or rules => .or (allPresent rules)
  | .not none => .not none
  | .not (some r) => .not (some r.present)
  | r => r
termination_by structural r => r

/-- The rules that are there. -/
def allPresent : List (Option Rule) → List (Option Rule)
  | [] => []
  | none :: rest => allPresent rest
  | some r :: rest => some r.present :: allPresent rest
termination_by structural l => l

end

mutual

/-- A document does not show what is missing. -/
theorem toNode_present : ∀ r : Rule, r.present.toNode = r.toNode
  | .and rules => by rw [present, toNode, toNode, nodesOf_allPresent]
  | .or rules => by rw [present, toNode, toNode, nodesOf_allPresent]
  | .not none => rfl
  | .not (some r) => by rw [present, toNode, toNode, toNode_present r]
  | .compare .. | .truth _ | .text .. | .regex _ | .pairsEqual | .list .. | .cidr _ | .inquiry ..
  | .any | .neither => rfl

theorem nodesOf_allPresent : ∀ l : List (Option Rule), nodesOf (allPresent l) = nodesOf l
  | [] => rfl
  | none :: rest => by rw [allPresent, nodesOf, nodesOf_allPresent rest]
  | some r :: rest => by rw [allPresent, nodesOf, nodesOf, toNode_present r, nodesOf_allPresent rest]

end

mutual

/-- Without missing operands a rule can be written. -/
theorem isWritable_present : ∀ r : Rule, r.HasData → r.hasBareNot = false → r.present.IsWritable
  | .and rules, h, hbare => by
    rw [HasData] at h
    rw [hasBareNot] at hbare
    rw [present, IsWritable]
    exact areWritable_allPresent rules h hbare
  | .or rules, h, hbare => by
    rw [HasData] at h
    rw [hasBareNot] at hbare
    rw [present, IsWritable]
    exact areWritable_allPresent rules h hbare
  | .not none, _, hbare => by
    rw [hasBareNot] at hbare
    cases hbare
  | .not (some r), h, hbare => by
    rw [HasData] at h
    rw [hasBareNot] at hbare
    rw [present, IsWritable]
    exact isWritable_present r h hbare
  | .compare .., h, _ | .list .., h, _ => h
  | .truth _, _, _ | .text .., _, _ | .regex _, _, _ | .pairsEqual, _, _ | .cidr _, _, _
  | .inquiry .., _, _ | .any, _, _ | .neither, _, _ => trivial

theorem areWritable_allPresent : ∀ l : List (Option Rule), HaveData l → haveBareNot l = false →
    AreWritable (allPresent l)
  | [], _, _ => trivial
  | none :: rest, h, hbare => by
    rw [HaveData] at h
    rw [haveBareNot] at hbare
    rw [allPresent]
    exact areWritable_allPresent rest h hbare
  | some r :: rest, h, hbare => by
    rw [HaveData] at h
    rw [haveBareNot, Bool.or_eq_false_iff] at hbare
    rw [allPresent, AreWritable]
    exact ⟨isWritable_present r h.1 hbare.1, areWritable_allPresent rest h.2 hbare.2⟩

end

mutual

/-- What is missing is missed by no rule but `and`. -/
theorem satisfied_present : ∀ (r : Rule), r.hasGap = false → ∀ (what : Value) (q : Option Inquiry),
    r.present.satisfied what q = r.satisfied what q
  | .and rules, h, what, q => by
    rw [hasGap, Bool.or_eq_false_iff] at h
    rw [present, satisfied, satisfied, allSatisfied_allPresent rules h.1 h.2]
  | .or rules, h, what, q => by
    rw [hasGap] at h
    rw [present, satisfied, satisfied, anySatisfied_allPresent rules h]
  | .not none, _, _, _ => rfl
  | .not (some r), h, what, q => by
    rw [hasGap] at h
    rw [present, satisfied, satisfied, satisfied_present r h]
  | .compare .., _, _, _ | .truth _, _, _, _ | .text .., _, _, _ | .regex _, _, _, _
  | .pairsEqual, _, _, _ | .list .., _, _, _ | .cidr _, _, _, _ | .inquiry .., _, _, _
  | .any, _, _, _ | .neither, _, _, _ => rfl

theorem allSatisfied_allPresent : ∀ (l : List (Option Rule)), l.any Option.isNone = false →
    haveGap l = false → ∀ (what : Value) (q : Option Inquiry),
      allSatisfied (allPresent l) what q = allSatisfied l what q
  | [], _, _, _, _ => rfl
  | none :: _, hmissing, _, _, _ => by cases hmissing
  | some r :: rest, hmissing, h, what, q => by
    have hrest : rest.any Option.isNone = false := by
      simpa only [List.any_cons, Option.isNone_some, Bool.false_or] using hmissing
    rw [haveGap, Bool.or_eq_false_iff] at h
    rw [allPresent, allSatisfied, allSatisfied, satisfied_present r h.1,
      allSatisfied_allPresent rest hrest h.2]

theorem anySatisfied_allPresent : ∀ (l : List (Option Rule)), haveGap l = false →
    ∀ (what : Value) (q : Option Inquiry),
      anySatisfied (allPresent l) what q = anySatisfied l what q
  | [], _, _, _ => rfl
  | none :: rest, h, what, q => by
    rw [haveGap] at h
    rw [allPresent, anySatisfied, anySatisfied_allPresent rest h]
  | some r :: rest, h, what, q => by
    rw [haveGap, Bool.or_eq_false_iff] at h
    rw [allPresent, anySatisfied, anySatisfied, satisfied_present r h.1,
      anySatisfied_allPresent rest h.2]

end

/-- What is read from the document of a rule, if every `not` in it has its operand. -/
theorem decode_toNode_present {r : Rule} (h : r.HasData) (hbare : r.hasBareNot = false) :
    RuleRegistry.builtin.decode r.toNode = .ok (some r.present.reread) := by
  rw [← toNode_present]
  exact RuleRegistry.decode_toNode r.present (isWritable_present r h hbare)

end Rule

namespace RuleRegistry

open Rule

mutual

/-- A `not` without operand is written and never read. -/
theorem decode_toNode_bare : ∀ r : Rule, r.HasData → r.hasBareNot = true →
    decode builtin r.toNode = .error (.missingArgument (utf8 "rule"))
  | .and rules, h, hbare => by
    rw [HasData] at h
    rw [hasBareNot] at hbare
    rw [toNode, decode_node, ofArguments, decodeRules_ruleEntries, decodeItems_bare rules h hbare]
    rfl
  | .or rules, h, hbare => by
    rw [HasData] at h
    rw [hasBareNot] at hbare
    rw [toNode, decode_node, ofArguments, decodeRules_ruleEntries, decodeItems_bare rules h hbare]
    rfl
  | .not none, _, _ => by
    rw [toNode, decode_node]
    rfl
  | .not (some r), h, hbare => by
    rw [HasData] at h
    rw [hasBareNot] at hbare
    rw [toNode, decode_node, ofArguments, decodeRule_ruleEntries, decode_toNode_bare r h hbare]
    rfl
  | .compare .., _, hbare | .truth _, _, hbare | .text .., _, hbare | .regex _, _, hbare
  | .pairsEqual, _, hbare | .list .., _, hbare | .cidr _, _, hbare | .inquiry .., _, hbare
  | .any, _, hbare | .neither, _, hbare => by cases hbare

theorem decodeItems_bare : ∀ l : List (Option Rule), HaveData l → haveBareNot l = true →
    decodeItems builtin (nodesOf l) = .error (.missingArgument (utf8 "rule"))
  | [], _, hbare => by cases hbare
  | none :: rest, h, hbare => by
    rw [HaveData] at h
    rw [haveBareNot] at hbare
    rw [nodesOf]
    exact decodeItems_bare rest h hbare
  | some r :: rest, h, hbare => by
    rw [HaveData] at h
    rw [haveBareNot] at hbare
    rw [nodesOf, decodeItems]
    cases hr : r.hasBareNot with
    | true =>
      rw [decode_toNode_bare r h.1 hr]
      rfl
    | false =>
      -- what comes first is read, and the fault is found behind it
      rw [hr, Bool.false_or] at hbare
      rw [decode_toNode_present h.1 hr, decodeItems_bare rest h.2 hbare]
      rfl

end

end RuleRegistry

namespace Rule

/-- **What becomes of missing operands.**  A rule without callables in which some `not` has no operand
is refused when it is read.  Any other is read as the rule without its missing operands; it is satisfied
as it was, if no `and` in it lacked one. -/
theorem decode_document_of_missing {r : Rule} (h : r.HasData) :
    (r.hasBareNot = true →
      RuleRegistry.builtin.decode (documentOf (some r)) = .error (.missingArgument (utf8 "rule"))) ∧
    (r.hasBareNot = false →
      ∃ r', RuleRegistry.builtin.decode (documentOf (some r)) = .ok (some r') ∧
        (∀ what q, r'.satisfied what q = r.present.satisfied what q) ∧
        (r.hasGap = false → ∀ what q, r'.satisfied what q = r.satisfied what q)) := by
  refine ⟨RuleRegistry.decode_toNode_bare r h, fun hbare => ?_⟩
  have hpresent := satisfied_reread r.present
  refine ⟨r.present.reread, decode_toNode_present h hbare, hpresent, fun hgap what q => ?_⟩
  rw [hpresent, satisfied_present r hgap]

theorem decode_document_of_missing_or :
    ∃ r', RuleRegistry.builtin.decode (documentOf (some (.or [none, some (.truth true)]))) =
        .ok (some r') ∧ r'.satisfied .null none = .ok false := by
  obtain ⟨r', hread, -, hsatisfied⟩ :=
    (decode_document_of_missing (r := .or [none, some (.truth true)]) ⟨trivial, trivial⟩).2 rfl
  exact ⟨r', hread, (hsatisfied rfl .null none).trans rfl⟩

/-- A policy for every resource and action, and for subjects that satisfy an `and` whose operand is
missing. -/
def unsatisfied : Policy.Definition where
  subjects := [.rule (some (.and [none]))]
  resources := [.rule (some .any)]
  actions := [.rule (some .any)]
  uid := [112]
  effect := .allow

/-- **A missing operand of `and` is forgotten.**  Nothing satisfies an `and` of which an operand is
missing, and everything satisfies what is read from its document; a policy that asks for it fits no
inquiry, and what is read from the document of the policy fits every one. -/
theorem decode_document_and_missing :
    (∃ r', RuleRegistry.builtin.decode (documentOf (some (.and [none]))) = .ok (some r') ∧
      ∀ what q, (Rule.and [none]).satisfied what q = .ok false ∧ r'.satisfied what q = .ok true) ∧
    ∃ p p' : Policy, Policy.create unsatisfied = .ok p ∧
      Policy.ofDocument RuleRegistry.builtin (some p.toNode) = .ok p' ∧
      (∀ q memo, (Checker.fitsBy .rules p q memo).1 = .ok false) ∧
      ∀ q memo, (Checker.fitsBy .rules p' q memo).1 = .ok true := by
  refine ⟨⟨.and [], rfl, fun what q => ⟨rfl, rfl⟩⟩, ?_⟩
  exact ⟨_, _, rfl, rfl, fun _ _ => rfl, fun _ _ => rfl⟩

end Rule

end AccessControl
