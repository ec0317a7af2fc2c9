import AccessControl.Proofs.Faults.Values
import AccessControl.Rule.Basic

/-!
# Rules that are asked

Asking a rule fails if the rule is missing (`Checked.ask`), and reading a value fails unless it is of the
kind that it is read as.  Rules evaluated like that fail nowhere, whatever values and rules meet: what
they come to is what `Rule.satisfied` says (`Checked.satisfied_eq`).  A rule that is there may be asked;
the operands of other rules are asked only if they are there.
-/

namespace AccessControl.Checked

open Value

/-- Whether some item is equal to a value. -/
def isAmong (what : Value) (items : List Value) : Except Fault Bool :=
  items.anyM fun item => equal item what

/-- The value under a key of a map. -/
def find? (key : Bytes) (v : Value) : Except Fault (Option Value) := do
  if v.kind ≠ .map then return none
  return ((← read v.asMap?).find? fun e => e.1 == key).map Prod.snd

/-- Whether a value compares with an operand as told. -/
def compares (op : Comparison) (what operand : Value) : Except Fault Bool :=
  match op with
  | .eq => equal what operand
  | .notEq => (equal what operand).map (!·)
  | .greater => (compare what operand).map (· == some .gt)
  | .less => (compare what operand).map (· == some .lt)
  | .greaterOrEqual => (compare what operand).map fun c => c == some .gt || c == some .eq
  | .lessOrEqual => (compare what operand).map fun c => c == some .lt || c == some .eq

/-- Whether a value is a text that passes a test. -/
def textPasses (test : Bytes → Bool) (what : Value) : Except Fault Bool := do
  if what.kind ≠ .string then return false
  return test (← read what.asString?)

/-- Whether a value is a list of two equal values. -/
def isEqualPair (pair : Value) : Except Fault Bool := do
  if pair.kind ≠ .list then return false
  match ← read pair.asList? with
  | [a, b] => equal a b
  | _ => return false

/-- Whether a value is a list of pairs of equal values. -/
def pairsPass (what : Value) : Except Fault Bool := do
  if what.kind ≠ .list then return false
  (← read what.asList?).allM isEqualPair

/-- Whether a value passes a test with a list. -/
def listPasses (test : ListTest) (what : Value) (items : List Value) : Except Fault Bool :=
  match test with
  | .isIn => isAmong what items
  | .notIn => (isAmong what items).map (!·)
  | .allIn => candidates fun vs => vs.allM fun v => isAmong v items
  | .allNotIn => candidates fun vs => (vs.anyM fun v => isAmong v items).map (!·)
  | .anyIn => candidates fun vs => vs.anyM fun v => isAmong v items
  | .anyNotIn => candidates fun vs => (vs.allM fun v => isAmong v items).map (!·)
where
  /-- A test of the items of the value, which has to be a list. -/
  candidates (passes : List Value → Except Fault Bool) : Except Fault Bool := do
    if what.kind ≠ .list then return false
    passes (← read what.asList?)

/-- Whether a value is the text of an address in the block that a text spells, if it spells one. -/
def cidrPasses (block : Bytes) (what : Value) : Except Fault Bool :=
  match Network.Block.parse? block with
  | none => .ok false
  | some b => textPasses b.containsText what

/-- Whether a resource holds a value. -/
def holds (resource what : Value) : Except Fault Bool :=
  match resource.kind with
  | .string => do
    if what.kind ≠ .string then return false
    return Bytes.occursIn (← read what.asString?) (← read resource.asString?)
  | .list => do isAmong what (← read resource.asList?)
  | .map => do
    if what.kind ≠ .string then return false
    return (← find? (← read what.asString?) resource).isSome
  | _ => .ok false

/-- Whether a value agrees with an attribute of an inquiry, or with a field of it. -/
def agrees (which : Attribute) (field : Option Bytes) (what : Value) (q : Inquiry) :
    Except Fault Bool := do
  let target ← match field with
    | none => pure (some (q.part which))
    | some f => find? f (q.part which)
  match target with
  | none => return false
  | some v => if which = .resource then holds v what else equal what v

mutual

/-- Whether a value satisfies a rule. -/
def satisfied : Rule → Value → Option Inquiry → Except Fault Bool
  | .compare op operand, what, _ => compares op what operand
  | .truth expected, what, _ => (truthy what).map (· == expected)
  | .text test operand ignoreCase, what, _ =>
    textPasses (fun s => if ignoreCase then test.holds (Ascii.lowered s) (Ascii.lowered operand)
      else test.holds s operand) what
  | .regex pattern, what, _ => textPasses pattern.accepts what
  | .pairsEqual, what, _ => pairsPass what
  | .list test items, what, _ => listPasses test what items
  | .cidr block, what, _ => cidrPasses block what
  | .inquiry which field, what, q =>
    match q with
    | none => .ok false
    | some q => agrees which field what q
  | .and rules, what, q => allSatisfied rules what q
  | .or rules, what, q => anySatisfied rules what q
  | .not r, what, q => if r.isNone then .ok true else (ask r what q).map (!·)
  | .any, _, _ => .ok true
  | .neither, _, _ => .ok false
termination_by structural r => r

/-- What a rule says of a value; the rule has to be there. -/
def ask : Option Rule → Value → Option Inquiry → Except Fault Bool
  | none, _, _ => .error .missingRule
  | some r, what, q => satisfied r what q
termination_by structural r => r

/-- Whether a value satisfies all rules, none being missing. -/
def allSatisfied : List (Option Rule) → Value → Option Inquiry → Except Fault Bool
  | [], _, _ => .ok true
  | r :: rest, what, q => do
    if r.isNone then return false
    if ← ask r what q then allSatisfied rest what q else return false
termination_by structural l => l

/-- Whether a value satisfies one of the rules that are there. -/
def anySatisfied : List (Option Rule) → Value → Option Inquiry → Except Fault Bool
  | [], _, _ => .ok false
  | r :: rest, what, q => do
    if r.isNone then anySatisfied rest what q
    else if ← ask r what q then return true else anySatisfied rest what q
termination_by structural l => l

end

/-! ## No rule fails -/

theorem isAmong_eq (what : Value) (items : List Value) :
    isAmong what items = .ok (what.isAmong items) := by
  have hequal : (fun item => equal item what) = fun item => pure (item == what) := by
    funext item
    exact equal_eq item what
  rw [isAmong, hequal, List.anyM_pure]
  rfl

theorem find?_eq (key : Bytes) (v : Value) : find? key v = .ok (v.find? key) := by
  cases v <;> rfl

theorem compares_eq (op : Comparison) (what operand : Value) :
    compares op what operand = .ok (op.holds what operand) := by
  cases op <;> simp only [compares, equal_eq, compare_eq] <;> rfl

theorem textPasses_eq (test : Bytes → Bool) (what : Value) :
    textPasses test what = .ok (match what with | .string s => test s | _ => false) := by
  cases what <;> rfl

theorem isEqualPair_eq (pair : Value) : isEqualPair pair = .ok pair.isEqualPair := by
  cases pair with
  | list items =>
    rcases items with _ | ⟨a, _ | ⟨b, _ | ⟨c, rest⟩⟩⟩
    · rfl
    · rfl
    · exact equal_eq a b
    · rfl
  | _ => rfl

theorem pairsPass_eq (what : Value) : pairsPass what = .ok (Rule.pairsSatisfied what) := by
  cases what with
  | list items =>
    have hpair : isEqualPair = fun pair => pure pair.isEqualPair := by
      funext pair
      exact isEqualPair_eq pair
    show items.allM isEqualPair = _
    rw [hpair, List.allM_pure]
    rfl
  | _ => rfl

theorem listPasses_eq (test : ListTest) (what : Value) (items : List Value) :
    listPasses test what items = .ok (test.holds what items) := by
  have hamong : (fun v => isAmong v items) = fun v => pure (v.isAmong items) := by
    funext v
    exact isAmong_eq v items
  cases test with
  | isIn => exact isAmong_eq what items
  | notIn =>
    rw [listPasses, isAmong_eq]
    rfl
  | allNotIn =>
    simp only [listPasses, hamong, List.anyM_pure]
    cases what with
    | list vs =>
      rw [ListTest.holds, ← List.not_any_eq_all_not]
      rfl
    | _ => rfl
  | allIn | anyIn | anyNotIn =>
    simp only [listPasses, hamong, List.allM_pure, List.anyM_pure]
    cases what <;> rfl

theorem cidrPasses_eq (block : Bytes) (what : Value) :
    cidrPasses block what = .ok (Rule.cidrSatisfied block what) := by
  unfold cidrPasses Rule.cidrSatisfied
  cases Network.Block.parse? block with
  | none => cases what <;> rfl
  | some b => exact textPasses_eq b.containsText what

theorem holds_eq (resource what : Value) : holds resource what = .ok (resource.holds what) := by
  cases resource with
  | string s => cases what <;> rfl
  | list items => exact isAmong_eq what items
  | map entries =>
    cases what with
    | string key =>
      have hfound : holds (.map entries) (.string key) =
          .ok ((entries.find? fun e => e.1 == key).map Prod.snd).isSome := rfl
      rw [hfound, Option.isSome_map, List.isSome_find?]
      rfl
    | _ => rfl
  | _ => cases what <;> rfl

theorem agrees_eq (which : Attribute) (field : Option Bytes) (what : Value) (q : Inquiry) :
    agrees which field what q = .ok (which.holds field what q) := by
  cases field with
  | none =>
    cases which with
    | resource => exact holds_eq q.resource what
    | subject => exact equal_eq what q.subject
    | action => exact equal_eq what q.action
  | some f =>
    rw [agrees, find?_eq]
    unfold Attribute.holds
    dsimp only
    cases (q.part which).find? f with
    | none => rfl
    | some v =>
      cases which with
      | resource => exact holds_eq v what
      | subject | action => exact equal_eq what v

mutual

/-- **Rules are evaluated without a fault**; exceptions of callables pass through. -/
theorem satisfied_eq : ∀ (r : Rule) (what : Value) (q : Option Inquiry),
    satisfied r what q = (r.satisfied what q).mapError Fault.ofEscape
  | .compare op operand, what, _ => compares_eq op what operand
  | .truth expected, what, _ => by
    rw [satisfied, Rule.satisfied, truthy_eq]
    cases what.truthy <;> rfl
  | .text test operand ignoreCase, what, _ => textPasses_eq _ what
  | .regex pattern, what, _ => textPasses_eq _ what
  | .pairsEqual, what, _ => pairsPass_eq what
  | .list test items, what, _ => listPasses_eq test what items
  | .cidr block, what, _ => by
    rw [satisfied, Rule.satisfied, cidrPasses_eq]
    rfl
  | .inquiry which field, what, none => rfl
  | .inquiry which field, what, some q => agrees_eq which field what q
  | .and rules, what, q => allSatisfied_eq rules what q
  | .or rules, what, q => anySatisfied_eq rules what q
  | .not none, _, _ => rfl
  | .not (some r), what, q => by
    rw [satisfied, Rule.satisfied, ask, satisfied_eq r what q]
    cases r.satisfied what q <;> rfl
  | .any, _, _ | .neither, _, _ => rfl

theorem allSatisfied_eq : ∀ (rules : List (Option Rule)) (what : Value) (q : Option Inquiry),
    allSatisfied rules what q = (Rule.allSatisfied rules what q).mapError Fault.ofEscape
  | [], _, _ | none :: _, _, _ => rfl
  | some r :: rest, what, q => by
    rw [allSatisfied, Rule.allSatisfied, ask, satisfied_eq r what q, allSatisfied_eq rest what q]
    rcases r.satisfied what q with _ | _ | _ <;> rfl

theorem anySatisfied_eq : ∀ (rules : List (Option Rule)) (what : Value) (q : Option Inquiry),
    anySatisfied rules what q = (Rule.anySatisfied rules what q).mapError Fault.ofEscape
  | [], _, _ => rfl
  | none :: rest, what, q => anySatisfied_eq rest what q
  | some r :: rest, what, q => by
    rw [anySatisfied, Rule.anySatisfied, ask, satisfied_eq r what q, anySatisfied_eq rest what q]
    rcases r.satisfied what q with _ | _ | _ <;> rfl

end

/-- **A rule that is there may be asked.** -/
theorem ask_eq (r : Rule) (what : Value) (q : Option Inquiry) :
    ask (some r) what q = (r.satisfied what q).mapError Fault.ofEscape := satisfied_eq r what q

end AccessControl.Checked
