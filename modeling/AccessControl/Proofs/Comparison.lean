import AccessControl.Proofs.Equality
import AccessControl.Rule.Basic

/-!
# How order and equality of values fit together

The order of two values is the reverse of their order the other way round (`Value.compare_swap`).  Values
that are equal in order are equal, and equal values are equal in order unless there is a map or a callable
in them, which have no order (`Value.compare_of_equal`).  Lists are ordered by their first items that are
not equal in order, or else by their length (`Value.compareItems_eq_iff`); an item without an order there
leaves the lists without one.  Integers and floating point numbers may be equal in order and yet not in
the same order to a third number, so it is on values without floating point numbers that equality in order
is identity (`Value.eq_of_compare`) and the order is transitive (`Value.compare_trans`).

The comparisons of rules inherit this (`Rule.Passes`).
-/

namespace AccessControl

/-! ## Texts and booleans -/

theorem Bytes.order_eq_iff {s t : Bytes} : Bytes.order s t = .eq ↔ s = t := by
  unfold Bytes.order
  split
  · next h => exact ⟨fun _ => h, fun _ => rfl⟩
  · next h => split <;> exact ⟨fun h' => (nomatch h'), fun h' => absurd h' h⟩

theorem Bytes.order_lt_iff {s t : Bytes} : Bytes.order s t = .lt ↔ s < t := by
  unfold Bytes.order
  split
  · next h => exact ⟨fun h' => (nomatch h'), fun h' => absurd (h ▸ h') (List.lt_irrefl t)⟩
  · split
    · next h => exact ⟨fun _ => h, fun _ => rfl⟩
    · next h => exact ⟨fun h' => (nomatch h'), fun h' => absurd h' h⟩

theorem Bytes.order_swap (s t : Bytes) : (Bytes.order s t).swap = Bytes.order t s := by
  unfold Bytes.order
  by_cases heq : s = t
  · rw [if_pos heq, if_pos heq.symm]
    rfl
  · rw [if_neg heq, if_neg (Ne.symm heq)]
    by_cases hlt : s < t
    · rw [if_pos hlt, if_neg (List.lt_asymm hlt)]
      rfl
    · have hgt : t < s := by
        by_contra hgt
        exact heq (List.le_antisymm hgt hlt)
      rw [if_neg hlt, if_pos hgt]
      rfl

theorem compare_bool_swap (a b : Bool) : (Ord.compare a b).swap = Ord.compare b a := by
  cases a <;> cases b <;> rfl

theorem compare_bool_eq_iff {a b : Bool} : Ord.compare a b = .eq ↔ a = b := by
  cases a <;> cases b <;> decide

theorem compare_int_lt_iff {a b : Int} : Ord.compare a b = .lt ↔ a < b := by
  show compareOfLessAndEq a b = .lt ↔ a < b
  unfold compareOfLessAndEq
  split
  · next h => exact ⟨fun _ => h, fun _ => rfl⟩
  · next h => split <;> exact ⟨fun h' => (nomatch h'), fun h' => absurd h' h⟩

namespace Value

/-! ## The reverse order -/

mutual

/-- **The order the other way round is the reverse.** -/
theorem compare_swap : ∀ a b : Value, (compare a b).map Ordering.swap = compare b a
  | .null, b | .map _, b | .thunk .., b => by cases b <;> rfl
  | .bool x, b => by
    cases b with
    | bool y => rw [compare, compare, Option.map_some, compare_bool_swap]
    | _ => rfl
  | .int i, b => by
    cases b with
    | int j => rw [compare, compare, Option.map_some, AccessControl.compare_swap]
    | _ => rfl
  | .double d, b => by
    cases b with
    | int i =>
      rw [compare, compare, Option.map_map]
      rcases compareMixed i.toInt d with _ | _ | _ | _ <;> rfl
    | double e => rw [compare, compare, Binary64.compare_symm]
    | _ => rfl
  | .string s, b => by
    cases b with
    | string t => rw [compare, compare, Option.map_some, Bytes.order_swap]
    | _ => rfl
  | .list xs, b => by
    cases b with
    | list ys => rw [compare, compare, compareItems_swap xs ys]
    | _ => rfl

theorem compareItems_swap : ∀ xs ys : List Value,
    (compareItems xs ys).map Ordering.swap = compareItems ys xs
  | [], [] | [], _ :: _ | _ :: _, [] => rfl
  | x :: xs, y :: ys => by
    have hreverse := compare_swap x y
    rw [compareItems, compareItems, ← hreverse]
    rcases compare x y with _ | _ | _ | _
    · rfl
    · rfl
    · exact compareItems_swap xs ys
    · rfl

end

theorem compare_eq_gt_iff {a b : Value} : compare a b = some .gt ↔ compare b a = some .lt := by
  rw [← compare_swap a b]
  rcases compare a b with _ | _ | _ | _ <;> decide

theorem compare_eq_eq_comm {a b : Value} : compare a b = some .eq ↔ compare b a = some .eq := by
  rw [← compare_swap a b]
  rcases compare a b with _ | _ | _ | _ <;> decide

/-- Nothing comes before itself. -/
theorem compare_self_ne_lt (a : Value) : compare a a ≠ some .lt := by
  intro h
  have hgt := compare_eq_gt_iff.mpr h
  rw [h] at hgt
  cases hgt

/-! ## Order and equality -/

mutual

/-- **Values that are equal in order are equal.** -/
theorem equal_of_compare : ∀ {a b : Value}, compare a b = some .eq → equal a b = true
  | .null, b, h => by
    cases b with
    | null => rfl
    | _ => cases h
  | .map _, b, h | .thunk .., b, h => by cases b <;> cases h
  | .bool x, b, h => by
    cases b with
    | bool y =>
      rw [compare, Option.some.injEq, compare_bool_eq_iff] at h
      rw [equal, beq_iff_eq]
      exact h
    | _ => cases h
  | .int i, b, h => by
    cases b with
    | int j =>
      rw [compare, compare_self_swap, Int64.toInt_inj] at h
      rw [equal, beq_iff_eq]
      exact h
    | double d => exact beq_iff_eq.mpr h
    | _ => cases h
  | .double d, b, h => by
    cases b with
    | int i => exact beq_iff_eq.mpr (compare_eq_eq_comm.mp h)
    | double e => exact beq_iff_eq.mpr h
    | _ => cases h
  | .string s, b, h => by
    cases b with
    | string t =>
      rw [compare, Option.some.injEq, Bytes.order_eq_iff] at h
      rw [equal, beq_iff_eq]
      exact h
    | _ => cases h
  | .list xs, b, h => by
    cases b with
    | list ys => exact equalItems_of_compare h
    | _ => cases h

theorem equalItems_of_compare : ∀ {xs ys : List Value},
    compareItems xs ys = some .eq → equalItems xs ys = true
  | [], [], _ => rfl
  | [], _ :: _, h | _ :: _, [], h => nomatch h
  | x :: xs, y :: ys, h => by
    rw [compareItems] at h
    split at h
    · next hfirst => rw [equalItems, equal_of_compare hfirst, equalItems_of_compare h, Bool.and_self]
    · next hfirst => exact absurd h hfirst

end

mutual

/-- No map and no callable is in the value. -/
def isOrderable : Value → Bool
  | .list items => itemsOrderable items
  | .map _ | .thunk .. => false
  | _ => true
termination_by structural v => v

/-- No map and no callable is in the items. -/
def itemsOrderable : List Value → Bool
  | [] => true
  | v :: rest => v.isOrderable && itemsOrderable rest
termination_by structural l => l

end

mutual

/-- **Equal values are equal in order**, or have no order for a map or a callable in them. -/
theorem compare_of_equal : ∀ {a b : Value}, equal a b = true →
    compare a b = if a.isOrderable then some .eq else none
  | .null, b, h => by
    cases b with
    | null => rfl
    | _ => cases h
  | .map _, b, _ | .thunk .., b, _ => by cases b <;> rfl
  | .bool x, b, h => by
    cases b with
    | bool y =>
      rw [equal, beq_iff_eq] at h
      exact congrArg some (compare_bool_eq_iff.mpr h)
    | _ => cases h
  | .int i, b, h => by
    cases b with
    | int j =>
      rw [equal, beq_iff_eq] at h
      exact (compare_self_swap _ _).mpr (congrArg Int64.toInt h)
    | double d => exact beq_iff_eq.mp h
    | _ => cases h
  | .double d, b, h => by
    cases b with
    | int i => exact compare_eq_eq_comm.mp (beq_iff_eq.mp h)
    | double e => exact beq_iff_eq.mp h
    | _ => cases h
  | .string s, b, h => by
    cases b with
    | string t =>
      rw [equal, beq_iff_eq] at h
      exact congrArg some (Bytes.order_eq_iff.mpr h)
    | _ => cases h
  | .list xs, b, h => by
    cases b with
    | list ys => exact compareItems_of_equal h
    | _ => cases h

theorem compareItems_of_equal : ∀ {xs ys : List Value}, equalItems xs ys = true →
    compareItems xs ys = if itemsOrderable xs then some .eq else none
  | [], [], _ => rfl
  | [], _ :: _, h | _ :: _, [], h => nomatch h
  | x :: xs, y :: ys, h => by
    rw [equalItems, Bool.and_eq_true] at h
    rw [compareItems, compare_of_equal h.1, itemsOrderable]
    cases x.isOrderable with
    | false => rfl
    | true => exact compareItems_of_equal h.2

end

/-! ## Lists -/

/-- The lists are equal in order, item by item. -/
def ItemsLevel (xs ys : List Value) : Prop := List.Forall₂ (fun x y => compare x y = some .eq) xs ys

theorem compareItems_append {us vs : List Value} (h : ItemsLevel us vs) (xs ys : List Value) :
    compareItems (us ++ xs) (vs ++ ys) = compareItems xs ys := by
  induction h with
  | nil => rfl
  | cons hfirst _ ih =>
    rw [List.cons_append, List.cons_append, compareItems, hfirst]
    exact ih

/-- What decides the order of two lists: how they go on behind the items that are equal in order. -/
inductive Decides : List Value → List Value → Option Ordering → Prop
  | same : Decides [] [] (some .eq)
  | shorter (y : Value) (ys : List Value) : Decides [] (y :: ys) (some .lt)
  | longer (x : Value) (xs : List Value) : Decides (x :: xs) [] (some .gt)
  | item {x y : Value} (xs ys : List Value) (h : compare x y ≠ some .eq) :
    Decides (x :: xs) (y :: ys) (compare x y)

theorem Decides.compareItems_eq {xs ys : List Value} {c : Option Ordering} (h : Decides xs ys c) :
    compareItems xs ys = c := by
  cases h with
  | same => rfl
  | shorter y ys => rfl
  | longer x xs => rfl
  | @item x y xs ys hne =>
    rw [compareItems]
    split
    · next heq => exact absurd heq hne
    · rfl

/-- **Lists are ordered lexicographically**: there are items equal in order in front, and what comes
behind them decides. -/
theorem compareItems_eq_iff {c : Option Ordering} (xs ys : List Value) : compareItems xs ys = c ↔
    ∃ us vs xs' ys', xs = us ++ xs' ∧ ys = vs ++ ys' ∧ ItemsLevel us vs ∧ Decides xs' ys' c := by
  constructor
  · rintro rfl
    induction xs generalizing ys with
    | nil =>
      cases ys with
      | nil => exact ⟨[], [], [], [], rfl, rfl, .nil, .same⟩
      | cons y ys => exact ⟨[], [], [], y :: ys, rfl, rfl, .nil, .shorter y ys⟩
    | cons x xs ih =>
      cases ys with
      | nil => exact ⟨[], [], x :: xs, [], rfl, rfl, .nil, .longer x xs⟩
      | cons y ys =>
        by_cases hfirst : compare x y = some .eq
        · obtain ⟨us, vs, xs', ys', rfl, rfl, hlevel, hdecides⟩ := ih ys
          refine ⟨x :: us, y :: vs, xs', ys', rfl, rfl, .cons hfirst hlevel, ?_⟩
          rw [compareItems, hfirst]
          exact hdecides
        · refine ⟨[], [], x :: xs, y :: ys, rfl, rfl, .nil, ?_⟩
          have hdecides := Decides.item xs ys hfirst
          rw [hdecides.compareItems_eq]
          exact hdecides
  · rintro ⟨us, vs, xs', ys', rfl, rfl, hlevel, hdecides⟩
    rw [compareItems_append hlevel, hdecides.compareItems_eq]

/-! ## Values without floating point numbers -/

mutual

/-- No floating point number is in the value. -/
def DoubleFree : Value → Prop
  | .double _ => False
  | .list items => ItemsDoubleFree items
  | .map entries => EntriesDoubleFree entries
  | _ => True
termination_by structural v => v

/-- No floating point number is in the items. -/
def ItemsDoubleFree : List Value → Prop
  | [] => True
  | v :: rest => v.DoubleFree ∧ ItemsDoubleFree rest
termination_by structural l => l

/-- No floating point number is in the entries. -/
def EntriesDoubleFree : List (Bytes × Value) → Prop
  | [] => True
  | (_, v) :: rest => v.DoubleFree ∧ EntriesDoubleFree rest
termination_by structural l => l

end

/-- Values of different kinds have no order, unless they are numbers. -/
theorem compare_of_kind_ne {a b : Value} (ha : a.DoubleFree) (hb : b.DoubleFree)
    (hkind : a.kind ≠ b.kind) : compare a b = none := by
  cases a with
  | double d => exact ha.elim
  | _ =>
    cases b with
    | double e => exact hb.elim
    | _ => simp_all [compare, kind]

mutual

/-- Without floating point numbers, equality in order is identity. -/
theorem eq_of_compare : ∀ {a b : Value}, a.DoubleFree → b.DoubleFree → compare a b = some .eq → a = b
  | .null, b, _, _, h => by
    cases b with
    | null => rfl
    | _ => cases h
  | .map _, b, _, _, h | .thunk .., b, _, _, h => by cases b <;> cases h
  | .bool x, b, _, _, h => by
    cases b with
    | bool y =>
      rw [compare, Option.some.injEq, compare_bool_eq_iff] at h
      rw [h]
    | _ => cases h
  | .int i, b, _, hb, h => by
    cases b with
    | int j =>
      rw [compare, compare_self_swap, Int64.toInt_inj] at h
      rw [h]
    | double d => exact hb.elim
    | _ => cases h
  | .double d, _, ha, _, _ => ha.elim
  | .string s, b, _, _, h => by
    cases b with
    | string t =>
      rw [compare, Option.some.injEq, Bytes.order_eq_iff] at h
      rw [h]
    | _ => cases h
  | .list xs, b, ha, hb, h => by
    cases b with
    | list ys =>
      rw [DoubleFree] at ha hb
      rw [eq_of_compareItems ha hb h]
    | _ => cases h

theorem eq_of_compareItems : ∀ {xs ys : List Value}, ItemsDoubleFree xs → ItemsDoubleFree ys →
    compareItems xs ys = some .eq → xs = ys
  | [], [], _, _, _ => rfl
  | [], _ :: _, _, _, h | _ :: _, [], _, _, h => nomatch h
  | x :: xs, y :: ys, hxs, hys, h => by
    rw [ItemsDoubleFree] at hxs hys
    rw [compareItems] at h
    split at h
    · next hfirst => rw [eq_of_compare hxs.1 hys.1 hfirst, eq_of_compareItems hxs.2 hys.2 h]
    · next hfirst => exact absurd h hfirst

end

theorem compareItems_cons_lt_iff {x y : Value} {xs ys : List Value} :
    compareItems (x :: xs) (y :: ys) = some .lt ↔
      compare x y = some .lt ∨ compare x y = some .eq ∧ compareItems xs ys = some .lt := by
  rw [compareItems]
  rcases compare x y with _ | _ | _ | _ <;> simp

mutual

/-- **Without floating point numbers, the order is transitive.** -/
theorem compare_trans : ∀ {a b c : Value}, a.DoubleFree → b.DoubleFree → c.DoubleFree →
    compare a b = some .lt → compare b c = some .lt → compare a c = some .lt
  | .null, b, _, _, _, _, hab, _ | .map _, b, _, _, _, _, hab, _ | .thunk .., b, _, _, _, _, hab, _ => by
    cases b <;> cases hab
  | .bool x, b, c, _, _, _, hab, hbc => by
    cases b with
    | bool y =>
      cases c with
      | bool z =>
        rw [compare, Option.some.injEq] at hab hbc ⊢
        revert hab hbc
        cases x <;> cases y <;> cases z <;> decide
      | _ => cases hbc
    | _ => cases hab
  | .int i, b, c, _, hb, hc, hab, hbc => by
    cases b with
    | int j =>
      cases c with
      | int k =>
        rw [compare, Option.some.injEq, compare_int_lt_iff] at hab hbc ⊢
        omega
      | double d => exact hc.elim
      | _ => cases hbc
    | double d => exact hb.elim
    | _ => cases hab
  | .double d, _, _, ha, _, _, _, _ => ha.elim
  | .string s, b, c, _, _, _, hab, hbc => by
    cases b with
    | string t =>
      cases c with
      | string u =>
        rw [compare, Option.some.injEq, Bytes.order_lt_iff] at hab hbc ⊢
        exact List.lt_trans hab hbc
      | _ => cases hbc
    | _ => cases hab
  | .list xs, b, c, ha, hb, hc, hab, hbc => by
    cases b with
    | list ys =>
      cases c with
      | list zs =>
        rw [DoubleFree] at ha hb hc
        exact compareItems_trans ha hb hc hab hbc
      | _ => cases hbc
    | _ => cases hab

theorem compareItems_trans : ∀ {xs ys zs : List Value}, ItemsDoubleFree xs → ItemsDoubleFree ys →
    ItemsDoubleFree zs → compareItems xs ys = some .lt → compareItems ys zs = some .lt →
    compareItems xs zs = some .lt
  | _, [], [], _, _, _, _, h => nomatch h
  | [], [], _ :: _, _, _, _, h, _ | _ :: _, [], _ :: _, _, _, _, h, _ => nomatch h
  | _, _ :: _, [], _, _, _, _, h => nomatch h
  | [], _ :: _, _ :: _, _, _, _, _, _ => rfl
  | x :: xs, y :: ys, z :: zs, hxs, hys, hzs, hxy, hyz => by
    rw [ItemsDoubleFree] at hxs hys hzs
    rw [compareItems_cons_lt_iff] at hxy hyz ⊢
    -- the earlier of the two first differences decides
    rcases hxy with hxy | ⟨hxy, hrest⟩
    · rcases hyz with hyz | ⟨hyz, _⟩
      · exact .inl (compare_trans hxs.1 hys.1 hzs.1 hxy hyz)
      · rw [← eq_of_compare hys.1 hzs.1 hyz]
        exact .inl hxy
    · obtain rfl := eq_of_compare hxs.1 hys.1 hxy
      rcases hyz with hyz | ⟨hyz, hrest'⟩
      · exact .inl hyz
      · exact .inr ⟨hyz, compareItems_trans hxs.2 hys.2 hzs.2 hrest hrest'⟩

end

end Value

/-! ## Rules -/

namespace Rule

/-- A value passes a comparison with an operand, whatever is inquired. -/
def Passes (op : Comparison) (operand what : Value) : Prop :=
  ∀ q, (Rule.compare op operand).satisfied what q = .ok true

theorem passes_iff {op : Comparison} {operand what : Value} :
    Passes op operand what ↔ op.holds what operand = true := by
  have hsatisfied (q : Option Inquiry) :
      (Rule.compare op operand).satisfied what q = .ok (op.holds what operand) := by rw [satisfied]
  exact ⟨fun h => Except.ok.inj ((hsatisfied none).symm.trans (h none)), fun h q => h ▸ hsatisfied q⟩

theorem passes_eq_iff {operand what : Value} : Passes .eq operand what ↔ what.equal operand = true :=
  passes_iff

theorem passes_greater_iff {operand what : Value} :
    Passes .greater operand what ↔ what.compare operand = some .gt := by
  rw [passes_iff, Comparison.holds, beq_iff_eq]

theorem passes_less_iff {operand what : Value} :
    Passes .less operand what ↔ what.compare operand = some .lt := by
  rw [passes_iff, Comparison.holds, beq_iff_eq]

theorem passes_greaterOrEqual_iff {operand what : Value} : Passes .greaterOrEqual operand what ↔
    what.compare operand = some .gt ∨ what.compare operand = some .eq := by
  rw [passes_iff, Comparison.holds, Bool.or_eq_true, beq_iff_eq, beq_iff_eq]

theorem passes_lessOrEqual_iff {operand what : Value} : Passes .lessOrEqual operand what ↔
    what.compare operand = some .lt ∨ what.compare operand = some .eq := by
  rw [passes_iff, Comparison.holds, Bool.or_eq_true, beq_iff_eq, beq_iff_eq]

/-- Only equal values pass both comparisons that allow equality. -/
theorem eq_of_passes_both {operand what : Value} (hgreater : Passes .greaterOrEqual operand what)
    (hless : Passes .lessOrEqual operand what) : Passes .eq operand what := by
  rw [passes_greaterOrEqual_iff] at hgreater
  rw [passes_lessOrEqual_iff] at hless
  rw [passes_eq_iff]
  rcases hgreater with hgreater | heq
  · rcases hless with hless | heq
    · rw [hgreater] at hless
      cases hless
    · exact Value.equal_of_compare heq
  · exact Value.equal_of_compare heq

/-- What is greater has the other one less than it. -/
theorem passes_greater_comm {x y : Value} : Passes .greater x y ↔ Passes .less y x := by
  rw [passes_greater_iff, passes_less_iff, Value.compare_eq_gt_iff]

/-- An equal value is neither greater nor less. -/
theorem order_of_passes_eq {operand what : Value} (h : Passes .eq operand what) :
    ¬ Passes .greater operand what ∧ ¬ Passes .less operand what := by
  rw [passes_eq_iff] at h
  rw [passes_greater_iff, passes_less_iff, Value.compare_of_equal h]
  split <;> exact ⟨fun h' => (nomatch h'), fun h' => nomatch h'⟩

theorem not_passes_less_of_greater {operand what : Value} (h : Passes .greater operand what) :
    ¬ Passes .less operand what := by
  rw [passes_greater_iff] at h
  rw [passes_less_iff, h]
  exact fun h' => nomatch h'

end Rule

namespace Value

/-- **Order and equality fit together.**  The order the other way round is the reverse, values that are
equal in order are equal, and equal values are equal in order exactly if no map and no callable is in them.
Lists are ordered by what comes behind the items that are equal in order.  Without floating point numbers
the order is irreflexive and transitive, equality in order is identity, and values of different kinds have
no order.  Among the comparisons of rules, only equal values pass both that allow equality, a value is
greater than another one exactly if that is less, and no value passes two of greater, less and equal. -/
theorem order_coherent :
    (∀ a b : Value, (a.compare b).map Ordering.swap = b.compare a) ∧
    (∀ a b : Value, a.compare b = some .eq → a.equal b = true) ∧
    (∀ a b : Value, a.equal b = true → (a.compare b = some .eq ↔ a.isOrderable = true)) ∧
    (∀ (xs ys : List Value) (c : Option Ordering), (Value.list xs).compare (.list ys) = c ↔
      ∃ us vs xs' ys', xs = us ++ xs' ∧ ys = vs ++ ys' ∧ ItemsLevel us vs ∧ Decides xs' ys' c) ∧
    (∀ a : Value, a.compare a ≠ some .lt) ∧
    (∀ a b c : Value, a.DoubleFree → b.DoubleFree → c.DoubleFree →
      a.compare b = some .lt → b.compare c = some .lt → a.compare c = some .lt) ∧
    (∀ a b : Value, a.DoubleFree → b.DoubleFree →
      (a.compare b = some .eq → a = b) ∧ (a.kind ≠ b.kind → a.compare b = none)) ∧
    ∀ x y : Value,
      (Rule.Passes .greaterOrEqual x y → Rule.Passes .lessOrEqual x y → Rule.Passes .eq x y) ∧
      (Rule.Passes .greater x y ↔ Rule.Passes .less y x) ∧
      ¬ (Rule.Passes .greater x y ∧ Rule.Passes .less x y) ∧
      ¬ (Rule.Passes .greater x y ∧ Rule.Passes .eq x y) ∧
      ¬ (Rule.Passes .less x y ∧ Rule.Passes .eq x y) := by
  refine ⟨compare_swap, fun a b => equal_of_compare, fun a b h => ?_, fun xs ys c => ?_,
    compare_self_ne_lt, fun a b c => compare_trans, fun a b ha hb => ?_, fun x y => ?_⟩
  · rw [compare_of_equal h]
    cases a.isOrderable <;> decide
  · rw [compare]
    exact compareItems_eq_iff xs ys
  · exact ⟨eq_of_compare ha hb, compare_of_kind_ne ha hb⟩
  · exact ⟨Rule.eq_of_passes_both, Rule.passes_greater_comm,
      fun h => Rule.not_passes_less_of_greater h.1 h.2,
      fun h => (Rule.order_of_passes_eq h.2).1 h.1, fun h => (Rule.order_of_passes_eq h.2).2 h.1⟩

/-- A text behind a number, in lists. -/
def numbered (i : Int64) (text : Bytes) : Value := .list [.int i, .string text, .map []]

theorem order_coherent_lists :
    (numbered 1 [97]).DoubleFree ∧ (numbered 1 [98]).DoubleFree ∧ (numbered 2 []).DoubleFree ∧
      (numbered 1 [97]).compare (numbered 1 [98]) = some .lt ∧
      (numbered 1 [98]).compare (numbered 2 []) = some .lt ∧
      (numbered 1 [97]).compare (numbered 2 []) = some .lt ∧
      (numbered 2 []).equal (numbered 2 []) = true ∧
      (numbered 2 []).compare (numbered 2 []) ≠ some .eq := by
  have hfree (i : Int64) (text : Bytes) : (numbered i text).DoubleFree := ⟨trivial, trivial, trivial, trivial⟩
  obtain ⟨-, -, hequal, -, -, htrans, -, -⟩ := order_coherent
  have hself : (numbered 2 []).equal (numbered 2 []) = true := by decide
  refine ⟨hfree 1 [97], hfree 1 [98], hfree 2 [], by decide, by decide, ?_, hself, fun h => ?_⟩
  · exact htrans _ _ _ (hfree 1 [97]) (hfree 1 [98]) (hfree 2 []) (by decide) (by decide)
  · exact absurd ((hequal _ _ hself).mp h) (by decide)

end Value

end AccessControl
