import AccessControl.Proofs.Codec.Inquiries

/-!
# Equality of values and inquiries

Equality goes either way round (`Value.equal_comm`), and what is equal to anything is equal to itself,
since there is no not-a-number in it (`Value.nanFree_of_equal`).  So are inquiries, which are equal part by
part.
-/

namespace AccessControl

namespace Value

mutual

/-- Equality goes either way round. -/
theorem equal_comm : ∀ a b : Value, equal a b = equal b a
  | .null, b => by cases b <;> rfl
  | .bool x, b => by
    cases b with
    | bool y => rw [equal, equal, Bool.beq_comm]
    | _ => rfl
  | .int i, b => by
    cases b with
    | int j => rw [equal, equal, Bool.beq_comm]
    | _ => rfl
  | .double d, b => by
    cases b with
    | double e =>
      rw [equal, equal, ← Binary64.compare_symm d e]
      rcases d.compare e with _ | (_ | _ | _) <;> rfl
    | _ => rfl
  | .string s, b => by
    cases b with
    | string t => rw [equal, equal, Bool.beq_comm]
    | _ => rfl
  | .list xs, b => by
    cases b with
    | list ys => rw [equal, equal, equalItems_comm xs ys]
    | _ => rfl
  | .map xs, b => by
    cases b with
    | map ys => rw [equal, equal, equalEntries_comm xs ys]
    | _ => rfl
  | .thunk i _, b => by
    cases b with
    | thunk j _ => rw [equal, equal, Bool.beq_comm]
    | _ => rfl

theorem equalItems_comm : ∀ a b : List Value, equalItems a b = equalItems b a
  | [], [] | [], _ :: _ | _ :: _, [] => rfl
  | x :: xs, y :: ys => by rw [equalItems, equalItems, equal_comm x y, equalItems_comm xs ys]

theorem equalEntries_comm : ∀ a b : List (Bytes × Value), equalEntries a b = equalEntries b a
  | [], [] | [], _ :: _ | _ :: _, [] => rfl
  | (k, x) :: xs, (l, y) :: ys => by
    have hkeys : (k == l) = (l == k) := Bool.beq_comm
    rw [equalEntries, equalEntries, hkeys, equal_comm x y, equalEntries_comm xs ys]

end

mutual

/-- What is equal to any value has no not-a-number in it. -/
theorem nanFree_of_equal : ∀ a b : Value, equal a b = true → a.NanFree
  | .null, _, _ | .bool _, _, _ | .int _, _, _ | .string _, _, _ | .thunk .., _, _ => trivial
  | .double d, b, h => by
    rintro rfl
    cases b with
    | int i =>
      have h : ((Binary64.ofInt i.toInt).compare .nan == some .eq) = true := h
      rw [← Binary64.compare_symm] at h
      exact Bool.false_ne_true h
    | _ => exact Bool.false_ne_true h
  | .list xs, b, h => by
    cases b with
    | list ys =>
      rw [equal] at h
      exact itemsNanFree_of_equal xs ys h
    | _ => exact absurd h Bool.false_ne_true
  | .map xs, b, h => by
    cases b with
    | map ys =>
      rw [equal] at h
      exact entriesNanFree_of_equal xs ys h
    | _ => exact absurd h Bool.false_ne_true

theorem itemsNanFree_of_equal : ∀ a b : List Value, equalItems a b = true → ItemsNanFree a
  | [], _, _ => trivial
  | _ :: _, [], h => absurd h Bool.false_ne_true
  | x :: xs, y :: ys, h => by
    rw [equalItems, Bool.and_eq_true] at h
    exact ⟨nanFree_of_equal x y h.1, itemsNanFree_of_equal xs ys h.2⟩

theorem entriesNanFree_of_equal : ∀ a b : List (Bytes × Value), equalEntries a b = true → EntriesNanFree a
  | [], _, _ => trivial
  | _ :: _, [], h => absurd h Bool.false_ne_true
  | (_, x) :: xs, (_, y) :: ys, h => by
    rw [equalEntries, Bool.and_eq_true, Bool.and_eq_true] at h
    exact ⟨nanFree_of_equal x y h.1.2, entriesNanFree_of_equal xs ys h.2⟩

end

end Value

namespace Inquiry

/-- An inquiry without not-a-number in it. -/
def NanFree (q : Inquiry) : Prop := ∀ v ∈ q.values, v.NanFree

theorem nanFree_iff (q : Inquiry) : q.NanFree ↔
    q.subject.NanFree ∧ q.resource.NanFree ∧ q.action.NanFree ∧ q.contextValue.NanFree := by
  simp [NanFree, values]

theorem equal_symm {q q' : Inquiry} (h : (q == q') = true) : (q' == q) = true := by
  obtain ⟨hsubject, hresource, haction, hcontext⟩ := (equal_iff q q').mp h
  rw [Value.equal_comm] at hsubject hresource haction hcontext
  exact (equal_iff q' q).mpr ⟨hsubject, hresource, haction, hcontext⟩

theorem nanFree_of_equal {q q' : Inquiry} (h : (q == q') = true) : q.NanFree := by
  obtain ⟨hsubject, hresource, haction, hcontext⟩ := (equal_iff q q').mp h
  exact (nanFree_iff q).mpr ⟨Value.nanFree_of_equal _ _ hsubject, Value.nanFree_of_equal _ _ hresource,
    Value.nanFree_of_equal _ _ haction, Value.nanFree_of_equal _ _ hcontext⟩

/-- Not-a-number is all that keeps an inquiry from being equal to itself. -/
theorem equal_self_iff (q : Inquiry) : (q == q) = true ↔ q.NanFree := by
  refine ⟨nanFree_of_equal, fun h => ?_⟩
  obtain ⟨hsubject, hresource, haction, hcontext⟩ := (nanFree_iff q).mp h
  exact (equal_iff q q).mpr ⟨Value.equal_self _ hsubject, Value.equal_self _ hresource,
    Value.equal_self _ haction, Value.equal_self _ hcontext⟩

end Inquiry

end AccessControl
