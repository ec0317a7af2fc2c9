import AccessControl.Proofs.Equality
import AccessControl.Proofs.Number.Border

/-!
# Equality and hash codes

Equality of values without not-a-number is reflexive and symmetric, and goes from one value to another over
any value in which `2 ^ 63` does not stand as a floating point number (`Value.equal_trans`).  That number is
equal to each of the last 512 integers of 64 bits, which differ from one another, so over a value in which
it stands equality does not go on (`Value.bounded_of_equal_lowered`).

Equal values have one hash code, whatever the codes of their parts are, unless `2 ^ 63` as a floating point
number stands in one of them where the other has an integer (`Value.Clash`, `Value.hash_eq_of_equal`): an
integer has the code of an integer, and a floating point number beyond 64 bits has not.  Inquiries are equal
and have one code as their values do.
-/

namespace AccessControl

namespace Value

open Binary64

/-! ## Equal numbers -/

theorem mixed_eq_iff (i : Int64) (d : Binary64) : compareMixed i.toInt d = some .eq ↔
    d.integer? = some i.toInt ∨ d = beyond ∧ 2 ^ 63 - 512 ≤ i.toInt :=
  compareMixed_eq_iff (Int64.le_toInt i) (Int64.toInt_lt i) d

/-- **An integer is equal to a floating point number** that is this integer; and the last 512 integers of
64 bits are equal to the first number beyond them. -/
theorem equal_int_double_iff (i : Int64) (d : Binary64) : equal (.int i) (.double d) = true ↔
    d.integer? = some i.toInt ∨ d = beyond ∧ 2 ^ 63 - 512 ≤ i.toInt := by
  rw [equal, beq_iff_eq, mixed_eq_iff]

theorem equal_int_beyond {i : Int64} (h : 2 ^ 63 - 512 ≤ i.toInt) :
    equal (.int i) (.double beyond) = true := (equal_int_double_iff i beyond).mpr (.inr ⟨rfl, h⟩)

/-- Floating point numbers that are equal are equal to the same values. -/
theorem equal_double_congr {d e : Binary64} (h : d.compare e = some .eq) (w : Value) :
    equal (.double d) w = equal (.double e) w := by
  rcases eq_of_compare h with rfl | ⟨hd, he⟩
  · rfl
  · have hzero : (0 : Int64).toInt = 0 := rfl
    rw [← equal_int_of_integer? (i := 0) (hzero ▸ integer?_of_isZero hd),
      equal_int_of_integer? (i := 0) (hzero ▸ integer?_of_isZero he)]

/-- Floating point numbers that are equal to one integer are equal. -/
theorem compare_of_mixed {i : Int64} {d e : Binary64} (hd : compareMixed i.toInt d = some .eq)
    (he : compareMixed i.toInt e = some .eq) : d.compare e = some .eq := by
  rcases (mixed_eq_iff i d).mp hd with hinteger | ⟨rfl, -⟩
  · rwa [← compareMixed_eq hinteger e]
  · rcases (mixed_eq_iff i e).mp he with hinteger | ⟨rfl, -⟩
    · rw [compareMixed_eq hinteger] at hd
      rw [← Binary64.compare_symm, hd]
      rfl
    · exact Binary64.compare_self (by decide)

/-! ## Transitivity -/

mutual

/-- No floating point number in the value is the first one beyond the integers of 64 bits. -/
def Bounded : Value → Prop
  | .double d => d ≠ beyond
  | .list items => ItemsBounded items
  | .map entries => EntriesBounded entries
  | _ => True
termination_by structural v => v

/-- No floating point number in the items is the first one beyond the integers of 64 bits. -/
def ItemsBounded : List Value → Prop
  | [] => True
  | v :: rest => v.Bounded ∧ ItemsBounded rest
termination_by structural l => l

/-- No floating point number in the entries is the first one beyond the integers of 64 bits. -/
def EntriesBounded : List (Bytes × Value) → Prop
  | [] => True
  | (_, v) :: rest => v.Bounded ∧ EntriesBounded rest
termination_by structural l => l

end

/-- What is equal to a bounded floating point number is equal to the same values. -/
theorem equal_congr_double {d : Binary64} (hd : d ≠ beyond) {a : Value}
    (h : equal a (.double d) = true) (w : Value) : equal a w = equal (.double d) w := by
  cases a with
  | int i =>
    rcases (equal_int_double_iff i d).mp h with hinteger | ⟨hbeyond, -⟩
    · exact equal_int_of_integer? hinteger w
    · exact absurd hbeyond hd
  | double e =>
    rw [equal, beq_iff_eq] at h
    exact equal_double_congr h w
  | _ => cases h

/-- Numbers that are equal to one integer are equal. -/
theorem equal_of_equal_int {i : Int64} {a c : Value} (ha : equal a (.int i) = true)
    (hc : equal (.int i) c = true) : equal a c = true := by
  cases a with
  | int j =>
    rw [equal, beq_iff_eq] at ha
    rwa [ha]
  | double d =>
    cases c with
    | int k =>
      rw [equal, beq_iff_eq] at hc
      rwa [← hc]
    | double e =>
      have ha : compareMixed i.toInt d = some .eq := beq_iff_eq.mp ha
      have hc : compareMixed i.toInt e = some .eq := beq_iff_eq.mp hc
      exact beq_iff_eq.mpr (compare_of_mixed ha hc)
    | _ => cases hc
  | _ => cases ha

mutual

/-- **Equality goes on over a bounded value.** -/
theorem equal_trans : ∀ {b : Value}, b.Bounded → ∀ {a c : Value}, equal a b = true → equal b c = true →
    equal a c = true
  | .null, _, a, c, ha, hc => by
    cases a with
    | null => exact hc
    | _ => cases ha
  | .bool x, _, a, c, ha, hc => by
    cases a with
    | bool y =>
      rw [equal, beq_iff_eq] at ha
      rwa [ha]
    | _ => cases ha
  | .int i, _, a, c, ha, hc => equal_of_equal_int ha hc
  | .double d, h, a, c, ha, hc => by
    rw [Bounded] at h
    rwa [equal_congr_double h ha]
  | .string s, _, a, c, ha, hc => by
    cases a with
    | string t =>
      rw [equal, beq_iff_eq] at ha
      rwa [ha]
    | _ => cases ha
  | .list ys, h, a, c, ha, hc => by
    cases a with
    | list xs =>
      cases c with
      | list zs =>
        rw [Bounded] at h
        rw [equal] at ha hc ⊢
        exact equalItems_trans h ha hc
      | _ => cases hc
    | _ => cases ha
  | .map ys, h, a, c, ha, hc => by
    cases a with
    | map xs =>
      cases c with
      | map zs =>
        rw [Bounded] at h
        rw [equal] at ha hc ⊢
        exact equalEntries_trans h ha hc
      | _ => cases hc
    | _ => cases ha
  | .thunk i _, _, a, c, ha, hc => by
    cases a with
    | thunk j _ =>
      cases c with
      | thunk k _ =>
        rw [equal, beq_iff_eq] at ha hc ⊢
        exact ha.trans hc
      | _ => cases hc
    | _ => cases ha

theorem equalItems_trans : ∀ {ys : List Value}, ItemsBounded ys → ∀ {xs zs : List Value},
    equalItems xs ys = true → equalItems ys zs = true → equalItems xs zs = true
  | [], _, [], _, _, h => h
  | [], _, _ :: _, _, h, _ => nomatch h
  | _ :: _, _, [], _, h, _ => nomatch h
  | _ :: _, _, _ :: _, [], _, h => nomatch h
  | y :: ys, h, x :: xs, z :: zs, hxy, hyz => by
    rw [ItemsBounded] at h
    rw [equalItems, Bool.and_eq_true] at hxy hyz ⊢
    exact ⟨equal_trans h.1 hxy.1 hyz.1, equalItems_trans h.2 hxy.2 hyz.2⟩

theorem equalEntries_trans : ∀ {ys : List (Bytes × Value)}, EntriesBounded ys →
    ∀ {xs zs : List (Bytes × Value)},
    equalEntries xs ys = true → equalEntries ys zs = true → equalEntries xs zs = true
  | [], _, [], _, _, h => h
  | [], _, _ :: _, _, h, _ => nomatch h
  | _ :: _, _, [], _, h, _ => nomatch h
  | _ :: _, _, _ :: _, [], _, h => nomatch h
  | (k, y) :: ys, h, (j, x) :: xs, (l, z) :: zs, hxy, hyz => by
    rw [EntriesBounded] at h
    rw [equalEntries, Bool.and_eq_true, Bool.and_eq_true, beq_iff_eq] at hxy hyz ⊢
    exact ⟨⟨hxy.1.1.trans hyz.1.1, equal_trans h.1 hxy.1.2 hyz.1.2⟩,
      equalEntries_trans h.2 hxy.2 hyz.2⟩

end

/-! ### Where it ends -/

mutual

/-- The value with an integer in place of the first number beyond 64 bits. -/
def lowered (i : Int64) : Value → Value
  | .double d => if d = beyond then .int i else .double d
  | .list items => .list (loweredItems i items)
  | .map entries => .map (loweredEntries i entries)
  | v => v
termination_by structural v => v

/-- The items with an integer in place of the first number beyond 64 bits. -/
def loweredItems (i : Int64) : List Value → List Value
  | [] => []
  | v :: rest => v.lowered i :: loweredItems i rest
termination_by structural l => l

/-- The entries with an integer in place of the first number beyond 64 bits. -/
def loweredEntries (i : Int64) : List (Bytes × Value) → List (Bytes × Value)
  | [] => []
  | (key, v) :: rest => (key, v.lowered i) :: loweredEntries i rest
termination_by structural l => l

end

theorem loweredEntries_eq_map (i : Int64) (entries : List (Bytes × Value)) :
    loweredEntries i entries = entries.map fun e => (e.1, e.2.lowered i) := by
  induction entries with
  | nil => rfl
  | cons e rest ih => rw [loweredEntries, ih, List.map_cons]

variable {i j : Int64}

mutual

/-- One of the last integers in place of the first number beyond them leaves an equal value. -/
theorem equal_lowered (hi : 2 ^ 63 - 512 ≤ i.toInt) : ∀ {v : Value}, v.NanFree →
    equal (v.lowered i) v = true
  | .null, _ => rfl
  | .bool b, _ => equal_self (.bool b) trivial
  | .int k, _ => equal_self (.int k) trivial
  | .string s, _ => equal_self (.string s) trivial
  | .thunk n c, _ => equal_self (.thunk n c) trivial
  | .double d, h => by
    rw [lowered]
    split
    · next hd =>
      rw [hd]
      exact equal_int_beyond hi
    · exact equal_self _ h
  | .list items, h => by
    rw [NanFree] at h
    rw [lowered, equal]
    exact equalItems_lowered hi h
  | .map entries, h => by
    rw [NanFree] at h
    rw [lowered, equal]
    exact equalEntries_lowered hi h

theorem equalItems_lowered (hi : 2 ^ 63 - 512 ≤ i.toInt) : ∀ {l : List Value}, ItemsNanFree l →
    equalItems (loweredItems i l) l = true
  | [], _ => rfl
  | v :: rest, h => by
    rw [ItemsNanFree] at h
    rw [loweredItems, equalItems, equal_lowered hi h.1, equalItems_lowered hi h.2, Bool.and_self]

theorem equalEntries_lowered (hi : 2 ^ 63 - 512 ≤ i.toInt) : ∀ {l : List (Bytes × Value)},
    EntriesNanFree l → equalEntries (loweredEntries i l) l = true
  | [], _ => rfl
  | (key, v) :: rest, h => by
    rw [EntriesNanFree] at h
    rw [loweredEntries, equalEntries, equal_lowered hi h.1, equalEntries_lowered hi h.2,
      beq_self_eq_true, Bool.and_self, Bool.and_self]

end

mutual

/-- Different integers in that place leave different values. -/
theorem bounded_of_equal_lowered (hne : i ≠ j) : ∀ {v : Value},
    equal (v.lowered i) (v.lowered j) = true → v.Bounded
  | .null, _ | .bool _, _ | .int _, _ | .string _, _ | .thunk .., _ => trivial
  | .double d, h => by
    rw [Bounded]
    rintro rfl
    rw [lowered, lowered, if_pos rfl, if_pos rfl, equal, beq_iff_eq] at h
    exact hne h
  | .list items, h => by
    rw [lowered, lowered, equal] at h
    rw [Bounded]
    exact itemsBounded_of_equal_lowered hne h
  | .map entries, h => by
    rw [lowered, lowered, equal] at h
    rw [Bounded]
    exact entriesBounded_of_equal_lowered hne h

theorem itemsBounded_of_equal_lowered (hne : i ≠ j) : ∀ {l : List Value},
    equalItems (loweredItems i l) (loweredItems j l) = true → ItemsBounded l
  | [], _ => trivial
  | v :: rest, h => by
    rw [loweredItems, loweredItems, equalItems, Bool.and_eq_true] at h
    rw [ItemsBounded]
    exact ⟨bounded_of_equal_lowered hne h.1, itemsBounded_of_equal_lowered hne h.2⟩

theorem entriesBounded_of_equal_lowered (hne : i ≠ j) : ∀ {l : List (Bytes × Value)},
    equalEntries (loweredEntries i l) (loweredEntries j l) = true → EntriesBounded l
  | [], _ => trivial
  | (key, v) :: rest, h => by
    rw [loweredEntries, loweredEntries, equalEntries, Bool.and_eq_true, Bool.and_eq_true] at h
    rw [EntriesBounded]
    exact ⟨bounded_of_equal_lowered hne h.1.2, entriesBounded_of_equal_lowered hne h.2⟩

end

/-- The last integer of 64 bits. -/
def lastInteger : Int64 := 9223372036854775807

/-- The integer before the last one. -/
def lastButOne : Int64 := 9223372036854775806

/-- **Equality goes on over a value exactly if it is bounded.** -/
theorem transitive_iff {b : Value} (h : b.NanFree) :
    (∀ a c : Value, equal a b = true → equal b c = true → equal a c = true) ↔ b.Bounded := by
  refine ⟨fun htrans => ?_, fun hbounded a c => equal_trans hbounded⟩
  have hlast : equal (b.lowered lastInteger) b = true := equal_lowered (by decide) h
  have hbefore : equal b (b.lowered lastButOne) = true := by
    rw [equal_comm]
    exact equal_lowered (by decide) h
  exact bounded_of_equal_lowered (i := lastInteger) (j := lastButOne) (by decide)
    (htrans _ _ hlast hbefore)

/-! ## Hash codes -/

mutual

/-- The first number beyond 64 bits stands in one of the values where the other one has an integer. -/
def Clash : Value → Value → Prop
  | .int _, .double d => d = beyond
  | .double d, .int _ => d = beyond
  | .list xs, .list ys => ItemsClash xs ys
  | .map xs, .map ys => EntriesClash xs ys
  | _, _ => False
termination_by structural a => a

/-- Items at one place clash. -/
def ItemsClash : List Value → List Value → Prop
  | x :: xs, y :: ys => x.Clash y ∨ ItemsClash xs ys
  | _, _ => False
termination_by structural a => a

/-- The values of entries at one place clash. -/
def EntriesClash : List (Bytes × Value) → List (Bytes × Value) → Prop
  | (_, x) :: xs, (_, y) :: ys => x.Clash y ∨ EntriesClash xs ys
  | _, _ => False
termination_by structural a => a

end

mutual

/-- Bounded values do not clash. -/
theorem Bounded.not_clash : ∀ {a b : Value}, a.Bounded → b.Bounded → ¬ a.Clash b
  | .null, _, _, _ | .bool _, _, _, _ | .string _, _, _, _ | .thunk .., _, _, _ => id
  | .int i, b, _, hb => by
    cases b with
    | double d => exact hb
    | _ => exact id
  | .double d, b, ha, _ => by
    cases b with
    | int i => exact ha
    | _ => exact id
  | .list xs, b, ha, hb => by
    cases b with
    | list ys =>
      rw [Bounded] at ha hb
      rw [Clash]
      exact ItemsBounded.not_clash ha hb
    | _ => exact id
  | .map xs, b, ha, hb => by
    cases b with
    | map ys =>
      rw [Bounded] at ha hb
      rw [Clash]
      exact EntriesBounded.not_clash ha hb
    | _ => exact id

theorem ItemsBounded.not_clash : ∀ {xs ys : List Value}, ItemsBounded xs → ItemsBounded ys →
    ¬ ItemsClash xs ys
  | [], _, _, _ | _ :: _, [], _, _ => id
  | x :: xs, y :: ys, hxs, hys => by
    rw [ItemsBounded] at hxs hys
    rw [ItemsClash, not_or]
    exact ⟨Bounded.not_clash hxs.1 hys.1, ItemsBounded.not_clash hxs.2 hys.2⟩

theorem EntriesBounded.not_clash : ∀ {xs ys : List (Bytes × Value)}, EntriesBounded xs →
    EntriesBounded ys → ¬ EntriesClash xs ys
  | [], _, _, _ | _ :: _, [], _, _ => id
  | (_, x) :: xs, (_, y) :: ys, hxs, hys => by
    rw [EntriesBounded] at hxs hys
    rw [EntriesClash, not_or]
    exact ⟨Bounded.not_clash hxs.1 hys.1, EntriesBounded.not_clash hxs.2 hys.2⟩

end

section Codes

variable (H : HashFamily)

theorem hash_of_integer? {d : Binary64} (h : d.integer? = some i.toInt) :
    hash H (.double d) = hash H (.int i) := by
  rw [hash, hash, h]

theorem hash_double_of_compare {d e : Binary64} (h : d.compare e = some .eq) :
    hash H (.double d) = hash H (.double e) := by
  rcases eq_of_compare h with rfl | ⟨hd, he⟩
  · rfl
  · rw [hash, hash, integer?_of_isZero hd, integer?_of_isZero he]

mutual

/-- **Equal values that do not clash have one hash code**, whatever the codes of their parts are. -/
theorem hash_eq_of_equal : ∀ {a b : Value}, equal a b = true → ¬ a.Clash b → hash H a = hash H b
  | .null, b, h, _ => by
    cases b with
    | null => rfl
    | _ => cases h
  | .bool x, b, h, _ => by
    cases b with
    | bool y =>
      rw [equal, beq_iff_eq] at h
      rw [h]
    | _ => cases h
  | .int i, b, h, hclash => by
    cases b with
    | int j =>
      rw [equal, beq_iff_eq] at h
      rw [h]
    | double d =>
      rcases (equal_int_double_iff i d).mp h with hinteger | ⟨hbeyond, -⟩
      · exact (hash_of_integer? H hinteger).symm
      · exact absurd hbeyond hclash
    | _ => cases h
  | .double d, b, h, hclash => by
    cases b with
    | int i =>
      rw [equal_comm] at h
      rcases (equal_int_double_iff i d).mp h with hinteger | ⟨hbeyond, -⟩
      · exact hash_of_integer? H hinteger
      · exact absurd hbeyond hclash
    | double e =>
      rw [equal, beq_iff_eq] at h
      exact hash_double_of_compare H h
    | _ => cases h
  | .string s, b, h, _ => by
    cases b with
    | string t =>
      rw [equal, beq_iff_eq] at h
      rw [h]
    | _ => cases h
  | .list xs, b, h, hclash => by
    cases b with
    | list ys =>
      rw [equal] at h
      rw [Clash] at hclash
      rw [hash, hash]
      exact hashItems_eq_of_equal h hclash _
    | _ => cases h
  | .map xs, b, h, hclash => by
    cases b with
    | map ys =>
      rw [equal] at h
      rw [Clash] at hclash
      rw [hash, hash]
      exact hashEntries_eq_of_equal h hclash _
    | _ => cases h
  | .thunk i _, b, h, _ => by
    cases b with
    | thunk j _ =>
      rw [equal, beq_iff_eq] at h
      rw [hash, hash, h]
    | _ => cases h

theorem hashItems_eq_of_equal : ∀ {xs ys : List Value}, equalItems xs ys = true → ¬ ItemsClash xs ys →
    ∀ seed, hashItems H xs seed = hashItems H ys seed
  | [], [], _, _, _ => rfl
  | [], _ :: _, h, _, _ | _ :: _, [], h, _, _ => nomatch h
  | x :: xs, y :: ys, h, hclash, seed => by
    rw [equalItems, Bool.and_eq_true] at h
    rw [ItemsClash, not_or] at hclash
    rw [hashItems, hashItems, hash_eq_of_equal h.1 hclash.1]
    exact hashItems_eq_of_equal h.2 hclash.2 _

theorem hashEntries_eq_of_equal : ∀ {xs ys : List (Bytes × Value)}, equalEntries xs ys = true →
    ¬ EntriesClash xs ys → ∀ seed, hashEntries H xs seed = hashEntries H ys seed
  | [], [], _, _, _ => rfl
  | [], _ :: _, h, _, _ | _ :: _, [], h, _, _ => nomatch h
  | (k, x) :: xs, (l, y) :: ys, h, hclash, seed => by
    rw [equalEntries, Bool.and_eq_true, Bool.and_eq_true, beq_iff_eq] at h
    rw [EntriesClash, not_or] at hclash
    rw [hashEntries, hashEntries, h.1.1, hash_eq_of_equal h.1.2 hclash.1]
    exact hashEntries_eq_of_equal h.2 hclash.2 _

end

end Codes

end Value

/-! ## Inquiries -/

namespace Inquiry

open Value (lastInteger lastButOne)

/-- The first number beyond the integers of 64 bits is in no part of the inquiry. -/
def Bounded (q : Inquiry) : Prop := ∀ v ∈ q.values, v.Bounded

/-- Parts of two inquiries clash. -/
def Clash (q q' : Inquiry) : Prop :=
  q.subject.Clash q'.subject ∨ q.resource.Clash q'.resource ∨ q.action.Clash q'.action ∨
    q.contextValue.Clash q'.contextValue

theorem bounded_iff (q : Inquiry) : q.Bounded ↔
    q.subject.Bounded ∧ q.resource.Bounded ∧ q.action.Bounded ∧ q.contextValue.Bounded := by
  simp [Bounded, values]

theorem Bounded.not_clash {q q' : Inquiry} (h : q.Bounded) (h' : q'.Bounded) : ¬ q.Clash q' := by
  obtain ⟨hsubject, hresource, haction, hcontext⟩ := (bounded_iff q).mp h
  obtain ⟨hsubject', hresource', haction', hcontext'⟩ := (bounded_iff q').mp h'
  rintro (hclash | hclash | hclash | hclash)
  · exact hsubject.not_clash hsubject' hclash
  · exact hresource.not_clash hresource' hclash
  · exact haction.not_clash haction' hclash
  · exact hcontext.not_clash hcontext' hclash

/-- Equality goes on over a bounded inquiry. -/
theorem equal_trans {q : Inquiry} (h : q.Bounded) {a c : Inquiry} (ha : (a == q) = true)
    (hc : (q == c) = true) : (a == c) = true := by
  obtain ⟨hsubject, hresource, haction, hcontext⟩ := (bounded_iff q).mp h
  obtain ⟨hsubject₁, hresource₁, haction₁, hcontext₁⟩ := (equal_iff a q).mp ha
  obtain ⟨hsubject₂, hresource₂, haction₂, hcontext₂⟩ := (equal_iff q c).mp hc
  exact (equal_iff a c).mpr ⟨Value.equal_trans hsubject hsubject₁ hsubject₂,
    Value.equal_trans hresource hresource₁ hresource₂, Value.equal_trans haction haction₁ haction₂,
    Value.equal_trans hcontext hcontext₁ hcontext₂⟩

/-- The inquiry with an integer in place of the first number beyond 64 bits. -/
def lowered (i : Int64) (q : Inquiry) : Inquiry where
  subject := q.subject.lowered i
  resource := q.resource.lowered i
  action := q.action.lowered i
  context := q.context.map (Value.lowered i)

theorem contextValue_lowered (i : Int64) (q : Inquiry) :
    (q.lowered i).contextValue = q.contextValue.lowered i := by
  rw [contextValue, contextValue, Value.lowered, Value.loweredEntries_eq_map]
  rfl

theorem equal_lowered {i : Int64} (hi : 2 ^ 63 - 512 ≤ i.toInt) {q : Inquiry} (h : q.NanFree) :
    (q.lowered i == q) = true := by
  obtain ⟨hsubject, hresource, haction, hcontext⟩ := (nanFree_iff q).mp h
  refine (equal_iff _ q).mpr ⟨Value.equal_lowered hi hsubject, Value.equal_lowered hi hresource,
    Value.equal_lowered hi haction, ?_⟩
  rw [contextValue_lowered]
  exact Value.equal_lowered hi hcontext

theorem bounded_of_equal_lowered {i j : Int64} (hne : i ≠ j) {q : Inquiry}
    (h : (q.lowered i == q.lowered j) = true) : q.Bounded := by
  obtain ⟨hsubject, hresource, haction, hcontext⟩ := (equal_iff _ _).mp h
  rw [contextValue_lowered, contextValue_lowered] at hcontext
  exact (bounded_iff q).mpr ⟨Value.bounded_of_equal_lowered hne hsubject,
    Value.bounded_of_equal_lowered hne hresource, Value.bounded_of_equal_lowered hne haction,
    Value.bounded_of_equal_lowered hne hcontext⟩

theorem transitive_iff {q : Inquiry} (h : q.NanFree) :
    (∀ a c : Inquiry, (a == q) = true → (q == c) = true → (a == c) = true) ↔ q.Bounded := by
  refine ⟨fun htrans => ?_, fun hbounded a c => equal_trans hbounded⟩
  have hlast : (q.lowered lastInteger == q) = true := equal_lowered (by decide) h
  have hbefore : (q == q.lowered lastButOne) = true := equal_symm (equal_lowered (by decide) h)
  exact bounded_of_equal_lowered (i := lastInteger) (j := lastButOne) (by decide)
    (htrans _ _ hlast hbefore)

/-- Equal inquiries that do not clash have one hash code. -/
theorem hash_eq_of_equal (H : HashFamily) {q q' : Inquiry} (h : (q == q') = true)
    (hclash : ¬ q.Clash q') : q.hash H = q'.hash H := by
  obtain ⟨hsubject, hresource, haction, hcontext⟩ := (equal_iff q q').mp h
  rw [Clash, not_or, not_or, not_or] at hclash
  obtain ⟨hsubject', hresource', haction', hcontext'⟩ := hclash
  rw [contextValue, contextValue, Value.equal] at hcontext
  rw [contextValue, contextValue, Value.Clash] at hcontext'
  rw [hash, hash, Value.hash_eq_of_equal H hsubject hsubject',
    Value.hash_eq_of_equal H hresource hresource', Value.hash_eq_of_equal H haction haction']
  exact Value.hashEntries_eq_of_equal H hcontext hcontext' _

end Inquiry

/-! ## Keys of tables -/

/-- How far an equality and its hash codes serve a table: which elements are found again, over which ones
equality goes on, and which equal ones may have different codes. -/
structure KeyLaws {α : Type} (eq : α → α → Bool) (code : α → UInt64) (NanFree Bounded : α → Prop)
    (Clash : α → α → Prop) : Prop where
  refl_iff : ∀ a, eq a a = true ↔ NanFree a
  symm : ∀ a b, eq a b = eq b a
  trans_iff : ∀ b, NanFree b →
    ((∀ a c, eq a b = true → eq b c = true → eq a c = true) ↔ Bounded b)
  code_eq : ∀ a b, eq a b = true → ¬ Clash a b → code a = code b
  not_clash : ∀ a b, Bounded a → Bounded b → ¬ Clash a b

namespace Value

open Binary64

theorem equal_self_iff (v : Value) : equal v v = true ↔ v.NanFree :=
  ⟨nanFree_of_equal v v, equal_self v⟩

/-- **Values and inquiries as keys.**  A value is equal to itself if not-a-number is not in it; equality
goes either way round, and goes on over a value exactly if `2 ^ 63` does not stand in it as a floating
point number; and equal values have one hash code, whatever the codes of their parts are, unless that
number stands in one of them where the other one has an integer.  The same holds of inquiries.  An integer
is equal to the floating point number that is this integer, and to no other one, except that the last 512
integers are equal to `2 ^ 63`. -/
theorem equal_and_hash_laws (H : HashFamily) (i : Int64) (d : Binary64) :
    KeyLaws equal (hash H) NanFree Bounded Clash ∧
    KeyLaws Inquiry.equal (Inquiry.hash H) Inquiry.NanFree Inquiry.Bounded Inquiry.Clash ∧
    (equal (.int i) (.double d) = true ↔
      d.integer? = some i.toInt ∨ d = beyond ∧ 2 ^ 63 - 512 ≤ i.toInt) := by
  refine ⟨?values, ?inquiries, equal_int_double_iff i d⟩
  case values =>
    exact {
      refl_iff := equal_self_iff
      symm := equal_comm
      trans_iff := fun _ => transitive_iff
      code_eq := fun _ _ => hash_eq_of_equal H
      not_clash := fun _ _ => Bounded.not_clash }
  case inquiries =>
    exact {
      refl_iff := Inquiry.equal_self_iff
      symm := fun _ _ => Bool.eq_iff_iff.mpr ⟨Inquiry.equal_symm, Inquiry.equal_symm⟩
      trans_iff := fun _ => Inquiry.transitive_iff
      code_eq := fun _ _ => Inquiry.hash_eq_of_equal H
      not_clash := fun _ _ => Inquiry.Bounded.not_clash }

/-- A list with the integer `1` and one with the floating point number `1` have one code. -/
theorem equal_and_hash_laws_lists :
    equal (.list [.int 1, .string (utf8 "1")]) (.list [.double (.ofInt 1), .string (utf8 "1")]) = true ∧
    ∀ H : HashFamily, hash H (.list [.int 1, .string (utf8 "1")]) =
      hash H (.list [.double (.ofInt 1), .string (utf8 "1")]) := by
  have hequal : equal (.list [.int 1, .string (utf8 "1")])
      (.list [.double (.ofInt 1), .string (utf8 "1")]) = true := by decide +kernel
  refine ⟨hequal, fun H => (equal_and_hash_laws H 1 (.ofInt 1)).1.code_eq _ _ hequal ?_⟩
  have hone : Binary64.ofInt 1 ≠ beyond := by decide
  rintro (hfirst | hsecond | hrest)
  · exact hone hfirst
  · exact hsecond
  · exact hrest

/-- The last integer of 64 bits and the one before it are both equal to `2 ^ 63`, but they differ from one
another; and the last integer has another hash code than the number that it is equal to. -/
theorem equal_not_trans_of_last :
    equal (.int lastInteger) (.double beyond) = true ∧ equal (.double beyond) (.int lastButOne) = true ∧
    equal (.int lastInteger) (.int lastButOne) = false ∧
    hash .standard (.int lastInteger) ≠ hash .standard (.double beyond) := by
  decide +kernel

end Value

end AccessControl
