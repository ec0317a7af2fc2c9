import AccessControl.Inquiry
import AccessControl.Proofs.Codec.Values

/-!
# Values and inquiries survive their documents

What is read of the document of a value is that value part by part: kinds, texts, the number and order
of items and the keys of maps are kept, and nothing but a floating point number whose text is that of an
integer may come back as another value, namely as that integer (`Value.Kept`).  So the two are equal,
unless not-a-number is among the parts, which is not equal to itself (`Value.equal_self`).  An inquiry
survives with its parts (`Inquiry.document_keeps_values`).
-/

namespace AccessControl

theorem Binary64.compare_self {d : Binary64} (h : d ≠ .nan) : d.compare d = some .eq := by
  cases d with
  | nan => exact absurd rfl h
  | infinity s => cases s <;> rfl
  | finite s m e _ => exact (Value.compare_self_swap _ _).mpr rfl

theorem Scalar.int?_of_value {text : Bytes} {i : Int64} (h : Scalar.value text = .int i) :
    Scalar.int? text = some i := by
  unfold Scalar.value at h
  split at h
  · cases h
  · split at h
    · next j hj =>
      cases h
      exact hj
    · split at h
      · cases h
      · split at h <;> cases h

namespace Value

/-! ## Equality with itself -/

mutual

/-- Every floating point number in the value is a number. -/
def NanFree : Value → Prop
  | .double d => d ≠ .nan
  | .list items => ItemsNanFree items
  | .map entries => EntriesNanFree entries
  | _ => True
termination_by structural v => v

/-- Every floating point number in the items is a number. -/
def ItemsNanFree : List Value → Prop
  | [] => True
  | v :: rest => v.NanFree ∧ ItemsNanFree rest
termination_by structural l => l

/-- Every floating point number in the entries is a number. -/
def EntriesNanFree : List (Bytes × Value) → Prop
  | [] => True
  | (_, v) :: rest => v.NanFree ∧ EntriesNanFree rest
termination_by structural l => l

end

mutual

/-- Not-a-number is all that keeps a value from being equal to itself. -/
theorem equal_self : ∀ v : Value, v.NanFree → equal v v = true
  | .null, _ => rfl
  | .bool b, _ => by cases b <;> rfl
  | .int i, _ => by rw [equal, beq_self_eq_true]
  | .double d, h => by
    rw [NanFree] at h
    rw [equal, Binary64.compare_self h, beq_self_eq_true]
  | .string s, _ => by rw [equal, beq_self_eq_true]
  | .list items, h => by
    rw [NanFree] at h
    rw [equal, equalItems_self items h]
  | .map entries, h => by
    rw [NanFree] at h
    rw [equal, equalEntries_self entries h]
  | .thunk i _, _ => by rw [equal, beq_self_eq_true]

theorem equalItems_self : ∀ l : List Value, ItemsNanFree l → equalItems l l = true
  | [], _ => rfl
  | v :: rest, h => by
    rw [ItemsNanFree] at h
    rw [equalItems, equal_self v h.1, equalItems_self rest h.2, Bool.and_self]

theorem equalEntries_self : ∀ l : List (Bytes × Value), EntriesNanFree l → equalEntries l l = true
  | [], _ => rfl
  | (key, v) :: rest, h => by
    rw [EntriesNanFree] at h
    rw [equalEntries, equal_self v h.1, equalEntries_self rest h.2, beq_self_eq_true, Bool.and_self,
      Bool.and_self]

end

/-! ## What is kept -/

mutual

/-- The second value is the first in kind and content, part by part, except that an integer may stand
for a floating point number that is this integer and is written as one. -/
def Kept : Value → Value → Prop
  | .double d, w =>
    w = .double d ∨
      ∃ i, w = .int i ∧ Scalar.int? (Scalar.ofDouble d) = some i ∧ d.integer? = some i.toInt
  | .list items, w => ∃ items', w = .list items' ∧ ItemsKept items items'
  | .map entries, w => ∃ entries', w = .map entries' ∧ EntriesKept entries entries'
  | v, w => w = v
termination_by structural v => v

/-- The second list is the first, item by item. -/
def ItemsKept : List Value → List Value → Prop
  | [], l => l = []
  | v :: rest, l => ∃ w rest', l = w :: rest' ∧ Kept v w ∧ ItemsKept rest rest'
termination_by structural l => l

/-- The second list is the first, key by key and value by value. -/
def EntriesKept : List (Bytes × Value) → List (Bytes × Value) → Prop
  | [], l => l = []
  | (key, v) :: rest, l => ∃ w rest', l = (key, w) :: rest' ∧ Kept v w ∧ EntriesKept rest rest'
termination_by structural l => l

end

mutual

/-- **What comes back is what was written.** -/
theorem kept_reread : ∀ v : Value, Kept v v.reread
  | .null | .bool _ | .int _ | .string _ | .thunk .. => rfl
  | .double d => by
    rw [Kept, reread]
    rcases Scalar.value_ofDouble d with h | ⟨i, h, hi⟩
    · exact .inl h
    · exact .inr ⟨i, h, Scalar.int?_of_value h, hi⟩
  | .list items => by
    rw [Kept, reread]
    exact ⟨_, rfl, itemsKept_reread items⟩
  | .map entries => by
    rw [Kept, reread]
    exact ⟨_, rfl, entriesKept_reread entries⟩

theorem itemsKept_reread : ∀ l : List Value, ItemsKept l (rereadItems l)
  | [] => rfl
  | v :: rest => by
    rw [ItemsKept, rereadItems]
    exact ⟨_, _, rfl, kept_reread v, itemsKept_reread rest⟩

theorem entriesKept_reread : ∀ l : List (Bytes × Value), EntriesKept l (rereadEntries l)
  | [] => rfl
  | (key, v) :: rest => by
    rw [EntriesKept, rereadEntries]
    exact ⟨_, _, rfl, kept_reread v, entriesKept_reread rest⟩

end

/-- What comes back is equal to what was written. -/
theorem reread_equal_self {v : Value} (h : v.NanFree) : equal v.reread v = true := by
  rw [equal_reread, equal_self v h]

end Value

namespace Inquiry

/-! ## Inquiries -/

/-- The values that an inquiry is made of. -/
def values (q : Inquiry) : List Value := [q.subject, q.resource, q.action, q.contextValue]

/-- The inquiry that comes back from a document. -/
def reread (q : Inquiry) : Inquiry where
  subject := q.subject.reread
  resource := q.resource.reread
  action := q.action.reread
  context := q.context.map Value.reread

theorem contextValue_reread (q : Inquiry) : q.reread.contextValue = q.contextValue.reread := by
  rw [contextValue, contextValue, Value.reread, Value.rereadEntries_eq_map]
  rfl

theorem equal_iff (q q' : Inquiry) : (q == q') = true ↔
    q.subject.equal q'.subject = true ∧ q.resource.equal q'.resource = true ∧
      q.action.equal q'.action = true ∧ q.contextValue.equal q'.contextValue = true := by
  show ((q.subject.equal q'.subject && q.resource.equal q'.resource && q.action.equal q'.action &&
    Value.equalEntries q.context.toList q'.context.toList) = true) ↔ _
  rw [Bool.and_eq_true, Bool.and_eq_true, Bool.and_eq_true, and_assoc, and_assoc, contextValue,
    contextValue, Value.equal]

/-- A context is read with the keys that it has. -/
theorem contextOf_toNode {q : Inquiry} (h : q.contextValue.IsData) :
    contextOf (some q.contextValue.toNode) = .ok (q.context.map Value.reread) := by
  rw [contextValue, Value.IsData] at h
  rw [contextValue, Value.toNode, contextOf, Value.ofEntries_nodesOfEntries _ h.2,
    Value.rereadEntries_eq_map]
  exact congrArg Except.ok (Keyed.ofList_toList (q.context.map Value.reread))

/-- **An inquiry is read as it was written.** -/
theorem ofDocument_toNode {q : Inquiry} (h : ∀ v ∈ q.values, v.IsData) :
    ofDocument (some q.toNode) = .ok q.reread := by
  have hsubject := Value.ofNode_toNode q.subject (h _ (by simp [values]))
  have hresource := Value.ofNode_toNode q.resource (h _ (by simp [values]))
  have haction := Value.ofNode_toNode q.action (h _ (by simp [values]))
  have hcontext := contextOf_toNode (h q.contextValue (by simp [values]))
  show (do
    let subject ← attributeOf (some q.subject.toNode)
    let resource ← attributeOf (some q.resource.toNode)
    let action ← attributeOf (some q.action.toNode)
    let context ← contextOf (some q.contextValue.toNode)
    return ({ subject, resource, action, context } : Inquiry)) = _
  simp only [attributeOf, hsubject, hresource, haction, hcontext]
  rfl

/-- **Values and inquiries survive their documents.**  A value without callables and without
not-a-number is read of its document, is equal to the one that was written, and is the same in every
part, with the keys of its maps, up to floating point numbers that are written as integers; a text is
read as that text, whatever it looks like.  So is an inquiry that is made of such values. -/
theorem document_keeps_values :
    (∀ v : Value, v.IsData → v.NanFree →
      ∃ w, Value.ofDocument (some v.toNode) = .ok w ∧ (w == v) = true ∧ v.Kept w) ∧
    (∀ s : Bytes, Value.ofDocument (some (Value.string s).toNode) = .ok (.string s)) ∧
    ∀ q : Inquiry, (∀ v ∈ q.values, v.IsData ∧ v.NanFree) →
      ∃ q', ofDocument (some q.toNode) = .ok q' ∧ (q' == q) = true ∧
        q.subject.Kept q'.subject ∧ q.resource.Kept q'.resource ∧ q.action.Kept q'.action ∧
        q.contextValue.Kept q'.contextValue := by
  refine ⟨fun v hdata hnan => ?_, Value.ofNode_toNode_string, fun q h => ?_⟩
  · exact ⟨v.reread, Value.ofNode_toNode v hdata, Value.reread_equal_self hnan, v.kept_reread⟩
  · have hnan : ∀ v ∈ q.values, v.NanFree := fun v hv => (h v hv).2
    refine ⟨q.reread, ofDocument_toNode fun v hv => (h v hv).1, ?_, q.subject.kept_reread,
      q.resource.kept_reread, q.action.kept_reread, ?_⟩
    · rw [equal_iff, contextValue_reread]
      exact ⟨Value.reread_equal_self (hnan _ (by simp [values])),
        Value.reread_equal_self (hnan _ (by simp [values])),
        Value.reread_equal_self (hnan _ (by simp [values])),
        Value.reread_equal_self (hnan _ (by simp [values]))⟩
    · rw [contextValue_reread]
      exact q.contextValue.kept_reread

/-- An inquiry with a list of numbers and texts that look like other values, under a key that does so
too. -/
def deceptive : Inquiry where
  subject := .string (utf8 "0x1F")
  resource := .null
  action := .list [.double (.finite false (2 ^ 52) (-52) (by decide)), .string (utf8 "1.")]
  context := ⟨[(utf8 "~", .map [([], .string [])])], .cons (fun _ h => by cases h) .nil⟩

theorem document_keeps_values_deceptive :
    (∀ v ∈ deceptive.values, v.IsData ∧ v.NanFree) ∧
      ∃ q', ofDocument (some deceptive.toNode) = .ok q' ∧ (q' == deceptive) = true ∧
        q'.subject = .string (utf8 "0x1F") := by
  have hparts : ∀ v ∈ deceptive.values, v.IsData ∧ v.NanFree := by
    intro v hv
    obtain rfl | rfl | rfl | rfl : v = _ ∨ v = _ ∨ v = _ ∨ v = _ := by simpa [values] using hv
    · exact ⟨trivial, trivial⟩
    · exact ⟨trivial, trivial⟩
    · exact ⟨⟨trivial, trivial, trivial⟩, Binary64.noConfusion, trivial, trivial⟩
    · have hentry : Value.IsData (.map [([], .string [])]) :=
        ⟨List.pairwise_singleton .., trivial, trivial⟩
      exact ⟨⟨deceptive.context.sorted, hentry, trivial⟩, ⟨trivial, trivial⟩, trivial⟩
  obtain ⟨q', hread, hequal, hsubject, -⟩ := document_keeps_values.2.2 deceptive hparts
  exact ⟨hparts, q', hread, hequal, hsubject⟩

end Inquiry

end AccessControl
