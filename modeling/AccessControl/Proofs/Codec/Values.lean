import AccessControl.Proofs.Codec.Doubles
import AccessControl.Proofs.Keyed
import AccessControl.Value.Document

/-!
# Values through documents

A value without callables is read as it was written (`Value.ofNode_toNode`), except that a floating
point number that is written as an integer comes back as that integer (`Value.reread`).  No comparison
tells the difference (`Value.equal_reread`, `Value.equal_reread_right`,
`Value.compare_reread_right`).  Nothing that is read has callables (`Value.isData_of_ofNode`).
-/

namespace AccessControl

section

variable {ε α β : Type}

theorem bind_eq_ok {x : Except ε α} {f : α → Except ε β} {b : β} :
    (x >>= f) = .ok b ↔ ∃ a, x = .ok a ∧ f a = .ok b := by
  cases x <;> simp [bind, Except.bind]

theorem map_eq_ok {x : Except ε α} {f : α → β} {b : β} :
    x.map f = .ok b ↔ ∃ a, x = .ok a ∧ f a = b := by
  cases x <;> simp [Except.map]

end

namespace Value

/-! ## Data -/

mutual

/-- No callable stands anywhere in the value, and the entries of its maps are in the order of their
keys. -/
def IsData : Value → Prop
  | .list items => ItemsAreData items
  | .map entries => (entries.Pairwise fun a b => a.1 < b.1) ∧ EntriesAreData entries
  | .thunk .. => False
  | _ => True
termination_by structural v => v

/-- All items are data. -/
def ItemsAreData : List Value → Prop
  | [] => True
  | v :: rest => v.IsData ∧ ItemsAreData rest
termination_by structural l => l

/-- All entries are data. -/
def EntriesAreData : List (Bytes × Value) → Prop
  | [] => True
  | (_, v) :: rest => v.IsData ∧ EntriesAreData rest
termination_by structural l => l

end

theorem entriesAreData_iff (l : List (Bytes × Value)) :
    EntriesAreData l ↔ ∀ e ∈ l, e.2.IsData := by
  induction l with
  | nil => simp [EntriesAreData]
  | cons e rest ih => simp [EntriesAreData, ih]

mutual

/-- The value that comes back from a document. -/
def reread : Value → Value
  | .double d => Scalar.value (Scalar.ofDouble d)
  | .list items => .list (rereadItems items)
  | .map entries => .map (rereadEntries entries)
  | v => v
termination_by structural v => v

/-- The items of a list that come back. -/
def rereadItems : List Value → List Value
  | [] => []
  | v :: rest => v.reread :: rereadItems rest
termination_by structural l => l

/-- The entries of a map that come back. -/
def rereadEntries : List (Bytes × Value) → List (Bytes × Value)
  | [] => []
  | (key, v) :: rest => (key, v.reread) :: rereadEntries rest
termination_by structural l => l

end

theorem rereadItems_eq_map (l : List Value) : rereadItems l = l.map reread := by
  induction l with
  | nil => rfl
  | cons v rest ih => rw [rereadItems, ih, List.map_cons]

theorem rereadEntries_eq_map (l : List (Bytes × Value)) :
    rereadEntries l = l.map fun e => (e.1, e.2.reread) := by
  induction l with
  | nil => rfl
  | cons e rest ih => rw [rereadEntries, ih, List.map_cons]

/-! ## Writing and reading -/

theorem ofNode_plain (text : Bytes) : ofNode (.plain text) = .ok (Scalar.value text) := by
  have hquoted : ([] == Node.quotedTag) = false := by decide
  have htext : ([] == Node.textTag) = false := by decide
  rw [Node.plain, ofNode, hquoted, htext]
  rfl

theorem ofNode_text (text : Bytes) : ofNode (.scalar Node.textTag text) = .ok (.string text) := by
  rw [ofNode, beq_self_eq_true, Bool.or_true]
  rfl

/-- A plain scalar stands for no text but its own. -/
theorem value_eq_string {text s : Bytes} (h : Scalar.value text = .string s) : s = text := by
  unfold Scalar.value at h
  split at h
  · cases h
  · split at h
    · cases h
    · split at h
      · cases h
      · split at h
        · cases h
        · cases h
          rfl

/-- Every text stays a text, whatever it looks like. -/
theorem ofNode_toNode_string (s : Bytes) : ofNode (toNode (.string s)) = .ok (.string s) := by
  rw [toNode]
  cases htag : needsTextTag s with
  | true => exact ofNode_text s
  | false =>
    have hvalue : Scalar.value s = .string s := by
      unfold needsTextTag at htag
      split at htag
      · next t ht => rw [ht, value_eq_string ht]
      · cases htag
    rw [← hvalue]
    exact ofNode_plain s

theorem ofPairs_of_sorted {entries : List (Bytes × Value)}
    (h : entries.Pairwise fun a b => a.1 < b.1) : ofPairs entries = .map entries := by
  have hkeyed := Keyed.ofList_toList (⟨entries, h⟩ : Dict Value)
  rw [ofPairs, Dict.ofPairs, hkeyed]

theorem sorted_rereadEntries {entries : List (Bytes × Value)}
    (h : entries.Pairwise fun a b => a.1 < b.1) :
    (rereadEntries entries).Pairwise fun a b => a.1 < b.1 := by
  rw [rereadEntries_eq_map, List.pairwise_map]
  exact h

mutual

/-- **Data is read as it was written.** -/
theorem ofNode_toNode : ∀ v : Value, v.IsData → ofNode v.toNode = .ok v.reread
  | .null, _ => rfl
  | .bool b, _ => by
    have hvalue : Scalar.value (utf8 (if b then "true" else "false")) = .bool b := by
      cases b <;> rfl
    rw [toNode, ofNode_plain, hvalue]
    rfl
  | .int i, _ => by
    rw [toNode, ofNode_plain, Scalar.value_ofInt]
    rfl
  | .double d, _ => by rw [toNode, ofNode_plain, reread]
  | .string s, _ => ofNode_toNode_string s
  | .list items, h => by
    rw [IsData] at h
    rw [toNode, ofNode, ofItems_nodesOfItems items h, reread]
    rfl
  | .map entries, h => by
    rw [IsData] at h
    obtain ⟨hsorted, hdata⟩ := h
    rw [toNode, ofNode, ofEntries_nodesOfEntries entries hdata, reread]
    exact congrArg _ (ofPairs_of_sorted (sorted_rereadEntries hsorted))
  | .thunk .., h => by
    rw [IsData] at h
    exact h.elim

theorem ofItems_nodesOfItems : ∀ l : List Value, ItemsAreData l →
    ofItems (nodesOfItems l) = .ok (rereadItems l)
  | [], _ => rfl
  | v :: rest, h => by
    rw [ItemsAreData] at h
    rw [nodesOfItems, ofItems, ofNode_toNode v h.1, ofItems_nodesOfItems rest h.2, rereadItems]
    rfl

theorem ofEntries_nodesOfEntries : ∀ l : List (Bytes × Value), EntriesAreData l →
    ofEntries (nodesOfEntries l) = .ok (rereadEntries l)
  | [], _ => rfl
  | (key, v) :: rest, h => by
    rw [EntriesAreData] at h
    rw [nodesOfEntries, Node.plain, ofEntries, ofNode_toNode v h.1,
      ofEntries_nodesOfEntries rest h.2, rereadEntries]
    rfl

end

/-! ## Comparisons -/

theorem compare_self_swap (a b : Int) : some (Ord.compare a b) = some .eq ↔ a = b := by
  rw [Option.some.injEq]
  show compareOfLessAndEq a b = .eq ↔ a = b
  unfold compareOfLessAndEq
  constructor
  · intro h
    split at h
    · cases h
    · split at h
      · assumption
      · cases h
  · rintro rfl
    rw [if_neg (Int.lt_irrefl a), if_pos rfl]

variable {d : Binary64} {i : Int64}

/-- What a number that is an integer is equal to. -/
theorem equal_int_of_integer? (h : d.integer? = some i.toInt) (w : Value) :
    equal (.int i) w = equal (.double d) w := by
  cases w with
  | int j =>
    -- two integers are compared exactly in either form
    have hmixed : compareMixed j.toInt d = some (Ord.compare j.toInt i.toInt) := by
      rw [compareMixed, h]
    rw [equal, equal, hmixed, Bool.eq_iff_iff, beq_iff_eq, beq_iff_eq, compare_self_swap,
      Int64.toInt_inj, eq_comm]
  | double e => rw [equal, equal, Binary64.compareMixed_eq h]
  | _ => rfl

theorem equal_int_of_integer?_right (h : d.integer? = some i.toInt) (w : Value) :
    equal w (.int i) = equal w (.double d) := by
  cases w with
  | int j =>
    have hmixed : compareMixed j.toInt d = some (Ord.compare j.toInt i.toInt) := by
      rw [compareMixed, h]
    rw [equal, equal, hmixed, Bool.eq_iff_iff, beq_iff_eq, beq_iff_eq, compare_self_swap,
      Int64.toInt_inj]
  | double e =>
    have hsymm : d.compare e = some .eq ↔ e.compare d = some .eq := by
      rw [← Binary64.compare_symm d e]
      rcases d.compare e with _ | _ | _ | _ <;> simp [Ordering.swap]
    rw [equal, equal, Binary64.compareMixed_eq h, Bool.eq_iff_iff, beq_iff_eq, beq_iff_eq, hsymm]
  | _ => rfl

theorem compare_int_of_integer?_right (h : d.integer? = some i.toInt) (w : Value) :
    compare w (.int i) = compare w (.double d) := by
  cases w with
  | int j => rw [compare, compare, compareMixed, h]
  | double e => rw [compare, compare, Binary64.compareMixed_eq h, Binary64.compare_symm]
  | _ => rfl

mutual

/-- **What comes back is equal to the same values.** -/
theorem equal_reread : ∀ v w : Value, equal v.reread w = equal v w
  | .null, _ | .bool _, _ | .int _, _ | .string _, _ | .thunk .., _ => rfl
  | .double d, w => by
    rw [reread]
    rcases Scalar.value_ofDouble d with h | ⟨i, h, hi⟩
    · rw [h]
    · rw [h, equal_int_of_integer? hi]
  | .list items, w => by
    cases w with
    | list items' => rw [reread, equal, equal, equalItems_reread items items']
    | _ => rfl
  | .map entries, w => by
    cases w with
    | map entries' => rw [reread, equal, equal, equalEntries_reread entries entries']
    | _ => rfl

theorem equalItems_reread : ∀ l l' : List Value, equalItems (rereadItems l) l' = equalItems l l'
  | [], _ => rfl
  | _ :: _, [] => rfl
  | v :: rest, w :: rest' => by
    rw [rereadItems, equalItems, equalItems, equal_reread v w, equalItems_reread rest rest']

theorem equalEntries_reread :
    ∀ l l' : List (Bytes × Value), equalEntries (rereadEntries l) l' = equalEntries l l'
  | [], _ => rfl
  | (_, _) :: _, [] => rfl
  | (k, v) :: rest, (k', w) :: rest' => by
    rw [rereadEntries, equalEntries, equalEntries, equal_reread v w, equalEntries_reread rest rest']

end

mutual

/-- **The same values are equal to what comes back.** -/
theorem equal_reread_right : ∀ v w : Value, equal w v.reread = equal w v
  | .null, _ | .bool _, _ | .int _, _ | .string _, _ | .thunk .., _ => rfl
  | .double d, w => by
    rw [reread]
    rcases Scalar.value_ofDouble d with h | ⟨i, h, hi⟩
    · rw [h]
    · rw [h, equal_int_of_integer?_right hi]
  | .list items, w => by
    cases w with
    | list items' => rw [reread, equal, equal, equalItems_reread_right items items']
    | _ => rfl
  | .map entries, w => by
    cases w with
    | map entries' => rw [reread, equal, equal, equalEntries_reread_right entries entries']
    | _ => rfl

theorem equalItems_reread_right :
    ∀ l l' : List Value, equalItems l' (rereadItems l) = equalItems l' l
  | [], _ => rfl
  | _ :: _, [] => rfl
  | v :: rest, w :: rest' => by
    rw [rereadItems, equalItems, equalItems, equal_reread_right v w, equalItems_reread_right rest rest']

theorem equalEntries_reread_right :
    ∀ l l' : List (Bytes × Value), equalEntries l' (rereadEntries l) = equalEntries l' l
  | [], _ => rfl
  | (_, _) :: _, [] => rfl
  | (k, v) :: rest, (k', w) :: rest' => by
    rw [rereadEntries, equalEntries, equalEntries, equal_reread_right v w,
      equalEntries_reread_right rest rest']

end

mutual

/-- **What comes back stands in the same order to other values.** -/
theorem compare_reread_right : ∀ v w : Value, compare w v.reread = compare w v
  | .null, _ | .bool _, _ | .int _, _ | .string _, _ | .thunk .., _ => rfl
  | .double d, w => by
    rw [reread]
    rcases Scalar.value_ofDouble d with h | ⟨i, h, hi⟩
    · rw [h]
    · rw [h, compare_int_of_integer?_right hi]
  | .list items, w => by
    cases w with
    | list items' => rw [reread, compare, compare, compareItems_reread_right items items']
    | _ => rfl
  | .map entries, w => by cases w <;> rfl

theorem compareItems_reread_right :
    ∀ l l' : List Value, compareItems l' (rereadItems l) = compareItems l' l
  | [], _ => rfl
  | _ :: _, [] => rfl
  | v :: rest, w :: rest' => by
    rw [rereadItems, compareItems, compareItems, compare_reread_right v w,
      compareItems_reread_right rest rest']

end

/-! ## What is read -/

theorem isData_value (text : Bytes) : (Scalar.value text).IsData := by
  unfold Scalar.value
  split
  · trivial
  · split
    · trivial
    · split
      · trivial
      · split <;> trivial

mutual

/-- **Nothing that is read has callables.** -/
theorem isData_of_ofNode : ∀ (n : Node) {v : Value}, ofNode n = .ok v → v.IsData
  | .null, _, h => by
    cases h
    trivial
  | .scalar tag text, _, h => by
    rw [ofNode] at h
    cases h
    split
    · trivial
    · exact isData_value text
  | .sequence items, _, h => by
    rw [ofNode] at h
    obtain ⟨vs, hitems, rfl⟩ := map_eq_ok.mp h
    exact itemsAreData_of_ofItems items hitems
  | .map entries, _, h => by
    rw [ofNode] at h
    obtain ⟨pairs, hentries, rfl⟩ := map_eq_ok.mp h
    have hdata := (entriesAreData_iff _).mp (entriesAreData_of_ofEntries entries hentries)
    refine ⟨(Dict.ofPairs pairs).sorted, (entriesAreData_iff _).mpr fun e he => ?_⟩
    exact hdata e (Keyed.mem_of_mem_ofList he)

theorem itemsAreData_of_ofItems : ∀ (l : List Node) {vs : List Value}, ofItems l = .ok vs →
    ItemsAreData vs
  | [], _, h => by
    cases h
    trivial
  | n :: rest, _, h => by
    rw [ofItems] at h
    obtain ⟨v, hv, h⟩ := bind_eq_ok.mp h
    obtain ⟨vs, hvs, h⟩ := bind_eq_ok.mp h
    cases h
    exact ⟨isData_of_ofNode n hv, itemsAreData_of_ofItems rest hvs⟩

theorem entriesAreData_of_ofEntries : ∀ (l : List (Node × Node)) {pairs : List (Bytes × Value)},
    ofEntries l = .ok pairs → EntriesAreData pairs
  | [], _, h => by
    cases h
    trivial
  | (.scalar _ key, n) :: rest, _, h => by
    rw [ofEntries] at h
    obtain ⟨v, hv, h⟩ := bind_eq_ok.mp h
    obtain ⟨vs, hvs, h⟩ := bind_eq_ok.mp h
    cases h
    exact ⟨isData_of_ofNode n hv, entriesAreData_of_ofEntries rest hvs⟩
  | (.null, _) :: _, _, h | (.sequence _, _) :: _, _, h | (.map _, _) :: _, _, h => by
    cases h

end

end Value

end AccessControl
