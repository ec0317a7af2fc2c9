import AccessControl.Text.Bytes

/-!
# Items ordered by a key

`Keyed key` is a finite set of items, at most one for each value of `key`, listed in the byte order
of the keys.  `insertNew` leaves an item with the same key in place, `replace` exchanges it, `erase`
drops it; all keep the order (`Keyed.sorted`), and `find?` is determined by the list
(`find?_eq_some_iff`).  A `Dict` is such a set of key and value pairs.
-/

namespace AccessControl

/-- Items in strictly increasing order of their keys. -/
structure Keyed {α : Type} (key : α → Bytes) where
  /-- The items, in the order of their keys. -/
  toList : List α
  sorted : toList.Pairwise fun a b => key a < key b

namespace Keyed

variable {α : Type} {key : α → Bytes}

@[ext] theorem ext {c d : Keyed key} (h : c.toList = d.toList) : c = d := by
  cases c; cases d; cases h; rfl

/-- The set without items. -/
def empty : Keyed key := ⟨[], .nil⟩

instance : EmptyCollection (Keyed key) := ⟨empty⟩

instance : Inhabited (Keyed key) := ⟨empty⟩

instance [Repr α] : Repr (Keyed key) := ⟨fun c p => reprPrec c.toList p⟩

instance [DecidableEq α] : DecidableEq (Keyed key) := fun c d =>
  decidable_of_iff (c.toList = d.toList) ⟨ext, fun h => h ▸ rfl⟩

/-- The number of items. -/
def size (c : Keyed key) : Nat := c.toList.length

/-- The item with the key `k`. -/
def find? (c : Keyed key) (k : Bytes) : Option α := c.toList.find? fun a => key a == k

/-- Whether some item has the key `k`. -/
def contains (c : Keyed key) (k : Bytes) : Bool := c.toList.any fun a => key a == k

/-- The list with `a` at its place, unless an item with its key is there. -/
def placed (key : α → Bytes) (a : α) : List α → List α
  | [] => [a]
  | b :: rest =>
    if key a < key b then a :: b :: rest
    else if key b < key a then b :: placed key a rest
    else b :: rest

theorem mem_placed {a b : α} {l : List α} (h : b ∈ placed key a l) : b = a ∨ b ∈ l := by
  induction l with
  | nil => simp only [placed, List.mem_cons, List.not_mem_nil, or_false] at h; exact .inl h
  | cons c rest ih =>
    simp only [placed] at h
    split at h
    · rcases List.mem_cons.1 h with h | h
      · exact .inl h
      · exact .inr h
    · split at h
      · rcases List.mem_cons.1 h with h | h
        · exact .inr (h ▸ List.mem_cons_self ..)
        · exact (ih h).imp id (List.mem_cons_of_mem _)
      · exact .inr h

theorem sorted_placed {a : α} {l : List α} (h : l.Pairwise fun a b => key a < key b) :
    (placed key a l).Pairwise fun a b => key a < key b := by
  induction h with
  | nil => simp [placed]
  | @cons b rest hb hrest ih =>
    simp only [placed]
    split
    · next hab =>
      refine .cons (fun c hc => ?_) (.cons hb hrest)
      rcases List.mem_cons.1 hc with rfl | hc
      · exact hab
      · exact List.lt_trans hab (hb c hc)
    · split
      · next hba =>
        refine .cons (fun c hc => ?_) ih
        rcases mem_placed hc with rfl | hc
        · exact hba
        · exact hb c hc
      · exact .cons hb hrest

/-- The set with `a` in it, unless it has an item with the key of `a`. -/
def insertNew (a : α) (c : Keyed key) : Keyed key := ⟨placed key a c.toList, sorted_placed c.sorted⟩

/-- The set with `a` in place of the item with the key of `a`, if there is one. -/
def replace (a : α) (c : Keyed key) : Keyed key where
  toList := c.toList.map fun b => if key b = key a then a else b
  sorted := by
    have same (b : α) : key (if key b = key a then a else b) = key b := by split <;> simp_all
    rw [List.pairwise_map]
    exact c.sorted.imp fun {x y} h => by rw [same x, same y]; exact h

/-- The set without the item with the key `k`. -/
def erase (k : Bytes) (c : Keyed key) : Keyed key :=
  ⟨c.toList.filter fun a => key a != k, c.sorted.filter _⟩

/-- The items whose key is new when their turn comes. -/
def ofList (items : List α) : Keyed key := items.foldl (fun c a => c.insertNew a) empty

theorem find?_eq_some_iff {c : Keyed key} {k : Bytes} {a : α} :
    c.find? k = some a ↔ a ∈ c.toList ∧ key a = k := by
  obtain ⟨l, hl⟩ := c
  simp only [find?]
  induction hl with
  | nil => simp
  | @cons b rest hb _ ih =>
    rw [List.find?_cons]
    by_cases hk : key b = k
    · simp only [hk, beq_self_eq_true, Option.some.injEq, List.mem_cons]
      constructor
      · rintro rfl; exact ⟨.inl rfl, hk⟩
      · rintro ⟨rfl | ha, hka⟩
        · rfl
        · exact absurd (hb a ha) (by rw [hk, hka]; exact List.lt_irrefl k)
    · rw [show (key b == k) = false by simpa using hk, ih]
      constructor
      · rintro ⟨ha, hka⟩; exact ⟨List.mem_cons_of_mem _ ha, hka⟩
      · rintro ⟨ha, hka⟩
        rcases List.mem_cons.1 ha with rfl | ha
        · exact absurd hka hk
        · exact ⟨ha, hka⟩

end Keyed

/-- A map from texts to values, listed in the byte order of its keys. -/
abbrev Dict (α : Type) := Keyed (Prod.fst : Bytes × α → Bytes)

namespace Dict

variable {α β : Type}

/-- The value under the key `k`. -/
def get? (d : Dict α) (k : Bytes) : Option α := (d.find? k).map Prod.snd

/-- The map of the pairs; of pairs with one key the first counts. -/
def ofPairs (pairs : List (Bytes × α)) : Dict α := Keyed.ofList pairs

/-- The same keys with the images of their values. -/
def map (f : α → β) (d : Dict α) : Dict β where
  toList := d.toList.map fun e => (e.1, f e.2)
  sorted := by rw [List.pairwise_map]; exact d.sorted

/-- The keys whose values `f` keeps, with what it makes of them. -/
def filterMap (f : α → Option β) (d : Dict α) : Dict β where
  toList := d.toList.filterMap fun e => (f e.2).map fun b => (e.1, b)
  sorted := d.sorted.filterMap _ fun a b h a' ha b' hb => by
    obtain ⟨x, _, rfl⟩ := Option.map_eq_some_iff.1 ha
    obtain ⟨y, _, rfl⟩ := Option.map_eq_some_iff.1 hb
    exact h

end Dict

end AccessControl
