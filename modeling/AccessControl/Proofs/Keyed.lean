import AccessControl.Collection.Keyed

/-!
# Keyed sets as finite maps

A keyed set is the list of its items in the order of their keys, and there is one such list for a set
of items: inserting the items of a set one by one gives the set back (`Keyed.ofList_toList`).  It is
also the function from keys to items that `find?` is (`Keyed.ext_find?`), and each operation is one on
such functions.
-/

namespace AccessControl.Keyed

variable {α : Type} {key : α → Bytes}

theorem contains_iff {c : Keyed key} {k : Bytes} :
    c.contains k = true ↔ ∃ a ∈ c.toList, key a = k := by
  simp [contains, List.any_eq_true]

theorem placed_of_mem {a b : α} {l : List α} (hl : l.Pairwise fun a b => key a < key b)
    (hb : b ∈ l) (hkey : key b = key a) : placed key a l = l := by
  induction hl with
  | nil => cases hb
  | @cons c rest hc hrest ih =>
    rcases List.mem_cons.mp hb with rfl | hb
    · have hirr : ¬ key b < key b := List.lt_irrefl _
      rw [placed, ← hkey, if_neg hirr, if_neg hirr]
    · have hca : key c < key a := hkey ▸ hc b hb
      rw [placed, if_neg (fun h => List.lt_irrefl _ (List.lt_trans h hca)), if_pos hca, ih hb]

/-- An item with a known key changes nothing. -/
theorem insertNew_of_contains {c : Keyed key} {a : α} (h : c.contains (key a) = true) :
    c.insertNew a = c := by
  obtain ⟨b, hb, hkey⟩ := contains_iff.mp h
  exact ext (placed_of_mem c.sorted hb hkey)

theorem placed_of_greater {a : α} {l : List α} (h : ∀ b ∈ l, key b < key a) :
    placed key a l = l ++ [a] := by
  induction l with
  | nil => rfl
  | cons b l ih =>
    have hb : key b < key a := h b (List.mem_cons_self ..)
    rw [placed, if_neg (fun h' => List.lt_irrefl _ (List.lt_trans h' hb)), if_pos hb,
      ih fun c hc => h c (List.mem_cons_of_mem _ hc)]
    rfl

/-- Items that come in their order, behind all others, are appended. -/
theorem toList_foldl_insertNew {c : Keyed key} {l : List α}
    (h : (c.toList ++ l).Pairwise fun a b => key a < key b) :
    (l.foldl (fun c a => c.insertNew a) c).toList = c.toList ++ l := by
  induction l generalizing c with
  | nil => simp
  | cons a l ih =>
    have hgreater : ∀ b ∈ c.toList, key b < key a := fun b hb =>
      (List.pairwise_append.mp h).2.2 b hb a (List.mem_cons_self ..)
    have hinsert : (c.insertNew a).toList = c.toList ++ [a] := placed_of_greater hgreater
    rw [List.foldl_cons, ih, hinsert, List.append_assoc]
    · rfl
    · rw [hinsert, List.append_assoc]
      exact h

theorem ofList_toList (c : Keyed key) : ofList c.toList = c :=
  ext (toList_foldl_insertNew (c := empty) c.sorted)

theorem mem_of_mem_foldl_insertNew {a : α} {c : Keyed key} {items : List α}
    (h : a ∈ (items.foldl (fun c a => c.insertNew a) c).toList) : a ∈ c.toList ∨ a ∈ items := by
  induction items generalizing c with
  | nil => exact .inl h
  | cons b items ih =>
    rcases ih h with ha | ha
    · rcases mem_placed ha with rfl | ha
      · exact .inr (List.mem_cons_self ..)
      · exact .inl ha
    · exact .inr (List.mem_cons_of_mem _ ha)

theorem mem_of_mem_ofList {a : α} {items : List α} (h : a ∈ (ofList items : Keyed key).toList) :
    a ∈ items :=
  (mem_of_mem_foldl_insertNew h).resolve_left List.not_mem_nil

theorem length_placed_le (a : α) (l : List α) : (placed key a l).length ≤ l.length + 1 := by
  induction l with
  | nil => exact Nat.le_refl 1
  | cons b l ih =>
    unfold placed
    split
    · exact Nat.le_refl _
    · split
      · exact Nat.succ_le_succ ih
      · exact Nat.le_succ _

theorem size_ofList_le (items : List α) : (ofList items : Keyed key).size ≤ items.length := by
  have hfold (c : Keyed key) : (items.foldl (fun c a => c.insertNew a) c).size ≤
      c.size + items.length := by
    induction items generalizing c with
    | nil => exact Nat.le_refl _
    | cons a items ih =>
      have hinsert : (c.insertNew a).size ≤ c.size + 1 := length_placed_le a c.toList
      have hrest := ih (c.insertNew a)
      rw [List.foldl_cons, List.length_cons]
      omega
  have hempty : (empty : Keyed key).size = 0 := rfl
  have hall := hfold empty
  rw [hempty, Nat.zero_add] at hall
  exact hall

theorem perm_placed {a : α} {l : List α} (h : ∀ b ∈ l, key b ≠ key a) :
    (placed key a l).Perm (a :: l) := by
  induction l with
  | nil => exact .refl _
  | cons b rest ih =>
    have hrest := ih fun c hc => h c (List.mem_cons_of_mem _ hc)
    unfold placed
    split
    · exact .refl _
    · split
      · exact (hrest.cons b).trans (.swap a b rest)
      · next hab hba => exact absurd (List.le_antisymm hab hba) (h b (List.mem_cons_self ..))

/-- Items with distinct keys are all there. -/
theorem perm_ofList {items : List α} (h : items.Pairwise fun a b => key a ≠ key b) :
    (ofList items : Keyed key).toList.Perm items := by
  have hfold (c : Keyed key) (hnew : ∀ a ∈ items, ∀ b ∈ c.toList, key b ≠ key a) :
      (items.foldl (fun c a => c.insertNew a) c).toList.Perm (c.toList ++ items) := by
    induction items generalizing c with
    | nil => rw [List.append_nil]; exact .refl _
    | cons a items ih =>
      obtain ⟨ha, hitems⟩ := List.pairwise_cons.mp h
      have hplaced : (c.insertNew a).toList.Perm (a :: c.toList) :=
        perm_placed (hnew a (List.mem_cons_self ..))
      refine (ih hitems (c.insertNew a) fun a' ha' b hb => ?_).trans ?_
      · rcases mem_placed hb with rfl | hb
        · exact ha a' ha'
        · exact hnew a' (List.mem_cons_of_mem _ ha') b hb
      · exact (hplaced.append_right items).trans List.perm_middle.symm
  exact hfold empty fun _ _ _ hb => nomatch hb

/-! ## As functions of the key -/

theorem find?_placed {a : α} {k : Bytes} {l : List α} (hl : l.Pairwise fun a b => key a < key b) :
    (placed key a l).find? (fun b => key b == k) =
      (l.find? fun b => key b == k).or (if key a = k then some a else none) := by
  induction hl with
  | nil => by_cases hk : key a = k <;> simp [placed, hk]
  | @cons b rest hb hrest ih =>
    unfold placed
    split
    · next hab =>
      -- `a` comes first, and no other item has its key
      by_cases hk : key a = k
      · have hnone : (b :: rest).find? (fun c => key c == k) = none := by
          rw [List.find?_eq_none]
          intro c hc hck
          have hac : key a < key c := by
            rcases List.mem_cons.mp hc with rfl | hc
            · exact hab
            · exact List.lt_trans hab (hb c hc)
          rw [hk, eq_of_beq hck] at hac
          exact List.lt_irrefl _ hac
        rw [hnone, List.find?_cons_of_pos (by simp [hk]), if_pos hk, Option.none_or]
      · rw [List.find?_cons_of_neg (by simp [hk]), if_neg hk, Option.or_none]
    · split
      · rw [List.find?_cons, List.find?_cons]
        split
        · rfl
        · exact ih
      · next hab hba =>
        have heq : key b = key a := List.le_antisymm hab hba
        by_cases hk : key a = k
        · rw [List.find?_cons_of_pos (by simp [heq, hk])]
          rfl
        · rw [if_neg hk, Option.or_none]

theorem find?_insertNew (c : Keyed key) (a : α) (k : Bytes) :
    (c.insertNew a).find? k = (c.find? k).or (if key a = k then some a else none) :=
  find?_placed c.sorted

theorem find?_replace (c : Keyed key) (a : α) (k : Bytes) :
    (c.replace a).find? k = (c.find? k).map fun b => if key a = k then a else b := by
  have hmap (l : List α) :
      (l.map fun b => if key b = key a then a else b).find? (fun b => key b == k) =
        (l.find? fun b => key b == k).map fun b => if key a = k then a else b := by
    induction l with
    | nil => rfl
    | cons b rest ih =>
      have hkey : key (if key b = key a then a else b) = key b := by split <;> simp_all
      rw [List.map_cons, List.find?_cons, List.find?_cons, hkey, ih]
      by_cases hk : key b = k
      · simp only [hk, beq_self_eq_true, Option.map_some, eq_comm (a := k)]
      · rw [show (key b == k) = false by simpa using hk]
  exact hmap c.toList

theorem find?_erase (c : Keyed key) (k k' : Bytes) :
    (c.erase k').find? k = if k = k' then none else c.find? k := by
  have hfilter (l : List α) : (l.filter fun b => key b != k').find? (fun b => key b == k) =
      if k = k' then none else l.find? fun b => key b == k := by
    induction l with
    | nil => simp
    | cons b rest ih => by_cases hb : key b = k' <;> by_cases hk : key b = k <;> simp_all
  exact hfilter c.toList

theorem contains_eq_isSome (c : Keyed key) (k : Bytes) : c.contains k = (c.find? k).isSome :=
  List.isSome_find?.symm

theorem find?_eq_none_iff {c : Keyed key} {k : Bytes} : c.find? k = none ↔ c.contains k = false := by
  rw [contains_eq_isSome, Option.isSome_eq_false_iff, Option.isNone_iff_eq_none]

theorem mem_toList_iff {c : Keyed key} {a : α} : a ∈ c.toList ↔ c.find? (key a) = some a := by
  rw [find?_eq_some_iff, and_iff_left rfl]

/-- No two items have the same key. -/
theorem distinct (c : Keyed key) : c.toList.Pairwise fun a b => key a ≠ key b := by
  refine c.sorted.imp ?_
  intro a b hab hkey
  rw [hkey] at hab
  exact List.lt_irrefl _ hab

theorem nodup (c : Keyed key) : c.toList.Nodup :=
  c.distinct.imp fun hkey heq => hkey (congrArg key heq)

/-- A set is determined by its items, in whatever order they stand. -/
theorem ext_perm {c d : Keyed key} (h : c.toList.Perm d.toList) : c = d := by
  refine ext (h.eq_of_pairwise (fun a b _ _ hab hba => ?_) c.sorted d.sorted)
  exact absurd (List.lt_trans hab hba) (List.lt_irrefl _)

/-- A set is determined by the items under each key. -/
theorem ext_find? {c d : Keyed key} (h : ∀ k, c.find? k = d.find? k) : c = d :=
  ext_perm ((List.perm_ext_iff_of_nodup c.nodup d.nodup).mpr fun a => by
    rw [mem_toList_iff, mem_toList_iff, h])

/-- Items with distinct keys make the same set in any order. -/
theorem ofList_perm {items items' : List α} (hperm : items.Perm items')
    (h : items.Pairwise fun a b => key a ≠ key b) : (ofList items : Keyed key) = ofList items' := by
  have h' : items'.Pairwise fun a b => key a ≠ key b := h.perm hperm fun hab => hab.symm
  exact ext_perm ((perm_ofList h).trans (hperm.trans (perm_ofList h').symm))

/-- An item with an unknown key replaces nothing. -/
theorem replace_of_not_contains {c : Keyed key} {a : α} (h : c.contains (key a) = false) :
    c.replace a = c := by
  refine ext_find? fun k => ?_
  rw [find?_replace]
  by_cases hk : key a = k
  · rw [← hk, find?_eq_none_iff.mpr h, Option.map_none]
  · simp [hk]

end AccessControl.Keyed
