import AccessControl.Collection.Lru
import Mathlib.Data.List.Basic

/-!
# The index of a table and its entries

A table finds entries by its index, which is kept apart from them.  `Lru.InStep` says that the two agree:
the index holds the keys of the entries.  A key that is not the same as itself is the exception: nobody
finds it again, so it stays in the index when its entry is dropped, until the table is cleared.  Such
keys are the second part of the index, and every use of the table says how it changes them
(`InStep.get?`, `InStep.put`, `InStep.clear`).

This needs little of the keys (`KeyBEq`).  If their equality is an equivalence, no key is an exception,
and a key can also be erased (`InStep.erase`).
-/

namespace AccessControl

/-- What a table asks of the sameness of its keys: it goes either way round, and a key that is the same
as some key is the same as itself. -/
class KeyBEq (κ : Type) [BEq κ] : Prop where
  symm {a b : κ} : (a == b) = true → (b == a) = true
  self {a b : κ} : (a == b) = true → (a == a) = true

instance {κ : Type} [BEq κ] [PartialEquivBEq κ] : KeyBEq κ where
  symm := PartialEquivBEq.symm
  self h := PartialEquivBEq.trans h (PartialEquivBEq.symm h)

namespace Lru

variable {κ ν : Type} [BEq κ] {c d : Lru κ ν} {lost : List κ} {key : κ} {value : ν} {e : κ × ν}

/-- Whether a key is the same as itself, so that it is found again. -/
def findable (k : κ) : Bool := k == k

/-- The keys of the entries, that of the entry used last first. -/
def keys (c : Lru κ ν) : List κ := c.entries.map Prod.fst

/-- **The index is in step with the entries.**  It holds the keys of the entries that can be found
again, and keys that cannot (`lost`).  The keys of the entries differ, and there is room for them. -/
structure InStep (lost : List κ) (c : Lru κ ν) : Prop where
  index : c.index.Perm (c.keys.filter findable ++ lost)
  lost : ∀ k ∈ lost, findable k = false
  apart : c.keys.Pairwise fun a b => (a == b) = false
  room : c.entries.length ≤ c.capacity
  capacity_pos : 0 < c.capacity

theorem inStep_ofCapacity (capacity : Nat) : (ofCapacity capacity : Lru κ ν).InStep [] where
  index := .refl _
  lost _ h := nomatch h
  apart := .nil
  room := Nat.zero_le _
  capacity_pos := Nat.le_max_right ..

theorem beq_of_find? (h : c.entries.find? (fun e => e.1 == key) = some e) : (e.1 == key) = true :=
  List.find?_some (p := fun e : κ × ν => e.1 == key) h

/-- The entry that is found is one of the entries; the others are left without it. -/
theorem perm_others (h : c.entries.find? (fun e => e.1 == key) = some e) :
    c.entries.Perm (e :: c.others key) := by
  obtain ⟨hkey, before, after, hentries, hbefore⟩ := List.find?_eq_some_iff_append.mp h
  have hskip : ∀ b ∈ before, ¬ (b.1 == key) = true := fun b hb => by simpa using hbefore b hb
  have herase : (e :: after).eraseP (fun b => b.1 == key) = after := List.eraseP_cons_of_pos hkey
  rw [others, hentries, List.eraseP_append_right _ hskip, herase]
  exact List.perm_middle

/-- What only one item of a list satisfies erases that item. -/
theorem perm_eraseP {α : Type} {l rest : List α} {a : α} {p : α → Bool} (h : l.Perm (a :: rest))
    (ha : p a = true) (hrest : ∀ b ∈ rest, ¬ p b = true) : (l.eraseP p).Perm rest := by
  have honly : (a :: rest).Pairwise fun b b' => p b = true → p b' = true → False :=
    List.pairwise_cons.mpr ⟨fun b hb _ hb' => hrest b hb hb',
      List.pairwise_of_forall_mem_list fun b hb _ _ hb' _ => hrest b hb hb'⟩
  have herased := h.symm.eraseP p honly
  rw [List.eraseP_cons_of_pos ha] at herased
  exact herased.symm

/-- What at most one item of a list satisfies filters that item out. -/
theorem eraseP_eq_filter {α : Type} {l : List α} {p : α → Bool}
    (h : l.Pairwise fun a b => p a = true → p b = true → False) : l.eraseP p = l.filter fun a => !p a := by
  induction h with
  | nil => rfl
  | @cons a rest ha _ ih =>
    cases hp : p a with
    | false => rw [List.eraseP_cons_of_neg (by simp [hp]), List.filter_cons_of_pos (by simp [hp]), ih]
    | true =>
      rw [List.eraseP_cons_of_pos hp, List.filter_cons_of_neg (by simp [hp])]
      symm
      rw [List.filter_eq_self]
      intro b hb
      simpa using ha b hb hp

theorem size_eq (h : c.InStep lost) :
    c.size = (c.keys.filter findable).length + lost.length := by
  rw [size, h.index.length_eq, List.length_append]

theorem entries_dropOldest (c : Lru κ ν) : c.dropOldest.entries = c.entries.dropLast := by
  rw [dropOldest]
  cases hlast : c.entries.getLast? with
  | none => rw [List.getLast?_eq_none_iff.mp hlast]; rfl
  | some e => rfl

theorem capacity_dropOldest (c : Lru κ ν) : c.dropOldest.capacity = c.capacity := by
  rw [dropOldest]
  split <;> rfl

theorem index_dropOldest_subset (c : Lru κ ν) : ∀ k ∈ c.dropOldest.index, k ∈ c.index := by
  intro k hk
  rw [dropOldest] at hk
  split at hk
  · exact List.mem_of_mem_eraseP hk
  · exact hk

/-- One entry is dropped if the table is full, and none otherwise. -/
theorem withRoom_eq (h : c.InStep lost) :
    c.withRoom = if c.entries.length < c.capacity then c else c.dropOldest := by
  have hroom := h.room
  rw [withRoom]
  split
  · next hlt =>
    rw [show c.entries.length + 1 - c.capacity = 0 by omega]
    rfl
  · next hle =>
    rw [show c.entries.length + 1 - c.capacity = 1 by omega]
    rfl

theorem entries_withRoom (h : c.InStep lost) :
    c.withRoom.entries =
      if c.entries.length < c.capacity then c.entries else c.entries.dropLast := by
  rw [withRoom_eq h]
  split
  · rfl
  · exact entries_dropOldest c

theorem capacity_withRoom (h : c.InStep lost) : c.withRoom.capacity = c.capacity := by
  rw [withRoom_eq h]
  split
  · rfl
  · exact capacity_dropOldest c

theorem index_withRoom_subset (h : c.InStep lost) : ∀ k ∈ c.withRoom.index, k ∈ c.index := by
  rw [withRoom_eq h]
  split
  · exact fun _ hk => hk
  · exact index_dropOldest_subset c

theorem room_withRoom (h : c.InStep lost) : c.withRoom.entries.length < c.capacity := by
  have hroom := h.room
  have hpos := h.capacity_pos
  rw [entries_withRoom h]
  split
  · next hlt => exact hlt
  · rw [List.length_dropLast]
    omega

/-- Making room touches no counter but that of the evictions, by one for the entry that is dropped. -/
theorem counters_withRoom (h : c.InStep lost) :
    c.withRoom.hits = c.hits ∧ c.withRoom.misses = c.misses ∧
      c.withRoom.evictions + c.withRoom.entries.length = c.evictions + c.entries.length := by
  have hpos := h.capacity_pos
  rw [withRoom_eq h]
  split
  · exact ⟨rfl, rfl, rfl⟩
  · next hfull =>
    rw [dropOldest]
    cases hlast : c.entries.getLast? with
    | none => exact ⟨rfl, rfl, rfl⟩
    | some e =>
      have hnonempty : 0 < c.entries.length := by omega
      refine ⟨rfl, rfl, ?_⟩
      show c.evictions + 1 + c.entries.dropLast.length = _
      rw [List.length_dropLast]
      omega

theorem capacity_get? (c : Lru κ ν) (key : κ) : (c.get? key).2.capacity = c.capacity := by
  rw [Lru.get?]
  split <;> rfl

section Laws

variable [KeyBEq κ]

theorem beq_comm_false {a b : κ} (h : (a == b) = false) : (b == a) = false := by
  rw [Bool.eq_false_iff] at h ⊢
  exact fun hba => h (KeyBEq.symm hba)

/-- What is not the same as itself is the same as nothing. -/
theorem not_beq_of_lost {a b : κ} (h : findable a = false) : (a == b) = false := by
  rw [findable, Bool.eq_false_iff] at h
  rw [Bool.eq_false_iff]
  exact fun hab => h (KeyBEq.self hab)

/-- The index knows the keys of the entries. -/
theorem contains_iff (h : c.InStep lost) : c.contains key = true ↔ ∃ e ∈ c.entries, (e.1 == key) = true := by
  rw [contains, List.any_eq_true]
  constructor
  · rintro ⟨k, hk, hkey⟩
    rcases List.mem_append.mp (h.index.mem_iff.mp hk) with hk | hk
    · obtain ⟨e, he, rfl⟩ := List.mem_map.mp (List.mem_filter.mp hk).1
      exact ⟨e, he, hkey⟩
    · rw [not_beq_of_lost (h.lost k hk)] at hkey
      cases hkey
  · rintro ⟨e, he, hkey⟩
    have hmem : e.1 ∈ c.keys.filter findable :=
      List.mem_filter.mpr ⟨List.mem_map_of_mem he, KeyBEq.self hkey⟩
    exact ⟨e.1, h.index.mem_iff.mpr (List.mem_append_left _ hmem), hkey⟩

theorem entry?_eq (h : c.InStep lost) : c.entry? key = c.entries.find? fun e => e.1 == key := by
  unfold entry?
  split
  · rfl
  · next hnot =>
    rw [contains_iff h] at hnot
    symm
    rw [List.find?_eq_none]
    exact fun e he hkey => hnot ⟨e, he, hkey⟩

/-- A table that has the same keys in another order is in step, too. -/
theorem InStep.of_perm (h : c.InStep lost) (hkeys : d.keys.Perm c.keys) (hindex : d.index = c.index)
    (hcapacity : d.capacity = c.capacity) : d.InStep lost where
  index := hindex ▸ h.index.trans ((hkeys.filter _).append_right lost).symm
  lost := h.lost
  apart := (hkeys.pairwise_iff fun hab => beq_comm_false hab).mpr h.apart
  room := by
    have hlength := hkeys.length_eq
    rw [keys, keys, List.length_map, List.length_map] at hlength
    rw [hlength, hcapacity]
    exact h.room
  capacity_pos := hcapacity ▸ h.capacity_pos

/-! ## Lookups -/

theorem get?_of_found (h : c.InStep lost) (he : c.entries.find? (fun e => e.1 == key) = some e) :
    c.get? key = (some e.2, { c with entries := e :: c.others key, hits := c.hits + 1 }) := by
  rw [Lru.get?, entry?_eq h, he]

theorem get?_of_new (h : c.InStep lost) (he : c.entries.find? (fun e => e.1 == key) = none) :
    c.get? key = (none, { c with misses := c.misses + 1 }) := by
  rw [Lru.get?, entry?_eq h, he]

theorem InStep.get? (h : c.InStep lost) (key : κ) : (c.get? key).2.InStep lost := by
  cases he : c.entries.find? fun e => e.1 == key with
  | none =>
    rw [get?_of_new h he]
    exact h.of_perm (.refl _) rfl rfl
  | some e =>
    rw [get?_of_found h he]
    exact h.of_perm ((perm_others he).symm.map Prod.fst) rfl rfl

/-! ## Making room -/

/-- Dropping an entry drops its key from the index, if it can be found there. -/
theorem InStep.dropOldest (h : c.InStep lost) : c.dropOldest.InStep lost := by
  cases hlast : c.entries.getLast? with
  | none =>
    rw [Lru.dropOldest, hlast]
    exact h
  | some e =>
    have hkeys : c.keys = c.entries.dropLast.map Prod.fst ++ [e.1] := by
      rw [keys, ← List.map_singleton, ← List.map_append, List.dropLast_append_getLast? e hlast]
    obtain ⟨hfront, -, hlastApart⟩ := List.pairwise_append.mp (hkeys ▸ h.apart)
    have hindex := h.index
    rw [hkeys, List.filter_append, List.append_assoc] at hindex
    have hroom : c.entries.dropLast.length ≤ c.capacity := by
      rw [List.length_dropLast]
      exact Nat.le_trans (Nat.sub_le ..) h.room
    rw [Lru.dropOldest, hlast]
    refine ⟨?_, h.lost, hfront, hroom, h.capacity_pos⟩
    cases hself : findable e.1 with
    | true =>
      -- no other key in the index is the same
      have hother : ∀ k ∈ (c.entries.dropLast.map Prod.fst).filter findable ++ lost,
          ¬ (k == e.1) = true := by
        intro k hk
        rw [Bool.not_eq_true]
        rcases List.mem_append.mp hk with hk | hk
        · exact hlastApart k (List.mem_filter.mp hk).1 e.1 List.mem_cons_self
        · exact not_beq_of_lost (h.lost k hk)
      rw [List.filter_cons_of_pos hself] at hindex
      exact perm_eraseP (hindex.trans List.perm_middle) hself hother
    | false =>
      have hskip : ∀ k ∈ c.index, ¬ (k == e.1) = true := by
        intro k _ hk
        rw [beq_comm_false (not_beq_of_lost hself)] at hk
        cases hk
      rw [List.filter_cons_of_neg (Bool.eq_false_iff.mp hself)] at hindex
      show (c.index.eraseP _).Perm _
      rw [List.eraseP_of_forall_not hskip]
      exact hindex

theorem InStep.withRoom (h : c.InStep lost) : c.withRoom.InStep lost := by
  rw [withRoom_eq h]
  split
  · exact h
  · exact h.dropOldest

/-! ## Changes -/

/-- A value that is put under a known key is in the first entry. -/
theorem put_of_found (h : c.InStep lost) (he : c.entries.find? (fun e => e.1 == key) = some e)
    (value : ν) : c.put key value = { c with entries := (e.1, value) :: c.others key } := by
  rw [Lru.put, entry?_eq h, he]

/-- A new key comes in front of the entries for which there is room. -/
theorem put_of_new (h : c.InStep lost) (he : c.entries.find? (fun e => e.1 == key) = none)
    (value : ν) :
    c.put key value =
      { c.withRoom with
        entries := (key, value) :: c.withRoom.entries, index := key :: c.withRoom.index } := by
  rw [Lru.put, entry?_eq h, he]

/-- A change is no lookup. -/
theorem counters_put (h : c.InStep lost) (key : κ) (value : ν) :
    (c.put key value).capacity = c.capacity ∧ (c.put key value).hits = c.hits ∧
      (c.put key value).misses = c.misses := by
  cases he : c.entries.find? fun e => e.1 == key with
  | some e =>
    rw [put_of_found h he]
    exact ⟨rfl, rfl, rfl⟩
  | none =>
    obtain ⟨hhits, hmisses, -⟩ := counters_withRoom h
    rw [put_of_new h he]
    exact ⟨capacity_withRoom h, hhits, hmisses⟩

/-- A key that is put stays in the index for good, if it is not found again. -/
theorem InStep.put (h : c.InStep lost) (key : κ) (value : ν) :
    (c.put key value).InStep (if findable key then lost else key :: lost) := by
  cases he : c.entries.find? fun e => e.1 == key with
  | some e =>
    have hkey : findable key = true := KeyBEq.self (KeyBEq.symm (beq_of_find? he))
    rw [if_pos hkey, put_of_found h he]
    exact h.of_perm ((perm_others he).symm.map Prod.fst) rfl rfl
  | none =>
    rw [put_of_new h he]
    have hr := h.withRoom
    have hnew : ∀ e ∈ c.withRoom.entries, (key == e.1) = false := by
      intro e hmem
      cases hself : findable e.1 with
      | false => exact beq_comm_false (not_beq_of_lost hself)
      | true =>
        have hindex : e.1 ∈ c.index := index_withRoom_subset h e.1 (hr.index.mem_iff.mpr
          (List.mem_append_left _ (List.mem_filter.mpr ⟨List.mem_map_of_mem hmem, hself⟩)))
        rw [Bool.eq_false_iff]
        intro hsame
        have hknown : c.contains key = true := List.any_eq_true.mpr ⟨e.1, hindex, KeyBEq.symm hsame⟩
        obtain ⟨e', he', hkey'⟩ := (contains_iff h).mp hknown
        exact List.find?_eq_none.mp he e' he' hkey'
    have hroom : c.withRoom.entries.length + 1 ≤ c.withRoom.capacity := by
      rw [capacity_withRoom h]
      exact room_withRoom h
    refine ⟨?_, ?_, ?_, hroom, hr.capacity_pos⟩
    · show (key :: c.withRoom.index).Perm ((key :: c.withRoom.keys).filter findable ++ _)
      cases hself : findable key with
      | true =>
        rw [List.filter_cons_of_pos hself, if_pos rfl]
        exact hr.index.cons key
      | false =>
        rw [List.filter_cons_of_neg (Bool.eq_false_iff.mp hself), if_neg Bool.false_ne_true]
        exact (hr.index.cons key).trans List.perm_middle.symm
    · cases hself : findable key with
      | true =>
        rw [if_pos rfl]
        exact h.lost
      | false =>
        rw [if_neg Bool.false_ne_true]
        exact List.forall_mem_cons.mpr ⟨hself, h.lost⟩
    · refine List.pairwise_cons.mpr ⟨fun k hk => ?_, hr.apart⟩
      obtain ⟨e, hmem, rfl⟩ := List.mem_map.mp hk
      exact hnew e hmem

omit [KeyBEq κ] in
/-- Clearing a table clears its index of what could not be found. -/
theorem InStep.clear (h : c.InStep lost) : c.clear.InStep [] where
  index := .refl _
  lost _ h := nomatch h
  apart := .nil
  room := Nat.zero_le _
  capacity_pos := h.capacity_pos

end Laws

/-! ## Keys with an equivalence -/

section Equivalence

variable [EquivBEq κ]

theorem findable_eq (key : κ) : findable key = true := BEq.rfl

theorem filter_findable (l : List κ) : l.filter findable = l :=
  List.filter_eq_self.mpr fun k _ => findable_eq k

theorem index_perm (h : c.InStep []) : c.index.Perm c.keys := by
  have hindex := h.index
  rwa [filter_findable, List.append_nil] at hindex

theorem size_eq_length (h : c.InStep []) : c.size = c.entries.length := by
  rw [size_eq h, filter_findable, keys, List.length_map]
  rfl

/-- The other entries are those with another key. -/
theorem others_eq (h : c.InStep lost) : c.others key = c.entries.filter fun e => !(e.1 == key) := by
  refine eraseP_eq_filter ((List.pairwise_map.mp h.apart).imp ?_)
  intro a b hab ha hb
  rw [BEq.congr_left ha, BEq.symm hb] at hab
  cases hab

theorem InStep.put_same (h : c.InStep []) (key : κ) (value : ν) : (c.put key value).InStep [] := by
  have hput := h.put key value
  rwa [if_pos (findable_eq key)] at hput

theorem InStep.erase (h : c.InStep []) (key : κ) : (c.erase key).2.InStep [] := by
  rw [Lru.erase]
  cases hknown : c.contains key with
  | false => exact h
  | true =>
    rw [if_pos rfl]
    have hfound : (c.entries.find? fun e => e.1 == key).isSome := by
      rw [List.find?_isSome]
      exact (contains_iff h).mp hknown
    obtain ⟨e, he⟩ := Option.isSome_iff_exists.mp hfound
    have hsame := beq_of_find? he
    have hkeys : c.keys.Perm (e.1 :: (c.others key).map Prod.fst) := (perm_others he).map Prod.fst
    have hapart := (hkeys.pairwise_iff fun hab => beq_comm_false hab).mp h.apart
    obtain ⟨hfirst, hothers⟩ := List.pairwise_cons.mp hapart
    refine ⟨?_, h.lost, hothers, ?_, h.capacity_pos⟩
    · show (c.index.eraseP _).Perm (((c.others key).map Prod.fst).filter findable ++ [])
      rw [filter_findable, List.append_nil]
      refine perm_eraseP ((index_perm h).trans hkeys) hsame fun k hk => ?_
      have hother := hfirst k hk
      rw [BEq.congr_left hsame] at hother
      rw [beq_comm_false hother]
      exact Bool.false_ne_true
    · exact Nat.le_trans (List.eraseP_sublist ..).length_le h.room

end Equivalence

end Lru

end AccessControl
