import AccessControl.Proofs.Recency.Acts
import Mathlib.Data.List.Induction

/-!
# The value of a key

A lookup finds the value that was put last under its key, unless something has taken the key out of the
table since: it was erased, the table was cleared, or a new key was put when the table was full and the
key was the one not used for longest (`Lru.Removes`).  Every act puts a value under the key, removes the
key, or leaves its value as it is (`Lru.get?_put`, `Lru.get?_of_removes`, `Lru.get?_of_not_removes`), and
so the history tells what is found (`Lru.get?_left_iff`).
-/

namespace AccessControl.Lru

open Act

variable {κ ν : Type} [BEq κ] {c : Lru κ ν} {acts : List (Act κ ν)} {act : Act κ ν} {key k : κ} {value : ν}

/-! ## Entries of a list -/

theorem listed_cons_of_beq {e : κ × ν} (hkey : (e.1 == key) = true) (l : List (κ × ν)) :
    listed (e :: l) key = some e := by
  rw [listed, List.find?_cons, hkey]

theorem listed_cons_of_not_beq {e : κ × ν} (hkey : (e.1 == key) = false) (l : List (κ × ν)) :
    listed (e :: l) key = listed l key := by
  rw [listed, List.find?_cons, hkey]
  rfl

/-- A key that is not the last one does not miss the last entry. -/
theorem listed_dropLast {l : List (κ × ν)} (hlast : ∀ e, l.getLast? = some e → (e.1 == key) = false) :
    listed l.dropLast key = listed l key := by
  cases he : l.getLast? with
  | none =>
    rw [List.getLast?_eq_none_iff.mp he]
    rfl
  | some e =>
    rw [listed, listed]
    conv => rhs; rw [← List.dropLast_append_getLast? e he]
    rw [List.find?_append, List.find?_singleton, hlast e he]
    simp

/-! ## What is put and what is removed -/

/-- **What takes a key out of a table**: it is erased, the table is cleared, or a new key is put into the
full table whose last entry is that of the key. -/
inductive Removes (key : κ) (c : Lru κ ν) : Act κ ν → Prop
  | erased {k : κ} (hkey : (k == key) = true) : Removes key c (.erase k)
  | cleared : Removes key c .clear
  | evicted {k : κ} {value : ν} {e : κ × ν} (hnew : c.contains k = false)
      (hfull : c.entries.length = c.capacity) (hlast : c.entries.getLast? = some e)
      (hkey : (e.1 == key) = true) : Removes key c (.put k value)

/-- After a history, `value` is what was put last under a key, and nothing has removed the key since. -/
def PutLast (acts : List (Act κ ν)) (capacity : Nat) (key : κ) (value : ν) : Prop :=
  ∃ before k since, acts = before ++ .put k value :: since ∧ (k == key) = true ∧
    (∀ k' value', .put k' value' ∈ since → (k' == key) = false) ∧
    ∀ earlier act later, since = earlier ++ act :: later →
      ¬ Removes key (left (before ++ .put k value :: earlier) capacity) act

/-- The last act puts a value under a key, or leaves the one that was put last before. -/
theorem putLast_concat {capacity : Nat} :
    PutLast (acts ++ [act]) capacity key value ↔
      (∃ k, act = .put k value ∧ (k == key) = true) ∨
        PutLast acts capacity key value ∧ (∀ k value', act = .put k value' → (k == key) = false) ∧
          ¬ Removes key (left acts capacity) act := by
  constructor
  · rintro ⟨before, k, since, hacts, hkey, hputs, hkept⟩
    rcases List.eq_nil_or_concat since with rfl | ⟨since, last, rfl⟩
    · obtain ⟨-, hlast⟩ := List.append_inj' hacts rfl
      exact .inl ⟨k, List.singleton_injective hlast, hkey⟩
    · rw [List.concat_eq_append, ← List.cons_append, ← List.append_assoc] at hacts
      obtain ⟨rfl, hlast⟩ := List.append_inj' hacts rfl
      obtain rfl := List.singleton_injective hlast
      refine .inr ⟨⟨before, k, since, rfl, hkey, fun k' value' hmem => ?_, fun earlier act' later hsince => ?_⟩,
        fun k' value' hact => ?_, ?_⟩
      · exact hputs k' value' (by simp [hmem])
      · exact hkept earlier act' (later ++ [act]) (by simp [hsince])
      · exact hputs k' value' (by simp [hact])
      · exact hkept since act [] (by simp)
  · rintro (⟨k, rfl, hkey⟩ | ⟨⟨before, k, since, rfl, hkey, hputs, hkept⟩, hput, hremoves⟩)
    · refine ⟨acts, k, [], rfl, hkey, fun _ _ hmem => (nomatch hmem), fun earlier act' later hsince => ?_⟩
      cases earlier <;> cases hsince
    · refine ⟨before, k, since ++ [act], by simp, hkey, fun k' value' hmem => ?_,
        fun earlier act' later hsince => ?_⟩
      · rcases List.mem_append.mp hmem with hmem | hmem
        · exact hputs k' value' hmem
        · exact hput k' value' (List.mem_singleton.mp hmem).symm
      · rcases List.eq_nil_or_concat later with rfl | ⟨later, last, rfl⟩
        · obtain ⟨rfl, hlast⟩ := List.append_inj' hsince rfl
          obtain rfl := List.singleton_injective hlast
          exact hremoves
        · rw [List.concat_eq_append, ← List.cons_append, ← List.append_assoc] at hsince
          obtain ⟨rfl, -⟩ := List.append_inj' hsince rfl
          exact hkept earlier act' later rfl

section Agreement

variable [EquivBEq κ]

/-! ## One act -/

theorem get?_eq (h : c.InStep []) (key : κ) :
    (c.get? key).1 = (listed c.entries key).map Prod.snd := by
  rw [listed]
  cases he : c.entries.find? fun e => e.1 == key with
  | none => rw [get?_of_new h he]; rfl
  | some e => rw [get?_of_found h he]; rfl

/-- Taking another key out does not matter to a key. -/
theorem listed_without (hkey : (k == key) = false) (l : List (κ × ν)) :
    listed (without l k) key = listed l key := by
  rw [listed, listed, without, List.find?_filter]
  congr 1
  funext e
  cases he : e.1 == key with
  | false => simp
  | true => simp [BEq.congr_left he, beq_comm_false hkey]

theorem listed_without_self (hkey : (k == key) = true) (l : List (κ × ν)) :
    listed (without l k) key = none := by
  rw [listed, List.find?_eq_none]
  intro e he
  have hother := (List.mem_filter.mp he).2
  rw [Bool.not_eq_true', BEq.congr_right hkey] at hother
  rw [hother]
  exact Bool.false_ne_true

theorem get?_put (h : c.InStep []) (hkey : (k == key) = true) (value : ν) :
    ((c.put k value).get? key).1 = some value := by
  obtain ⟨hstep, -, -, hentries⟩ := on_eq h (.put k value)
  have hstep : (c.put k value).InStep [] := hstep
  have hentries : (c.put k value).entries = _ := hentries
  rw [get?_eq hstep, hentries, onList]
  cases he : listed c.entries k with
  | some e =>
    have hsame : (e.1 == key) = true := PartialEquivBEq.trans (beq_of_find? he) hkey
    show (listed ((e.1, value) :: _) key).map Prod.snd = _
    rw [listed_cons_of_beq (e := (e.1, value)) hsame]
    rfl
  | none =>
    show (listed ((k, value) :: _) key).map Prod.snd = _
    rw [listed_cons_of_beq (e := (k, value)) hkey]
    rfl

/-- What removes a key leaves no value under it. -/
theorem get?_of_removes (h : c.InStep []) (hremoves : Removes key c act) :
    ((act.on c).2.get? key).1 = none := by
  obtain ⟨hstep, -, -, hentries⟩ := on_eq h act
  rw [get?_eq hstep, hentries, Option.map_eq_none_iff]
  cases hremoves with
  | erased hkey => exact listed_without_self hkey _
  | cleared => rfl
  | @evicted k value e hnew hfull hlast hkey =>
    have hsplit := List.dropLast_append_getLast? e hlast
    have hmem : e ∈ c.entries := List.mem_of_getLast? hlast
    have hother : (k == key) = false := by
      rw [Bool.eq_false_iff]
      intro hsame
      rw [Bool.eq_false_iff, ne_eq, contains_iff h] at hnew
      exact hnew ⟨e, hmem, PartialEquivBEq.trans hkey (PartialEquivBEq.symm hsame)⟩
    rw [contains_eq h, Option.isSome_eq_false_iff, Option.isNone_iff_eq_none] at hnew
    rw [onList, hnew]
    simp only [hfull, Nat.lt_irrefl, if_false]
    rw [listed_cons_of_not_beq hother, listed, List.find?_eq_none]
    -- the last key is the only one of its kind
    intro e' he' hkey'
    have hapart := h.apart
    rw [keys, ← hsplit, List.map_append, List.pairwise_append] at hapart
    have hdiffer := hapart.2.2 e'.1 (List.mem_map_of_mem he') e.1 (by simp)
    rw [BEq.congr_left hkey', PartialEquivBEq.symm hkey] at hdiffer
    cases hdiffer

/-- What neither removes a key nor puts a value under it leaves its value. -/
theorem get?_of_not_removes (h : c.InStep []) (hput : ∀ k value, act = .put k value → (k == key) = false)
    (hkept : ¬ Removes key c act) : ((act.on c).2.get? key).1 = (c.get? key).1 := by
  obtain ⟨hstep, -, -, hentries⟩ := on_eq h act
  rw [get?_eq hstep, get?_eq h, hentries]
  congr 1
  cases act with
  | get k =>
    cases he : listed c.entries k with
    | none => rw [onList, he]
    | some e =>
      rw [onList, he]
      cases hkey : e.1 == key with
      | true =>
        have hsame : (k == key) = true := PartialEquivBEq.trans (PartialEquivBEq.symm (beq_of_find? he)) hkey
        have hpred : (fun e : κ × ν => e.1 == key) = fun e => e.1 == k := by
          funext e
          exact (BEq.congr_right hsame).symm
        rw [listed_cons_of_beq hkey, ← he, listed, listed, hpred]
      | false =>
        have hother : (k == key) = false := by
          rw [← hkey, BEq.congr_left (beq_of_find? he)]
        rw [listed_cons_of_not_beq hkey, listed_without hother]
  | put k value =>
    have hother := hput k value rfl
    cases he : listed c.entries k with
    | some e =>
      have hkey : (e.1 == key) = false := by rw [BEq.congr_left (beq_of_find? he), hother]
      rw [onList, he]
      show listed ((e.1, value) :: _) key = _
      rw [listed_cons_of_not_beq (e := (e.1, value)) hkey, listed_without hother]
    | none =>
      rw [onList, he]
      show listed ((k, value) :: _) key = _
      rw [listed_cons_of_not_beq (e := (k, value)) hother]
      split
      · rfl
      · next hfull =>
        refine listed_dropLast fun e hlast => ?_
        rw [Bool.eq_false_iff]
        intro hkey
        refine hkept (.evicted ?_ ?_ hlast hkey)
        · rw [contains_eq h, he]
          rfl
        · exact Nat.le_antisymm h.room (Nat.not_lt.mp hfull)
  | contains k => rfl
  | erase k =>
    have hother : (k == key) = false := by
      rw [Bool.eq_false_iff]
      exact fun hkey => hkept (.erased hkey)
    exact listed_without hother _
  | clear => exact absurd .cleared hkept

/-! ## Histories -/

/-- **A lookup finds the value that was put last under its key**, unless the key was removed since. -/
theorem get?_left_iff (acts : List (Act κ ν)) (capacity : Nat) (key : κ) (value : ν) :
    ((left acts capacity).get? key).1 = some value ↔ PutLast acts capacity key value := by
  induction acts using List.reverseRecOn generalizing value with
  | nil =>
    refine ⟨fun hfound => (nomatch hfound), ?_⟩
    rintro ⟨before, k, since, hacts, -⟩
    cases before <;> cases hacts
  | append_singleton acts act ih =>
    have h := inStep_left acts capacity
    rw [left_concat, putLast_concat]
    by_cases hput : ∃ k value, act = .put k value ∧ (k == key) = true
    · obtain ⟨k, value', rfl, hkey⟩ := hput
      rw [show ((Act.put k value').on (left acts capacity)).2 = (left acts capacity).put k value' from rfl,
        get?_put h hkey]
      constructor
      · rintro ⟨⟩
        exact .inl ⟨k, rfl, hkey⟩
      · rintro (⟨_, hact, -⟩ | ⟨-, hother, -⟩)
        · cases hact
          rfl
        · rw [hother k value' rfl] at hkey
          cases hkey
    · have hother : ∀ k value', act = .put k value' → (k == key) = false := fun k value' hact =>
        Bool.eq_false_iff.mpr fun hkey => hput ⟨k, value', hact, hkey⟩
      by_cases hremoves : Removes key (left acts capacity) act
      · rw [get?_of_removes h hremoves]
        refine ⟨fun hfound => (nomatch hfound), ?_⟩
        rintro (⟨k, hact, hkey⟩ | ⟨-, -, hkept⟩)
        · exact absurd ⟨k, value, hact, hkey⟩ hput
        · exact absurd hremoves hkept
      · rw [get?_of_not_removes h hother hremoves, ih]
        constructor
        · exact fun hlast => .inr ⟨hlast, hother, hremoves⟩
        · rintro (⟨k, hact, hkey⟩ | ⟨hlast, -, -⟩)
          · exact absurd ⟨k, value, hact, hkey⟩ hput
          · exact hlast

end Agreement

end AccessControl.Lru
