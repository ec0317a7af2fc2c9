import AccessControl.Proofs.Recency.Distance
import AccessControl.Value.Hash

/-!
# Least recently used tables are recency lists

A table finds its entries by an index and a recency list is read from its front, but nobody can tell
them apart: whatever is done to an empty table, it answers as the recency list does
(`Lru.refines_recencyList`).  The index is in step with the entries throughout, what is found was put last
and not removed since, what is present was used recently enough, and the counters tell how many lookups,
new keys and removals there were.

The keys may be of any type whose equality is an equivalence.  If they are looked up by a code first, as in
a hash table, the same keys are those with one code that are equal, which is an equivalence if equal keys
have one code (`Lru.equivBEq_coded`).
-/

namespace AccessControl.Lru

open Act

variable {κ ν : Type} [BEq κ]

/-- Keys that are looked up by a code. -/
structure Coded (code : κ → UInt64) where
  key : κ

instance (code : κ → UInt64) : BEq (Coded code) :=
  ⟨fun a b => code a.key == code b.key && a.key == b.key⟩

theorem beq_coded {code : κ → UInt64} (hcode : ∀ a b, (a == b) = true → code a = code b)
    (a b : Coded code) : (a == b) = (a.key == b.key) := by
  show (code a.key == code b.key && a.key == b.key) = (a.key == b.key)
  cases hkey : a.key == b.key with
  | false => exact Bool.and_false _
  | true => rw [hcode _ _ hkey, beq_self_eq_true, Bool.and_true]

variable [EquivBEq κ]

/-- Keys with codes have a lawful equality, if equal keys have one code. -/
theorem equivBEq_coded {code : κ → UInt64} (hcode : ∀ a b, (a == b) = true → code a = code b) :
    EquivBEq (Coded code) where
  symm {a b} h := by
    rw [beq_coded hcode] at h ⊢
    exact PartialEquivBEq.symm h
  trans {a b c} hab hbc := by
    rw [beq_coded hcode] at hab hbc ⊢
    exact PartialEquivBEq.trans hab hbc
  rfl {a} := by
    rw [beq_coded hcode]
    exact BEq.rfl

/-- **A table is a recency list**, for every capacity and every history of lookups, changes and removals.

Each act comes to what it comes to on the list, and the entries are those of the list.  The index holds
the keys of the entries, no two of them the same, and no more than there is room for.  What is found under
a key was put last and not erased, cleared or dropped since.  In a history without erasures and clearings,
a key is present if it was put and fewer other keys have been used since it was used last than there is
room for.  Lookups are hits or misses, and new keys are present, removed or evicted. -/
theorem refines_recencyList (capacity : Nat) (acts : List (Act κ ν)) :
    (replies on acts (ofCapacity capacity) = replies (onList (max capacity 1)) acts [] ∧
      (left acts capacity).entries = after (onList (max capacity 1)) acts []) ∧
    ((left acts capacity).index.Perm (left acts capacity).keys ∧
      (left acts capacity).keys.Pairwise (fun a b => (a == b) = false) ∧
      (left acts capacity).size ≤ max capacity 1) ∧
    (∀ key value, ((left acts capacity).get? key).1 = some value ↔ PutLast acts capacity key value) ∧
    ((∀ act ∈ acts, act.keeps = true) → ∀ key, (left acts capacity).contains key = true ↔
      WasPut acts key ∧ (usedSince acts capacity key).eraseDups.length < max capacity 1) ∧
    (left acts capacity).hits + (left acts capacity).misses = acts.countP isGet ∧
    (left acts capacity).evictions + total removed acts (ofCapacity capacity) +
      (left acts capacity).size = total inserted acts (ofCapacity capacity) := by
  have hempty : (ofCapacity capacity : Lru κ ν).InStep [] := inStep_ofCapacity capacity
  have hleft := inStep_left acts capacity
  obtain ⟨hreplies, hentries, -, -⟩ := replies_eq hempty acts
  refine ⟨⟨hreplies, hentries⟩, ⟨index_perm hleft, hleft.apart, ?_⟩, get?_left_iff acts capacity,
    fun hacts => contains_left_iff hacts capacity, ?_, ?_⟩
  · rw [size_eq_length hleft, ← capacity_left acts capacity]
    exact hleft.room
  · have hhits := hits_add_misses hempty acts
    rwa [show (ofCapacity capacity : Lru κ ν).hits + (ofCapacity capacity : Lru κ ν).misses = 0 from rfl,
      Nat.zero_add] at hhits
  · have hevictions := evictions_add hempty acts
    rwa [show (ofCapacity capacity : Lru κ ν).evictions = 0 from rfl,
      show (ofCapacity capacity : Lru κ ν).size = 0 from rfl, Nat.zero_add, Nat.add_zero] at hevictions

/-- A text, looked up by its code. -/
def codedText (text : Bytes) : Coded HashFamily.standard.text := ⟨text⟩

/-- Two texts are put, the first is found, and the third is put for which the second has to go. -/
def threeTexts : List (Act (Coded HashFamily.standard.text) Nat) :=
  [.put (codedText [97]) 1, .put (codedText [98]) 2, .get (codedText [97]), .put (codedText [99]) 3,
    .contains (codedText [98]), .get (codedText [98])]

theorem refines_recencyList_threeTexts :
    EquivBEq (Coded HashFamily.standard.text) ∧ (∀ act ∈ threeTexts, act.keeps = true) ∧
    replies on threeTexts (ofCapacity 2) =
      [.done, .done, .found (some 1), .done, .known false, .found none] ∧
    PutLast threeTexts 2 (codedText [97]) 1 ∧
    (left threeTexts 2).contains (codedText [97]) = true ∧
    (left threeTexts 2).contains (codedText [98]) = false ∧
    (left threeTexts 2).hits + (left threeTexts 2).misses = 2 ∧
    (left threeTexts 2).evictions + 0 + (left threeTexts 2).size = 3 := by
  have hequiv : EquivBEq (Coded HashFamily.standard.text) :=
    equivBEq_coded fun a b hab => congrArg _ (eq_of_beq hab)
  have hkeeps : ∀ act ∈ threeTexts, act.keeps = true := by decide
  obtain ⟨⟨hreplies, -⟩, -, hvalue, hpresent, hlookups, hevictions⟩ := refines_recencyList 2 threeTexts
  refine ⟨hequiv, hkeeps, hreplies.trans rfl, (hvalue _ _).mp rfl, ?_, ?_, hlookups, hevictions⟩
  · exact (hpresent hkeeps _).mpr ⟨⟨_, _, List.mem_cons_self, rfl⟩, by decide⟩
  · rw [Bool.eq_false_iff, ne_eq, hpresent hkeeps]
    exact fun h => absurd h.2 (by decide)

end AccessControl.Lru
