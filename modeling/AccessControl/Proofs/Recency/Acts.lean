import AccessControl.Proofs.Recency.Index

/-!
# Tables and recency lists

A recency list is the plainest table: the entries, the one used last first, and nothing else
(`Lru.Act.onList`).  A key that is found or put comes to the front, and the last entry is dropped if a
new key is put into a full list.  A table whose index is in step answers every act as its list of entries
does, which becomes its list of entries again (`Lru.on_eq`); so the two agree in every history
(`Lru.replies_eq`).

Of the counters, hits and misses add up to the lookups, and evictions are the new keys that are neither
present nor taken out (`Lru.hits_add_misses`, `Lru.evictions_add`).
-/

namespace AccessControl.Lru

variable {κ ν σ : Type}

/-- What is done to a table. -/
inductive Act (κ ν : Type) where
  | get (key : κ)
  | put (key : κ) (value : ν)
  | contains (key : κ)
  | erase (key : κ)
  | clear

/-- What an act comes to. -/
inductive Reply (ν : Type) where
  | found (value : Option ν)
  | known (answer : Bool)
  | done

namespace Act

/-- Whether an act is a lookup. -/
def isGet : Act κ ν → Bool
  | get _ => true
  | _ => false

/-- Whether an act takes no entry out of a table but to make room. -/
def keeps : Act κ ν → Bool
  | erase _ | clear => false
  | _ => true

/-- What acts come to, one after the other. -/
def replies (step : Act κ ν → σ → Reply ν × σ) : List (Act κ ν) → σ → List (Reply ν)
  | [], _ => []
  | act :: rest, s => (step act s).1 :: replies step rest (step act s).2

/-- What acts leave. -/
def after (step : Act κ ν → σ → Reply ν × σ) (acts : List (Act κ ν)) (s : σ) : σ :=
  acts.foldl (fun s act => (step act s).2) s

theorem after_concat (step : Act κ ν → σ → Reply ν × σ) (acts : List (Act κ ν)) (act : Act κ ν)
    (s : σ) : after step (acts ++ [act]) s = (step act (after step acts s)).2 := by
  rw [after, List.foldl_append]
  rfl

variable [BEq κ]

/-- An act on a table. -/
def on (act : Act κ ν) (c : Lru κ ν) : Reply ν × Lru κ ν :=
  match act with
  | get key => (c.get? key).map .found id
  | put key value => (.done, c.put key value)
  | contains key => (.known (c.contains key), c)
  | erase key => (c.erase key).map .known id
  | clear => (.done, c.clear)

/-- The entry of a key in a recency list. -/
def listed (l : List (κ × ν)) (key : κ) : Option (κ × ν) := l.find? fun e => e.1 == key

/-- A recency list without a key. -/
def without (l : List (κ × ν)) (key : κ) : List (κ × ν) := l.filter fun e => !(e.1 == key)

/-- An act on a recency list with so much room. -/
def onList (capacity : Nat) (act : Act κ ν) (l : List (κ × ν)) : Reply ν × List (κ × ν) :=
  match act with
  | get key =>
    match listed l key with
    | some e => (.found (some e.2), e :: without l key)
    | none => (.found none, l)
  | put key value =>
    match listed l key with
    | some e => (.done, (e.1, value) :: without l key)
    | none => (.done, (key, value) :: if l.length < capacity then l else l.dropLast)
  | contains key => (.known (listed l key).isSome, l)
  | erase key => (.known (listed l key).isSome, without l key)
  | clear => (.done, [])

/-- A table after a history that began with an empty one. -/
def left (acts : List (Act κ ν)) (capacity : Nat) : Lru κ ν := after on acts (ofCapacity capacity)

theorem left_concat (acts : List (Act κ ν)) (act : Act κ ν) (capacity : Nat) :
    left (acts ++ [act]) capacity = (act.on (left acts capacity)).2 := after_concat ..

/-- How many new keys an act puts into a table. -/
def inserted (act : Act κ ν) (c : Lru κ ν) : Nat :=
  match act with
  | put key _ => if c.contains key then 0 else 1
  | _ => 0

/-- How many keys an act takes out of a table other than to make room. -/
def removed (act : Act κ ν) (c : Lru κ ν) : Nat :=
  match act with
  | erase key => if c.contains key then 1 else 0
  | clear => c.size
  | _ => 0

/-- The sum of what is counted at each act of a history. -/
def total (count : Act κ ν → Lru κ ν → Nat) : List (Act κ ν) → Lru κ ν → Nat
  | [], _ => 0
  | act :: rest, c => count act c + total count rest (act.on c).2

end Act

open Act

variable [BEq κ] {c : Lru κ ν} {acts : List (Act κ ν)} {act : Act κ ν} {key k : κ} {value : ν}

section Agreement

variable [EquivBEq κ]

/-! ## One act -/

theorem contains_eq (h : c.InStep []) (key : κ) : c.contains key = (listed c.entries key).isSome := by
  rw [Bool.eq_iff_iff, contains_iff h, listed, List.find?_isSome]

/-- **An act on a table is the act on the list of its entries**, and the index stays in step. -/
theorem on_eq (h : c.InStep []) (act : Act κ ν) :
    (act.on c).2.InStep [] ∧ (act.on c).2.capacity = c.capacity ∧
      (act.on c).1 = (act.onList c.capacity c.entries).1 ∧
      (act.on c).2.entries = (act.onList c.capacity c.entries).2 := by
  cases act with
  | get key =>
    refine ⟨h.get? key, ?_⟩
    cases he : c.entries.find? fun e => e.1 == key with
    | none =>
      rw [Act.on, onList, get?_of_new h he, listed, he]
      exact ⟨rfl, rfl, rfl⟩
    | some e =>
      rw [Act.on, onList, get?_of_found h he, listed, he, without, ← others_eq h]
      exact ⟨rfl, rfl, rfl⟩
  | put key value =>
    refine ⟨h.put_same key value, ?_⟩
    cases he : c.entries.find? fun e => e.1 == key with
    | none =>
      rw [Act.on, onList, put_of_new h he, listed, he, entries_withRoom h]
      exact ⟨capacity_withRoom h, rfl, rfl⟩
    | some e =>
      rw [Act.on, onList, put_of_found h he, listed, he, without, ← others_eq h]
      exact ⟨rfl, rfl, rfl⟩
  | contains key => exact ⟨h, rfl, by rw [Act.on, onList, contains_eq h], rfl⟩
  | erase key =>
    refine ⟨h.erase key, ?_⟩
    rw [Act.on, onList, Lru.erase, ← contains_eq h]
    cases hknown : c.contains key with
    | true => exact ⟨rfl, rfl, others_eq h⟩
    | false =>
      rw [Bool.eq_false_iff, ne_eq, contains_iff h] at hknown
      have hall : without c.entries key = c.entries := by
        rw [without, List.filter_eq_self]
        intro e he
        rw [Bool.not_eq_true', Bool.eq_false_iff]
        exact fun hkey => hknown ⟨e, he, hkey⟩
      rw [hall]
      exact ⟨rfl, rfl, rfl⟩
  | clear => exact ⟨h.clear, rfl, rfl, rfl⟩

/-! ## Histories -/

/-- **A table is its list of entries**: a history comes to the same on both, and the table that it leaves
has the entries of the list that it leaves. -/
theorem replies_eq (h : c.InStep []) (acts : List (Act κ ν)) :
    replies on acts c = replies (onList c.capacity) acts c.entries ∧
      (after on acts c).entries = after (onList c.capacity) acts c.entries ∧
      (after on acts c).capacity = c.capacity ∧ (after on acts c).InStep [] := by
  induction acts generalizing c with
  | nil => exact ⟨rfl, rfl, rfl, h⟩
  | cons act acts ih =>
    obtain ⟨hstep, hcapacity, hreply, hlist⟩ := on_eq h act
    obtain ⟨hreplies, hentries, hcapacity', hleft⟩ := ih hstep
    rw [hcapacity, hlist] at hreplies hentries
    rw [hcapacity] at hcapacity'
    refine ⟨?_, hentries, hcapacity', hleft⟩
    rw [replies, replies, hreply, hreplies]

theorem inStep_left (acts : List (Act κ ν)) (capacity : Nat) : (left acts capacity).InStep [] :=
  (replies_eq (inStep_ofCapacity capacity) acts).2.2.2

theorem capacity_left (acts : List (Act κ ν)) (capacity : Nat) :
    (left acts capacity).capacity = max capacity 1 :=
  (replies_eq (inStep_ofCapacity capacity) acts).2.2.1

/-! ## Counters -/

/-- A lookup counts as a hit or as a miss, and nothing else does. -/
theorem hits_on (h : c.InStep []) (act : Act κ ν) :
    (act.on c).2.hits + (act.on c).2.misses = c.hits + c.misses + if act.isGet then 1 else 0 := by
  cases act with
  | get key =>
    cases he : c.entries.find? fun e => e.1 == key with
    | none =>
      rw [Act.on, get?_of_new h he]
      rfl
    | some e =>
      rw [Act.on, get?_of_found h he]
      show c.hits + 1 + c.misses = c.hits + c.misses + 1
      omega
  | put key value =>
    obtain ⟨-, hhits, hmisses⟩ := counters_put h key value
    show (c.put key value).hits + (c.put key value).misses = _
    rw [hhits, hmisses]
    rfl
  | contains key => rfl
  | erase key =>
    rw [Act.on, Lru.erase]
    split <;> rfl
  | clear => rfl

/-- A new key is an entry more, unless an entry is dropped for it. -/
theorem evictions_on (h : c.InStep []) (act : Act κ ν) :
    (act.on c).2.evictions + act.removed c + (act.on c).2.size =
      c.evictions + act.inserted c + c.size := by
  obtain ⟨hstep, -, -, hentries⟩ := on_eq h act
  rw [size_eq_length hstep, size_eq_length h]
  cases act with
  | get key =>
    cases he : c.entries.find? fun e => e.1 == key with
    | none =>
      rw [Act.on, get?_of_new h he]
      rfl
    | some e =>
      have hlength := (perm_others he).length_eq
      rw [Act.on, get?_of_found h he]
      show c.evictions + 0 + (e :: c.others key).length = c.evictions + 0 + c.entries.length
      rw [hlength]
  | put key value =>
    cases he : c.entries.find? fun e => e.1 == key with
    | none =>
      obtain ⟨-, -, hevictions⟩ := counters_withRoom h
      have hnew : c.contains key = false := by
        rw [contains_eq h, listed, he]
        rfl
      rw [Act.on, put_of_new h he, inserted, hnew]
      show c.withRoom.evictions + 0 + (c.withRoom.entries.length + 1) = c.evictions + 1 + c.entries.length
      omega
    | some e =>
      have hlength := (perm_others he).length_eq
      have hknown : c.contains key = true := by
        rw [contains_eq h, listed, he]
        rfl
      rw [Act.on, put_of_found h he, inserted, hknown]
      show c.evictions + 0 + (c.others key).length.succ = c.evictions + 0 + c.entries.length
      rw [hlength, List.length_cons]
  | contains key => rfl
  | erase key =>
    rw [Act.on, Lru.erase, removed]
    cases hknown : c.contains key with
    | false => rfl
    | true =>
      obtain ⟨e, he, hkey⟩ := (contains_iff h).mp hknown
      have hlength : (c.others key).length = c.entries.length - 1 := List.length_eraseP_of_mem he hkey
      have hpos : 0 < c.entries.length := List.length_pos_of_mem he
      show c.evictions + 1 + (c.others key).length = c.evictions + 0 + c.entries.length
      omega
  | clear =>
    rw [removed, size_eq_length h]
    rfl

theorem hits_add_misses (h : c.InStep []) (acts : List (Act κ ν)) :
    (after on acts c).hits + (after on acts c).misses = c.hits + c.misses + acts.countP isGet := by
  induction acts generalizing c with
  | nil => rfl
  | cons act acts ih =>
    have hact := hits_on h act
    have hrest := ih (on_eq h act).1
    rw [List.countP_cons]
    show (after on acts (act.on c).2).hits + (after on acts (act.on c).2).misses = _
    omega

theorem evictions_add (h : c.InStep []) (acts : List (Act κ ν)) :
    (after on acts c).evictions + total removed acts c + (after on acts c).size =
      c.evictions + total inserted acts c + c.size := by
  induction acts generalizing c with
  | nil => rfl
  | cons act acts ih =>
    have hact := evictions_on h act
    have hrest := ih (on_eq h act).1
    rw [total, total]
    show (after on acts (act.on c).2).evictions + _ + (after on acts (act.on c).2).size = _
    omega

end Agreement

end AccessControl.Lru
