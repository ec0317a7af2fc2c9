import AccessControl.Proofs.Equality
import AccessControl.Proofs.Memory
import AccessControl.Proofs.Recency.Index
import AccessControl.Store.Table

/-!
# How much room a cache takes

A cache keeps no more entries than it has room for.  Its size is the number of keys in its index, and
those are the keys of the entries that can be found again, with the keys that were lost
(`GuardCache.inStep_after`).  An inquiry with not-a-number in it is not equal to itself, so its key is never
found (`GuardCache.Key.findable_iff`), neither to serve an answer nor when its entry is dropped, and stays
in the index until the cache is emptied.  Without such inquiries the index holds one key for each entry
(`GuardCache.size_eq_findable_add_lost`).

What happens to a cache are moves (`GuardCache.Move`), and a call is some of them: a lookup and, if it
serves nothing, whatever happens to the cache while the store is asked, and what is remembered of the
answer (`GuardCache.snd_on`).
-/

namespace AccessControl

namespace GuardCache

namespace Key

/-- Keys are found again unless their inquiry has not-a-number in it. -/
theorem findable_iff (k : Key) : Lru.findable k = true ↔ k.inquiry.NanFree := by
  rw [Lru.findable, beq_iff, Inquiry.equal_self_iff]
  exact ⟨fun h => h.2.1, fun h => ⟨rfl, h, rfl⟩⟩

instance : KeyBEq Key where
  symm {a b} h := by
    obtain ⟨hhash, hinquiry, hchecker⟩ := (beq_iff a b).mp h
    exact (beq_iff b a).mpr ⟨hhash.symm, Inquiry.equal_symm hinquiry, hchecker.symm⟩
  self {a b} h := (findable_iff a).mpr (Inquiry.nanFree_of_equal ((beq_iff a b).mp h).2.1)

end Key

variable {σ : Type} {c : GuardCache} {lost : List Key}

/-! ## Moves -/

/-- What happens to a cache at once. -/
inductive Move where
  | lookup (key : Key)
  | remember (key : Key) (generation : Nat) (answer : List (Option Policy))
  | markStale
  | markFresh
  | invalidate
  | policiesChanged

namespace Move

/-- The cache after a move. -/
def on (m : Move) (c : GuardCache) : GuardCache :=
  match m with
  | lookup key => (c.lookup key).2
  | remember key generation answer => c.remember key generation answer
  | markStale => c.markStale
  | markFresh => c.markFresh
  | invalidate => c.invalidate
  | policiesChanged => c.policiesChanged

/-- The keys that are lost after a move: a key that cannot be found again is lost when an answer is put
under it, until the cache is emptied. -/
def loses (m : Move) (c : GuardCache) (lost : List Key) : List Key :=
  match m with
  | remember key generation _ =>
    if c.generation = generation then if Lru.findable key then lost else key :: lost else lost
  | invalidate | policiesChanged => []
  | lookup _ | markStale | markFresh => lost

/-- No answer is put under a key with not-a-number. -/
def NanFree : Move → Prop
  | remember key _ _ => key.inquiry.NanFree
  | _ => True

end Move

/-- The cache after moves. -/
def after (moves : List Move) (c : GuardCache) : GuardCache := moves.foldl (fun c m => m.on c) c

/-- The keys that are lost after moves. -/
def lostAfter : List Move → GuardCache → List Key → List Key
  | [], _, lost => lost
  | m :: rest, c, lost => lostAfter rest (m.on c) (m.loses c lost)

theorem capacity_lookup (c : GuardCache) (key : Key) :
    (c.lookup key).2.table.capacity = c.table.capacity := by
  unfold lookup
  split
  · rfl
  · exact Lru.capacity_get? c.table key

theorem inStep_lookup (h : c.table.InStep lost) (key : Key) : (c.lookup key).2.table.InStep lost := by
  unfold lookup
  split
  · exact h
  · exact h.get? key

/-- **A move keeps the index in step**, with the keys that it loses. -/
theorem inStep_on (h : c.table.InStep lost) (m : Move) :
    (m.on c).table.InStep (m.loses c lost) ∧ (m.on c).table.capacity = c.table.capacity := by
  cases m with
  | lookup key => exact ⟨inStep_lookup h key, capacity_lookup c key⟩
  | remember key generation answer =>
    rw [Move.on, Move.loses, remember]
    split
    · obtain ⟨hcapacity, -, -⟩ := Lru.counters_put h key answer
      exact ⟨h.put key answer, hcapacity⟩
    · exact ⟨h, rfl⟩
  | markStale => exact ⟨h, rfl⟩
  | markFresh => exact ⟨h, rfl⟩
  | invalidate => exact ⟨h.clear, rfl⟩
  | policiesChanged => exact ⟨h.clear, rfl⟩

/-- **The index of a cache** holds the keys of its entries that can be found again, and those that are
lost. -/
theorem inStep_after (h : c.table.InStep lost) (moves : List Move) :
    (after moves c).table.InStep (lostAfter moves c lost) ∧
      (after moves c).table.capacity = c.table.capacity := by
  induction moves generalizing c lost with
  | nil => exact ⟨h, rfl⟩
  | cons m moves ih =>
    obtain ⟨hstep, hcapacity⟩ := inStep_on h m
    obtain ⟨hafter, hcapacity'⟩ := ih hstep
    exact ⟨hafter, hcapacity'.trans hcapacity⟩

/-! ### Without not-a-number -/

theorem loses_of_nanFree {m : Move} (hm : m.NanFree) (c : GuardCache) : m.loses c [] = [] := by
  cases m with
  | remember key generation answer =>
    rw [Move.loses, if_pos ((Key.findable_iff key).mpr hm), ite_self]
  | _ => rfl

/-- All keys can be found again. -/
def AllFindable (c : GuardCache) : Prop := c.table.Holds fun k _ => Lru.findable k = true

theorem allFindable_on (h : c.AllFindable) {m : Move} (hm : m.NanFree) : (m.on c).AllFindable := by
  cases m with
  | lookup key => exact (holds_lookup h key).1
  | remember key generation answer =>
    exact holds_remember h (fun _ => (Key.findable_iff key).mpr hm) fun _ _ hsame => KeyBEq.self hsame
  | markStale => exact h
  | markFresh => exact h
  | invalidate => exact Lru.holds_clear _
  | policiesChanged => exact Lru.holds_clear _

/-- Nothing is lost if no answer is put under a key with not-a-number. -/
theorem lostAfter_of_nanFree {moves : List Move} (hmoves : ∀ m ∈ moves, m.NanFree)
    (h : c.AllFindable) : lostAfter moves c [] = [] ∧ (after moves c).AllFindable := by
  induction moves generalizing c with
  | nil => exact ⟨rfl, h⟩
  | cons m moves ih =>
    have hm := hmoves m List.mem_cons_self
    rw [lostAfter, loses_of_nanFree hm]
    exact ih (fun m' hm' => hmoves m' (List.mem_cons_of_mem _ hm')) (allFindable_on h hm)

/-! ## Calls -/

/-- A store that is asked while other things happen to the cache beside it. -/
def busy (store : Store σ) (meanwhile : List Move) : Store (σ × GuardCache) :=
  { store.within Place.fst with
    find := fun q kind w => ((store.find q kind w.1).1, (store.find q kind w.1).2, after meanwhile w.2) }

/-- A use of a cache: a call, from whichever store it is asked and whatever happens meanwhile, or a move
by itself. -/
inductive Use (σ : Type) where
  | find (store : Store σ) (q : Inquiry) (kind : Option CheckerKind) (meanwhile : List Move)
  | move (m : Move)

namespace Use

/-- A use of a cache, next to the world of the stores. -/
def on (use : Use σ) (w : σ × GuardCache) : σ × GuardCache :=
  match use with
  | find store q kind meanwhile => (GuardCache.find Place.snd (busy store meanwhile) q kind w).2
  | move m => (w.1, m.on w.2)

/-- What happens to the cache in a use. -/
def moves (use : Use σ) (w : σ × GuardCache) : List Move :=
  match use with
  | find store q kind meanwhile =>
    .lookup (Key.of q kind) ::
      if (w.2.lookup (Key.of q kind)).1.isSome then []
      else
        match (store.find q kind w.1).1 with
        | .ok answer => meanwhile ++ [.remember (Key.of q kind) w.2.generation answer]
        | .error _ => meanwhile
  | move m => [m]

/-- No inquiry with not-a-number is asked. -/
def NanFree : Use σ → Prop
  | find _ q _ meanwhile => q.NanFree ∧ ∀ m ∈ meanwhile, m.NanFree
  | move m => m.NanFree

end Use

/-- What uses of a cache leave. -/
def left (uses : List (Use σ)) (w : σ × GuardCache) : σ × GuardCache :=
  uses.foldl (fun w use => use.on w) w

/-- What happens to the cache in uses. -/
def movesOf : List (Use σ) → σ × GuardCache → List Move
  | [], _ => []
  | use :: rest, w => use.moves w ++ movesOf rest (use.on w)

theorem after_append (front back : List Move) (c : GuardCache) :
    after (front ++ back) c = after back (after front c) := List.foldl_append

/-- **A use is its moves.** -/
theorem snd_on (use : Use σ) (w : σ × GuardCache) : (use.on w).2 = after (use.moves w) w.2 := by
  obtain ⟨s, c⟩ := w
  cases use with
  | move m => rfl
  | find store q kind meanwhile =>
    rw [Use.on, Use.moves, find_apply]
    show _ = after _ (c.lookup (Key.of q kind)).2
    simp only [Place.snd, busy]
    rcases c.lookup (Key.of q kind) with ⟨_ | a, c'⟩
    · rcases store.find q kind s with ⟨_ | answer, s'⟩
      · rfl
      · simp only [Option.isSome_none, Bool.false_eq_true, if_false]
        rw [after_append]
        rfl
    · rfl

theorem snd_left (uses : List (Use σ)) (w : σ × GuardCache) :
    (left uses w).2 = after (movesOf uses w) w.2 := by
  induction uses generalizing w with
  | nil => rfl
  | cons use uses ih =>
    rw [movesOf, after_append, ← snd_on]
    exact ih (use.on w)

theorem nanFree_moves {use : Use σ} (huse : use.NanFree) (w : σ × GuardCache) :
    ∀ m ∈ use.moves w, m.NanFree := by
  cases use with
  | move m =>
    intro m' hm'
    rw [List.mem_singleton.mp hm']
    exact huse
  | find store q kind meanwhile =>
    obtain ⟨hq, hmeanwhile⟩ := huse
    rw [Use.moves, List.forall_mem_cons]
    refine ⟨trivial, ?_⟩
    split
    · exact fun _ hm => nomatch hm
    · split
      · intro m hm
        rcases List.mem_append.mp hm with hm | hm
        · exact hmeanwhile m hm
        · rw [List.mem_singleton.mp hm]
          exact hq
      · exact hmeanwhile

theorem nanFree_movesOf {uses : List (Use σ)} (huses : ∀ use ∈ uses, use.NanFree) (w : σ × GuardCache) :
    ∀ m ∈ movesOf uses w, m.NanFree := by
  induction uses generalizing w with
  | nil => exact fun _ hm => nomatch hm
  | cons use uses ih =>
    intro m hm
    rcases List.mem_append.mp hm with hm | hm
    · exact nanFree_moves (huses use List.mem_cons_self) w m hm
    · exact ih (fun u hu => huses u (List.mem_cons_of_mem _ hu)) _ m hm

/-- **How much room a cache takes**, for every capacity, all stores and every sequence of uses.

The entries stay within the capacity.  The index holds the keys of the entries that can be found again,
and the keys that were lost since the cache was emptied last, all of them of inquiries with not-a-number;
this is what the size counts.  If no such inquiry is asked, the size stays within the capacity and the
index holds one key for each entry. -/
theorem size_eq_findable_add_lost (capacity : Nat) (uses : List (Use σ)) (s : σ) :
    let c := (left uses (s, ofCapacity capacity)).2
    let lost := lostAfter (movesOf uses (s, ofCapacity capacity)) (ofCapacity capacity) []
    c.table.entries.length ≤ max capacity 1 ∧
      c.table.index.Perm (c.table.keys.filter Lru.findable ++ lost) ∧
      c.size = (c.table.keys.filter Lru.findable).length + lost.length ∧
      (∀ k ∈ lost, ¬ k.inquiry.NanFree) ∧
      ((∀ use ∈ uses, use.NanFree) →
        c.size ≤ max capacity 1 ∧ c.table.index.Perm c.table.keys) := by
  intro c lost
  have hc : c = after (movesOf uses (s, ofCapacity capacity)) (ofCapacity capacity) := snd_left uses _
  obtain ⟨hinStep, hcapacity⟩ : c.table.InStep lost ∧ c.table.capacity = max capacity 1 := by
    rw [hc]
    exact inStep_after (Lru.inStep_ofCapacity capacity) _
  have hroom : c.table.entries.length ≤ max capacity 1 := hcapacity ▸ hinStep.room
  refine ⟨hroom, hinStep.index, Lru.size_eq hinStep, fun k hk hnan => ?_, fun huses => ?_⟩
  · have hlost := hinStep.lost k hk
    rw [(Key.findable_iff k).mpr hnan] at hlost
    cases hlost
  · obtain ⟨hlost, hfindable⟩ : lost = [] ∧ c.AllFindable := by
      rw [hc]
      exact lostAfter_of_nanFree (nanFree_movesOf huses _) (Lru.holds_ofCapacity capacity)
    have hkeys : c.table.keys.filter Lru.findable = c.table.keys := by
      rw [List.filter_eq_self]
      intro k hk
      obtain ⟨e, he, rfl⟩ := List.mem_map.mp hk
      exact hfindable e he
    have hindex := hinStep.index
    rw [hlost, List.append_nil, hkeys] at hindex
    refine ⟨?_, hindex⟩
    have hlength := hindex.length_eq
    rw [Lru.keys, List.length_map] at hlength
    exact Nat.le_trans (Nat.le_of_eq hlength) hroom

/-- A call by a subject, where there are no policies. -/
def askBy (subject : Value) : Use PolicyTable := .find (PolicyTable.store .whole) { subject } none []

theorem size_eq_findable_add_lost_twoTexts :
    let c := (left [.move .markFresh, askBy (.string [97]), askBy (.string [98])]
      ({}, ofCapacity 1)).2
    c.size ≤ 1 ∧ c.table.index.Perm c.table.keys := by
  have hsubject (text : Bytes) : (askBy (.string text)).NanFree :=
    ⟨(Inquiry.nanFree_iff _).mpr ⟨trivial, trivial, trivial, trivial⟩, fun _ h => nomatch h⟩
  refine (size_eq_findable_add_lost 1 _ ({} : PolicyTable)).2.2.2.2 ?_
  simp only [List.forall_mem_cons]
  exact ⟨trivial, hsubject [97], hsubject [98], fun _ h => nomatch h⟩

/-- Not-a-number asks twice where there is room for one entry. -/
theorem size_of_notANumber :
    let c := (left [.move .markFresh, askBy (.double .nan), askBy (.double .nan)]
      ({}, ofCapacity 1)).2
    c.size = 2 ∧ c.table.entries.length = 1 := ⟨rfl, rfl⟩

end GuardCache

end AccessControl
