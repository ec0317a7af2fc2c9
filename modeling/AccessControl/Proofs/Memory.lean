import AccessControl.Guard.Cache
import AccessControl.Proofs.Tiers
import AccessControl.Template.Memo

/-!
# Memories that only save work

A memory whose entries are right answers whatever room it has: `Lru.Holds R` says that every entry is a
key with a value that `R` allows for it, and using the memory keeps that.  So a remembered template is
compiled as a new one (`TemplateMemo.compile_eq`), and a cache in which every answer is the one that the
store gives now answers as the store does, stale or fresh (`GuardCache.find_answers`).
-/

namespace AccessControl

namespace Lru

variable {κ ν : Type} {R : κ → ν → Prop} {c : Lru κ ν} {key : κ}

/-- Every entry is a key with a value that is right for it. -/
def Holds (R : κ → ν → Prop) (c : Lru κ ν) : Prop := ∀ e ∈ c.entries, R e.1 e.2

theorem holds_of_entries_subset {d : Lru κ ν} (h : c.Holds R)
    (hsub : ∀ e ∈ d.entries, e ∈ c.entries) : d.Holds R := fun e he => h e (hsub e he)

theorem Holds.imp {S : κ → ν → Prop} (h : c.Holds R) (himp : ∀ k v, R k v → S k v) : c.Holds S :=
  fun e he => himp e.1 e.2 (h e he)

theorem holds_ofCapacity (capacity : Nat) : (ofCapacity capacity : Lru κ ν).Holds R := fun _ he =>
  nomatch he

theorem holds_clear (c : Lru κ ν) : c.clear.Holds R := fun _ he => nomatch he

variable [BEq κ]

/-- The entry of a key is one of the entries, under a key that counts as the same. -/
theorem mem_of_entry? {e : κ × ν} (he : c.entry? key = some e) :
    e ∈ c.entries ∧ (e.1 == key) = true := by
  unfold entry? at he
  split at he
  · refine ⟨List.mem_of_find?_eq_some he, ?_⟩
    exact List.find?_some (p := fun e : κ × ν => e.1 == key) he
  · cases he

/-- A lookup serves a right value and keeps the others. -/
theorem holds_get? (h : c.Holds R) (key : κ) :
    (c.get? key).2.Holds R ∧
      ∀ v, (c.get? key).1 = some v → ∃ k, (k == key) = true ∧ R k v := by
  unfold get?
  cases he : c.entry? key with
  | none => exact ⟨h, fun v hv => nomatch hv⟩
  | some e =>
    obtain ⟨hmem, hkey⟩ := mem_of_entry? he
    refine ⟨fun e' he' => ?_, fun v hv => ⟨e.1, hkey, ?_⟩⟩
    · rcases List.mem_cons.mp he' with rfl | he'
      · exact h _ hmem
      · exact h _ (List.mem_of_mem_eraseP he')
    · cases hv
      exact h e hmem

theorem dropOldest_entries_subset (c : Lru κ ν) : ∀ e ∈ c.dropOldest.entries, e ∈ c.entries := by
  intro e he
  unfold dropOldest at he
  split at he
  · exact List.dropLast_subset _ he
  · exact he

/-- What is dropped to make room is missed by nobody. -/
theorem holds_withRoom (h : c.Holds R) : c.withRoom.Holds R := by
  have hdrop (n : Nat) : ∀ c : Lru κ ν, c.Holds R → (dropOldestN n c).Holds R := by
    induction n with
    | zero => exact fun _ h => h
    | succ n ih =>
      exact fun c h => ih _ (holds_of_entries_subset h (dropOldest_entries_subset c))
  exact hdrop _ c h

/-- A value that is right for a key is right to remember. -/
theorem holds_put (h : c.Holds R) {value : ν} (hkey : R key value)
    (hsame : ∀ k, (k == key) = true → R k value) : (c.put key value).Holds R := by
  unfold put
  cases he : c.entry? key with
  | some e =>
    obtain ⟨-, hek⟩ := mem_of_entry? he
    intro e' he'
    rcases List.mem_cons.mp he' with rfl | he'
    · exact hsame _ hek
    · exact h _ (List.mem_of_mem_eraseP he')
  | none =>
    intro e' he'
    rcases List.mem_cons.mp he' with rfl | he'
    · exact hkey
    · exact holds_withRoom h _ he'

end Lru

/-! ## Templates -/

namespace TemplateMemo

/-- Every remembered pattern is that of its template. -/
def Sound (memo : TemplateMemo) : Prop :=
  memo.Holds fun key t => Template.compile key.template key.start key.stop = .ok t

/-- What is kept is the pattern of its template, and so is what was kept before. -/
theorem keep_eq {memo : TemplateMemo} (h : memo.Sound) {key : TemplateKey} {t : CompiledTemplate}
    (ht : key.compile = .ok t) : (keep memo key t).1 = t ∧ (keep memo key t).2.Sound := by
  have hput {memo : TemplateMemo} (h : memo.Sound) : Sound (memo.put key t) :=
    Lru.holds_put h ht fun k hk => by
      rw [eq_of_beq hk]
      exact ht
  have hget := Lru.holds_get? h key
  unfold keep
  split
  · rcases hlookup : memo.get? key with ⟨_ | known, memo'⟩
    · rw [hlookup] at hget
      exact ⟨rfl, hput hget.1⟩
    · rw [hlookup] at hget
      obtain ⟨k, hk, hknown⟩ := hget.2 known rfl
      rw [eq_of_beq hk] at hknown
      exact ⟨Except.ok.inj (hknown.symm.trans ht), hget.1⟩
  · exact ⟨rfl, hput h⟩

theorem learn_eq {memo : TemplateMemo} (h : memo.Sound) (key : TemplateKey) :
    (learn memo key key.compile).1 = key.compile ∧ (learn memo key key.compile).2.Sound := by
  cases hcompile : key.compile with
  | error e => exact ⟨rfl, h⟩
  | ok t =>
    obtain ⟨hkept, hsound⟩ := keep_eq h hcompile
    exact ⟨congrArg Except.ok hkept, hsound⟩

/-- **A remembered template is compiled as a new one.** -/
theorem compile_eq {memo : TemplateMemo} (h : memo.Sound) (template : Bytes) (start stop : UInt8) :
    (memo.compile template start stop).1 = Template.compile template start stop ∧
      (memo.compile template start stop).2.Sound := by
  have hget := Lru.holds_get? h ⟨template, start, stop⟩
  unfold compile compileBy
  rcases hlookup : memo.get? ⟨template, start, stop⟩ with ⟨_ | t, memo'⟩
  · rw [hlookup] at hget
    exact learn_eq hget.1 ⟨template, start, stop⟩
  · rw [hlookup] at hget
    obtain ⟨k, hk, ht⟩ := hget.2 t rfl
    rw [eq_of_beq hk] at ht
    exact ⟨ht.symm, hget.1⟩

end TemplateMemo

/-! ## Answers of a store -/

namespace GuardCache

variable {σ : Type} {cache : Place σ GuardCache} {answer : List (Option Policy)}

/-- Keys are the same if their parts are, and their codes. -/
theorem Key.beq_iff (a b : Key) :
    (a == b) = true ↔ a.hash = b.hash ∧ (a.inquiry == b.inquiry) = true ∧ a.checker = b.checker := by
  show (a.hash == b.hash && a.inquiry == b.inquiry && a.checker == b.checker) = true ↔ _
  rw [Bool.and_eq_true, Bool.and_eq_true, and_assoc]
  exact and_congr beq_iff_eq (and_congr_right' beq_iff_eq)

theorem generation_lookup (c : GuardCache) (key : Key) :
    (c.lookup key).2.generation = c.generation := by
  unfold lookup
  split <;> rfl

theorem generation_remember (c : GuardCache) (key : Key) (generation : Nat)
    (answer : List (Option Policy)) : (c.remember key generation answer).generation = c.generation := by
  unfold remember
  split <;> rfl

/-- Every remembered answer is this one. -/
def Recalls (c : GuardCache) (answer : List (Option Policy)) : Prop :=
  c.table.Holds fun _ a => a = answer

theorem recalls_ofCapacity (capacity : Nat) : (ofCapacity capacity).Recalls answer :=
  Lru.holds_ofCapacity capacity

theorem recalls_policiesChanged (c : GuardCache) : c.policiesChanged.Recalls answer :=
  Lru.holds_clear c.table

/-- A lookup serves a right answer and keeps the others. -/
theorem holds_lookup {R : Key → List (Option Policy) → Prop} {c : GuardCache} (h : c.table.Holds R)
    (key : Key) :
    (c.lookup key).2.table.Holds R ∧
      ∀ a, (c.lookup key).1 = some a → ∃ k, (k == key) = true ∧ R k a := by
  unfold lookup
  split
  · exact ⟨h, fun a ha => nomatch ha⟩
  · exact Lru.holds_get? h key

/-- An answer that is right while the generation lasts is right to remember. -/
theorem holds_remember {R : Key → List (Option Policy) → Prop} {c : GuardCache}
    (h : c.table.Holds R) {key : Key} {generation : Nat}
    (hkey : c.generation = generation → R key answer)
    (hsame : c.generation = generation → ∀ k, (k == key) = true → R k answer) :
    (c.remember key generation answer).table.Holds R := by
  unfold remember
  split
  · next hgeneration => exact Lru.holds_put h (hkey hgeneration) (hsame hgeneration)
  · exact h

theorem recalls_lookup {c : GuardCache} (h : c.Recalls answer) (key : Key) :
    (c.lookup key).2.Recalls answer ∧ ∀ a, (c.lookup key).1 = some a → a = answer := by
  obtain ⟨hkept, hserved⟩ := holds_lookup h key
  refine ⟨hkept, fun a ha => ?_⟩
  obtain ⟨_, _, ha⟩ := hserved a ha
  exact ha

theorem recalls_remember {c : GuardCache} (h : c.Recalls answer) (key : Key) (generation : Nat) :
    (c.remember key generation answer).Recalls answer :=
  holds_remember h (fun _ => rfl) fun _ _ _ => rfl

/-- A call serves what is remembered, or asks the store and keeps its answer. -/
theorem find_apply (cache : Place σ GuardCache) (store : Store σ) (q : Inquiry)
    (kind : Option CheckerKind) (s : σ) :
    find cache store q kind s =
      (match (cache.read s).lookup (Key.of q kind) with
        | (some a, c) => (.ok a, cache.write c s)
        | (none, c) =>
          match store.find q kind (cache.write c s) with
          | (.ok a, s') =>
            (.ok a,
              cache.write ((cache.read s').remember (Key.of q kind) (cache.read s).generation a) s')
          | (.error failure, s') => (.error failure, s')) := by
  rw [find, Run.bind_apply]
  simp only [Place.get]
  rw [Run.bind_apply]
  simp only [Place.run]
  rcases (cache.read s).lookup (Key.of q kind) with ⟨_ | a, c⟩
  · simp only
    rw [Run.bind_apply]
    rcases store.find q kind (cache.write c s) with ⟨_ | a, s'⟩ <;> rfl
  · rfl

theorem lookup_of_stale {c : GuardCache} (h : c.stale = true) (key : Key) : c.lookup key = (none, c) :=
  if_pos h

/-- **A cache answers as its store does**, if the store just answers, and the cache is stale or recalls
nothing else.  Whatever it recalls, nothing but the cache changes. -/
theorem find_answers {store : Store σ} {q : Inquiry} {kind : Option CheckerKind} {s : σ}
    (hlawful : cache.Lawful)
    (hstore : ∀ c, store.find q kind (cache.write c s) = (.ok answer, cache.write c s)) :
    ∃ a c, find cache store q kind s = (.ok a, cache.write c s) ∧
      ((cache.read s).stale = true → a = answer) ∧
      ((cache.read s).Recalls answer → a = answer ∧ c.Recalls answer) := by
  have hkept (hrecalls : (cache.read s).Recalls answer) := recalls_lookup hrecalls (Key.of q kind)
  have hstale (h : (cache.read s).stale = true) := lookup_of_stale h (Key.of q kind)
  rw [find_apply]
  rcases hserved : (cache.read s).lookup (Key.of q kind) with ⟨_ | a, c⟩
  · -- the store is asked, and its answer may be kept
    rw [hserved] at hkept
    refine ⟨answer, c.remember (Key.of q kind) (cache.read s).generation answer, ?_, fun _ => rfl,
      fun hrecalls => ⟨rfl, recalls_remember (hkept hrecalls).1 _ _⟩⟩
    simp only
    rw [hstore]
    simp only
    rw [hlawful.read_write, hlawful.write_write]
  · -- what is served is recalled
    rw [hserved] at hkept hstale
    refine ⟨a, c, rfl, fun h => ?_, fun hrecalls => ?_⟩
    · cases hstale h
    · exact ⟨(hkept hrecalls).2 a rfl, (hkept hrecalls).1⟩

theorem find_eq {store : Store σ} {q : Inquiry} {kind : Option CheckerKind} {s : σ}
    (hlawful : cache.Lawful) (hrecalls : (cache.read s).Recalls answer)
    (hstore : ∀ c, store.find q kind (cache.write c s) = (.ok answer, cache.write c s)) :
    ∃ c, c.Recalls answer ∧ find cache store q kind s = (.ok answer, cache.write c s) := by
  obtain ⟨a, c, hfind, -, hright⟩ := find_answers hlawful hstore
  obtain ⟨rfl, hkept⟩ := hright hrecalls
  exact ⟨c, hkept, hfind⟩

end GuardCache

end AccessControl
