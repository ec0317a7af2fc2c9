import AccessControl.Proofs.Calls
import AccessControl.Proofs.Decision
import AccessControl.Proofs.Tiers

/-!
# Two tiers as one table

Once the cache tier of a store has been filled from its primary tier, the store cannot be told from the
table of the primary tier: every change and every question, refused or not, comes to the same
(`TwoTier.outcomes_eq`).  Both tiers hold the table (`TwoTier.Holds`), and every call keeps that
(`TwoTier.on_holds`).  Filling the cache tier again changes nothing and loads nothing
(`TwoTier.populate_of_equal`), whether it succeeds or not.
-/

namespace AccessControl

namespace Feed

variable {σ α : Type} {f : Feed σ} {visit : α → Policy → Run Failure σ (α × Bool)} {a : α} {s : σ}

theorem visitPage_still {page : List Policy} (hvisit : ∀ p ∈ page, visit a p s = (.ok (a, true), s))
    (progress : Progress α) (hgathered : progress.gathered = a) :
    ∃ progress', visitPage visit page progress s = (.ok progress', s) ∧ progress'.gathered = a := by
  induction page generalizing progress with
  | nil => exact ⟨progress, rfl, hgathered⟩
  | cons p page ih =>
    have hp := hvisit p (List.mem_cons_self ..)
    obtain ⟨progress', hrest, hgathered'⟩ :=
      ih (fun p' hp' => hvisit p' (List.mem_cons_of_mem _ hp')) ⟨a, progress.visited + 1, true⟩ rfl
    refine ⟨progress', ?_, hgathered'⟩
    rw [visitPage, Run.bind_apply, hgathered, hp]
    exact hrest

/-- A walk changes nothing and gathers nothing, if the store answers without changing and no visit to a
policy that it names changes anything. -/
theorem visitPages_still (hask : ∀ limit offset, (f.store.getAll limit offset s).2 = s)
    (hvisit : ∀ limit offset page, (f.store.getAll limit offset s).1 = .ok page →
      ∀ p ∈ page, visit a p s = (.ok (a, true), s))
    (pages : Nat) (offset : Int64) (progress : Progress α) (hgathered : progress.gathered = a) :
    (f.visitPages visit pages offset progress s).2 = s ∧
      ∀ progress', (f.visitPages visit pages offset progress s).1 = .ok progress' →
        progress'.gathered = a := by
  induction pages generalizing offset progress with
  | zero => exact ⟨rfl, fun progress' h => by cases h; exact hgathered⟩
  | succ pages ih =>
    have hsame := hask f.limit offset
    have hpage := hvisit f.limit offset
    rw [visitPages, Run.bind_apply]
    rcases hasked : f.store.getAll f.limit offset s with ⟨reason | page, s'⟩
    · rw [hasked] at hsame
      exact ⟨hsame, fun progress' h => by cases h⟩
    · rw [hasked] at hsame hpage
      obtain rfl : s' = s := hsame
      simp only
      cases page with
      | nil => exact ⟨rfl, fun progress' h => by cases h; exact hgathered⟩
      | cons p page =>
        obtain ⟨progress₁, hvisited, hgathered₁⟩ :=
          visitPage_still (hpage (p :: page) rfl) progress hgathered
        simp only [List.isEmpty_cons, Bool.false_eq_true, if_false]
        rw [Run.bind_apply, hvisited]
        simp only
        split
        · exact ih (offset + f.limit) progress₁ hgathered₁
        · exact ⟨rfl, fun progress' h => by cases h; exact hgathered₁⟩

end Feed

namespace TwoTier

open PolicyTable

variable {σ : Type} {primary cache : Place σ PolicyTable} {s : σ} {t : PolicyTable}

/-- Both tiers hold the table. -/
structure Holds (primary cache : Place σ PolicyTable) (t : PolicyTable) (s : σ) : Prop where
  primary : primary.read s = t
  cache : cache.read s = t

/-! ## One call -/

theorem exchange_holds (hprimary : primary.Lawful) (hcache : cache.Lawful)
    (hapart : primary.Apart cache) (h : Holds primary cache t s) (codes : List ErrorCode)
    (f : PolicyTable → Except PolicyError PolicyTable) :
    ((do tolerating codes (exchange primary f); exchange cache f : Run Failure σ Unit) s).1 =
        (exchange Place.whole f t).1 ∧
      Holds primary cache (exchange Place.whole f t).2
        ((do tolerating codes (exchange primary f); exchange cache f : Run Failure σ Unit) s).2 := by
  have hboth : (primary.both cache).read s = t := h.primary
  have hwhole : Place.whole.read t = t := rfl
  rw [exchange_both hapart (h.cache.trans h.primary.symm), exchange, exchange, hboth, hwhole]
  cases f t with
  | ok t' =>
    refine ⟨rfl, ?_, hcache.read_write _ _⟩
    show primary.read (cache.write t' (primary.write t' s)) = t'
    rw [hapart.read_left, hprimary.read_write]
  | error reason => exact ⟨rfl, h⟩

theorem ask_holds {α : Type} (h : Holds primary cache t s) (isMiss : α → Bool)
    (f : PolicyTable → Except PolicyError α) (answer : α → StoreAnswer) :
    ((answer <$> readThrough isMiss (ask cache f) (ask primary f)) s).1 =
        ((answer <$> (ask Place.whole f : Run Failure PolicyTable α)) t).1 ∧
      Holds primary cache ((answer <$> (ask Place.whole f : Run Failure PolicyTable α)) t).2
        ((answer <$> readThrough isMiss (ask cache f) (ask primary f)) s).2 := by
  have hboth : (primary.both cache).read s = t := h.primary
  rw [Run.map_apply, Run.map_apply, ask_both (h.cache.trans h.primary.symm), ask, hboth]
  exact ⟨rfl, h⟩

/-- **A call of equal tiers** is a call of the table that they hold, and they hold what it leaves. -/
theorem on_holds (hprimary : primary.Lawful) (hcache : cache.Lawful) (hapart : primary.Apart cache)
    (h : Holds primary cache t s) (call : StoreCall) :
    (call.on (store (PolicyTable.store primary) (PolicyTable.store cache)) s).1 =
        (call.on (PolicyTable.store Place.whole) t).1 ∧
      Holds primary cache (call.on (PolicyTable.store Place.whole) t).2
        (call.on (store (PolicyTable.store primary) (PolicyTable.store cache)) s).2 := by
  cases call with
  | change c =>
    rw [StoreCall.on, StoreCall.on, Run.map_apply, Run.map_apply]
    have hchange : (c.on (store (PolicyTable.store primary) (PolicyTable.store cache)) s).1 =
          (c.on (PolicyTable.store Place.whole) t).1 ∧
        Holds primary cache (c.on (PolicyTable.store Place.whole) t).2
          (c.on (store (PolicyTable.store primary) (PolicyTable.store cache)) s).2 := by
      cases c with
      | add p => exact exchange_holds hprimary hcache hapart h _ (·.add p)
      | update p => exact exchange_holds hprimary hcache hapart h _ (·.update p)
      | remove uid => exact exchange_holds hprimary hcache hapart h _ fun t => .ok (t.erase uid)
    exact ⟨congrArg (Except.map _) hchange.1, hchange.2⟩
  | get uid => exact ask_holds h Option.isNone (fun t => .ok (t.find? uid)) .policy
  | getAll limit offset => exact ask_holds h List.isEmpty (fun t => page t limit offset) .page
  | find q kind =>
    exact ask_holds h List.isEmpty (fun t => (candidates t kind).map (List.map some)) .candidates

/-! ## Filling equal tiers -/

/-- A policy of the cache tier is not loaded again. -/
theorem load_of_mem {p : Policy} (hp : p ∈ (cache.read s).toList) (loaded : Nat) :
    load (PolicyTable.store cache) loaded p s = (.ok (loaded, true), s) := by
  have hknown : (cache.read s).contains p.uid = true := Keyed.contains_iff.mpr ⟨p, hp, rfl⟩
  rw [load, Run.tryCatch_apply, Run.bind_apply]
  simp only [PolicyTable.store, exchange, PolicyTable.add, hknown, if_true, PolicyError.code]
  rfl

theorem mem_of_mem_page {t : PolicyTable} {limit offset : Int64} {l : List Policy} {p : Policy}
    (h : t.page limit offset = .ok l) (hp : p ∈ l) : p ∈ t.toList := by
  unfold page at h
  split at h
  · cases h
  · cases h
    exact List.mem_of_mem_drop (List.mem_of_mem_take hp)

/-- **Filling a tier that holds the policies** changes nothing and loads nothing, whether the walk comes
to its end or is refused on its way. -/
theorem populate_of_equal (hs : cache.read s = primary.read s) (batch : UInt64) :
    (populate (PolicyTable.store primary) (PolicyTable.store cache) batch s).2 = s ∧
      ∀ loaded, (populate (PolicyTable.store primary) (PolicyTable.store cache) batch s).1 =
        .ok loaded → loaded = 0 := by
  let feed : Feed σ := Feed.ofStore
    { PolicyTable.store primary with
      extent := (store (PolicyTable.store primary) (PolicyTable.store cache)).extent } batch
  let walk := feed.visitPages (load (PolicyTable.store cache)) (feed.store.extent s + 1) 0
    { gathered := 0 } s
  have hpopulate : populate (PolicyTable.store primary) (PolicyTable.store cache) batch s =
      (walk.1.map (·.gathered), walk.2) := by
    rw [populate, ← map_eq_pure_bind, Run.map_apply]
    rfl
  -- the pages are policies of the primary tier, and those are loaded
  have hvisit : ∀ limit offset l, (feed.store.getAll limit offset s).1 = .ok l →
      ∀ p ∈ l, load (PolicyTable.store cache) 0 p s = (.ok (0, true), s) := by
    intro limit offset l hl p hp
    have hl : ((primary.read s).page limit offset).mapError Failure.refused = .ok l := hl
    cases hpage : (primary.read s).page limit offset with
    | error reason =>
      rw [hpage] at hl
      cases hl
    | ok l' =>
      rw [hpage] at hl
      cases hl
      exact load_of_mem (hs ▸ mem_of_mem_page hpage hp) 0
  have hwalk : walk.2 = s ∧ ∀ progress, walk.1 = .ok progress → progress.gathered = 0 :=
    Feed.visitPages_still (fun _ _ => rfl) hvisit (feed.store.extent s + 1) 0 { gathered := 0 } rfl
  rw [hpopulate]
  refine ⟨hwalk.1, fun loaded hloaded => ?_⟩
  rcases hresult : walk.1 with reason | progress
  · rw [hresult] at hloaded
    cases hloaded
  · rw [hresult] at hloaded
    cases hloaded
    exact hwalk.2 progress hresult

end TwoTier

/-! ## Histories -/

/-- What is done to a store of two tiers. -/
inductive TierAct where
  | call (c : StoreCall)
  | populate (batch : UInt64)

namespace TierAct

variable {σ : Type}

/-- The call that an act is, if it is one. -/
def call? : TierAct → Option StoreCall
  | call c => some c
  | populate _ => none

/-- What the calls among acts come to, one after the other, and the world that the acts leave. -/
def outcomes (primary cache : Store σ) : List TierAct → σ → List (Except Failure StoreAnswer) × σ
  | [], s => ([], s)
  | call c :: rest, s =>
    let (answer, s) := c.on (TwoTier.store primary cache) s
    let (answers, s) := outcomes primary cache rest s
    (answer :: answers, s)
  | populate batch :: rest, s => outcomes primary cache rest (TwoTier.populate primary cache batch s).2

end TierAct

namespace TwoTier

open PolicyTable

variable {σ : Type} {primary cache : Place σ PolicyTable} {s s₀ : σ} {t : PolicyTable}

theorem outcomes_of_holds (hprimary : primary.Lawful) (hcache : cache.Lawful)
    (hapart : primary.Apart cache) (h : Holds primary cache t s) (acts : List TierAct) :
    (TierAct.outcomes (PolicyTable.store primary) (PolicyTable.store cache) acts s).1 =
        (StoreCall.outcomes (PolicyTable.store Place.whole) (acts.filterMap TierAct.call?) t).1 ∧
      Holds primary cache
        (StoreCall.outcomes (PolicyTable.store Place.whole) (acts.filterMap TierAct.call?) t).2
        (TierAct.outcomes (PolicyTable.store primary) (PolicyTable.store cache) acts s).2 := by
  induction acts generalizing s t with
  | nil => exact ⟨rfl, h⟩
  | cons act rest ih =>
    cases act with
    | call c =>
      obtain ⟨hanswer, hkept⟩ := on_holds hprimary hcache hapart h c
      obtain ⟨hanswers, hleft⟩ := ih hkept
      refine ⟨?_, hleft⟩
      rw [TierAct.outcomes, List.filterMap_cons, TierAct.call?, StoreCall.outcomes]
      exact List.cons_eq_cons.mpr ⟨hanswer, hanswers⟩
    | populate batch =>
      have hstill := (populate_of_equal (h.cache.trans h.primary.symm) batch).1
      rw [TierAct.outcomes, hstill]
      exact ih h

/-- Filling an empty cache tier makes it equal to the primary tier. -/
theorem populate_holds (hcache : cache.Lawful) (hapart : primary.Apart cache)
    (hempty : cache.read s₀ = {}) {batch : UInt64} {loaded : Nat}
    (hpopulate : populate (PolicyTable.store primary) (PolicyTable.store cache) batch s₀ =
      (.ok loaded, s)) : Holds primary cache (primary.read s₀) s := by
  rcases populate_empty hcache hapart hempty batch with ⟨loaded', hfilled⟩ | ⟨reason, s', hrefused⟩
  · rw [hpopulate] at hfilled
    cases hfilled
    exact ⟨hapart.read_left _ _, hcache.read_write _ _⟩
  · rw [hpopulate] at hrefused
    cases hrefused

/-- **Two tiers are one table.**  When the empty cache tier has been filled, then whatever is done, in
whichever order, every change and every question has the result or the refusal that the table of the
primary tier alone gives, and both tiers hold the table that it comes to.  Filling the cache tier
again does not show. -/
theorem outcomes_eq_table (hprimary : primary.Lawful) (hcache : cache.Lawful)
    (hapart : primary.Apart cache) (hempty : cache.read s₀ = {}) {batch : UInt64} {loaded : Nat}
    (hpopulate : populate (PolicyTable.store primary) (PolicyTable.store cache) batch s₀ =
      (.ok loaded, s)) (acts : List TierAct) :
    let two := TierAct.outcomes (PolicyTable.store primary) (PolicyTable.store cache) acts s
    let one := StoreCall.outcomes (PolicyTable.store Place.whole) (acts.filterMap TierAct.call?)
      (primary.read s₀)
    two.1 = one.1 ∧ primary.read two.2 = one.2 ∧ cache.read two.2 = one.2 := by
  obtain ⟨hanswers, hleft⟩ := outcomes_of_holds hprimary hcache hapart
    (populate_holds hcache hapart hempty hpopulate) acts
  exact ⟨hanswers, hleft.primary, hleft.cache⟩

theorem outcomes_eq_table_allowingA :
    ∃ s, populate (PolicyTable.store Place.fst) (PolicyTable.store Place.snd) 1
        (Keyed.ofList [Policy.allowingA], ({} : PolicyTable)) = (.ok 1, s) ∧
      (TierAct.outcomes (PolicyTable.store Place.fst) (PolicyTable.store Place.snd)
        [.call (.change (.add (some Policy.allowingA))), .populate 0, .call (.getAll 1 0),
          .call (.change (.update none)), .call (.find {} (some (.other 0))),
          .call (.change (.remove [112])), .call (.get [112])] s).1 =
        [.error (.refused (.exists [112])), .ok (.page [Policy.allowingA]),
          .error (.refused .nullPolicy), .error (.refused (.unknownChecker 4)), .ok .done,
          .ok (.policy none)] := by
  obtain ⟨s, hpopulate⟩ : ∃ s, populate (PolicyTable.store Place.fst) (PolicyTable.store Place.snd) 1
      (Keyed.ofList [Policy.allowingA], ({} : PolicyTable)) = (.ok 1, s) := ⟨_, rfl⟩
  refine ⟨s, hpopulate, ?_⟩
  rw [(outcomes_eq_table Place.fst_lawful Place.snd_lawful Place.fst_apart_snd rfl hpopulate _).1]
  rfl

end TwoTier

end AccessControl
