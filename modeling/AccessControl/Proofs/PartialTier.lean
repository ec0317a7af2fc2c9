import AccessControl.Proofs.OneTable

/-!
# Cache tiers that hold a part of the policies

A change goes to each tier by itself: what it leaves of a tier depends on the table of that tier alone
(`TwoTier.on_change`), since the refusals that keep a tier from changing are those that are tolerated.
A cache tier that was never filled therefore holds the policies that were added through the store, and
no others; it hides the rest, as its answer counts whenever it is not empty.  A policy is omitted by
`find` exactly if the cache tier has some candidate and none of that identifier
(`TwoTier.find_omits_iff`), and none is omitted in the histories that leave no gap
(`TwoTier.Gapless`): the primary tier was empty, too, or nothing came into the cache tier, or it was
filled, and what had been added before was new.
-/

namespace AccessControl

namespace Feed

variable {σ α : Type} {f : Feed σ} {visit : α → Policy → Run Failure σ (α × Bool)}
  {I : σ → Prop} {P : Policy → Prop}

/-- A walk keeps what every visit keeps, wherever it ends. -/
theorem visitPages_keeps (hask : ∀ limit offset s, I s → (f.store.getAll limit offset s).2 = s)
    (hpage : ∀ limit offset s page, I s → (f.store.getAll limit offset s).1 = .ok page →
      ∀ p ∈ page, P p)
    (hvisit : ∀ a p s, P p → I s → I (visit a p s).2) (pages : Nat) (offset : Int64)
    (progress : Progress α) (s : σ) (hs : I s) :
    I (f.visitPages visit pages offset progress s).2 := by
  induction pages generalizing offset progress s with
  | zero => exact hs
  | succ pages ih =>
    have hsame := hask f.limit offset s hs
    have hshown := hpage f.limit offset s
    rw [visitPages, Run.bind_apply]
    rcases hasked : f.store.getAll f.limit offset s with ⟨reason | page, s'⟩
    · rw [hasked] at hsame
      obtain rfl : s' = s := hsame
      exact hs
    · rw [hasked] at hsame hshown
      obtain rfl : s' = s := hsame
      have hvisited := visitPage_keeps hvisit (hshown page hs rfl) progress s' hs
      simp only
      split
      · exact hs
      · rw [Run.bind_apply]
        rcases hrow : visitPage visit page progress s' with ⟨reason | progress', s''⟩
        · rw [hrow] at hvisited
          exact hvisited
        · rw [hrow] at hvisited
          simp only
          split
          · exact ih (offset + f.limit) progress' s'' hvisited
          · exact hvisited

end Feed

/-! ## Tables -/

namespace PolicyTable

/-- Every policy of the first table is one of the second. -/
def IsPart (c t : PolicyTable) : Prop := ∀ p ∈ c.toList, p ∈ t.toList

/-- Every identifier of the first table is one of the second. -/
def IsKnown (c t : PolicyTable) : Prop := ∀ uid, c.contains uid = true → t.contains uid = true

variable {c t : PolicyTable} {kind : Option CheckerKind} {ps : List Policy}

theorem isPart_iff : IsPart c t ↔ ∀ uid p, c.find? uid = some p → t.find? uid = some p := by
  constructor
  · intro h uid p hp
    obtain ⟨hmem, rfl⟩ := Keyed.find?_eq_some_iff.mp hp
    exact Keyed.mem_toList_iff.mp (h p hmem)
  · intro h p hp
    exact Keyed.mem_toList_iff.mpr (h p.uid p (Keyed.mem_toList_iff.mp hp))

/-- Whether a checker has candidates, and which of a table's policies those are, does not depend on the
table. -/
theorem candidates_cases (kind : Option CheckerKind) :
    (∃ keep : Policy → Bool, ∀ t : PolicyTable, candidates t kind = .ok (t.toList.filter keep)) ∨
      ∃ e, ∀ t : PolicyTable, candidates t kind = .error e := by
  rcases kind with _ | kind
  · refine .inl ⟨fun _ => true, fun t => ?_⟩
    rw [List.filter_eq_self.mpr fun _ _ => rfl]
    rfl
  · cases kind with
    | other n => exact .inr ⟨_, fun _ => rfl⟩
    | _ => exact .inl ⟨_, fun _ => rfl⟩

theorem mem_of_mem_candidates (hps : candidates t kind = .ok ps) {p : Policy} (hp : p ∈ ps) :
    p ∈ t.toList := by
  rcases candidates_cases kind with ⟨keep, hkeep⟩ | ⟨e, herror⟩
  · rw [hkeep] at hps
    cases hps
    exact (List.mem_filter.mp hp).1
  · rw [herror] at hps
    cases hps

end PolicyTable

namespace StoreChange

/-- What a change makes of a table, unless the table refuses it. -/
def attempt : StoreChange → PolicyTable → Except PolicyError PolicyTable
  | add p, t => t.add p
  | update p, t => t.update p
  | remove uid, t => .ok (t.erase uid)

/-- The refusals of the primary tier that do not keep a change from the cache tier. -/
def tolerated : StoreChange → List ErrorCode
  | add _ => [.policyExists]
  | update _ => [.policyNotFound, .policyUpdate, .policyExists, .policyCreation]
  | remove _ => [.policyNotFound, .policyDeletion]

/-- The table that a change leaves of a table, be it made or refused. -/
def leaves : StoreChange → PolicyTable → PolicyTable
  | add (some p), t => t.insertNew p
  | update (some p), t => t.replace p
  | remove uid, t => t.erase uid
  | _, t => t

open PolicyTable

variable {c t : PolicyTable}

/-- A change without a policy is refused by every table; of any other the refusals are tolerated. -/
theorem attempt_cases (change : StoreChange) :
    (∀ t, change.attempt t = .error .nullPolicy ∧ change.leaves t = t) ∨
      ∀ t, change.attempt t = .ok (change.leaves t) ∨
        ∃ e, change.attempt t = .error e ∧ change.leaves t = t ∧
          change.tolerated.contains e.code = true := by
  rcases change with (_ | p) | (_ | p) | uid
  · exact .inl fun t => ⟨rfl, rfl⟩
  · refine .inr fun t => ?_
    by_cases hknown : Keyed.contains t p.uid = true
    · exact .inr ⟨.exists p.uid, if_pos hknown, Keyed.insertNew_of_contains hknown, rfl⟩
    · exact .inl (if_neg hknown)
  · exact .inl fun t => ⟨rfl, rfl⟩
  · refine .inr fun t => ?_
    by_cases hknown : Keyed.contains t p.uid = true
    · exact .inl (if_pos hknown)
    · exact .inr ⟨.notFound p.uid, if_neg hknown,
        Keyed.replace_of_not_contains (Bool.eq_false_iff.mpr hknown), rfl⟩
  · exact .inr fun t => .inl rfl

theorem isKnown_leaves (h : IsKnown c t) (change : StoreChange) :
    IsKnown (change.leaves c) (change.leaves t) := by
  intro uid
  have huid := h uid
  simp only [Keyed.contains_eq_isSome] at huid ⊢
  cases change with
  | add p =>
    cases p with
    | none => exact huid
    | some p =>
      simp only [leaves, Keyed.find?_insertNew, Option.isSome_or, Bool.or_eq_true]
      exact Or.imp_left huid
  | update p =>
    cases p with
    | none => exact huid
    | some p =>
      simp only [leaves, Keyed.find?_replace, Option.isSome_map]
      exact huid
  | remove uid' =>
    simp only [leaves, Keyed.find?_erase]
    split
    · exact id
    · exact huid

/-- A part stays a part, unless a policy is added that only the greater table knows. -/
theorem isPart_leaves (h : IsPart c t) {change : StoreChange}
    (hnew : ∀ p, change = .add (some p) → t.contains p.uid = false) :
    IsPart (change.leaves c) (change.leaves t) := by
  rw [isPart_iff] at h ⊢
  intro uid p
  cases change with
  | add q =>
    cases q with
    | none => exact h uid p
    | some q =>
      simp only [leaves, Keyed.find?_insertNew, Option.or_eq_some_iff]
      rintro (hp | ⟨-, hp⟩)
      · exact .inl (h uid p hp)
      · split at hp
        · next huid =>
          rw [if_pos huid]
          exact .inr ⟨Keyed.find?_eq_none_iff.mpr (huid ▸ hnew q rfl), hp⟩
        · cases hp
  | update q =>
    cases q with
    | none => exact h uid p
    | some q =>
      simp only [leaves, Keyed.find?_replace, Option.map_eq_some_iff]
      rintro ⟨b, hb, hp⟩
      exact ⟨b, h uid b hb, hp⟩
  | remove uid' =>
    simp only [leaves, Keyed.find?_erase]
    split
    · exact id
    · exact h uid p

/-- A change that adds nothing leaves the empty table empty. -/
theorem leaves_empty {change : StoreChange} (h : ∀ p, change ≠ .add (some p)) :
    change.leaves {} = {} := by
  rcases change with (_ | p) | (_ | p) | uid
  · rfl
  · exact absurd rfl (h p)
  all_goals rfl

end StoreChange

namespace TwoTier

open PolicyTable

variable {σ : Type} {primary cache place : Place σ PolicyTable} {s s₀ : σ} {c t : PolicyTable}

theorem find?_filled (t : PolicyTable) (l : List Policy) (uid : Bytes) :
    (filled t l).find? uid = (t.find? uid).or (l.find? fun p => p.uid == uid) := by
  induction l generalizing t with
  | nil => rw [filled, List.foldl_nil, List.find?_nil, Option.or_none]
  | cons p l ih =>
    have hrest : filled t (p :: l) = filled (t.insertNew p) l := rfl
    rw [hrest, ih, Keyed.find?_insertNew, Option.or_assoc, List.find?_cons]
    by_cases huid : p.uid = uid
    · rw [if_pos huid, beq_iff_eq.mpr huid, Option.some_or]
    · rw [if_neg huid, beq_eq_false_iff_ne.mpr huid, Option.none_or]

theorem isPart_filled (h : IsPart c t) {l : List Policy} (hl : ∀ p ∈ l, p ∈ t.toList) :
    IsPart (filled c l) t := fun p hp =>
  (Keyed.mem_of_mem_foldl_insertNew hp).elim (h p) (hl p)

theorem isKnown_filled (h : IsKnown c t) {l : List Policy} (hl : ∀ p ∈ l, p ∈ t.toList) :
    IsKnown (filled c l) t := by
  intro uid huid
  obtain ⟨p, hp, rfl⟩ := Keyed.contains_iff.mp huid
  rcases Keyed.mem_of_mem_foldl_insertNew hp with hp | hp
  · exact h p.uid (Keyed.contains_iff.mpr ⟨p, hp, rfl⟩)
  · exact Keyed.contains_iff.mpr ⟨p, hl p hp, rfl⟩

/-- A part that is filled is the whole. -/
theorem filled_of_isPart (h : IsPart c t) : filled c t.toList = t := by
  refine Keyed.ext_find? fun uid => ?_
  rw [find?_filled]
  cases hc : c.find? uid with
  | none => rfl
  | some p => exact (isPart_iff.mp h uid p hc).symm

/-! ## What one act leaves -/

theorem on_tiers (change : StoreChange) :
    change.on (store (PolicyTable.store primary) (PolicyTable.store cache)) = (do
      tolerating change.tolerated (exchange primary change.attempt)
      exchange cache change.attempt) := by
  cases change <;> rfl

/-- **A change goes to each tier by itself.** -/
theorem on_change (hprimary : primary.Lawful) (hcache : cache.Lawful) (hapart : primary.Apart cache)
    (change : StoreChange) (s : σ) :
    (change.on (store (PolicyTable.store primary) (PolicyTable.store cache)) s).2 =
      cache.write (change.leaves (cache.read s))
        (primary.write (change.leaves (primary.read s)) s) := by
  rw [on_tiers, Run.bind_apply, tolerating_apply]
  rcases change.attempt_cases with hnull | hmade
  · -- both tables stay, whether the cache tier is asked or not
    rw [(hnull _).2, (hnull _).2, hprimary.write_read, hcache.write_read]
    simp only [exchange, (hnull _).1]
    by_cases hcode : change.tolerated.contains PolicyError.nullPolicy.code = true
    · simp only [hcode, if_true]
    · simp only [hcode]
      rfl
  · have hsecond (s' : σ) :
        (exchange cache change.attempt s').2 = cache.write (change.leaves (cache.read s')) s' := by
      rcases hmade (cache.read s') with hok | ⟨e, herror, hsame, -⟩
      · rw [exchange, hok]
      · rw [exchange, herror, hsame, hcache.write_read]
    rcases hmade (primary.read s) with hok | ⟨e, herror, hsame, hcode⟩
    · have hmade : exchange primary change.attempt s =
          (.ok (), primary.write (change.leaves (primary.read s)) s) := by rw [exchange, hok]
      rw [hmade]
      exact (hsecond _).trans (by rw [hapart.read_right])
    · have hrefused : exchange primary change.attempt s = (.error (.refused e), s) := by
        rw [exchange, herror]
      rw [hrefused, hsame, hprimary.write_read]
      simp only [hcode, if_true]
      exact hsecond s

/-- A question changes nothing. -/
theorem on_question (call : StoreCall) (h : ∀ change, call ≠ .change change) :
    (call.on (store (PolicyTable.store primary) (PolicyTable.store cache)) s).2 = s := by
  have hread {α : Type} (isMiss : α → Bool) (f : PolicyTable → Except PolicyError α)
      (answer : α → StoreAnswer) :
      ((answer <$> readThrough isMiss (ask cache f) (ask primary f)) s).2 = s := by
    rw [Run.map_apply, readThrough_apply]
    cases hf : f (cache.read s) with
    | ok a =>
      rw [ask_of_ok hf]
      simp only
      split <;> rfl
    | error e =>
      rw [ask_of_error hf]
      rfl
  cases call with
  | change change => exact absurd rfl (h change)
  | get uid => exact hread Option.isNone (fun t => .ok (t.find? uid)) .policy
  | getAll limit offset => exact hread List.isEmpty (fun t => page t limit offset) .page
  | find q kind =>
    exact hread List.isEmpty (fun t => (candidates t kind).map (List.map some)) .candidates

/-- **Filling the cache tier**, wherever it ends, inserts policies of the primary tier. -/
theorem populate_loads (hlawful : cache.Lawful) (hapart : primary.Apart cache) (batch : UInt64)
    (s : σ) :
    ∃ l, (∀ p ∈ l, p ∈ (primary.read s).toList) ∧
      (populate (PolicyTable.store primary) (PolicyTable.store cache) batch s).2 =
        cache.write (filled (cache.read s) l) s := by
  let feed : Feed σ := Feed.ofStore
    { PolicyTable.store primary with
      extent := (store (PolicyTable.store primary) (PolicyTable.store cache)).extent } batch
  let Loaded (s' : σ) : Prop := ∃ l, (∀ p ∈ l, p ∈ (primary.read s).toList) ∧
    s' = cache.write (filled (cache.read s) l) s
  have hpage : ∀ limit offset s' page, Loaded s' →
      (feed.store.getAll limit offset s').1 = .ok page → ∀ p ∈ page, p ∈ (primary.read s).toList := by
    rintro limit offset _ page ⟨l, -, rfl⟩ hasked p hp
    have hread : primary.read (cache.write (filled (cache.read s) l) s) = primary.read s :=
      hapart.read_left _ _
    have hshown : (PolicyTable.page (primary.read s) limit offset).mapError Failure.refused =
        .ok page := hread ▸ hasked
    cases hpage : PolicyTable.page (primary.read s) limit offset with
    | error e =>
      rw [hpage] at hshown
      cases hshown
    | ok page' =>
      rw [hpage] at hshown
      cases hshown
      exact mem_of_mem_page hpage hp
  have hvisit : ∀ loaded p s', p ∈ (primary.read s).toList → Loaded s' →
      Loaded (load (PolicyTable.store cache) loaded p s').2 := by
    rintro loaded p _ hp ⟨l, hl, rfl⟩
    refine ⟨l ++ [p], ?_, ?_⟩
    · intro p' hp'
      rcases List.mem_append.mp hp' with hp' | hp'
      · exact hl p' hp'
      · rwa [List.mem_singleton.mp hp']
    · rw [load_apply hlawful, hlawful.read_write, hlawful.write_write, filled, filled,
        List.foldl_append]
      rfl
  have hstart : Loaded s := ⟨[], by simp, (hlawful.write_read s).symm⟩
  have hwalk : Loaded (feed.visitPages (load (PolicyTable.store cache)) (feed.store.extent s + 1) 0
      { gathered := 0 } s).2 :=
    Feed.visitPages_keeps (fun _ _ _ _ => rfl) hpage hvisit _ _ _ s hstart
  have hsame : (populate (PolicyTable.store primary) (PolicyTable.store cache) batch s).2 =
      (feed.visitPages (load (PolicyTable.store cache)) (feed.store.extent s + 1) 0
        { gathered := 0 } s).2 := by
    rw [populate, ← map_eq_pure_bind, Run.map_apply]
    rfl
  exact hsame ▸ hwalk

end TwoTier

/-! ## Histories -/

namespace TierAct

variable {σ : Type}

/-- The world that an act leaves. -/
def after (primary cache : Store σ) : TierAct → σ → σ
  | call c, s => (c.on (TwoTier.store primary cache) s).2
  | populate batch, s => (TwoTier.populate primary cache batch s).2

/-- Nothing comes into an empty cache tier by the act. -/
def IsIdle : TierAct → Prop
  | call (.change (.add (some _))) => False
  | populate _ => False
  | _ => True

theorem outcomes_snd (primary cache : Store σ) (acts : List TierAct) (s : σ) :
    (outcomes primary cache acts s).2 = acts.foldl (fun s act => act.after primary cache s) s := by
  induction acts generalizing s with
  | nil => rfl
  | cons act rest ih => cases act <;> exact ih _

end TierAct

namespace TwoTier

open PolicyTable

variable {σ : Type} {primary cache : Place σ PolicyTable} {s s₀ : σ} {acts : List TierAct}

/-- The world that acts leave. -/
def left (primary cache : Place σ PolicyTable) (acts : List TierAct) (s : σ) : σ :=
  (TierAct.outcomes (PolicyTable.store primary) (PolicyTable.store cache) acts s).2

theorem left_cons (act : TierAct) (acts : List TierAct) (s : σ) :
    left primary cache (act :: acts) s =
      left primary cache acts (act.after (PolicyTable.store primary) (PolicyTable.store cache) s) := by
  rw [left, left, TierAct.outcomes_snd, TierAct.outcomes_snd, List.foldl_cons]

theorem left_append (front back : List TierAct) (s : σ) :
    left primary cache (front ++ back) s = left primary cache back (left primary cache front s) := by
  simp only [left, TierAct.outcomes_snd, List.foldl_append]

/-- **What an act leaves of the tables**: a change is made of each, and whatever else is done may insert
policies of the primary tier in the cache tier. -/
theorem after_cases (hprimary : primary.Lawful) (hcache : cache.Lawful) (hapart : primary.Apart cache)
    (act : TierAct) (s : σ) :
    let s' := act.after (PolicyTable.store primary) (PolicyTable.store cache) s
    (∃ change, act = .call (.change change) ∧ primary.read s' = change.leaves (primary.read s) ∧
        cache.read s' = change.leaves (cache.read s)) ∨
      ∃ l, (∀ p ∈ l, p ∈ (primary.read s).toList) ∧ primary.read s' = primary.read s ∧
        cache.read s' = filled (cache.read s) l ∧ (act.IsIdle → l = []) := by
  intro s'
  rcases act with call | batch
  · by_cases hchange : ∃ change, call = .change change
    · obtain ⟨change, rfl⟩ := hchange
      refine .inl ⟨change, rfl, ?_⟩
      have hmade : s' = (change.on (store (PolicyTable.store primary) (PolicyTable.store cache)) s).2 :=
        congrArg Prod.snd (Run.map_apply (fun _ => StoreAnswer.done) _ s)
      rw [hmade, on_change hprimary hcache hapart, hapart.read_left, hprimary.read_write,
        hcache.read_write]
      exact ⟨rfl, rfl⟩
    · have hstill : s' = s := on_question call fun change h => hchange ⟨change, h⟩
      exact .inr ⟨[], by simp, congrArg _ hstill, congrArg _ hstill, fun _ => rfl⟩
  · obtain ⟨l, hl, hloaded⟩ := populate_loads hcache hapart batch s
    have hloaded : s' = cache.write (filled (cache.read s) l) s := hloaded
    refine .inr ⟨l, hl, ?_, ?_, False.elim⟩
    · rw [hloaded, hapart.read_left]
    · rw [hloaded, hcache.read_write]

theorem isKnown_left (hprimary : primary.Lawful) (hcache : cache.Lawful)
    (hapart : primary.Apart cache) (h : IsKnown (cache.read s) (primary.read s))
    (acts : List TierAct) :
    IsKnown (cache.read (left primary cache acts s)) (primary.read (left primary cache acts s)) := by
  induction acts generalizing s with
  | nil => exact h
  | cons act acts ih =>
    rw [left_cons]
    refine ih ?_
    rcases after_cases hprimary hcache hapart act s with ⟨change, -, hp, hc⟩ | ⟨l, hl, hp, hc, -⟩
    · rw [hp, hc]
      exact change.isKnown_leaves h
    · rw [hp, hc]
      exact isKnown_filled h hl

/-- Every policy that acts add is one that the primary tier lacks when its turn comes. -/
def AddsNew (primary cache : Place σ PolicyTable) (acts : List TierAct) (s : σ) : Prop :=
  ∀ before p after, acts = before ++ .call (.change (.add (some p))) :: after →
    (primary.read (left primary cache before s)).contains p.uid = false

theorem isPart_left (hprimary : primary.Lawful) (hcache : cache.Lawful)
    (hapart : primary.Apart cache) (h : IsPart (cache.read s) (primary.read s))
    (hnew : AddsNew primary cache acts s) :
    IsPart (cache.read (left primary cache acts s)) (primary.read (left primary cache acts s)) := by
  induction acts generalizing s with
  | nil => exact h
  | cons act acts ih =>
    have hrest : AddsNew primary cache acts
        (act.after (PolicyTable.store primary) (PolicyTable.store cache) s) := by
      intro before p after hacts
      have hlater := hnew (act :: before) p after (by rw [hacts, List.cons_append])
      rwa [left_cons] at hlater
    rw [left_cons]
    refine ih ?_ hrest
    rcases after_cases hprimary hcache hapart act s with ⟨change, hact, hp, hc⟩ | ⟨l, hl, hp, hc, -⟩
    · rw [hp, hc]
      refine StoreChange.isPart_leaves h fun p hadd => ?_
      exact hnew [] p acts (by rw [hact, hadd, List.nil_append])
    · rw [hp, hc]
      exact isPart_filled h hl

theorem empty_left (hprimary : primary.Lawful) (hcache : cache.Lawful) (hapart : primary.Apart cache)
    (h : cache.read s = {}) (hidle : ∀ act ∈ acts, act.IsIdle) :
    cache.read (left primary cache acts s) = {} := by
  induction acts generalizing s with
  | nil => exact h
  | cons act acts ih =>
    have hact := hidle act (List.mem_cons_self ..)
    rw [left_cons]
    refine ih ?_ fun act' hact' => hidle act' (List.mem_cons_of_mem _ hact')
    rcases after_cases hprimary hcache hapart act s with ⟨change, rfl, -, hc⟩ | ⟨l, -, -, hc, hl⟩
    · rw [hc, h]
      refine StoreChange.leaves_empty fun p hadd => ?_
      rw [hadd] at hact
      exact hact
    · rw [hc, h, hl hact]
      rfl

/-- **Histories without a gap.**  What is done, from an empty cache tier on, leaves the primary tier no
policies that the cache tier would hide. -/
inductive Gapless (primary cache : Place σ PolicyTable) (s₀ : σ) (acts : List TierAct) : Prop where
  /-- There was nothing to hide at the beginning. -/
  | fresh (h : primary.read s₀ = {})
  /-- The cache tier is still empty. -/
  | idle (h : ∀ act ∈ acts, act.IsIdle)
  /-- The cache tier was filled, after none but new policies had been added. -/
  | filled (front : List TierAct) (batch : UInt64) (back : List TierAct) (loaded : Nat)
      (hacts : acts = front ++ .populate batch :: back) (hnew : AddsNew primary cache front s₀)
      (hpopulate : (populate (PolicyTable.store primary) (PolicyTable.store cache) batch
        (left primary cache front s₀)).1 = .ok loaded)

/-- A part that is filled without a refusal is the whole. -/
theorem populate_part (hcache : cache.Lawful) (hapart : primary.Apart cache)
    (h : IsPart (cache.read s) (primary.read s)) {batch : UInt64} {loaded : Nat}
    (hpopulate : (populate (PolicyTable.store primary) (PolicyTable.store cache) batch s).1 =
      .ok loaded) :
    Holds primary cache (primary.read s)
      (populate (PolicyTable.store primary) (PolicyTable.store cache) batch s).2 := by
  rcases populate_table hcache hapart batch s with hfilled | ⟨-, reason, s', hrefused⟩
  · rw [hfilled, filled_of_isPart h]
    exact ⟨hapart.read_left _ _, hcache.read_write _ _⟩
  · rw [hrefused] at hpopulate
    cases hpopulate

theorem Gapless.empty_or_equal (hprimary : primary.Lawful) (hcache : cache.Lawful)
    (hapart : primary.Apart cache) (hempty : cache.read s₀ = {}) (h : Gapless primary cache s₀ acts) :
    let s := left primary cache acts s₀
    cache.read s = {} ∨ cache.read s = primary.read s := by
  cases h with
  | fresh h =>
    obtain ⟨-, hheld⟩ := outcomes_of_holds hprimary hcache hapart ⟨h, hempty⟩ acts
    exact .inr (hheld.cache.trans hheld.primary.symm)
  | idle h => exact .inl (empty_left hprimary hcache hapart hempty h)
  | filled front batch back loaded hacts hnew hpopulate =>
    have hpart : IsPart (cache.read s₀) (primary.read s₀) := by
      rw [hempty]
      exact nofun
    have hpart := isPart_left hprimary hcache hapart hpart hnew
    have hfilled := populate_part hcache hapart hpart hpopulate
    obtain ⟨-, hheld⟩ := outcomes_of_holds hprimary hcache hapart hfilled back
    have hleft : left primary cache acts s₀ = left primary cache back
        (populate (PolicyTable.store primary) (PolicyTable.store cache) batch
          (left primary cache front s₀)).2 := by
      rw [hacts, left_append, left_cons]
      rfl
    rw [hleft]
    exact .inr (hheld.cache.trans hheld.primary.symm)

/-! ## What is found -/

/-- The candidates of the cache tier are found if there are any, else those of the primary tier. -/
theorem find_apply {kind : Option CheckerKind} {ps cs : List Policy}
    (hps : candidates (primary.read s) kind = .ok ps) (hcs : candidates (cache.read s) kind = .ok cs)
    (q : Inquiry) :
    ((store (PolicyTable.store primary) (PolicyTable.store cache)).find q kind s).1 =
      .ok ((if cs.isEmpty then ps else cs).map some) := by
  have hread : (store (PolicyTable.store primary) (PolicyTable.store cache)).find q kind s =
      readThrough List.isEmpty (ask cache fun t => (candidates t kind).map (List.map some))
        (ask primary fun t => (candidates t kind).map (List.map some)) s := rfl
  have hcache : ask cache (fun t => (candidates t kind).map (List.map some)) s =
      (.ok (cs.map some), s) := ask_of_ok (by rw [hcs]; rfl)
  have hprimary : ask primary (fun t => (candidates t kind).map (List.map some)) s =
      (.ok (ps.map some), s) := ask_of_ok (by rw [hps]; rfl)
  rw [hread, readThrough_apply, hcache]
  simp only [List.isEmpty_map, hprimary]
  split <;> rfl

/-- An empty cache tier hides nothing. -/
theorem find_of_empty (hempty : cache.read s = {}) (q : Inquiry) (kind : Option CheckerKind) :
    ((store (PolicyTable.store primary) (PolicyTable.store cache)).find q kind s).1 =
      ((PolicyTable.store primary).find q kind s).1 := by
  let f (t : PolicyTable) := (candidates t kind).map (List.map some)
  show (readThrough List.isEmpty (ask cache f) (ask primary f) s).1 = (ask primary f s).1
  rw [readThrough_apply]
  rcases candidates_cases kind with ⟨keep, hkeep⟩ | ⟨e, herror⟩
  · have hmiss : ask cache f s = (.ok [], s) := ask_of_ok (by rw [hempty]; simp only [f, hkeep]; rfl)
    rw [hmiss]
    rfl
  · have hmiss : ask cache f s = (.error (.refused e), s) :=
      ask_of_error (by simp only [f, herror]; rfl)
    rw [hmiss]

/-- **What a partly filled cache tier hides.**  From an empty cache tier on, whatever is done in
whichever order, what `find` gives are policies whose identifiers the primary tier knows; it omits a
candidate of the primary tier exactly if the cache tier has some candidate and none of that identifier.
In a history without a gap it gives what the primary tier gives. -/
theorem find_omits_iff (hprimary : primary.Lawful) (hcache : cache.Lawful)
    (hapart : primary.Apart cache) (hempty : cache.read s₀ = {}) (acts : List TierAct) (q : Inquiry)
    (kind : Option CheckerKind) :
    let s := left primary cache acts s₀
    let found := ((store (PolicyTable.store primary) (PolicyTable.store cache)).find q kind s).1
    (∀ ps cs : List Policy, candidates (primary.read s) kind = .ok ps →
      candidates (cache.read s) kind = .ok cs → ∃ l : List Policy, found = .ok (l.map some) ∧
        (∀ p ∈ l, (primary.read s).contains p.uid = true) ∧
        ∀ p ∈ ps, (∀ p' ∈ l, p'.uid ≠ p.uid) ↔ cs ≠ [] ∧ ∀ p' ∈ cs, p'.uid ≠ p.uid) ∧
      (Gapless primary cache s₀ acts → found = ((PolicyTable.store primary).find q kind s).1) := by
  intro s found
  constructor
  · intro ps cs hps hcs
    have hstart : IsKnown (cache.read s₀) (primary.read s₀) := by
      rw [hempty]
      exact nofun
    have hknown : IsKnown (cache.read s) (primary.read s) :=
      isKnown_left hprimary hcache hapart hstart acts
    refine ⟨if cs.isEmpty then ps else cs, find_apply hps hcs q, ?_⟩
    cases cs with
    | nil =>
      refine ⟨fun p hp => Keyed.contains_iff.mpr ⟨p, mem_of_mem_candidates hps hp, rfl⟩, ?_⟩
      intro p hp
      exact ⟨fun hnone => absurd rfl (hnone p hp), fun h => absurd rfl h.1⟩
    | cons p' cs =>
      refine ⟨fun p hp => hknown p.uid ?_, fun p _ => ⟨fun h => ⟨nofun, h⟩, fun h => h.2⟩⟩
      exact Keyed.contains_iff.mpr ⟨p, mem_of_mem_candidates hcs hp, rfl⟩
  · intro hgapless
    rcases hgapless.empty_or_equal hprimary hcache hapart hempty with hnone | hequal
    · exact find_of_empty hnone q kind
    · exact congrArg Prod.fst (ask_both hequal List.isEmpty fun t =>
        (candidates t kind).map (List.map some))

theorem find_omits_iff_filled :
    let s := left Place.fst Place.snd [.populate 1, .call (.change (.add (some Policy.allowingA)))]
      (Keyed.ofList [Policy.denyingA], ({} : PolicyTable))
    ((store (PolicyTable.store Place.fst) (PolicyTable.store Place.snd)).find {} none s).1 =
      .ok [some Policy.allowingA, some Policy.denyingA] := by
  have hgapless : Gapless Place.fst Place.snd (Keyed.ofList [Policy.denyingA], ({} : PolicyTable))
      [.populate 1, .call (.change (.add (some Policy.allowingA)))] :=
    .filled [] 1 _ 1 rfl (fun before p after h => by simp at h) rfl
  exact (find_omits_iff Place.fst_lawful Place.snd_lawful Place.fst_apart_snd rfl _ {} none).2 hgapless

/-- A cache tier that was never filled hides a denial, once something was added. -/
theorem find_omits_denyingA :
    let s := left Place.fst Place.snd [.call (.change (.add (some Policy.allowingA)))]
      (Keyed.ofList [Policy.denyingA], ({} : PolicyTable))
    (PolicyTable.store Place.fst).find {} none s =
        (.ok [some Policy.allowingA, some Policy.denyingA], s) ∧
      ((store (PolicyTable.store Place.fst) (PolicyTable.store Place.snd)).find {} none s).1 =
        .ok [some Policy.allowingA] :=
  ⟨rfl, rfl⟩

/-- Nor does filling heal a cache tier that has another policy of a known identifier. -/
example :
    let s := left Place.fst Place.snd
      [.call (.change (.add (some { Policy.denyingA with body := .rules ⟨[.rule .any], [], []⟩ nofun }))),
        .populate 1]
      (Keyed.ofList [Policy.allowingA, Policy.denyingA], ({} : PolicyTable))
    ((store (PolicyTable.store Place.fst) (PolicyTable.store Place.snd)).find {} (some .exact) s).1 =
      .ok [some Policy.allowingA] := rfl

end TwoTier

end AccessControl
