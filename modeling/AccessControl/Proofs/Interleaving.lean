import AccessControl.Proofs.Calls
import AccessControl.Proofs.Memory

/-!
# Lookups and changes at the same time

The parts of a lookup that no other part of a lookup or change can interrupt are three: it **starts**
(the cache serves an answer, or tells its generation), it **queries** the store, and it **finishes** (the
cache keeps the answer).  A change of the policies is **applied** to the store, and the cache is
**notified** of it.  `Traffic.Step` says what each of these moves does, in whichever order the moves of
many lookups and changes come; `Traffic.Reaches` is a run of moves.

Moves that nothing interrupts are the calls that they are made of: a lookup that starts, queries and
finishes is `GuardCache.find` (`Traffic.reaches_of_find`), and a change that is applied and notified is
a change of an observed store to which the cache listens (`Traffic.reaches_of_change`).
-/

namespace AccessControl

/-- How far a lookup has come. -/
inductive Lookup.Stage where
  /-- The cache served nothing, and it was in this generation. -/
  | missed (generation : Nat)
  /-- The store has answered. -/
  | answered (generation : Nat) (answer : List (Option Policy))
  | done (outcome : Except Failure (List (Option Policy)))

/-- A lookup of the candidates for an inquiry by a checker of some kind. -/
structure Lookup where
  inquiry : Inquiry
  kind : Option CheckerKind
  stage : Lookup.Stage

namespace Lookup

/-- The stage of a lookup that has started. -/
def Stage.started (c : GuardCache) (key : GuardCache.Key) : Stage :=
  match (c.lookup key).1 with
  | some answer => .done (.ok answer)
  | none => .missed c.generation

/-- The stage of a lookup that has queried the store. -/
def Stage.queried (generation : Nat) : Except Failure (List (Option Policy)) → Stage
  | .ok answer => .answered generation answer
  | .error failure => .done (.error failure)

/-- The generation that an unfinished lookup was told. -/
def Stage.generation? : Stage → Option Nat
  | .missed generation => some generation
  | .answered generation _ => some generation
  | .done _ => none

/-- What the lookup comes to, if that is known. -/
def Stage.outcome? : Stage → Option (Except Failure (List (Option Policy)))
  | .missed _ => none
  | .answered _ answer => some (.ok answer)
  | .done outcome => some outcome

variable {generation generation' : Nat} {outcome : Except Failure (List (Option Policy))}
  {answer : List (Option Policy)} {c : GuardCache} {key : GuardCache.Key}

theorem Stage.outcome?_queried : (Stage.queried generation outcome).outcome? = some outcome := by
  cases outcome <;> rfl

theorem Stage.generation?_queried
    (h : (Stage.queried generation outcome).generation? = some generation') :
    generation' = generation := by
  cases outcome <;> cases h
  rfl

theorem Stage.of_queried_eq_answered
    (h : Stage.queried generation outcome = .answered generation' answer) :
    generation' = generation ∧ outcome = .ok answer := by
  cases outcome <;> cases h
  exact ⟨rfl, rfl⟩

/-- A lookup that has started was served, or it waits with the generation of the cache. -/
theorem Stage.started_cases (c : GuardCache) (key : GuardCache.Key) :
    (∃ answer, (c.lookup key).1 = some answer ∧ Stage.started c key = .done (.ok answer)) ∨
      Stage.started c key = .missed c.generation := by
  unfold started
  cases (c.lookup key).1 with
  | some answer => exact .inl ⟨answer, rfl, rfl⟩
  | none => exact .inr rfl

end Lookup

/-- A cache in front of a store, the lookups that were started, in their order, and how many changes of
the store the cache has not been told of. -/
structure Traffic (σ : Type) where
  world : σ
  cache : GuardCache
  lookups : List Lookup := []
  unannounced : Nat := 0

namespace Traffic

/-- What happens at one time.  Lookups are known by their number. -/
inductive Move where
  | start (q : Inquiry) (kind : Option CheckerKind)
  | query (n : Nat)
  | finish (n : Nat)
  | apply (change : StoreChange)
  | notify
  | markStale
  | markFresh
  | invalidate

/-- Whether a move empties the cache. -/
def Move.clears : Move → Bool
  | .notify | .invalidate => true
  | _ => false

variable {σ : Type} {store : Store σ}

/-- What a move does. -/
inductive Step (store : Store σ) : Traffic σ → Move → Traffic σ → Prop
  | start {s : Traffic σ} (q : Inquiry) (kind : Option CheckerKind) :
      Step store s (.start q kind)
        { s with
          cache := (s.cache.lookup (.of q kind)).2
          lookups := s.lookups ++ [⟨q, kind, .started s.cache (.of q kind)⟩] }
  | query {s : Traffic σ} {n generation : Nat} {q : Inquiry} {kind : Option CheckerKind}
      (hlookup : s.lookups[n]? = some ⟨q, kind, .missed generation⟩) :
      Step store s (.query n)
        { s with
          world := (store.find q kind s.world).2
          lookups :=
            s.lookups.set n ⟨q, kind, .queried generation (store.find q kind s.world).1⟩ }
  | finish {s : Traffic σ} {n generation : Nat} {q : Inquiry} {kind : Option CheckerKind}
      {answer : List (Option Policy)}
      (hlookup : s.lookups[n]? = some ⟨q, kind, .answered generation answer⟩) :
      Step store s (.finish n)
        { s with
          cache := s.cache.remember (.of q kind) generation answer
          lookups := s.lookups.set n ⟨q, kind, .done (.ok answer)⟩ }
  | apply {s : Traffic σ} {change : StoreChange} {world : σ}
      (happlied : change.on store s.world = (.ok (), world)) :
      Step store s (.apply change) { s with world, unannounced := s.unannounced + 1 }
  | notify {s : Traffic σ} {n : Nat} (hpending : s.unannounced = n + 1) :
      Step store s .notify { s with cache := s.cache.policiesChanged, unannounced := n }
  | markStale {s : Traffic σ} : Step store s .markStale { s with cache := s.cache.markStale }
  | markFresh {s : Traffic σ} : Step store s .markFresh { s with cache := s.cache.markFresh }
  | invalidate {s : Traffic σ} : Step store s .invalidate { s with cache := s.cache.invalidate }

/-- A run of moves. -/
inductive Reaches (store : Store σ) (s : Traffic σ) : List Move → Traffic σ → Prop
  | refl : Reaches store s [] s
  | step {moves : List Move} {m : Move} {t u : Traffic σ} (hrun : Reaches store s moves t)
      (hstep : Step store t m u) : Reaches store s (moves ++ [m]) u

variable {s t u : Traffic σ} {m : Move} {moves later : List Move} {n : Nat}

/-! ## What one move does -/

/-- How a lookup came to be what it is after a move. -/
inductive Advance (store : Store σ) (s : Traffic σ) (m : Move) (n : Nat) : Lookup → Prop
  | started {q : Inquiry} {kind : Option CheckerKind} (hmove : m = .start q kind)
      (hnew : n = s.lookups.length) :
      Advance store s m n ⟨q, kind, .started s.cache (.of q kind)⟩
  | queried {q : Inquiry} {kind : Option CheckerKind} {generation : Nat} (hmove : m = .query n)
      (hlookup : s.lookups[n]? = some ⟨q, kind, .missed generation⟩) :
      Advance store s m n ⟨q, kind, .queried generation (store.find q kind s.world).1⟩
  | finished {q : Inquiry} {kind : Option CheckerKind} {generation : Nat}
      {answer : List (Option Policy)} (hmove : m = .finish n)
      (hlookup : s.lookups[n]? = some ⟨q, kind, .answered generation answer⟩) :
      Advance store s m n ⟨q, kind, .done (.ok answer)⟩
  | kept {l : Lookup} (hlookup : s.lookups[n]? = some l) : Advance store s m n l

/-- **What a move does to a lookup**: it starts it, or takes it one stage further, or leaves it as it
is. -/
theorem Step.advance (h : Step store s m t) {l : Lookup} (hl : t.lookups[n]? = some l) :
    Advance store s m n l := by
  cases h with
  | start q kind =>
    rcases Nat.lt_trichotomy n s.lookups.length with hn | hn | hn
    · rw [List.getElem?_append_left hn] at hl
      exact .kept hl
    · rw [hn, List.getElem?_concat_length] at hl
      cases hl
      exact .started rfl hn
    · rw [List.getElem?_eq_none (by rw [List.length_append, List.length_singleton]; omega)] at hl
      cases hl
  | @query k generation q kind hlookup =>
    by_cases hn : k = n
    · subst hn
      rw [List.getElem?_set_self (List.getElem?_eq_some_iff.mp hlookup).1] at hl
      cases hl
      exact .queried rfl hlookup
    · rw [List.getElem?_set_ne hn] at hl
      exact .kept hl
  | @finish k generation q kind answer hlookup =>
    by_cases hn : k = n
    · subst hn
      rw [List.getElem?_set_self (List.getElem?_eq_some_iff.mp hlookup).1] at hl
      cases hl
      exact .finished rfl hlookup
    · rw [List.getElem?_set_ne hn] at hl
      exact .kept hl
  | _ => exact .kept hl

theorem Step.length_le (h : Step store s m t) : s.lookups.length ≤ t.lookups.length := by
  cases h with
  | start q kind =>
    rw [List.length_append]
    exact Nat.le_add_right _ _
  | query _ => exact Nat.le_of_eq List.length_set.symm
  | finish _ => exact Nat.le_of_eq List.length_set.symm
  | _ => exact Nat.le_refl _

/-- The generation tells whether the cache was emptied. -/
theorem Step.generation_eq (h : Step store s m t) :
    t.cache.generation = if m.clears then s.cache.generation + 1 else s.cache.generation := by
  cases h with
  | start q kind => exact GuardCache.generation_lookup _ _
  | finish _ => exact GuardCache.generation_remember _ _ _ _
  | _ => rfl

/-- A move that does not empty the cache leaves as many changes unannounced, or more if it applies
one. -/
theorem Step.unannounced_le (h : Step store s m t) (hm : m.clears = false) :
    s.unannounced ≤ t.unannounced ∧
      (t.unannounced = s.unannounced → ∀ change, m ≠ .apply change) := by
  cases h with
  | apply _ => exact ⟨Nat.le_succ _, fun h => absurd h (Nat.succ_ne_self _)⟩
  | notify _ => cases hm
  | _ => exact ⟨Nat.le_refl _, fun _ change hchange => nomatch hchange⟩

/-! ## What runs do -/

theorem Reaches.length_le (h : Reaches store s moves t) : s.lookups.length ≤ t.lookups.length := by
  induction h with
  | refl => exact Nat.le_refl _
  | step _ hstep ih => exact Nat.le_trans ih hstep.length_le

/-- Every lookup was started. -/
theorem Reaches.start_mem (h : Reaches store s moves t) (hidle : s.lookups = []) {q : Inquiry}
    {kind : Option CheckerKind} {stage : Lookup.Stage}
    (hl : t.lookups[n]? = some ⟨q, kind, stage⟩) : .start q kind ∈ moves := by
  induction h generalizing stage with
  | refl =>
    rw [hidle] at hl
    cases hl
  | step _ hstep ih =>
    cases hstep.advance hl with
    | started hmove _ => exact List.mem_append_right _ (List.mem_singleton.mpr hmove.symm)
    | queried _ hlookup => exact List.mem_append_left _ (ih hlookup)
    | finished _ hlookup => exact List.mem_append_left _ (ih hlookup)
    | kept hlookup => exact List.mem_append_left _ (ih hlookup)

/-- While every change that was applied is announced and the cache is not emptied, nothing has been
applied. -/
theorem Reaches.not_applied (h : Reaches store s moves t) (hkept : ∀ m ∈ moves, m.clears = false)
    (hquiet : t.unannounced = 0) (change : StoreChange) : .apply change ∉ moves := by
  induction h with
  | refl => exact List.not_mem_nil
  | step _ hstep ih =>
    obtain ⟨hle, hnot⟩ := hstep.unannounced_le (hkept _ (List.mem_append_right _ List.mem_cons_self))
    have hbefore := Nat.le_zero.mp (hquiet ▸ hle)
    rw [List.mem_append, List.mem_singleton, not_or]
    exact ⟨ih (fun m hm => hkept m (List.mem_append_left _ hm)) hbefore,
      (hnot (hquiet.trans hbefore.symm) change).symm⟩

/-- During the moves, a lookup was answered by the store. -/
def Queried (store : Store σ) (s : Traffic σ) (moves : List Move) (n : Nat) (q : Inquiry)
    (kind : Option CheckerKind) (outcome : Except Failure (List (Option Policy))) : Prop :=
  ∃ before after t, moves = before ++ .query n :: after ∧ Reaches store s before t ∧
    outcome = (store.find q kind t.world).1

/-- **Where an outcome comes from**: a lookup had it before, or the store was asked. -/
theorem Reaches.outcome_origin (h : Reaches store s moves t) {q : Inquiry}
    {kind : Option CheckerKind} {stage : Lookup.Stage} (hs : s.lookups[n]? = some ⟨q, kind, stage⟩)
    {l : Lookup} (ht : t.lookups[n]? = some l) :
    l.inquiry = q ∧ l.kind = kind ∧ ∀ outcome, l.stage.outcome? = some outcome →
      stage.outcome? = some outcome ∨ Queried store s moves n q kind outcome := by
  induction h generalizing l with
  | refl =>
    rw [hs] at ht
    cases ht
    exact ⟨rfl, rfl, fun outcome h => .inl h⟩
  | @step moves m t u hrun hstep ih =>
    -- what was so before the last move still is
    have hlater {outcome} : stage.outcome? = some outcome ∨ Queried store s moves n q kind outcome →
        stage.outcome? = some outcome ∨ Queried store s (moves ++ [m]) n q kind outcome := by
      rintro (hbefore | ⟨before, after, v, rfl, hv, houtcome⟩)
      · exact .inl hbefore
      · exact .inr ⟨before, after ++ [m], v, by rw [List.append_assoc]; rfl, hv, houtcome⟩
    cases hstep.advance ht with
    | started _ hnew =>
      have hlt := (List.getElem?_eq_some_iff.mp hs).1
      have hle := hrun.length_le
      omega
    | queried hmove hlookup =>
      obtain ⟨rfl, rfl, -⟩ := ih hlookup
      refine ⟨rfl, rfl, fun outcome houtcome => .inr ⟨moves, [], t, by rw [hmove], hrun, ?_⟩⟩
      rw [Lookup.Stage.outcome?_queried] at houtcome
      exact (Option.some.inj houtcome).symm
    | finished _ hlookup =>
      obtain ⟨hq, hkind, horigin⟩ := ih hlookup
      exact ⟨hq, hkind, fun outcome houtcome => hlater (horigin outcome houtcome)⟩
    | kept hlookup =>
      obtain ⟨hq, hkind, horigin⟩ := ih hlookup
      exact ⟨hq, hkind, fun outcome houtcome => hlater (horigin outcome houtcome)⟩

/-! ## Moves that nothing interrupts -/

theorem set_last (l : List Lookup) (a b : Lookup) : (l ++ [a]).set l.length b = l ++ [b] := by
  rw [List.set_append_right _ _ (Nat.le_refl _), Nat.sub_self, List.set_cons_zero]

/-- **A lookup that nothing interrupts** is a call of the cache in front of the store. -/
theorem reaches_of_find (s : Traffic σ) {q : Inquiry} {kind : Option CheckerKind}
    {outcome : Except Failure (List (Option Policy))} {world : σ} {cache : GuardCache}
    (h : GuardCache.find Place.snd (store.within Place.fst) q kind (s.world, s.cache) =
      (outcome, world, cache)) :
    ∃ rest, rest <+: [.query s.lookups.length, .finish s.lookups.length] ∧
      Reaches store s (.start q kind :: rest)
        { s with world, cache, lookups := s.lookups ++ [⟨q, kind, .done outcome⟩] } := by
  have hstart : Step store s (.start q kind) _ := .start q kind
  rw [GuardCache.find_apply] at h
  simp only [Place.snd, Lookup.Stage.started] at h hstart
  rcases hlookup : s.cache.lookup (.of q kind) with ⟨_ | answer, c⟩
  · rw [hlookup] at h hstart
    simp only [Store.within, Place.run, Place.fst] at h
    have hquery : Step store
        { s with cache := c, lookups := s.lookups ++ [⟨q, kind, .missed s.cache.generation⟩] }
        (.query s.lookups.length) _ := .query List.getElem?_concat_length
    rw [set_last] at hquery
    rcases hfind : store.find q kind s.world with ⟨failure | answer, w⟩
    · rw [hfind] at h hquery
      cases h
      exact ⟨[.query s.lookups.length], ⟨[.finish s.lookups.length], rfl⟩,
        .step (.step .refl hstart) hquery⟩
    · rw [hfind] at h hquery
      cases h
      have hfinish : Step store
          { s with
            world := w
            cache := c
            lookups := s.lookups ++ [⟨q, kind, .answered s.cache.generation answer⟩] }
          (.finish s.lookups.length) _ := .finish List.getElem?_concat_length
      rw [set_last] at hfinish
      exact ⟨_, List.prefix_rfl, .step (.step (.step .refl hstart) hquery) hfinish⟩
  · rw [hlookup] at h hstart
    cases h
    exact ⟨[], List.nil_prefix, .step .refl hstart⟩

/-- The store beside a cache that listens to its changes. -/
def heard (store : Store σ) : Store (σ × GuardCache) :=
  Observed.store (store.within Place.fst) (fun _ => [()])
    fun _ _ => Place.snd.modify GuardCache.policiesChanged

/-- A change that is made is heard by the cache, and one that fails is not. -/
theorem on_heard (change : StoreChange) (w : σ) (c : GuardCache) :
    change.on (heard store) (w, c) =
      (match change.on store w with
        | (.ok (), w') => (.ok (), w', c.policiesChanged)
        | (.error failure, w') => (.error failure, w', c)) := by
  rw [heard, StoreChange.on_observed, Run.bind_apply, StoreChange.on_within, Place.run]
  simp only [Place.fst]
  rcases change.on store w with ⟨_ | _, w'⟩ <;> rfl

/-- **A change that nothing interrupts** is a change of the store to which the cache listens. -/
theorem reaches_of_change (s : Traffic σ) {change : StoreChange} {world : σ} {cache : GuardCache}
    (h : change.on (heard store) (s.world, s.cache) = (.ok (), world, cache)) :
    Reaches store s [.apply change, .notify] { s with world, cache } := by
  rw [on_heard] at h
  rcases happlied : change.on store s.world with ⟨_ | _, w⟩
  · rw [happlied] at h
    cases h
  · rw [happlied] at h
    cases h
    exact .step (.step .refl (.apply happlied)) (.notify rfl)

end Traffic

end AccessControl
