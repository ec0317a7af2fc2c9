import AccessControl.Engine
import AccessControl.Proofs.Judge

/-!
# Engines decide as their policies say

An engine keeps its policies twice, remembers answers of its store and remembers compiled templates.
None of this shows: whatever is done to an engine (`EngineAct`), it answers as the bare table of its
policies would, every policy of which is judged anew for every decision (`EngineAct.onTable`).  The
engine mirrors the table (`Engine.Mirrors`) when it is built, and every act keeps it so
(`Engine.onEngine_mirrors`); hence the histories of the two agree (`Engine.outcomes_eq`).
-/

namespace AccessControl

open Powers

/-- What is done to an engine. -/
inductive EngineAct where
  | add (p : Option Policy)
  | update (p : Option Policy)
  | remove (uid : Bytes)
  | markStale
  | markFresh
  | invalidate
  | evaluate (q : Inquiry)

/-- What an act comes to. -/
inductive EngineOutcome where
  /-- A change of the policies, made or refused. -/
  | changed (result : Except Failure Unit)
  /-- A change of the cache. -/
  | told
  | decided (v : Verdict)

namespace EngineAct

/-- An act on an engine. -/
def onEngine (act : EngineAct) (e : Engine) : EngineOutcome × Engine :=
  match act with
  | add p => (Engine.store.add p e).map .changed id
  | update p => (Engine.store.update p e).map .changed id
  | remove uid => (Engine.store.remove uid e).map .changed id
  | markStale => (.told, Engine.cachePlace.write e.cache.markStale e)
  | markFresh => (.told, Engine.cachePlace.write e.cache.markFresh e)
  | invalidate => (.told, Engine.cachePlace.write e.cache.invalidate e)
  | evaluate q => (e.evaluate q).map .decided id

/-- A change of a table, unless it is refused. -/
def change (f : PolicyTable → Except PolicyError PolicyTable) (t : PolicyTable) :
    EngineOutcome × PolicyTable :=
  match f t with
  | .ok t' => (.changed (.ok ()), t')
  | .error e => (.changed (.error (.refused e)), t)

/-- An act on the policies alone: a decision looks at all of them, in the order of their identifiers,
and compiles what it needs. -/
def onTable (kind : CheckerKind) (act : EngineAct) (t : PolicyTable) : EngineOutcome × PolicyTable :=
  match act with
  | add p => change (·.add p) t
  | update p => change (·.update p) t
  | remove uid => change (fun t => .ok (t.erase uid)) t
  | markStale | markFresh | invalidate => (.told, t)
  | evaluate q => (.decided ((Checker.judge kind).verdict q (some (.ok (t.toList.map some)))), t)

/-- What acts come to, one after the other. -/
def outcomes {σ : Type} (act : EngineAct → σ → EngineOutcome × σ) :
    List EngineAct → σ → List EngineOutcome
  | [], _ => []
  | a :: rest, s => (act a s).1 :: outcomes act rest (act a s).2

end EngineAct

namespace Engine

/-- **The engine mirrors a table**: both tiers hold its policies, the cache hears of changes and
recalls nothing but what the table gives now, and the remembered templates are right. -/
structure Mirrors (kind : CheckerKind) (t : PolicyTable) (e : Engine) : Prop where
  kind_made : Checker.madeKind kind = kind
  checker : e.checker = kind
  primary : e.primary = t
  tier : e.tier = t
  listens : EngineListener.cache ∈ e.listeners.listeners
  templates : e.templates.Sound
  recalls : e.cache.Recalls ((t.toList.filter fun p => p.type == kind.family).map some)

variable {kind : CheckerKind} {t : PolicyTable} {e : Engine}

theorem primaryPlace_apart : primaryPlace.Apart tierPlace := ⟨fun _ _ => rfl, fun _ _ => rfl⟩

theorem tierPlace_lawful : tierPlace.Lawful := ⟨fun _ _ => rfl, fun _ => rfl, fun _ _ _ => rfl⟩

theorem cachePlace_lawful : cachePlace.Lawful := ⟨fun _ _ => rfl, fun _ => rfl, fun _ _ _ => rfl⟩

/-! ## Changes -/

/-- Telling the listeners of a change never fails and leaves an engine whose cache, if it was told,
recalls nothing; policies and templates are not touched. -/
theorem notify_spec (c : PolicyChange) (listeners : List EngineListener) (e : Engine) :
    ∃ cache audit, Observed.notify call c listeners e = (.ok (), { e with cache, audit }) ∧
      (cache = e.cache ∨ ∀ answer, cache.Recalls answer) ∧
      (EngineListener.cache ∈ listeners → ∀ answer, cache.Recalls answer) := by
  induction listeners generalizing e with
  | nil => exact ⟨e.cache, e.audit, rfl, .inl rfl, fun h => nomatch h⟩
  | cons listener rest ih =>
    cases listener with
    | cache =>
      obtain ⟨cache, audit, hnotify, hkept, -⟩ := ih { e with cache := e.cache.policiesChanged }
      -- whatever the later listeners do, nothing stays in the cache
      have hcleared : ∀ answer, cache.Recalls answer := by
        intro answer
        rcases hkept with rfl | hkept
        · exact GuardCache.recalls_policiesChanged _
        · exact hkept answer
      exact ⟨cache, audit, hnotify, .inr hcleared, fun _ => hcleared⟩
    | audit =>
      obtain ⟨cache, audit, hnotify, hkept, htold⟩ :=
        ih (updateAudit (fun log =>
          log.change { change := c.kind.name, uid := c.uid, time := log.time }) e)
      refine ⟨cache, audit, hnotify, hkept, fun h => htold ?_⟩
      rcases List.mem_cons.mp h with h | h
      · cases h
      · exact h

/-- A change of both tiers, made known to the listeners. -/
def announced (codes : List ErrorCode) (f : PolicyTable → Except PolicyError PolicyTable)
    (c : PolicyChange) : Run Failure Engine Unit := do
  (do
    TwoTier.tolerating codes (PolicyTable.exchange primaryPlace f)
    PolicyTable.exchange tierPlace f)
  Observed.notify call c (← MonadState.get).listeners.listeners

/-- **A change of the store is a change of the table**, and the cache hears of it. -/
theorem announced_mirrors (h : e.Mirrors kind t) (codes : List ErrorCode)
    (f : PolicyTable → Except PolicyError PolicyTable) (c : PolicyChange) :
    EngineOutcome.changed (announced codes f c e).1 = (EngineAct.change f t).1 ∧
      (announced codes f c e).2.Mirrors kind (EngineAct.change f t).2 := by
  have hsame : tierPlace.read e = primaryPlace.read e := h.tier.trans h.primary.symm
  have hprimary : (primaryPlace.both tierPlace).read e = t := h.primary
  rw [announced, Run.bind_apply, TwoTier.exchange_both primaryPlace_apart hsame,
    PolicyTable.exchange, hprimary, EngineAct.change]
  cases hf : f t with
  | error reason => exact ⟨rfl, h⟩
  | ok t' =>
    simp only
    obtain ⟨cache, audit, hnotify, -, htold⟩ := notify_spec c e.listeners.listeners
      { e with primary := t', tier := t' }
    have hrun : (do
        Observed.notify call c (← (MonadState.get : Run Failure Engine Engine)).listeners.listeners)
        ((primaryPlace.both tierPlace).write t' e) =
        (.ok (), { e with primary := t', tier := t', cache, audit }) := hnotify
    rw [hrun]
    exact ⟨rfl, h.kind_made, h.checker, rfl, rfl, h.listens, h.templates, htold h.listens _⟩

/-! ## Decisions -/

/-- The store answers with the policies of the checker's family. -/
theorem store_find_eq (h : e.Mirrors kind t) (q : Inquiry) (c : GuardCache) :
    Engine.store.find q (some kind) (cachePlace.write c e) =
      (.ok ((t.toList.filter fun p => p.type == kind.family).map some), cachePlace.write c e) := by
  have hsame : tierPlace.read (cachePlace.write c e) = primaryPlace.read (cachePlace.write c e) :=
    h.tier.trans h.primary.symm
  have hprimary : (primaryPlace.both tierPlace).read (cachePlace.write c e) = t := h.primary
  have hmade := h.kind_made
  have hask : Engine.store.find q (some kind) =
      TwoTier.readThrough List.isEmpty
        (PolicyTable.ask tierPlace fun t => (t.candidates (some kind)).map (·.map some))
        (PolicyTable.ask primaryPlace fun t => (t.candidates (some kind)).map (·.map some)) := rfl
  rw [hask, TwoTier.ask_both hsame, PolicyTable.ask, hprimary]
  cases kind with
  | other n => cases hmade
  | _ => rfl

theorem candidates_mirrors (h : e.Mirrors kind t) (q : Inquiry) :
    (e.guard.candidates Engine.store kind q e).1 =
        .ok ((t.toList.filter fun p => p.type == kind.family).map some) ∧
      (e.guard.candidates Engine.store kind q e).2.Mirrors kind t := by
  obtain ⟨c, hrecalls, hfind⟩ :=
    GuardCache.find_eq cachePlace_lawful h.recalls fun c => store_find_eq h q c
  have hcandidates : e.guard.candidates Engine.store kind q e =
      GuardCache.find cachePlace Engine.store q kind e := rfl
  rw [hcandidates, hfind]
  exact ⟨rfl, h.kind_made, h.checker, h.primary, h.tier, h.listens, h.templates, hrecalls⟩

theorem record_mirrors (h : e.Mirrors kind t) (g : Engine) (q : Inquiry) (v : Verdict) :
    (g.guard.record q v e).Mirrors kind t := by
  unfold Guard.record
  cases haudit : g.guard.audit with
  | none =>
    exact ⟨h.kind_made, h.checker, h.primary, h.tier, h.listens, h.templates, h.recalls⟩
  | some audit =>
    obtain ⟨log, -, rfl⟩ := Option.map_eq_some_iff.mp haudit
    exact ⟨h.kind_made, h.checker, h.primary, h.tier, h.listens, h.templates, h.recalls⟩

/-- **A decision is the verdict on all policies of the table.** -/
theorem evaluate_mirrors (h : e.Mirrors kind t) (q : Inquiry) :
    (e.evaluate q).1 = (Checker.judge kind).verdict q (some (.ok (t.toList.map some))) ∧
      (e.evaluate q).2.Mirrors kind t := by
  have hchecker : Checker.madeKind e.checker = kind := by rw [h.checker, h.kind_made]
  have hfetched : e.guard.fetched q e =
      some (.ok ((t.toList.filter fun p => p.type == kind.family).map some)) := by
    show some (e.guard.candidates Engine.store (Checker.madeKind e.checker) q e).1 = _
    rw [hchecker, (candidates_mirrors h q).1]
  obtain ⟨e', he', heval⟩ := Guard.evaluate_of_answers (J := Mirrors kind t) (g := e.guard)
    (Checker.judge kind) q h
    (by
      rintro _ ⟨⟩ _ ⟨⟩
      show (e.guard.candidates Engine.store (Checker.madeKind e.checker) q e).2.Mirrors kind t
      rw [hchecker]
      exact (candidates_mirrors h q).2)
    (by
      rintro _ ⟨⟩ p
      show Run.Answers _ _ (templatesPlace.run (Checker.fitsBy (Checker.madeKind e.checker) p q)) _
      rw [hchecker]
      refine (Checker.answers_fitsBy kind p q).run templatesPlace (fun e he => he.templates) ?_
      exact fun e memo he hsound =>
        ⟨he.kind_made, he.checker, he.primary, he.tier, he.listens, hsound, he.recalls⟩)
  have heval : e.evaluate q = _ := heval
  rw [heval, hfetched]
  refine ⟨?_, record_mirrors he' e q _⟩
  simp only [Judgement.verdict, Checker.fitting_family]

/-! ## Histories -/

/-- **Every act keeps the mirror**, and comes to the same on both sides. -/
theorem onEngine_mirrors (h : e.Mirrors kind t) (act : EngineAct) :
    (act.onEngine e).1 = (act.onTable kind t).1 ∧
      (act.onEngine e).2.Mirrors kind (act.onTable kind t).2 := by
  cases act with
  | add p =>
    exact announced_mirrors h [.policyExists] (·.add p) ⟨.added, Observed.uidOf p⟩
  | update p =>
    exact announced_mirrors h
      [.policyNotFound, .policyUpdate, .policyExists, .policyCreation] (·.update p)
      ⟨.updated, Observed.uidOf p⟩
  | remove uid =>
    exact announced_mirrors h [.policyNotFound, .policyDeletion] (fun t => .ok (t.erase uid))
      ⟨.removed, uid⟩
  | markStale =>
    exact ⟨rfl, h.kind_made, h.checker, h.primary, h.tier, h.listens, h.templates, h.recalls⟩
  | markFresh =>
    exact ⟨rfl, h.kind_made, h.checker, h.primary, h.tier, h.listens, h.templates, h.recalls⟩
  | invalidate =>
    exact ⟨rfl, h.kind_made, h.checker, h.primary, h.tier, h.listens, h.templates,
      Lru.holds_clear _⟩
  | evaluate q =>
    obtain ⟨hverdict, hkept⟩ := evaluate_mirrors h q
    exact ⟨congrArg EngineOutcome.decided hverdict, hkept⟩

theorem outcomes_of_mirrors (h : e.Mirrors kind t) (acts : List EngineAct) :
    EngineAct.outcomes EngineAct.onEngine acts e =
      EngineAct.outcomes (EngineAct.onTable kind) acts t := by
  induction acts generalizing e t with
  | nil => rfl
  | cons act rest ih =>
    obtain ⟨houtcome, hkept⟩ := onEngine_mirrors h act
    rw [EngineAct.outcomes, EngineAct.outcomes, houtcome, ih hkept]

/-! ## Building -/

theorem foldlM_add_eq {policies : List (Option Policy)} {t t' : PolicyTable}
    (h : policies.foldlM PolicyTable.add t = .ok t') :
    t' = (policies.filterMap id).foldl (fun t p => t.insertNew p) t := by
  induction policies generalizing t with
  | nil =>
    cases h
    rfl
  | cons p policies ih =>
    rw [List.foldlM_cons] at h
    cases p with
    | none => cases h
    | some p =>
      rw [PolicyTable.add] at h
      split at h
      · cases h
      · exact ih h

/-- Filling the cache tier makes it equal to the primary tier. -/
theorem warmed_eq {batch : UInt64} {e' : Engine} (htier : e.tier = {}) (h : e.warmed batch = .ok e') :
    e' = { e with tier := e.primary } := by
  rcases TwoTier.populate_empty tierPlace_lawful primaryPlace_apart htier batch with
    ⟨loaded, hpopulate⟩ | ⟨reason, s', hpopulate⟩
  · rw [warmed, hpopulate] at h
    cases h
    rfl
  · rw [warmed, hpopulate] at h
    cases h

theorem cache_mem_subscribersOf (audit : Option AuditLog) :
    EngineListener.cache ∈ (subscribersOf audit).listeners := by
  cases audit <;> exact List.mem_cons_self ..

/-- **A new engine mirrors the policies of its configuration.** -/
theorem build_mirrors {config : Config} (h : build config = .ok e) :
    e.Mirrors (Checker.madeKind config.checker) (Keyed.ofList (config.policies.filterMap id)) := by
  unfold build at h
  cases htable : tableOf config.policies with
  | error reason =>
    rw [htable] at h
    cases h
  | ok primary =>
    rw [htable] at h
    cases hwarmed : Engine.warmed config.warmupBatchSize { ofSettings config with primary } with
    | error reason =>
      simp only [bind, Except.bind, hwarmed] at h
      cases h
    | ok warm =>
      cases haudit : auditOf config with
      | error reason =>
        simp only [bind, Except.bind, hwarmed, haudit] at h
        cases h
      | ok audit =>
        simp only [bind, Except.bind, hwarmed, haudit] at h
        cases h
        obtain rfl := warmed_eq rfl hwarmed
        obtain rfl := foldlM_add_eq htable
        have hmade : Checker.madeKind (Checker.madeKind config.checker) =
            Checker.madeKind config.checker := by cases config.checker <;> rfl
        exact ⟨hmade, rfl, rfl, rfl, cache_mem_subscribersOf audit, Lru.holds_ofCapacity _,
          GuardCache.recalls_ofCapacity _⟩

/-- Policies with new identifiers, no two of which are equal, can be added. -/
theorem foldlM_add_of_new {policies : List Policy} {t : PolicyTable}
    (hnew : ∀ p ∈ policies, t.contains p.uid = false)
    (hdistinct : policies.Pairwise fun p p' => p.uid ≠ p'.uid) :
    (policies.map some).foldlM PolicyTable.add t =
      .ok (policies.foldl (fun t p => t.insertNew p) t) := by
  induction policies generalizing t with
  | nil => rfl
  | cons p policies ih =>
    obtain ⟨hp, hdistinct⟩ := List.pairwise_cons.mp hdistinct
    have hadd : PolicyTable.add t (some p) = .ok (t.insertNew p) := by
      rw [PolicyTable.add, hnew p (List.mem_cons_self ..)]
      rfl
    have hnew' : ∀ p' ∈ policies, (t.insertNew p).contains p'.uid = false := by
      intro p' hp'
      rw [Bool.eq_false_iff]
      intro hcontains
      -- a policy of this name is the new one or was there before
      obtain ⟨b, hb, huid⟩ := Keyed.contains_iff.mp hcontains
      rcases Keyed.mem_placed hb with rfl | hb
      · exact hp p' hp' huid
      · have hknown : t.contains p'.uid = true := Keyed.contains_iff.mpr ⟨b, hb, huid⟩
        rw [hnew p' (List.mem_cons_of_mem _ hp')] at hknown
        cases hknown
    rw [List.map_cons, List.foldlM_cons, hadd]
    exact ih hnew' hdistinct

/-- **What is accepted.**  An engine is built for any settings, if pages can be told by a signed integer
of 64 bits, there is no audit log, and the policies are distinct and not beyond all bounds. -/
theorem build_accepts {config : Config} {policies : List Policy}
    (hpolicies : config.policies = policies.map some)
    (hdistinct : policies.Pairwise fun p p' => p.uid ≠ p'.uid) (hsize : policies.length ≤ 2 ^ (62 : Nat))
    (hbatch : config.warmupBatchSize.toNat < 2 ^ (63 : Nat)) (haudit : config.auditLogPath = []) :
    ∃ e, build config = .ok e := by
  have htable : tableOf config.policies = .ok (Keyed.ofList policies) := by
    rw [tableOf, hpolicies]
    exact foldlM_add_of_new (fun _ _ => rfl) hdistinct
  have hwarmed : ∃ e, Engine.warmed config.warmupBatchSize
      { ofSettings config with primary := Keyed.ofList policies } = .ok e := by
    rw [warmed]
    rcases TwoTier.populate_table tierPlace_lawful primaryPlace_apart config.warmupBatchSize
      { ofSettings config with primary := Keyed.ofList policies } with
      hpopulate | ⟨hbatch' | hsize', -⟩
    · rw [hpopulate]
      exact ⟨_, rfl⟩
    · exact absurd hbatch (Nat.not_lt.mpr hbatch')
    · have hle : (Keyed.ofList policies : PolicyTable).size ≤ policies.length :=
        Keyed.size_ofList_le policies
      exact absurd hsize' (Nat.not_lt.mpr (Nat.le_trans hle hsize))
  obtain ⟨e, hwarmed⟩ := hwarmed
  have haudit : auditOf config = .ok none := by
    rw [auditOf, haudit]
    rfl
  rw [build, htable]
  simp only [bind, Except.bind, hwarmed, haudit]
  exact ⟨_, rfl⟩

/-- **Nothing but the policies shows.**  Whatever is done to an engine that was built, in whichever
order, it refuses what the table of the policies refuses, and each of its verdicts, with the policies
named, the reason and the failure told, is that of a checker without memory on all policies that the
table has at that time. -/
theorem outcomes_eq {config : Config} (h : build config = .ok e) (acts : List EngineAct) :
    EngineAct.outcomes EngineAct.onEngine acts e =
      EngineAct.outcomes (EngineAct.onTable (Checker.madeKind config.checker)) acts
        (Keyed.ofList (config.policies.filterMap id)) :=
  outcomes_of_mirrors (build_mirrors h) acts

theorem outcomes_eq_allowingA :
    ∃ e, build { checker := .exact, policies := [some Policy.allowingA] } = .ok e ∧
    EngineAct.outcomes EngineAct.onEngine
      [.evaluate { subject := .string [97] }, .remove [112], .evaluate { subject := .string [97] }] e =
      [.decided (.allowed [[112]]), .changed (.ok ()), .decided .unmatched] := by
  obtain ⟨e, he⟩ :
      ∃ e, build { checker := .exact, policies := [some Policy.allowingA] } = .ok e := ⟨_, rfl⟩
  exact ⟨e, he, outcomes_eq he _⟩

end Engine

end AccessControl
