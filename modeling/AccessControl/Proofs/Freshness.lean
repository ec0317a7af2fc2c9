import AccessControl.Proofs.Decision
import AccessControl.Proofs.Interleaving

/-!
# Served answers are fresh

However lookups and changes interleave, a cache in front of a store serves nothing from before it was
last emptied: every remembered answer was given by the store to a query after which nothing has emptied
the cache (`Traffic.Fresh`).  Generations carry the argument.  A lookup that was told the generation of
the cache before it queried the store may remember the answer only if the generation is still the same,
and then the cache was not emptied since the query (`Traffic.Sound`, kept by every move).

So a lookup that starts when no applied change is unannounced receives what the store would answer at
that moment, or, if a change is applied before it queries the store itself, what the store answers then
(`Traffic.start_receives`).  This needs that an inquiry and a kind of checker are told apart by their
key.  The number that stands for no checker is the number of a kind, too: a lookup by a checker of that
kind may be served the answer to a lookup without one (`Traffic.start_receives_other`).
-/

namespace AccessControl.Traffic

open GuardCache (Key)

variable {σ : Type} {store : Store σ} {s₀ s t u : Traffic σ} {m : Move} {moves later : List Move}
  {n : Nat} {q q' : Inquiry} {kind kind' : Option CheckerKind} {key : Key}
  {answer : List (Option Policy)}

/-! ## Answers since the cache was last emptied -/

/-- In a run, the store gave an answer to the query of a lookup, and after that query nothing emptied
the cache. -/
def Given (store : Store σ) (s₀ : Traffic σ) (moves : List Move) (s : Traffic σ) (q : Inquiry)
    (kind : Option CheckerKind) (answer : List (Option Policy)) : Prop :=
  ∃ earlier n later u generation,
    moves = earlier ++ .query n :: later ∧ (∀ m ∈ later, m.clears = false) ∧
    Reaches store s₀ earlier u ∧ Reaches store u (.query n :: later) s ∧
    u.lookups[n]? = some ⟨q, kind, .missed generation⟩ ∧ (store.find q kind u.world).1 = .ok answer

/-- Such an answer was given to a lookup whose key counts as the same. -/
def Fresh (store : Store σ) (s₀ : Traffic σ) (moves : List Move) (s : Traffic σ) (key : Key)
    (answer : List (Option Policy)) : Prop :=
  ∃ q kind, Given store s₀ moves s q kind answer ∧ (key = .of q kind ∨ (key == .of q kind) = true)

theorem Given.step (h : Given store s₀ moves s q kind answer) (hstep : Step store s m t)
    (hm : m.clears = false) : Given store s₀ (moves ++ [m]) t q kind answer := by
  obtain ⟨earlier, n, later, u, generation, rfl, hkept, hu, hlater, hlookup, hanswer⟩ := h
  refine ⟨earlier, n, later ++ [m], u, generation, ?_, ?_, hu, .step hlater hstep, hlookup, hanswer⟩
  · rw [List.append_assoc, List.cons_append]
  · intro m' hm'
    rcases List.mem_append.mp hm' with hm' | hm'
    · exact hkept m' hm'
    · rw [List.mem_singleton.mp hm', hm]

theorem Fresh.step (h : Fresh store s₀ moves s key answer) (hstep : Step store s m t)
    (hm : m.clears = false) : Fresh store s₀ (moves ++ [m]) t key answer := by
  obtain ⟨q, kind, hgiven, hkey⟩ := h
  exact ⟨q, kind, hgiven.step hstep hm, hkey⟩

/-- **The cache is sound**: what it remembers is fresh, and so is the answer that a lookup of its
generation is about to have remembered. -/
structure Sound (store : Store σ) (s₀ : Traffic σ) (moves : List Move) (s : Traffic σ) : Prop where
  table : s.cache.table.Holds (Fresh store s₀ moves s)
  given : ∀ {n generation : Nat} {q : Inquiry} {kind : Option CheckerKind}
    {answer : List (Option Policy)}, s.lookups[n]? = some ⟨q, kind, .answered generation answer⟩ →
      s.cache.generation = generation → Given store s₀ moves s q kind answer
  told : ∀ {n generation : Nat} {l : Lookup}, s.lookups[n]? = some l →
    l.stage.generation? = some generation → generation ≤ s.cache.generation

theorem Sound.init (hempty : s.cache.table.entries = []) (hidle : s.lookups = []) :
    Sound store s [] s where
  table e he := by
    rw [hempty] at he
    cases he
  given h := by
    rw [hidle] at h
    cases h
  told h := by
    rw [hidle] at h
    cases h

/-- No lookup is told a generation that is yet to come. -/
theorem Sound.told_step (h : Sound store s₀ moves s) (hstep : Step store s m t) {l : Lookup}
    {generation : Nat} (hl : t.lookups[n]? = some l)
    (hgeneration : l.stage.generation? = some generation) : generation ≤ t.cache.generation := by
  have hle : s.cache.generation ≤ t.cache.generation := by
    rw [hstep.generation_eq]
    split <;> omega
  refine Nat.le_trans ?_ hle
  cases hstep.advance hl with
  | started _ _ =>
    rcases Lookup.Stage.started_cases s.cache (.of _ _) with ⟨answer, -, hstage⟩ | hstage
    · rw [hstage] at hgeneration
      cases hgeneration
    · rw [hstage] at hgeneration
      cases hgeneration
      exact Nat.le_refl _
  | queried _ hlookup =>
    rw [Lookup.Stage.generation?_queried hgeneration]
    exact h.told hlookup rfl
  | finished _ _ => cases hgeneration
  | kept hlookup => exact h.told hlookup hgeneration

/-- A lookup that has been answered in the generation of the cache has a fresh answer: the move was its
query, or it had the answer and the move did not empty the cache. -/
theorem Sound.given_step (h : Sound store s₀ moves s) (hrun : Reaches store s₀ moves s)
    (hstep : Step store s m t) {generation : Nat}
    (hl : t.lookups[n]? = some ⟨q, kind, .answered generation answer⟩)
    (hgeneration : t.cache.generation = generation) : Given store s₀ (moves ++ [m]) t q kind answer := by
  rw [hstep.generation_eq] at hgeneration
  generalize hl' : Lookup.mk q kind (.answered generation answer) = l at hl
  cases hstep.advance hl with
  | started _ _ =>
    rcases Lookup.Stage.started_cases s.cache (.of _ _) with ⟨answer, -, hstage⟩ | hstage
    · rw [hstage] at hl'
      cases hl'
    · rw [hstage] at hl'
      cases hl'
  | queried hmove hlookup =>
    obtain ⟨rfl, rfl, hstage⟩ := Lookup.mk.inj hl'
    obtain ⟨rfl, hanswer⟩ := Lookup.Stage.of_queried_eq_answered hstage.symm
    subst hmove
    exact ⟨moves, n, [], s, _, rfl, fun _ hm => absurd hm List.not_mem_nil, hrun,
      .step .refl hstep, hlookup, hanswer⟩
  | finished _ _ => cases hl'
  | kept hlookup =>
    subst hl'
    cases hm : m.clears with
    | true =>
      -- the generation of the lookup has passed
      rw [hm, if_pos rfl] at hgeneration
      have hle := h.told hlookup rfl
      omega
    | false =>
      rw [hm] at hgeneration
      exact (h.given hlookup hgeneration).step hstep hm

/-- What a sound cache remembers after a move is fresh. -/
theorem Sound.table_step (h : Sound store s₀ moves s) (hstep : Step store s m t) :
    t.cache.table.Holds (Fresh store s₀ (moves ++ [m]) t) := by
  have hmore : m.clears = false → s.cache.table.Holds (Fresh store s₀ (moves ++ [m]) t) :=
    fun hm => h.table.imp fun _ _ hfresh => hfresh.step hstep hm
  cases id hstep with
  | start q kind => exact (GuardCache.holds_lookup (hmore rfl) _).1
  | finish hlookup =>
    have hgiven (hgeneration) := (h.given hlookup hgeneration).step hstep rfl
    exact GuardCache.holds_remember (hmore rfl)
      (fun hgeneration => ⟨_, _, hgiven hgeneration, .inl rfl⟩)
      fun hgeneration key hkey => ⟨_, _, hgiven hgeneration, .inr hkey⟩
  | notify _ => exact Lru.holds_clear _
  | invalidate => exact Lru.holds_clear _
  | query _ => exact hmore rfl
  | apply _ => exact hmore rfl
  | markStale => exact hmore rfl
  | markFresh => exact hmore rfl

/-- **Every move keeps the cache sound.** -/
theorem Sound.step (h : Sound store s₀ moves s) (hrun : Reaches store s₀ moves s)
    (hstep : Step store s m t) : Sound store s₀ (moves ++ [m]) t where
  table := h.table_step hstep
  given := h.given_step hrun hstep
  told := h.told_step hstep

theorem Reaches.sound (h : Reaches store s₀ moves s) (hempty : s₀.cache.table.entries = [])
    (hidle : s₀.lookups = []) : Sound store s₀ moves s := by
  induction h with
  | refl => exact .init hempty hidle
  | step hrun hstep ih => exact ih.step hrun hstep

/-! ## Stores that answer by their policies -/

/-- The answers of the store depend on its policies alone, on the kind of checker, and on the inquiry up
to equality; asking changes no policies. -/
structure AnswersBy {π : Type} (store : Store σ) (view : σ → π)
    (answerOf : π → Inquiry → Option CheckerKind → Except Failure (List (Option Policy))) : Prop where
  find : ∀ q kind w, (store.find q kind w).1 = answerOf (view w) q kind
  view_find : ∀ q kind w, view (store.find q kind w).2 = view w
  congr : ∀ policies q q' kind, (q == q') = true → answerOf policies q kind = answerOf policies q' kind

/-- What a table answers. -/
def tableAnswer (t : PolicyTable) (_ : Inquiry) (kind : Option CheckerKind) :
    Except Failure (List (Option Policy)) :=
  ((t.candidates kind).map (List.map some)).mapError .refused

theorem answersBy_table : AnswersBy (PolicyTable.store Place.whole) id tableAnswer :=
  ⟨fun _ _ _ => rfl, fun _ _ _ => rfl, fun _ _ _ _ _ => rfl⟩

variable {π : Type} {view : σ → π}
  {answerOf : π → Inquiry → Option CheckerKind → Except Failure (List (Option Policy))}

/-- Only applied changes change the policies. -/
theorem AnswersBy.view_step (h : AnswersBy store view answerOf) (hstep : Step store s m t)
    (hm : ∀ change, m ≠ .apply change) : view t.world = view s.world := by
  cases hstep with
  | query _ => exact h.view_find _ _ _
  | apply _ => exact absurd rfl (hm _)
  | _ => rfl

theorem AnswersBy.view_reaches (h : AnswersBy store view answerOf) (hrun : Reaches store s moves t)
    (hmoves : ∀ change, .apply change ∉ moves) : view t.world = view s.world := by
  induction hrun with
  | refl => rfl
  | step _ hstep ih =>
    rw [h.view_step hstep fun change hm => hmoves change (by rw [hm]; exact List.mem_concat_self),
      ih fun change hmem => hmoves change (List.mem_append_left _ hmem)]

/-- **An answer that was given is the answer of now**, if nothing emptied the cache since and every
applied change is announced. -/
theorem AnswersBy.given (h : AnswersBy store view answerOf) (hquiet : s.unannounced = 0)
    (hgiven : Given store s₀ moves s q kind answer) : answerOf (view s.world) q kind = .ok answer := by
  obtain ⟨_, n, later, u, _, -, hkept, -, hlater, -, hanswer⟩ := hgiven
  have hkept' : ∀ m ∈ .query n :: later, m.clears = false := by
    intro m hm
    rcases List.mem_cons.mp hm with rfl | hm
    · rfl
    · exact hkept m hm
  rw [h.view_reaches hlater (hlater.not_applied hkept' hquiet), ← h.find, hanswer]

/-! ## Kinds that keys tell apart -/

/-- The kind with the number that stands for no checker. -/
def unnamed : CheckerKind := .ofNumber 255

/-- Lookups without a checker and lookups by a checker of the kind that shares their number do not both
start. -/
def Unmixed (moves : List Move) : Prop :=
  (∀ q, .start q none ∉ moves) ∨ ∀ q, .start q (some unnamed) ∉ moves

theorem number_inj {kind kind' : CheckerKind} (h : kind.number = kind'.number) : kind = kind' := by
  cases kind with
  | other n =>
    cases kind' with
    | other n' => exact congrArg CheckerKind.other (Fin.ext (Nat.add_right_cancel h))
    | _ => cases h
  | _ =>
    cases kind' with
    | other n' => cases h
    | _ => first | rfl | cases h

/-- **Keys tell kinds apart**, in a run that does not mix those with one number. -/
theorem Unmixed.kind_eq (h : Unmixed moves) (hq : .start q kind ∈ moves)
    (hq' : .start q' kind' ∈ moves) (hkey : (Key.of q kind).checker = (Key.of q' kind').checker) :
    kind = kind' := by
  cases kind with
  | none =>
    cases kind' with
    | none => rfl
    | some kind' =>
      obtain rfl : kind' = unnamed := number_inj hkey.symm
      rcases h with h | h
      · exact absurd hq (h q)
      · exact absurd hq' (h q')
  | some kind =>
    cases kind' with
    | none =>
      obtain rfl : kind = unnamed := number_inj hkey
      rcases h with h | h
      · exact absurd hq' (h q')
      · exact absurd hq (h q)
    | some kind' => exact congrArg some (number_inj hkey)

/-- **A fresh answer is the answer of now** to every inquiry with its key. -/
theorem AnswersBy.fresh (h : AnswersBy store view answerOf) (hrun : Reaches store s₀ moves s)
    (hidle : s₀.lookups = []) (hquiet : s.unannounced = 0)
    (hunmixed : Unmixed (moves ++ [.start q kind])) (hfresh : Fresh store s₀ moves s key answer)
    (hkey : (key == .of q kind) = true) : answerOf (view s.world) q kind = .ok answer := by
  obtain ⟨q', kind', hgiven, hkey'⟩ := hfresh
  have hanswer := h.given hquiet hgiven
  have hstarted : .start q' kind' ∈ moves := by
    obtain ⟨earlier, n, later, u, _, rfl, -, hu, -, hlookup, -⟩ := hgiven
    exact List.mem_append_left _ (hu.start_mem hidle hlookup)
  obtain ⟨-, hq, hchecker⟩ : _ ∧ (key.inquiry == q) = true ∧ key.checker = (Key.of q kind).checker :=
    (Key.beq_iff key (Key.of q kind)).mp hkey
  -- the key under which the answer is remembered is that of the lookup or equal to it
  have hsame : answerOf (view s.world) key.inquiry kind' = answerOf (view s.world) q' kind' ∧
      key.checker = (Key.of q' kind').checker := by
    rcases hkey' with rfl | hkey'
    · exact ⟨rfl, rfl⟩
    · obtain ⟨-, hq', hchecker'⟩ := (Key.beq_iff key (Key.of q' kind')).mp hkey'
      exact ⟨h.congr _ _ _ _ hq', hchecker'⟩
  have hstart : .start q kind ∈ moves ++ [.start q kind] := List.mem_concat_self
  have hkind : kind = kind' :=
    hunmixed.kind_eq hstart (List.mem_append_left _ hstarted) (hchecker.symm.trans hsame.2)
  subst hkind
  rw [← h.congr _ _ _ _ hq, hsame.1, hanswer]

/-! ## What a lookup receives -/

/-- **No lookup is served what is older than the last announced change.**  Lookups and changes may
interleave in whichever way, from a cache without answers on.  What a lookup is served when it starts
was given by the store to a query after which nothing emptied the cache.

If the store answers by its policies, and every applied change is announced when the lookup starts, then
the lookup comes to what the store would answer at that moment; if a change is applied before the lookup
queries the store itself, it may come to what the store answers then. -/
theorem start_receives (hempty : s₀.cache.table.entries = []) (hidle : s₀.lookups = [])
    (hrun : Reaches store s₀ moves s) (q : Inquiry) (kind : Option CheckerKind) :
    (∀ answer, (s.cache.lookup (.of q kind)).1 = some answer →
      ∃ key, (key == Key.of q kind) = true ∧ Fresh store s₀ moves s key answer) ∧
    ∀ {π : Type} {view : σ → π}
      {answerOf : π → Inquiry → Option CheckerKind → Except Failure (List (Option Policy))},
      AnswersBy store view answerOf → s.unannounced = 0 → Unmixed (moves ++ [.start q kind]) →
      ∀ {later : List Move} {t u : Traffic σ} {outcome : Except Failure (List (Option Policy))},
        Step store s (.start q kind) t → Reaches store t later u →
        u.lookups[s.lookups.length]? = some ⟨q, kind, .done outcome⟩ →
        outcome = answerOf (view s.world) q kind ∨
          ∃ before after v change, later = before ++ .query s.lookups.length :: after ∧
            .apply change ∈ before ∧ Reaches store t before v ∧
            outcome = answerOf (view v.world) q kind := by
  have hsound := hrun.sound hempty hidle
  have hserved := (GuardCache.holds_lookup hsound.table (.of q kind)).2
  refine ⟨hserved, ?_⟩
  intro π view answerOf hstore hquiet hunmixed later t u outcome hstart hlater hdone
  have hview : view t.world = view s.world := hstore.view_step hstart fun _ h => nomatch h
  have hlookup : t.lookups[s.lookups.length]? =
      some ⟨q, kind, .started s.cache (.of q kind)⟩ := by
    cases hstart
    exact List.getElem?_concat_length
  obtain ⟨-, -, horigin⟩ := hlater.outcome_origin hlookup hdone
  rcases horigin outcome rfl with hstage | ⟨before, after, v, rfl, hv, houtcome⟩
  · -- the lookup was served when it started
    left
    rcases Lookup.Stage.started_cases s.cache (.of q kind) with ⟨answer, hanswer, hstarted⟩ | hstarted
    · rw [hstarted] at hstage
      cases hstage
      obtain ⟨key, hkey, hfresh⟩ := hserved answer hanswer
      exact (hstore.fresh hrun hidle hquiet hunmixed hfresh hkey).symm
    · rw [hstarted] at hstage
      cases hstage
  · -- the lookup queried the store itself
    rw [hstore.find] at houtcome
    by_cases happlied : ∃ change, .apply change ∈ before
    · obtain ⟨change, hchange⟩ := happlied
      exact .inr ⟨before, after, v, change, rfl, hchange, hv, houtcome⟩
    · left
      rw [houtcome, hstore.view_reaches hv fun change h => happlied ⟨change, h⟩, hview]

/-- A cache without answers in front of a table with one policy. -/
def onePolicy : Traffic PolicyTable where
  world := Keyed.ofList [Policy.allowingA]
  cache := (GuardCache.ofCapacity 1).markFresh

theorem start_receives_allowingA :
    ∃ s t, Reaches (PolicyTable.store Place.whole) onePolicy [.start {} none, .query 0, .finish 0] s ∧
      (s.cache.lookup (.of {} none)).1 = some [some Policy.allowingA] ∧
      (∃ key, (key == Key.of {} none) = true ∧
        Fresh (PolicyTable.store Place.whole) onePolicy [.start {} none, .query 0, .finish 0] s key
          [some Policy.allowingA]) ∧
      Step (PolicyTable.store Place.whole) s (.start {} none) t ∧
      t.lookups[1]? = some ⟨{}, none, .done (.ok [some Policy.allowingA])⟩ ∧
      .ok [some Policy.allowingA] = tableAnswer s.world {} none := by
  have hrun : Reaches (PolicyTable.store Place.whole) onePolicy
      [.start {} none, .query 0, .finish 0] _ :=
    .step (.step (.step .refl (.start {} none)) (.query rfl)) (.finish rfl)
  refine ⟨_, _, hrun, rfl, ?_, .start {} none, rfl, ?_⟩
  · exact (start_receives rfl rfl hrun {} none).1 _ rfl
  · have hunmixed : Unmixed [.start {} none, .query 0, .finish 0, .start {} none] := by
      right
      simp
    rcases (start_receives rfl rfl hrun {} none).2 answersBy_table rfl hunmixed (.start {} none) .refl rfl
      with h | ⟨before, _, _, _, hlater, -⟩
    · exact h
    · cases before <;> cases hlater

/-- **What the number of no checker costs, and what a change in between does.**  A lookup by a checker
of the kind with that number is served what a lookup without checker was given, where the store refuses
the kind.  And a lookup that is not served receives what the store answers when it is queried, which
need not be what it would have answered when the lookup started. -/
theorem start_receives_other :
    (∃ s t, Reaches (PolicyTable.store Place.whole) onePolicy
        [.start {} none, .query 0, .finish 0] s ∧ s.unannounced = 0 ∧
      Step (PolicyTable.store Place.whole) s (.start {} (some unnamed)) t ∧
      t.lookups[1]? = some ⟨{}, some unnamed, .done (.ok [some Policy.allowingA])⟩ ∧
      ((PolicyTable.store Place.whole).find {} (some unnamed) s.world).1 =
        .error (.refused (.unknownChecker 255))) ∧
    ∃ t u, Step (PolicyTable.store Place.whole) onePolicy (.start {} none) t ∧
      onePolicy.unannounced = 0 ∧
      Reaches (PolicyTable.store Place.whole) t [.apply (.remove [112]), .query 0, .finish 0] u ∧
      u.lookups[0]? = some ⟨{}, none, .done (.ok [])⟩ ∧
      ((PolicyTable.store Place.whole).find {} none onePolicy.world).1 =
        .ok [some Policy.allowingA] := by
  refine ⟨⟨_, _, .step (.step (.step .refl (.start {} none)) (.query rfl)) (.finish rfl), rfl,
    .start {} (some unnamed), rfl, rfl⟩, ?_⟩
  exact ⟨_, _, .start {} none, rfl,
    .step (.step (.step .refl (.apply rfl)) (.query rfl)) (.finish rfl), rfl, rfl⟩

end AccessControl.Traffic
