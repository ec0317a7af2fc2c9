import AccessControl.Guard.Basic
import AccessControl.Policy.Samples
import AccessControl.Proofs.Answers
import AccessControl.Store.Table

/-!
# Decisions

What a guard decides is determined by the candidates that it fetched (`Guard.fetched`) and by how its
checker judges them (`Judgement`): `Judgement.verdict` is that function, and `Guard.evaluate` computes
it in any world (`Guard.evaluate_eq_verdict`).  So an inquiry is allowed exactly if every candidate can
be judged, some candidate that allows fits and none that denies does
(`Judgement.verdict_effect_eq_allow_iff`), and neither the order of the candidates nor repetitions nor
gaps among them matter (`Judgement.verdict_congr`).
-/

namespace AccessControl

/-- How policies are judged: whether they fit an inquiry, or why that cannot be told. -/
abbrev Judgement := Policy → Inquiry → Except Failure Bool

/-- What a failure means for a decision; `refusal` is what a refusal means. -/
def DecisionFault.of (refusal : PolicyError → DecisionFault) : Failure → DecisionFault
  | .refused reason => refusal reason
  | .escaped escape => .escaped escape

/-- What was fetched for a decision: nothing without a store and a checker, and otherwise the
candidates or why there are none. -/
abbrev Fetched := Option (Except Failure (List (Option Policy)))

namespace Verdict

/-- The verdict that a decision comes to; a fault of the decision is a failure. -/
def ofOutcome : Except DecisionFault Verdict → Verdict
  | .ok v => v
  | .error fault => .failed fault

theorem isFailed_ofFitting (ps : List Policy) : (ofFitting ps).isFailed = false := by
  unfold ofFitting
  split <;> rfl

/-- A denial prevails, and without a policy that allows nothing is allowed. -/
theorem effect_ofFitting_eq_allow_iff (ps : List Policy) :
    (ofFitting ps).effect = .allow ↔
      (∃ p ∈ ps, p.effect = .allow) ∧ ∀ p ∈ ps, p.effect ≠ .deny := by
  have allows_iff (p : Policy) : p.allows = true ↔ p.effect ≠ .deny := by
    cases h : p.effect <;> simp [Policy.allows, h]
  rcases hfilter : ps.filter (fun p => !p.allows) with _ | ⟨d, denying⟩
  · have hall : ∀ p ∈ ps, p.effect ≠ .deny := fun p hp => by
      have := List.filter_eq_nil_iff.mp hfilter p hp
      exact (allows_iff p).mp (by simpa using this)
    cases ps with
    | nil => simp [ofFitting, effect]
    | cons p allowing =>
      have heffect : (ofFitting (p :: allowing)).effect = .allow := by simp only [ofFitting, hfilter, effect]
      refine ⟨fun _ => ⟨⟨p, List.mem_cons_self .., ?_⟩, hall⟩, fun _ => heffect⟩
      cases he : p.effect with
      | deny => exact absurd he (hall p (List.mem_cons_self ..))
      | allow => rfl
  · have hd : d ∈ ps.filter fun p => !p.allows := hfilter ▸ List.mem_cons_self ..
    obtain ⟨hmem, hdeny⟩ := List.mem_filter.mp hd
    have heffect : (ofFitting ps).effect = .deny := by simp only [ofFitting, hfilter, effect]
    refine ⟨fun h => (by rw [heffect] at h; cases h), fun ⟨_, hall⟩ => ?_⟩
    have := (allows_iff d).mpr (hall d hmem)
    simp [this] at hdeny

end Verdict

namespace Judgement

/-- The candidates that fit, gaps left out, or the fault of the first that cannot be judged. -/
def fitting (judge : Judgement) (q : Inquiry) :
    List (Option Policy) → Except DecisionFault (List Policy)
  | [] => .ok []
  | none :: rest => fitting judge q rest
  | some p :: rest => do
    let fits ← (judge p q).mapError (.of (.checker p.uid))
    let others ← fitting judge q rest
    return if fits then p :: others else others

/-- The verdict on what was fetched. -/
def verdict (judge : Judgement) (q : Inquiry) : Fetched → Verdict
  | none => .failed .notConfigured
  | some (.error failure) => .failed (.of .store failure)
  | some (.ok candidates) =>
    match judge.fitting q candidates with
    | .ok ps => .ofFitting ps
    | .error fault => .failed fault

variable {judge : Judgement} {q : Inquiry}

theorem fitting_cons_error {p : Policy} {rest : List (Option Policy)} {failure : Failure}
    (h : judge p q = .error failure) :
    judge.fitting q (some p :: rest) = .error (.of (.checker p.uid) failure) := by
  rw [fitting, h]
  rfl

theorem fitting_cons_ok {p : Policy} {rest : List (Option Policy)} {b : Bool}
    (h : judge p q = .ok b) :
    judge.fitting q (some p :: rest) =
      (judge.fitting q rest).map fun others => if b then p :: others else others := by
  rw [fitting, h]
  cases judge.fitting q rest <;> rfl

/-- If each candidate can be judged, those that fit are sorted out. -/
theorem fitting_of_judged {candidates : List (Option Policy)}
    (h : ∀ p, some p ∈ candidates → ∃ b, judge p q = .ok b) :
    ∃ ps, judge.fitting q candidates = .ok ps ∧
      ∀ p, p ∈ ps ↔ some p ∈ candidates ∧ judge p q = .ok true := by
  induction candidates with
  | nil => exact ⟨[], rfl, by simp⟩
  | cons c rest ih =>
    obtain ⟨ps, hps, hmem⟩ := ih fun p hp => h p (List.mem_cons_of_mem _ hp)
    cases c with
    | none => exact ⟨ps, hps, by simpa using hmem⟩
    | some p =>
      obtain ⟨b, hb⟩ := h p (List.mem_cons_self ..)
      refine ⟨if b then p :: ps else ps, by rw [fitting_cons_ok hb, hps]; rfl, fun p' => ?_⟩
      by_cases hp' : p' = p
      · subst hp'
        cases b <;> simp [hb, hmem]
      · cases b <;> simp [hmem, hp']

/-- A candidate that cannot be judged is a fault, wherever it stands. -/
theorem fitting_of_unjudged {candidates : List (Option Policy)} {p : Policy} {failure : Failure}
    (hp : some p ∈ candidates) (h : judge p q = .error failure) :
    ∃ fault, judge.fitting q candidates = .error fault := by
  induction candidates with
  | nil => cases hp
  | cons c rest ih =>
    cases c with
    | none =>
      have hp : some p ∈ rest := by simpa using hp
      exact ih hp
    | some p' =>
      cases hj : judge p' q with
      | error failure' => exact ⟨_, fitting_cons_error hj⟩
      | ok b =>
        have hp : some p ∈ rest := by
          rcases List.mem_cons.mp hp with he | hp
          · cases he
            rw [h] at hj
            cases hj
          · exact hp
        obtain ⟨fault, hfault⟩ := ih hp
        exact ⟨fault, by rw [fitting_cons_ok hj, hfault]; rfl⟩

/-- Whether each of the candidates can be judged. -/
theorem judged_or_unjudged (judge : Judgement) (q : Inquiry) (candidates : List (Option Policy)) :
    (∀ p, some p ∈ candidates → ∃ b, judge p q = .ok b) ∨
      ∃ p, some p ∈ candidates ∧ ∃ failure, judge p q = .error failure := by
  by_cases h : ∃ p, some p ∈ candidates ∧ ∃ failure, judge p q = .error failure
  · exact .inr h
  · refine .inl fun p hp => ?_
    cases hj : judge p q with
    | ok b => exact ⟨b, rfl⟩
    | error failure => exact absurd ⟨p, hp, failure, hj⟩ h

/-- **When an inquiry is allowed.** -/
theorem verdict_effect_eq_allow_iff (fetched : Fetched) :
    (judge.verdict q fetched).effect = .allow ↔
      ∃ candidates, fetched = some (.ok candidates) ∧
        (∀ p, some p ∈ candidates → ∃ b, judge p q = .ok b) ∧
        (∃ p, some p ∈ candidates ∧ judge p q = .ok true ∧ p.effect = .allow) ∧
        ∀ p, some p ∈ candidates → judge p q = .ok true → p.effect ≠ .deny := by
  rcases fetched with _ | _ | candidates
  · simp [verdict, Verdict.effect]
  · simp [verdict, Verdict.effect]
  rcases judged_or_unjudged judge q candidates with hall | ⟨p, hp, failure, hj⟩
  · obtain ⟨ps, hps, hmem⟩ := fitting_of_judged hall
    simp only [verdict, hps, Verdict.effect_ofFitting_eq_allow_iff, hmem]
    constructor
    · rintro ⟨⟨p, ⟨hp, hfits⟩, hallow⟩, hdeny⟩
      exact ⟨candidates, rfl, hall, ⟨p, hp, hfits, hallow⟩, fun p hp hfits => hdeny p ⟨hp, hfits⟩⟩
    · rintro ⟨_, ⟨⟩, -, ⟨p, hp, hfits, hallow⟩, hdeny⟩
      exact ⟨⟨p, ⟨hp, hfits⟩, hallow⟩, fun p hp => hdeny p hp.1 hp.2⟩
  · obtain ⟨fault, hfault⟩ := fitting_of_unjudged hp hj
    simp only [verdict, hfault, Verdict.effect]
    refine ⟨fun h => (by cases h), ?_⟩
    rintro ⟨_, ⟨⟩, hall, -⟩
    obtain ⟨b, hb⟩ := hall p hp
    rw [hj] at hb
    cases hb

/-- **When a decision fails**: nothing could be fetched, or a candidate could not be judged. -/
theorem verdict_isFailed_iff (fetched : Fetched) :
    (judge.verdict q fetched).isFailed = true ↔
      ∀ candidates, fetched = some (.ok candidates) →
        ∃ p, some p ∈ candidates ∧ ∃ failure, judge p q = .error failure := by
  rcases fetched with _ | _ | candidates
  · simp [verdict, Verdict.isFailed]
  · simp [verdict, Verdict.isFailed]
  rcases judged_or_unjudged judge q candidates with hall | ⟨p, hp, failure, hj⟩
  · obtain ⟨ps, hps, -⟩ := fitting_of_judged hall
    simp only [verdict, hps, Verdict.isFailed_ofFitting]
    refine ⟨fun h => (by cases h), fun h => ?_⟩
    obtain ⟨p, hp, failure, hj⟩ := h candidates rfl
    obtain ⟨b, hb⟩ := hall p hp
    rw [hj] at hb
    cases hb
  · obtain ⟨fault, hfault⟩ := fitting_of_unjudged hp hj
    simp only [verdict, hfault, Verdict.isFailed]
    refine ⟨fun _ _ h => ?_, fun _ => trivial⟩
    cases h
    exact ⟨p, hp, failure, hj⟩

theorem verdict_of_isFailed {fetched : Fetched} (h : (judge.verdict q fetched).isFailed = true) :
    (judge.verdict q fetched).effect = .deny ∧ (judge.verdict q fetched).matched = [] := by
  cases hv : judge.verdict q fetched with
  | failed fault => exact ⟨rfl, rfl⟩
  | _ => rw [hv] at h; cases h

/-- **Only which policies are among the candidates matters**, not their order, nor how often they
occur, nor gaps. -/
theorem verdict_congr {candidates candidates' : List (Option Policy)}
    (h : ∀ p, some p ∈ candidates ↔ some p ∈ candidates') :
    (judge.verdict q (some (.ok candidates))).effect =
        (judge.verdict q (some (.ok candidates'))).effect ∧
      (judge.verdict q (some (.ok candidates))).isFailed =
        (judge.verdict q (some (.ok candidates'))).isFailed := by
  have effect_ext {a b : Effect} (hab : a = .allow ↔ b = .allow) : a = b := by
    cases a <;> cases b <;> simp_all
  constructor
  · apply effect_ext
    simp only [verdict_effect_eq_allow_iff, Option.some.injEq, Except.ok.injEq, exists_eq_left', h]
  · rw [Bool.eq_iff_iff]
    simp only [verdict_isFailed_iff, Option.some.injEq, Except.ok.injEq, forall_eq', h]

end Judgement

/-! ## Guards -/

/-- The checker makes the judgement in any world, whatever it does to the world. -/
def Checker.Makes {σ : Type} (c : Checker σ) (judge : Judgement) : Prop :=
  ∀ p q s, (c.fits p q s).1 = judge p q

namespace Guard

variable {σ : Type} {I J : σ → Prop} {judge : Judgement} {q : Inquiry}

theorem step_eq {α : Type} (refusal : PolicyError → DecisionFault) (x : Run Failure σ α) :
    step refusal x = ExceptT.adapt (DecisionFault.of refusal) x := rfl

theorem answers_step {α : Type} {x : Run Failure σ α} {r : Except Failure α}
    (refusal : PolicyError → DecisionFault) (h : Run.Answers I J x r) :
    Run.Answers I J (step refusal x) (r.mapError (.of refusal)) := by
  rw [step_eq]
  exact h.adapt _

theorem answers_fitting {checker : Checker σ}
    (h : ∀ p, Run.Answers J J (checker.fits p q) (judge p q)) (candidates : List (Option Policy)) :
    Run.Answers J J (fitting checker q candidates) (judge.fitting q candidates) := by
  induction candidates with
  | nil => exact .of_pure []
  | cons c rest ih =>
    cases c with
    | none => exact ih
    | some p =>
      refine .bind (answers_step _ (h p)) fun fits _ => ?_
      refine .bind ih fun others _ => ?_
      exact .of_pure _

/-- What was fetched for a decision in a world. -/
def fetched (g : Guard σ) (q : Inquiry) (s : σ) : Fetched :=
  match g.store, g.checker with
  | some store, some checker => some (g.candidates store checker.kind q s).1
  | _, _ => none

/-- **A guard gives the verdict on what it fetched** and records it.  It is enough that its checker
judges in this way in the worlds that fetching leads to. -/
theorem evaluate_of_answers (judge : Judgement) (q : Inquiry) {g : Guard σ} {s : σ} (hs : J s)
    (hfetch : ∀ store ∈ g.store, ∀ checker ∈ g.checker, J (g.candidates store checker.kind q s).2)
    (hjudge : ∀ checker ∈ g.checker, ∀ p, Run.Answers J J (checker.fits p q) (judge p q)) :
    ∃ s', J s' ∧ g.evaluate q s =
      (judge.verdict q (g.fetched q s), g.record q (judge.verdict q (g.fetched q s)) s') := by
  suffices hdecide : J (g.decide q s).2 ∧
      judge.verdict q (g.fetched q s) = .ofOutcome (g.decide q s).1 by
    obtain ⟨hleft, hverdict⟩ := hdecide
    exact ⟨_, hleft, hverdict ▸ rfl⟩
  unfold decide fetched
  cases hstore : g.store with
  | none => exact ⟨hs, rfl⟩
  | some store =>
    cases hchecker : g.checker with
    | none => exact ⟨hs, rfl⟩
    | some checker =>
      have hcandidates : Run.Answers (· = s) J (g.candidates store checker.kind q)
          (g.candidates store checker.kind q s).1 := fun s' hs' => by
        subst hs'
        exact ⟨rfl, hfetch store hstore checker hchecker⟩
      have hdecide := (answers_step .store hcandidates).bind fun candidates _ =>
        (answers_fitting (hjudge checker hchecker) candidates).bind fun ps _ =>
          Run.Answers.of_pure (Verdict.ofFitting ps)
      obtain ⟨hanswer, hleft⟩ := hdecide s rfl
      refine ⟨hleft, ?_⟩
      simp only
      rw [hanswer]
      cases (g.candidates store checker.kind q s).1 with
      | error failure => rfl
      | ok candidates =>
        show judge.verdict q (some (.ok candidates)) =
          .ofOutcome (judge.fitting q candidates >>= fun ps => .ok (.ofFitting ps))
        rw [Judgement.verdict]
        cases judge.fitting q candidates <;> rfl

theorem evaluate_eq_verdict {g : Guard σ} (hjudge : ∀ checker ∈ g.checker, checker.Makes judge)
    (q : Inquiry) (s : σ) : (g.evaluate q s).1 = judge.verdict q (g.fetched q s) := by
  obtain ⟨_, -, heval⟩ := evaluate_of_answers (J := fun _ => True) judge q (s := s) trivial
    (fun _ _ _ _ => trivial) fun checker hc p s _ => ⟨hjudge checker hc p q s, trivial⟩
  rw [heval]

/-- **Guards fail closed.**  Whatever the store comes to and however policies are judged, a guard gives
a verdict.  The verdict allows exactly if everything is there, the candidates could be fetched, each of
them could be judged, one that fits allows and none that fits denies; it is failed exactly if nothing
could be fetched or some candidate could not be judged, and then denies and names no policy.  Another
fetch of the same policies, in any order, repeated or with gaps, has the same effect. -/
theorem evaluate_fails_closed (g : Guard σ) (hjudge : ∀ checker ∈ g.checker, checker.Makes judge)
    (q : Inquiry) (s : σ) :
    ((g.evaluate q s).1.effect = .allow ↔
      ∃ store checker candidates, g.store = some store ∧ g.checker = some checker ∧
        (g.candidates store checker.kind q s).1 = .ok candidates ∧
        (∀ p, some p ∈ candidates → ∃ b, judge p q = .ok b) ∧
        (∃ p, some p ∈ candidates ∧ judge p q = .ok true ∧ p.effect = .allow) ∧
        ∀ p, some p ∈ candidates → judge p q = .ok true → p.effect ≠ .deny) ∧
    ((g.evaluate q s).1.isFailed = true ↔
      ∀ candidates, g.fetched q s = some (.ok candidates) →
        ∃ p, some p ∈ candidates ∧ ∃ failure, judge p q = .error failure) ∧
    ((g.evaluate q s).1.isFailed = true →
      (g.evaluate q s).1.effect = .deny ∧ (g.evaluate q s).1.matched = []) ∧
    ∀ (g' : Guard σ) (s' : σ) (candidates candidates' : List (Option Policy)),
      (∀ checker ∈ g'.checker, checker.Makes judge) →
      g.fetched q s = some (.ok candidates) → g'.fetched q s' = some (.ok candidates') →
      (∀ p, some p ∈ candidates ↔ some p ∈ candidates') →
      (g'.evaluate q s').1.effect = (g.evaluate q s).1.effect ∧
        (g'.evaluate q s').1.isFailed = (g.evaluate q s).1.isFailed := by
  rw [evaluate_eq_verdict hjudge]
  refine ⟨?_, Judgement.verdict_isFailed_iff _, Judgement.verdict_of_isFailed, ?_⟩
  · rw [Judgement.verdict_effect_eq_allow_iff]
    unfold fetched
    cases hstore : g.store <;> cases hchecker : g.checker <;> simp
  · intro g' s' candidates candidates' hjudge' hf hf' hsame
    rw [evaluate_eq_verdict hjudge', hf, hf']
    exact Judgement.verdict_congr fun p => (hsame p).symm

/-- The guard of a table of one policy, by whose checker every policy fits. -/
def credulous (p : Policy) : Guard DecisionStats where
  store := some (PolicyTable.store ⟨fun _ => Keyed.ofList [p], fun _ s => s⟩)
  checker := some ⟨.exact, fun _ _ => pure true⟩
  stats := Place.whole

theorem evaluate_fails_closed_credulous :
    (∀ checker ∈ (credulous .allowingA).checker, checker.Makes fun _ _ => .ok true) ∧
      ((credulous .allowingA).evaluate {} {}).1.effect = .allow := by
  have hmakes : ∀ checker ∈ (credulous .allowingA).checker, checker.Makes fun _ _ => .ok true := by
    rintro _ ⟨⟩ p q s
    rfl
  refine ⟨hmakes, (evaluate_fails_closed _ hmakes {} {}).1.mpr ?_⟩
  refine ⟨_, _, [some .allowingA], rfl, rfl, rfl, fun p _ => ⟨true, rfl⟩,
    ⟨.allowingA, List.mem_cons_self .., rfl, rfl⟩, fun p hp _ => ?_⟩
  obtain rfl : p = .allowingA := by simpa using hp
  decide

end Guard

end AccessControl
