import AccessControl.Checker.Fit
import AccessControl.Proofs.Decision
import AccessControl.Proofs.Memory

/-!
# Checkers without memory

`Checker.judge` judges policies as the checkers do, but compiles every template anew and so needs no
world.  A checker whose memory of templates is sound comes to the same answer and leaves its memory
sound (`Checker.answers_fitsBy`).  Policies that are not of the family of a checker fit nothing
(`Checker.judge_of_type_ne`), so a decision may leave them out (`Checker.fitting_family`).
-/

namespace AccessControl

namespace PatternTest

/-- Whether a text fits the template of a policy, compiled for this question. -/
def templateJudge (p : Policy) (template text : Bytes) : Except Failure Bool :=
  if template.contains p.startTag || template.contains p.endTag then
    match Template.compile template p.startTag p.endTag with
    | .ok t => .ok (t.accepts text)
    | .error e => .error (.refused (.template e template))
  else .ok (template == text)

/-- Whether an attribute fits a pattern of a policy, templates being compiled anew. -/
def judge (test : PatternTest) (p : Policy) (pattern : Bytes) : Value → Except Failure Bool
  | .string text =>
    match test with
    | exact => .ok (pattern == text)
    | fuzzy => .ok (Bytes.occursIn pattern text)
    | regex => templateJudge p pattern text
  | _ => .ok false

theorem answers_fits (test : PatternTest) (p : Policy) (pattern : Bytes) (what : Value) :
    Run.Answers TemplateMemo.Sound TemplateMemo.Sound (test.fits p pattern what)
      (test.judge p pattern what) := by
  cases what with
  | string text =>
    cases test with
    | exact => exact .of_pure _
    | fuzzy => exact .of_pure _
    | regex =>
      show Run.Answers _ _ (templateFits p pattern text) (templateJudge p pattern text)
      unfold templateFits templateJudge
      split
      · intro memo hsound
        obtain ⟨hresult, hkept⟩ := TemplateMemo.compile_eq hsound pattern p.startTag p.endTag
        simp only
        rw [← hresult]
        rcases hcompile : memo.compile pattern p.startTag p.endTag with ⟨_ | t, memo'⟩
        · rw [hcompile] at hkept
          exact ⟨rfl, hkept⟩
        · rw [hcompile] at hkept
          exact ⟨rfl, hkept⟩
      · exact .of_pure _
  | _ => exact .of_pure _

end PatternTest

theorem Targets.answers_fit {σ α : Type} {J : σ → Prop} (t : Targets α)
    {test : α → Value → Run Failure σ Bool} {judge : α → Value → Except Failure Bool}
    (h : ∀ a what, Run.Answers J J (test a what) (judge a what)) (q : Inquiry) :
    Run.Answers J J (t.fit test q) (t.fit judge q) := by
  refine .bind (.anyM _ fun a => h a q.subject) fun subject _ => ?_
  cases subject with
  | false => exact .of_pure false
  | true =>
    refine .bind (.anyM _ fun a => h a q.resource) fun resource _ => ?_
    cases resource with
    | false => exact .of_pure false
    | true => exact .anyM _ fun a => h a q.action

namespace Checker

/-- Whether a policy of patterns fits an inquiry, templates being compiled anew. -/
def judgePatterns (test : PatternTest) (p : Policy) (targets : Targets Bytes) (q : Inquiry) :
    Except Failure Bool := do
  if ← targets.fit (test.judge p) q then (p.contextFits q).mapError .escaped else return false

/-- The judgement of a checker of a kind, templates being compiled anew. -/
def judge (kind : CheckerKind) : Judgement := fun p q =>
  match kind, p.body with
  | .exact, .patterns targets => judgePatterns .exact p targets q
  | .fuzzy, .patterns targets => judgePatterns .fuzzy p targets q
  | .regex, .patterns targets | .other _, .patterns targets => judgePatterns .regex p targets q
  | .rules, .rules targets _ => (rulesFit p targets q).mapError .escaped
  | _, _ => .ok false

variable {kind : CheckerKind} {p : Policy} {q : Inquiry}

theorem answers_ofExcept {σ α : Type} {J : σ → Prop} (r : Except Escape α) :
    Run.Answers J J (Run.ofExcept r) (r.mapError Failure.escaped) := fun _ hs => ⟨rfl, hs⟩

theorem answers_patternsFit (test : PatternTest) (p : Policy) (targets : Targets Bytes)
    (q : Inquiry) :
    Run.Answers TemplateMemo.Sound TemplateMemo.Sound (patternsFit test p targets q)
      (judgePatterns test p targets q) := by
  refine .bind (targets.answers_fit (test.answers_fits p) q) fun fits _ => ?_
  cases fits with
  | false => exact .of_pure false
  | true => exact answers_ofExcept _

/-- **Remembered templates are transparent** to a checker of any kind. -/
theorem answers_fitsBy (kind : CheckerKind) (p : Policy) (q : Inquiry) :
    Run.Answers TemplateMemo.Sound TemplateMemo.Sound (fitsBy kind p q) (judge kind p q) := by
  unfold fitsBy judge
  cases kind <;> cases p.body <;>
    first
      | exact answers_patternsFit _ _ _ _
      | exact answers_ofExcept _
      | exact .of_pure false

theorem judge_of_type_ne (h : p.type ≠ kind.family) : judge kind p q = .ok false := by
  unfold Policy.type at h
  unfold judge
  cases hbody : p.body <;> rw [hbody] at h <;> cases kind <;>
    first
      | rfl
      | exact absurd rfl h

/-- **Policies of the other family do not take part in a decision.** -/
theorem fitting_family (kind : CheckerKind) (q : Inquiry) (l : List Policy) :
    (judge kind).fitting q ((l.filter fun p => p.type == kind.family).map some) =
      (judge kind).fitting q (l.map some) := by
  induction l with
  | nil => rfl
  | cons p l ih =>
    by_cases htype : p.type = kind.family
    · rw [List.filter_cons_of_pos (by simpa using htype), List.map_cons, List.map_cons]
      simp only [Judgement.fitting, ih]
    · have hother : judge kind p q = .ok false := judge_of_type_ne htype
      rw [List.filter_cons_of_neg (by simpa using htype), List.map_cons,
        Judgement.fitting_cons_ok hother, ih]
      cases (judge kind).fitting q (l.map some) <;> rfl

end Checker

end AccessControl
