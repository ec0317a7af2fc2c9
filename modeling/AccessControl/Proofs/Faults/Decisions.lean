import AccessControl.Proofs.Codec.Inquiries
import AccessControl.Proofs.Faults.Policies
import AccessControl.Proofs.Sentry

/-!
# Decisions that fail

A rule that is asked about a value without callables comes to an answer (`Rule.exists_satisfied`), and so
does a test by a template that compiles.  So every policy is judged for an inquiry without callables,
unless a template of it does not compile (`Checker.exists_judge`), and a guard fails to decide such an
inquiry only by a policy like that: one that is stored, or one that its cache still serves
(`Sentry.isFailed_eq_false`).  The cache serves no other policies than the stored ones if it was told of
every change.
-/

namespace AccessControl

/-! ## Values without callables -/

namespace Value

mutual

/-- No callable stands anywhere in the value. -/
def CallFree : Value → Prop
  | .list items => ItemsCallFree items
  | .map entries => EntriesCallFree entries
  | .thunk .. => False
  | _ => True
termination_by structural v => v

/-- No callable stands anywhere in the items. -/
def ItemsCallFree : List Value → Prop
  | [] => True
  | v :: rest => v.CallFree ∧ ItemsCallFree rest
termination_by structural l => l

/-- No callable stands anywhere in the entries. -/
def EntriesCallFree : List (Bytes × Value) → Prop
  | [] => True
  | (_, v) :: rest => v.CallFree ∧ EntriesCallFree rest
termination_by structural l => l

end

theorem entriesCallFree_iff (l : List (Bytes × Value)) :
    EntriesCallFree l ↔ ∀ e ∈ l, e.2.CallFree := by
  induction l with
  | nil => simp [EntriesCallFree]
  | cons e rest ih => simp [EntriesCallFree, ih]

theorem exists_truthy {v : Value} (h : v.CallFree) : ∃ b, v.truthy = .ok b := by
  cases v with
  | thunk i call => exact h.elim
  | _ => exact ⟨_, rfl⟩

theorem CallFree.find? {v found : Value} {key : Bytes} (h : v.CallFree)
    (hfound : v.find? key = some found) : found.CallFree := by
  cases v with
  | map entries =>
    obtain ⟨e, he, rfl⟩ := Option.map_eq_some_iff.mp hfound
    exact (entriesCallFree_iff entries).mp h e (List.mem_of_find?_eq_some he)
  | _ => cases hfound

end Value

/-- No callable stands anywhere in the inquiry. -/
def Inquiry.CallFree (q : Inquiry) : Prop := ∀ v ∈ q.values, v.CallFree

/-! ## Searches that come to an answer -/

section

variable {ε α : Type}

theorem exists_anyM {test : α → Except ε Bool} {l : List α} (h : ∀ a ∈ l, ∃ b, test a = .ok b) :
    ∃ b, l.anyM test = .ok b := by
  induction l with
  | nil => exact ⟨false, rfl⟩
  | cons a l ih =>
    obtain ⟨rest, hrest⟩ := ih fun a' ha' => h a' (List.mem_cons_of_mem _ ha')
    obtain ⟨b, hb⟩ := h a List.mem_cons_self
    rw [List.anyM, hb, hrest]
    cases b with
    | true => exact ⟨true, rfl⟩
    | false => exact ⟨rest, rfl⟩

theorem exists_allM {test : α → Except ε Bool} {l : List α} (h : ∀ a ∈ l, ∃ b, test a = .ok b) :
    ∃ b, l.allM test = .ok b := by
  induction l with
  | nil => exact ⟨true, rfl⟩
  | cons a l ih =>
    obtain ⟨rest, hrest⟩ := ih fun a' ha' => h a' (List.mem_cons_of_mem _ ha')
    obtain ⟨b, hb⟩ := h a List.mem_cons_self
    rw [List.allM, hb, hrest]
    cases b with
    | true => exact ⟨rest, rfl⟩
    | false => exact ⟨false, rfl⟩

theorem Targets.exists_fit {t : Targets α} {test : α → Value → Except ε Bool} {q : Inquiry}
    (h : ∀ a ∈ t.all, ∀ what ∈ q.values, ∃ b, test a what = .ok b) : ∃ b, t.fit test q = .ok b := by
  have hsearch (l : List α) (what : Value) (hl : ∀ a ∈ l, a ∈ t.all) (hwhat : what ∈ q.values) :
      ∃ b, l.anyM (test · what) = .ok b := exists_anyM fun a ha => h a (hl a ha) what hwhat
  obtain ⟨subject, hsubject⟩ := hsearch t.subjects q.subject (fun a ha => by simp [all, ha])
    (by simp [Inquiry.values])
  obtain ⟨resource, hresource⟩ := hsearch t.resources q.resource (fun a ha => by simp [all, ha])
    (by simp [Inquiry.values])
  obtain ⟨action, haction⟩ := hsearch t.actions q.action (fun a ha => by simp [all, ha])
    (by simp [Inquiry.values])
  rw [fit, hsubject, hresource, haction]
  cases subject with
  | false => exact ⟨false, rfl⟩
  | true =>
    cases resource with
    | false => exact ⟨false, rfl⟩
    | true => exact ⟨action, rfl⟩

end

/-! ## Rules -/

namespace Rule

mutual

/-- **A rule comes to an answer** about every value whose truth can be told. -/
theorem exists_satisfied {what : Value} (h : ∃ b, what.truthy = .ok b) (q : Option Inquiry) :
    ∀ r : Rule, ∃ b, r.satisfied what q = .ok b
  | .truth expected => by
    obtain ⟨b, hb⟩ := h
    exact ⟨b == expected, by rw [satisfied, hb]; rfl⟩
  | .and rules => exists_allSatisfied h q rules
  | .or rules => exists_anySatisfied h q rules
  | .not (some r) => by
    obtain ⟨b, hb⟩ := exists_satisfied h q r
    exact ⟨!b, by rw [satisfied, hb]; rfl⟩
  | .compare .. | .text .. | .regex _ | .pairsEqual | .list .. | .cidr _ | .inquiry .. | .not none
  | .any | .neither => ⟨_, rfl⟩

theorem exists_allSatisfied {what : Value} (h : ∃ b, what.truthy = .ok b) (q : Option Inquiry) :
    ∀ rules : List (Option Rule), ∃ b, allSatisfied rules what q = .ok b
  | [] | none :: _ => ⟨_, rfl⟩
  | some r :: rest => by
    obtain ⟨b, hb⟩ := exists_satisfied h q r
    rw [allSatisfied, hb]
    cases b with
    | true => exact exists_allSatisfied h q rest
    | false => exact ⟨false, rfl⟩

theorem exists_anySatisfied {what : Value} (h : ∃ b, what.truthy = .ok b) (q : Option Inquiry) :
    ∀ rules : List (Option Rule), ∃ b, anySatisfied rules what q = .ok b
  | [] => ⟨_, rfl⟩
  | none :: rest => exists_anySatisfied h q rest
  | some r :: rest => by
    obtain ⟨b, hb⟩ := exists_satisfied h q r
    rw [anySatisfied, hb]
    cases b with
    | true => exact ⟨true, rfl⟩
    | false => exact exists_anySatisfied h q rest

end

end Rule

/-! ## Policies -/

namespace Policy

variable {p : Policy} {q : Inquiry}

/-- Every pattern of the policy that has a tag in it is a template that compiles. -/
def Compiles (p : Policy) : Prop :=
  ∀ pattern, .pattern pattern ∈ p.conditions.all → p.startTag ∈ pattern ∨ p.endTag ∈ pattern →
    ∃ t, Template.compile pattern p.startTag p.endTag = .ok t

theorem exists_contextFits (p : Policy) (h : q.CallFree) : ∃ b, p.contextFits q = .ok b := by
  refine exists_allM fun ⟨name, r⟩ _ => ?_
  simp only
  cases hv : q.context.get? name with
  | none => exact ⟨false, rfl⟩
  | some v =>
    have hcontext : q.contextValue.CallFree := h _ (by simp [Inquiry.values])
    exact r.exists_satisfied (Value.exists_truthy (hcontext.find? hv)) (some q)

theorem RuleCondition.exists_fits (c : RuleCondition) {what : Value} (h : what.CallFree) :
    ∃ b, c.fits q what = .ok b := by
  cases c with
  | rule r => exact r.exists_satisfied (Value.exists_truthy h) (some q)
  | fields rules =>
    cases what with
    | map entries =>
      refine exists_allM fun ⟨key, r⟩ _ => ?_
      simp only
      cases hv : (Value.map entries).find? key with
      | none => exact ⟨false, rfl⟩
      | some v => exact r.exists_satisfied (Value.exists_truthy (h.find? hv)) (some q)
    | _ => exact ⟨false, rfl⟩

end Policy

theorem PatternTest.exists_judge {test : PatternTest} {p : Policy} {pattern : Bytes}
    (hpattern : .pattern pattern ∈ p.conditions.all) (h : test = .regex → p.Compiles) (what : Value) :
    ∃ b, test.judge p pattern what = .ok b := by
  cases what with
  | string text =>
    cases test with
    | exact => exact ⟨_, rfl⟩
    | fuzzy => exact ⟨_, rfl⟩
    | regex =>
      show ∃ b, templateJudge p pattern text = .ok b
      unfold templateJudge
      split
      · next htag =>
        have htag : p.startTag ∈ pattern ∨ p.endTag ∈ pattern := by simpa using htag
        obtain ⟨t, ht⟩ := h rfl pattern hpattern htag
        rw [ht]
        exact ⟨_, rfl⟩
      · exact ⟨_, rfl⟩
  | _ => exact ⟨_, rfl⟩

namespace Checker

variable {p : Policy} {q : Inquiry}

theorem exists_judgePatterns {test : PatternTest} {targets : Targets Bytes}
    (hbody : p.body = .patterns targets) (h : test = .regex → p.Compiles) (hq : q.CallFree) :
    ∃ b, judgePatterns test p targets q = .ok b := by
  obtain ⟨fits, hfits⟩ : ∃ b, targets.fit (test.judge p) q = .ok b := by
    refine Targets.exists_fit fun pattern hpattern what _ => ?_
    refine PatternTest.exists_judge ?_ h what
    rw [Policy.conditions_of_patterns hbody, Policy.all_map]
    exact List.mem_map_of_mem hpattern
  obtain ⟨context, hcontext⟩ := p.exists_contextFits hq
  rw [judgePatterns, hfits, hcontext]
  cases fits with
  | false => exact ⟨false, rfl⟩
  | true => exact ⟨context, rfl⟩

theorem exists_rulesFit (p : Policy) (targets : Targets Policy.RuleCondition) (hq : q.CallFree) :
    ∃ b, rulesFit p targets q = .ok b := by
  obtain ⟨fits, hfits⟩ : ∃ b, targets.fit (Policy.RuleCondition.fits q) q = .ok b :=
    Targets.exists_fit fun c _ what hwhat => c.exists_fits (hq what hwhat)
  obtain ⟨context, hcontext⟩ := p.exists_contextFits hq
  rw [rulesFit, hfits, hcontext]
  cases fits with
  | false => exact ⟨false, rfl⟩
  | true => exact ⟨context, rfl⟩

/-- **Every policy is judged** for an inquiry without callables, if its templates compile or are not
asked for. -/
theorem exists_judge (kind : CheckerKind) (h : madeKind kind = .regex → p.Compiles) (hq : q.CallFree) :
    ∃ b, judge (madeKind kind) p q = .ok b := by
  unfold judge
  cases hbody : p.body with
  | patterns targets =>
    cases kind with
    | exact => exact exists_judgePatterns hbody nofun hq
    | fuzzy => exact exists_judgePatterns hbody nofun hq
    | regex => exact exists_judgePatterns hbody (fun _ => h rfl) hq
    | other n => exact exists_judgePatterns hbody (fun _ => h rfl) hq
    | rules => exact ⟨false, rfl⟩
  | rules targets hne =>
    cases kind with
    | rules =>
      obtain ⟨b, hb⟩ := exists_rulesFit p targets hq
      exact ⟨b, by simp only [madeKind, hb]; rfl⟩
    | _ => exact ⟨false, rfl⟩

end Checker

/-! ## Decisions -/

namespace Sentry

variable {w : Sentry} {q : Inquiry} {p : Policy}

/-- The cache serves a list with the policy to the inquiry. -/
def Serves (w : Sentry) (q : Inquiry) (p : Policy) : Prop :=
  w.cached = true ∧
    ∃ answer, (w.cache.lookup (.of q (some w.kind))).1 = some answer ∧ some p ∈ answer

theorem mem_of_mem_candidates (h : some p ∈ w.candidates) : p ∈ w.table.toList := by
  obtain ⟨p', hp', hsome⟩ := List.mem_map.mp h
  cases hsome
  exact (List.mem_filter.mp hp').1

/-- **Policies that are looked at** are stored, or served by the cache. -/
theorem exists_fetched (w : Sentry) (q : Inquiry) :
    ∃ a, w.guard.fetched q w = some (.ok a) ∧ ∀ p, some p ∈ a → p ∈ w.table.toList ∨ w.Serves q p := by
  have hfetched : w.guard.fetched q w = some (w.guard.candidates store w.kind q w).1 := rfl
  have hstored : ∀ p, some p ∈ w.candidates → p ∈ w.table.toList ∨ w.Serves q p :=
    fun p hp => .inl (mem_of_mem_candidates hp)
  rw [hfetched, guard_candidates]
  cases hcached : w.cached with
  | false =>
    rw [if_neg Bool.false_ne_true, store_find_eq]
    exact ⟨_, rfl, hstored⟩
  | true =>
    rw [if_pos rfl, GuardCache.find_apply]
    cases hserved : (cachePlace.read w).lookup (.of q (some w.kind)) with
    | mk served c =>
      cases served with
      | some a =>
        refine ⟨a, rfl, fun p hp => .inr ⟨hcached, a, ?_, hp⟩⟩
        exact congrArg Prod.fst hserved
      | none =>
        -- the store is asked
        have hfind : store.find q (some w.kind) (cachePlace.write c w) =
          (.ok w.candidates, cachePlace.write c w) := store_find_eq (cachePlace.write c w) q
        simp only [hfind]
        exact ⟨_, rfl, hstored⟩

/-- **A decision is made**, if the templates of the policies that are looked at compile or are not asked
for. -/
theorem isFailed_eq_false (hsound : w.templates.Sound) (hq : q.CallFree)
    (h : w.kind = .regex → ∀ p, p ∈ w.table.toList ∨ w.Serves q p → p.Compiles) :
    (w.evaluate q).1.isFailed = false := by
  obtain ⟨a, hfetched, hmem⟩ := exists_fetched w q
  obtain ⟨-, heval⟩ := evaluate_eq hsound q
  rw [heval, hfetched, ← Bool.not_eq_true, Judgement.verdict_isFailed_iff]
  intro hfailed
  obtain ⟨p, hp, failure, hjudge⟩ := hfailed a rfl
  obtain ⟨b, hb⟩ := Checker.exists_judge (p := p) w.checker (fun hkind => h hkind p (hmem p hp)) hq
  rw [kind, hb] at hjudge
  cases hjudge

/-- A cache that was told of every change serves stored policies. -/
theorem mem_of_serves_left (hclear : w.IsClear) {acts : List EngineAct} (htold : Told acts w)
    (h : (left acts w).Serves q p) : p ∈ (left acts w).table.toList := by
  obtain ⟨-, answer, hserved, hp⟩ := h
  have hrecalls := recalls_left hclear.templates htold (.inl (hclear.recalls _))
  rw [(GuardCache.recalls_lookup hrecalls _).2 answer hserved] at hp
  exact mem_of_mem_candidates hp

/-- **Only malformed templates and callables keep a decision from being made.**  A guard on a table, with
a cache or without one and whatever was done to it, decides every inquiry without callables.  A guard of
templates does so if every pattern with a tag in it compiles, in each stored policy and, unless the cache
was told of every change, in each policy that the cache serves to the inquiry.

Nothing else can go wrong.  Every policy is created from some definition and keeps it, whose conditions
are all of the type of the policy and in which no rule is missing.  So a checker that takes the conditions
to be of that type, takes the rules that it asks to be there and reads values as of the kinds that it
found comes to what a checker of its kind comes to, whatever inquiries, with callables or without, meet
whatever policies. -/
theorem evaluate_fails_by_templates :
    (∀ (w : Sentry) (acts : List EngineAct) (q : Inquiry), w.IsClear → q.CallFree →
      (w.kind = .regex → ∀ p, p ∈ (left acts w).table.toList ∨
        (¬ Told acts w ∧ (left acts w).Serves q p) → p.Compiles) →
      ((left acts w).evaluate q).1.isFailed = false) ∧
    (∀ p : Policy, Policy.create p.definition = .ok p) ∧
    ∀ d p, Policy.create d = .ok p → p.definition = d ∧
      (p.type = .pattern → ∀ c ∈ d.all, c.isPattern = true) ∧
      (p.type = .rule → ∀ c ∈ d.all, c.isPattern = false) ∧
      (∀ c ∈ d.all, c.isIncomplete = false) ∧ (∀ e ∈ d.context.toList, e.2.isSome = true) ∧
      ∀ kind q, Checked.fitsBy kind p q = ExceptT.adapt Fault.failure (Checker.fitsBy kind p q) := by
  refine ⟨fun w acts q hclear hq h => ?_, Policy.create_definition, fun d p hcreate => ?_⟩
  · obtain ⟨hsound, hchecker, -⟩ := sound_left hclear.templates acts
    have hkind : (left acts w).kind = w.kind := congrArg Checker.madeKind hchecker
    refine isFailed_eq_false hsound hq fun hregex p hp => h (hkind ▸ hregex) p ?_
    rcases hp with hp | hserves
    · exact .inl hp
    · by_cases htold : Told acts w
      · exact .inl (mem_of_serves_left hclear htold hserves)
      · exact .inr ⟨htold, hserves⟩
  · obtain rfl := Policy.definition_of_create hcreate
    obtain ⟨hpatterns, hrules, hcomplete, hcontext⟩ := p.elements_of_type
    exact ⟨rfl, hpatterns, hrules, hcomplete, hcontext, fun kind q => Checked.fitsBy_eq kind p q⟩

/-- A guard of templates on an empty table, with a cache for one answer. -/
def templated : Sentry where
  checker := .regex
  cached := true
  templates := Lru.ofCapacity 1
  cache := GuardCache.ofCapacity 1

/-- The policy that allows the subjects of a template. -/
def allowing (template : Bytes) : Policy :=
  { Policy.allowingA with body := .patterns ⟨[template], [[]], [[]]⟩ }

/-- The inquiry of a subject. -/
def asking (subject : Value) : Inquiry := { subject }

theorem callFree_asking {subject : Value} (h : subject.CallFree) : (asking subject).CallFree :=
  List.forall_mem_cons.mpr ⟨h, List.forall_mem_cons.mpr ⟨trivial,
    List.forall_mem_cons.mpr ⟨trivial, List.forall_mem_singleton.mpr trivial⟩⟩⟩

/-- What a cache for one answer is left to serve when nobody told it that the policy is gone. -/
def untold (p : Policy) (q : Inquiry) : Sentry :=
  left [.markFresh, .add (some p), .evaluate q, .remove p.uid] templated

theorem evaluate_fails_by_templates_untold :
    (allowing (utf8 "<a>")).Compiles ∧
      (untold (allowing (utf8 "<a>")) (asking (.string [97]))).Serves (asking (.string [97]))
        (allowing (utf8 "<a>")) ∧
      ((untold (allowing (utf8 "<a>")) (asking (.string [97]))).evaluate
        (asking (.string [97]))).1.isFailed = false := by
  have hserved : ((untold (allowing (utf8 "<a>")) (asking (.string [97]))).cache.lookup
      (.of (asking (.string [97])) (some .regex))).1 = some [some (allowing (utf8 "<a>"))] := rfl
  have hcompiles : (allowing (utf8 "<a>")).Compiles := by
    intro pattern hpattern htag
    obtain rfl | rfl : pattern = utf8 "<a>" ∨ pattern = [] := by
      simpa [allowing, Policy.conditions, Targets.all, Targets.map] using hpattern
    · exact ⟨_, rfl⟩
    · simp at htag
  refine ⟨hcompiles, ⟨rfl, _, hserved, List.mem_singleton_self _⟩, ?_⟩
  refine evaluate_fails_by_templates.1 templated _ _ ⟨Lru.holds_ofCapacity 1, rfl⟩
    (callFree_asking trivial) ?_
  rintro - p (hp | ⟨-, -, answer, hanswer, hp⟩)
  · cases hp
  · obtain rfl := Option.some.inj (hserved.symm.trans hanswer)
    obtain rfl : p = allowing (utf8 "<a>") := by simpa using hp
    exact hcompiles

/-- A template that does not compile keeps decisions from being made when its policy is stored no
longer. -/
theorem evaluate_fails_by_served :
    (untold (allowing (utf8 "<")) (asking (.string [97]))).table.toList = [] ∧
      (asking (.string [97])).CallFree ∧
      ((untold (allowing (utf8 "<")) (asking (.string [97]))).evaluate
        (asking (.string [97]))).1.isFailed = true :=
  ⟨rfl, callFree_asking trivial, rfl⟩

end Sentry

end AccessControl
