import AccessControl.Guard.Basic
import AccessControl.Proofs.Decision
import AccessControl.Proofs.Tiers
import Mathlib.Data.List.Forall2

/-!
# Accounting for decisions

Guards may share their counters and their audit logs, the `Books` of a world.  A `Clerk` is a guard on such
books: its store, its checker and its cache are any that leave the books alone, as all do that belong to a
world beside them (`Clerk.beside`).  Whatever clerks are asked, one after the other, and whatever happens in
between, the books hold one decision for each call (`Books.holds_run`): it is counted, and it has a line in
the log of its clerk, if there is one and its level is reached.  How the decision was made, or that it could
not be made, does not matter (`Clerk.decide_keeps`).
-/

namespace AccessControl

variable {σ τ ε ε' α β κ : Type}

/-! ## Books -/

/-- Counters and audit logs in a world, apart from each other. -/
structure Books (σ κ : Type) where
  stats : Place σ DecisionStats
  log : κ → Place σ AuditLog
  stats_read_write : ∀ a s, stats.read (stats.write a s) = a
  log_read_write : ∀ k a s, (log k).read ((log k).write a s) = a
  stats_apart : ∀ k, stats.Apart (log k)
  log_apart : ∀ k l, k ≠ l → (log k).Apart (log l)

namespace Books

/-- Nothing was counted or logged from one world to the other; time may have passed. -/
structure Kept (b : Books σ κ) (s s' : σ) : Prop where
  stats : b.stats.read s' = b.stats.read s
  level : ∀ k, ((b.log k).read s').level = ((b.log k).read s).level
  lines : ∀ k, ((b.log k).read s').lines = ((b.log k).read s).lines

variable {b : Books σ κ}

theorem Kept.refl (s : σ) : b.Kept s s := ⟨rfl, fun _ => rfl, fun _ => rfl⟩

theorem Kept.trans {s s' s'' : σ} (h : b.Kept s s') (h' : b.Kept s' s'') : b.Kept s s'' where
  stats := h'.stats.trans h.stats
  level k := (h'.level k).trans (h.level k)
  lines k := (h'.lines k).trans (h.lines k)

/-- The computation leaves the books alone, whether it fails or not. -/
def Keeps (b : Books σ κ) (x : Run ε σ α) : Prop := ∀ s, b.Kept s (x s).2

namespace Keeps

theorem of_pure (a : α) : b.Keeps (pure a : Run ε σ α) := Kept.refl

theorem of_throw (e : ε) : b.Keeps (throw e : Run ε σ α) := Kept.refl

theorem bind {x : Run ε σ α} {f : α → Run ε σ β} (hx : b.Keeps x) (hf : ∀ a, b.Keeps (f a)) :
    b.Keeps (x >>= f) := by
  intro s
  have hfirst := hx s
  rw [Run.bind_apply]
  rcases hxs : x s with ⟨_ | a, s'⟩
  · rw [hxs] at hfirst
    exact hfirst
  · rw [hxs] at hfirst
    exact hfirst.trans (hf a s')

theorem adapt {x : Run ε σ α} (f : ε → ε') (hx : b.Keeps x) : b.Keeps (ExceptT.adapt f x) := hx

/-- What works at a place that can be written without touching the books. -/
theorem run {place : Place σ α} (hplace : ∀ a s, b.Kept s (place.write a s)) (x : Run ε α β) :
    b.Keeps (place.run x) := fun s => hplace _ s

end Keeps

end Books

/-! ## Clerks -/

/-- The collaborators of a guard on books; they leave the books alone. -/
structure Clerk (b : Books σ κ) where
  store : Option (Store σ)
  checker : Option (Checker σ)
  cache : Option (Place σ GuardCache)
  auditor : Option κ
  store_keeps : ∀ st ∈ store, ∀ q kind, b.Keeps (st.find q kind)
  checker_keeps : ∀ c ∈ checker, ∀ p q, b.Keeps (c.fits p q)
  cache_keeps : ∀ place ∈ cache, ∀ c s, b.Kept s (place.write c s)

/-- The level of the entry of a verdict. -/
def Verdict.level (v : Verdict) : LogLevel := if v.effect = .allow then .info else .warn

theorem Verdict.not_allow_of_isFailed {v : Verdict} (h : v.isFailed = true) :
    (v.effect == .allow) = false := by
  cases v with
  | failed fault => rfl
  | _ => cases h

theorem AuditLog.levelOf_entry (g : Guard σ) (q : Inquiry) (v : Verdict) (log : AuditLog) :
    levelOf (g.entry q v log) = v.level := by
  rw [levelOf, Verdict.level]
  show (if v.effect.name = utf8 "allow" then LogLevel.info else .warn) = _
  cases v.effect <;> decide

theorem AuditLog.level_decision (log : AuditLog) (d : Audit.Decision) :
    (log.decision d).level = log.level := by
  rw [decision, put]
  split <;> rfl

theorem AuditLog.lines_decision (log : AuditLog) (d : Audit.Decision) :
    (log.decision d).lines = log.lines ++ if log.enabled (levelOf d) then [d.line] else [] := by
  rw [decision, put]
  split
  · rfl
  · exact (List.append_nil _).symm

namespace Clerk

variable {b : Books σ κ} (c : Clerk b)

/-- The guard that the clerk is. -/
def guard : Guard σ where
  store := c.store
  checker := c.checker
  cache := c.cache
  audit := c.auditor.map b.log
  stats := b.stats

@[simp] theorem guard_store : c.guard.store = c.store := rfl

@[simp] theorem guard_checker : c.guard.checker = c.checker := rfl

@[simp] theorem guard_cache : c.guard.cache = c.cache := rfl

@[simp] theorem guard_audit : c.guard.audit = c.auditor.map b.log := rfl

@[simp] theorem guard_stats : c.guard.stats = b.stats := rfl

theorem find_keeps {cache : Place σ GuardCache} (hcache : ∀ c s, b.Kept s (cache.write c s))
    {store : Store σ} (hstore : ∀ q kind, b.Keeps (store.find q kind)) (q : Inquiry)
    (kind : Option CheckerKind) : b.Keeps (GuardCache.find cache store q kind) := by
  have hget : b.Keeps (cache.get : Run Failure σ GuardCache) := Books.Kept.refl
  refine hget.bind fun seen => .bind (.run hcache _) fun answer => ?_
  cases answer with
  | some answer => exact .of_pure answer
  | none => exact (hstore q kind).bind fun answer => .bind (fun s => hcache _ s) fun _ => .of_pure answer

theorem candidates_keeps {store : Store σ} (h : store ∈ c.store) (kind : CheckerKind) (q : Inquiry) :
    b.Keeps (c.guard.candidates store kind q) := by
  rw [Guard.candidates, guard_cache]
  cases hcache : c.cache with
  | none => exact c.store_keeps store h q kind
  | some cache => exact find_keeps (c.cache_keeps cache hcache) (c.store_keeps store h) q kind

theorem fitting_keeps {checker : Checker σ} (h : checker ∈ c.checker) (q : Inquiry)
    (candidates : List (Option Policy)) : b.Keeps (Guard.fitting checker q candidates) := by
  induction candidates with
  | nil => exact .of_pure []
  | cons candidate rest ih =>
    cases candidate with
    | none => exact ih
    | some p =>
      refine .bind (.adapt _ (c.checker_keeps checker h p q)) fun fits => ?_
      exact ih.bind fun others => .of_pure _

/-- **Making a decision does not touch the books.** -/
theorem decide_keeps (q : Inquiry) : b.Keeps (c.guard.decide q) := by
  rw [Guard.decide, guard_store, guard_checker]
  cases hstore : c.store with
  | none => exact .of_throw _
  | some store =>
    cases hchecker : c.checker with
    | none => exact .of_throw _
    | some checker =>
      refine .bind (.adapt _ (c.candidates_keeps hstore checker.kind q)) fun candidates => ?_
      exact (c.fitting_keeps hchecker q candidates).bind fun ps => .of_pure _

variable [DecidableEq κ]

/-- **Recording a verdict** counts it, and writes its entry to the log of the clerk alone. -/
theorem record_books (q : Inquiry) (v : Verdict) (s : σ) :
    b.stats.read (c.guard.record q v s) =
      (b.stats.read s).count (v.effect == .allow) v.isFailed ∧
    ∀ k, (b.log k).read (c.guard.record q v s) =
      if c.auditor = some k then
        ((b.log k).read s).decision (c.guard.entry q v ((b.log k).read s))
      else (b.log k).read s := by
  simp only [Guard.record, guard_stats, guard_audit]
  have hlogs (k : κ) (a : DecisionStats) : (b.log k).read (b.stats.write a s) = (b.log k).read s :=
    (b.stats_apart k).read_right a s
  cases c.auditor with
  | none => exact ⟨b.stats_read_write _ s, fun k => hlogs k _⟩
  | some l =>
    refine ⟨((b.stats_apart l).read_left _ _).trans (b.stats_read_write _ s), fun k => ?_⟩
    by_cases hk : l = k
    · subst hk
      rw [if_pos rfl, ← hlogs l]
      exact b.log_read_write l _ _
    · rw [if_neg fun h => hk (Option.some.inj h), ← hlogs k]
      exact (b.log_apart l k hk).read_right _ _

end Clerk

/-! ## What clerks are asked -/

/-- What a call of a guard returns. -/
inductive Reply where
  | verdict (v : Verdict)
  | answer (allowed : Bool)
  deriving DecidableEq, Repr

/-- Whether the reply allows. -/
def Reply.allows : Reply → Bool
  | verdict v => v.effect == .allow
  | answer allowed => allowed

/-- What is done in a world with clerks. -/
inductive DeskAct (b : Books σ κ) where
  /-- A clerk gives the verdict on an inquiry. -/
  | evaluate (c : Clerk b) (q : Inquiry)
  /-- A clerk tells whether an inquiry is allowed. -/
  | allows (c : Clerk b) (q : Inquiry)
  /-- Anything that leaves the books alone: policies change, time passes. -/
  | other (f : σ → σ) (kept : ∀ s, b.Kept s (f s))

/-- A decision, with the verdict that was come to and the reply that was given. -/
structure Decided (b : Books σ κ) where
  clerk : Clerk b
  inquiry : Inquiry
  verdict : Verdict
  reply : Reply

namespace DeskAct

variable {b : Books σ κ}

/-- The clerk that is called, and what it is asked. -/
def call? : DeskAct b → Option (Clerk b × Inquiry)
  | evaluate c q | allows c q => some (c, q)
  | other .. => none

/-- The world afterwards. -/
def after : DeskAct b → σ → σ
  | evaluate c q, s => (c.guard.evaluate q s).2
  | allows c q, s => (c.guard.allows q s).2
  | other f _, s => f s

/-- The decision that is made, if any. -/
def decided : DeskAct b → σ → List (Decided b)
  | evaluate c q, s => [⟨c, q, (c.guard.evaluate q s).1, .verdict (c.guard.evaluate q s).1⟩]
  | allows c q, s => [⟨c, q, (c.guard.evaluate q s).1, .answer (c.guard.allows q s).1⟩]
  | other .., _ => []

/-- The world that acts leave, one after the other. -/
def run : List (DeskAct b) → σ → σ
  | [], s => s
  | act :: rest, s => run rest (act.after s)

/-- The decisions that are made in turn. -/
def decisions : List (DeskAct b) → σ → List (Decided b)
  | [], _ => []
  | act :: rest, s => act.decided s ++ decisions rest (act.after s)

end DeskAct

namespace Decided

variable {b : Books σ κ}

/-- The verdict allows. -/
def allowed (d : Decided b) : Bool := d.verdict.effect == .allow

/-- The reply tells the verdict, or whether it allows. -/
def Told (d : Decided b) : Prop := d.reply = .verdict d.verdict ∨ d.reply = .answer d.allowed

theorem Told.allows {d : Decided b} (h : d.Told) : d.reply.allows = d.allowed := by
  rcases h with h | h <;> rw [h] <;> rfl

/-- What cannot be decided is not allowed. -/
theorem countP_failed_le (made : List (Decided b)) :
    made.countP (·.verdict.isFailed) ≤ made.countP (!·.allowed) :=
  List.countP_mono_left fun d _ h => by
    rw [allowed, Verdict.not_allow_of_isFailed h]
    rfl

theorem length_eq_allowed_add (made : List (Decided b)) :
    made.length = made.countP (·.allowed) + made.countP (!·.allowed) := by
  rw [List.length_eq_countP_add_countP fun d : Decided b => d.allowed]
  simp only [Bool.not_eq_true, Bool.decide_eq_false]

/-- The line is that of an entry with what was asked and what was decided. -/
def Line (d : Decided b) (line : Bytes) : Prop :=
  ∃ entry : Audit.Decision, line = entry.line ∧
    entry.effect = d.verdict.effect.name ∧ entry.matched = d.verdict.matched ∧
    entry.failed = d.verdict.isFailed ∧ entry.reason = d.verdict.reason ∧
    entry.subject = d.inquiry.subject.text ∧ entry.resource = d.inquiry.resource.text ∧
    entry.action = d.inquiry.action.text ∧ entry.context = d.inquiry.contextValue.text

/-- The decision belongs in a log that logs from a level on. -/
def reaches [DecidableEq κ] (k : κ) (level : LogLevel) (d : Decided b) : Bool :=
  d.clerk.auditor == some k && level.number ≤ d.verdict.level.number

end Decided

namespace Books

variable [DecidableEq κ] {b : Books σ κ}

/-- The books in one world hold those in another one and the decisions made in between. -/
structure Holds (b : Books σ κ) (s : σ) (made : List (Decided b)) (s' : σ) : Prop where
  total : (b.stats.read s').total = (b.stats.read s).total + made.length
  allowed : (b.stats.read s').allowed = (b.stats.read s).allowed + made.countP (·.allowed)
  denied : (b.stats.read s').denied = (b.stats.read s).denied + made.countP (!·.allowed)
  failed : (b.stats.read s').failed = (b.stats.read s).failed + made.countP (·.verdict.isFailed)
  level : ∀ k, ((b.log k).read s').level = ((b.log k).read s).level
  lines : ∀ k, ∃ lines, ((b.log k).read s').lines = ((b.log k).read s).lines ++ lines ∧
    List.Forall₂ Decided.Line (made.filter (Decided.reaches k ((b.log k).read s).level)) lines

theorem Holds.of_kept {s s' : σ} (h : b.Kept s s') : b.Holds s [] s' where
  total := congrArg DecisionStats.total h.stats
  allowed := congrArg DecisionStats.allowed h.stats
  denied := congrArg DecisionStats.denied h.stats
  failed := congrArg DecisionStats.failed h.stats
  level := h.level
  lines k := ⟨[], (h.lines k).trans (List.append_nil _).symm, .nil⟩

theorem Holds.trans {s s' s'' : σ} {made made' : List (Decided b)} (h : b.Holds s made s')
    (h' : b.Holds s' made' s'') : b.Holds s (made ++ made') s'' where
  total := by rw [h'.total, h.total, List.length_append, Nat.add_assoc]
  allowed := by rw [h'.allowed, h.allowed, List.countP_append, Nat.add_assoc]
  denied := by rw [h'.denied, h.denied, List.countP_append, Nat.add_assoc]
  failed := by rw [h'.failed, h.failed, List.countP_append, Nat.add_assoc]
  level k := (h'.level k).trans (h.level k)
  lines k := by
    obtain ⟨lines, hlines, hmade⟩ := h.lines k
    obtain ⟨lines', hlines', hmade'⟩ := h'.lines k
    refine ⟨lines ++ lines', by rw [hlines', hlines, List.append_assoc], ?_⟩
    rw [h.level k] at hmade'
    rw [List.filter_append]
    exact List.rel_append hmade hmade'

/-- **A verdict that is recorded is in the books.** -/
theorem holds_record (c : Clerk b) (q : Inquiry) (v : Verdict) (reply : Reply) (s : σ) :
    b.Holds s [⟨c, q, v, reply⟩] (c.guard.record q v s) := by
  obtain ⟨hstats, hlogs⟩ := c.record_books q v s
  refine ⟨?total, ?allowed, ?denied, ?failed, fun k => ?level, fun k => ?lines⟩
  case total =>
    rw [hstats]
    rfl
  case allowed =>
    rw [hstats, List.countP_singleton, DecisionStats.count, Decided.allowed]
    cases v.effect == .allow <;> rfl
  case denied =>
    rw [hstats, List.countP_singleton, DecisionStats.count, Decided.allowed]
    cases v.effect == .allow <;> rfl
  case failed =>
    rw [hstats, List.countP_singleton, DecisionStats.count]
    show (if v.isFailed then _ else _) = _ + if v.isFailed then 1 else 0
    cases v.isFailed <;> rfl
  case level =>
    rw [hlogs]
    split
    · exact AuditLog.level_decision _ _
    · rfl
  case lines =>
    rw [hlogs]
    by_cases hk : c.auditor = some k
    · rw [if_pos hk, AuditLog.lines_decision, AuditLog.levelOf_entry]
      refine ⟨_, rfl, ?_⟩
      have hreaches : Decided.reaches k ((b.log k).read s).level ⟨c, q, v, reply⟩ =
          ((b.log k).read s).enabled v.level := by
        rw [Decided.reaches, hk, beq_self_eq_true, Bool.true_and]
        rfl
      cases henabled : ((b.log k).read s).enabled v.level with
      | false =>
        rw [List.filter_cons_of_neg (by rw [hreaches, henabled]; exact Bool.false_ne_true)]
        exact .nil
      | true =>
        rw [List.filter_cons_of_pos (hreaches.trans henabled)]
        exact .cons ⟨c.guard.entry q v _, rfl, rfl, rfl, rfl, rfl, rfl, rfl, rfl, rfl⟩ .nil
    · rw [if_neg hk]
      have hother : ¬ Decided.reaches k ((b.log k).read s).level ⟨c, q, v, reply⟩ = true := by
        rw [Decided.reaches, Bool.and_eq_true, beq_iff_eq]
        exact fun h => hk h.1
      refine ⟨[], (List.append_nil _).symm, ?_⟩
      rw [List.filter_cons_of_neg hother]
      exact .nil

theorem holds_evaluate (c : Clerk b) (q : Inquiry) (reply : Reply) (s : σ) :
    b.Holds s [⟨c, q, (c.guard.evaluate q s).1, reply⟩] (c.guard.evaluate q s).2 := by
  have hdecided : b.Holds s [] (c.guard.decide q s).2 := .of_kept (c.decide_keeps q s)
  exact hdecided.trans (holds_record c q _ reply _)

/-- **Each act is accounted for.** -/
theorem holds_after (act : DeskAct b) (s : σ) : b.Holds s (act.decided s) (act.after s) := by
  cases act with
  | evaluate c q => exact holds_evaluate c q _ s
  | allows c q =>
    -- whether an inquiry is allowed is told by the verdict, which leaves the same world
    exact holds_evaluate c q _ s
  | other f kept => exact .of_kept (kept s)

/-- **So is each sequence of acts**, by induction on it. -/
theorem holds_run (acts : List (DeskAct b)) (s : σ) :
    b.Holds s (DeskAct.decisions acts s) (DeskAct.run acts s) := by
  induction acts generalizing s with
  | nil => exact .of_kept (.refl s)
  | cons act rest ih => exact (holds_after act s).trans (ih _)

end Books

namespace DeskAct

variable {b : Books σ κ}

theorem call_decided (act : DeskAct b) (s : σ) :
    (act.decided s).map (fun d => (d.clerk, d.inquiry)) = act.call?.toList := by
  cases act <;> rfl

/-- The decisions are those on the calls, in their order. -/
theorem calls_decisions (acts : List (DeskAct b)) (s : σ) :
    (decisions acts s).map (fun d => (d.clerk, d.inquiry)) = acts.filterMap call? := by
  induction acts generalizing s with
  | nil => rfl
  | cons act rest ih =>
    rw [decisions, List.map_append, call_decided, ih, List.filterMap_cons]
    cases act.call? <;> rfl

theorem told_of_mem_decided {act : DeskAct b} {s : σ} {d : Decided b} (h : d ∈ act.decided s) :
    d.Told := by
  cases act with
  | evaluate c q =>
    obtain rfl := List.mem_singleton.mp h
    exact .inl rfl
  | allows c q =>
    obtain rfl := List.mem_singleton.mp h
    exact .inr rfl
  | other => cases h

theorem told_of_mem_decisions {acts : List (DeskAct b)} {s : σ} {d : Decided b}
    (h : d ∈ decisions acts s) : d.Told := by
  induction acts generalizing s with
  | nil => cases h
  | cons act rest ih =>
    rcases List.mem_append.mp h with h | h
    · exact told_of_mem_decided h
    · exact ih h

end DeskAct

namespace Books

variable [DecidableEq κ] {b : Books σ κ}

/-- **Every decision is accounted for once.**  Clerks share fresh counters.  Then, after any calls with
anything in between, as many decisions are counted as calls were made, as allowed those that were answered
so, as denied the others, and as failed those that could not be made, which are among the denied ones.
Each log has got one line for each decision of its clerks whose level it logs, in the order of the calls,
with what was asked and what was decided. -/
theorem decisions_accounted (acts : List (DeskAct b)) {s : σ} (hfresh : b.stats.read s = {}) :
    let made := DeskAct.decisions acts s
    let counted := b.stats.read (DeskAct.run acts s)
    made.map (fun d => (d.clerk, d.inquiry)) = acts.filterMap DeskAct.call? ∧
    (∀ d ∈ made, d.Told) ∧
    counted.total = (acts.filterMap DeskAct.call?).length ∧
    counted.allowed = made.countP (·.reply.allows) ∧
    counted.denied = counted.total - counted.allowed ∧
    counted.failed = made.countP (·.verdict.isFailed) ∧
    counted.failed ≤ counted.denied ∧
    ∀ k, ∃ lines, ((b.log k).read (DeskAct.run acts s)).lines = ((b.log k).read s).lines ++ lines ∧
      List.Forall₂ Decided.Line (made.filter (Decided.reaches k ((b.log k).read s).level)) lines := by
  intro made counted
  have htold : ∀ d ∈ made, d.Told := fun d => DeskAct.told_of_mem_decisions
  have hcalls := DeskAct.calls_decisions acts s
  obtain ⟨htotal, hallowed, hdenied, hfailed, -, hlines⟩ := holds_run acts s
  rw [hfresh, Nat.zero_add] at htotal hallowed hdenied hfailed
  have hreplies : made.countP (·.reply.allows) = made.countP (·.allowed) :=
    List.countP_congr fun d hd => by rw [(htold d hd).allows]
  have hsplit := Decided.length_eq_allowed_add made
  refine ⟨hcalls, htold, ?_, hallowed.trans hreplies.symm, ?_, hfailed, ?_, hlines⟩
  · rw [← hcalls, List.length_map]
    exact htotal
  · show (b.stats.read _).denied = (b.stats.read _).total - (b.stats.read _).allowed
    rw [htotal, hallowed, hdenied]
    exact Nat.eq_sub_of_add_eq' hsplit.symm
  · show (b.stats.read _).failed ≤ (b.stats.read _).denied
    rw [hfailed, hdenied]
    exact Decided.countP_failed_le made

/-! ## Books beside a world -/

/-- Counters and logs beside a world that knows nothing of them. -/
def beside (τ κ : Type) [DecidableEq κ] : Books (τ × DecisionStats × (κ → AuditLog)) κ where
  stats := ⟨fun w => w.2.1, fun counters w => (w.1, counters, w.2.2)⟩
  log k := ⟨fun w => w.2.2 k, fun log w => (w.1, w.2.1, Function.update w.2.2 k log)⟩
  stats_read_write _ _ := rfl
  log_read_write k log w := Function.update_self k log w.2.2
  stats_apart _ := ⟨fun _ _ => rfl, fun _ _ => rfl⟩
  log_apart _ _ hne :=
    ⟨fun log w => Function.update_of_ne hne log w.2.2,
      fun log w => Function.update_of_ne hne.symm log w.2.2⟩

theorem kept_beside (w : τ × DecisionStats × (κ → AuditLog)) (t : τ) : (beside τ κ).Kept w (t, w.2) :=
  ⟨rfl, fun _ => rfl, fun _ => rfl⟩

end Books

/-- Any store, checker and cache of a world make a clerk on the books beside it. -/
def Clerk.beside [DecidableEq κ] (store : Option (Store τ)) (checker : Option (Checker τ))
    (cache : Option (Place τ GuardCache)) (auditor : Option κ) : Clerk (Books.beside τ κ) where
  store := store.map (Store.within Place.fst)
  checker := checker.map fun c => ⟨c.kind, fun p q => Place.fst.run (c.fits p q)⟩
  cache := cache.map fun place => ⟨fun w => place.read w.1, fun c w => (place.write c w.1, w.2)⟩
  auditor := auditor
  store_keeps := by
    rintro _ h q kind w
    obtain ⟨st, -, rfl⟩ := Option.map_eq_some_iff.mp h
    exact Books.kept_beside w _
  checker_keeps := by
    rintro _ h p q w
    obtain ⟨c, -, rfl⟩ := Option.map_eq_some_iff.mp h
    exact Books.kept_beside w _
  cache_keeps := by
    rintro _ h c w
    obtain ⟨place, -, rfl⟩ := Option.map_eq_some_iff.mp h
    exact Books.kept_beside w _

namespace Books

/-- A clerk by whom every policy of a table fits, and one without a store; both write to one log. -/
def mixedActs : List (DeskAct (beside PolicyTable Unit)) :=
  [.evaluate (.beside (some (PolicyTable.store .whole)) (some ⟨.exact, fun _ _ => pure true⟩) none (some ()))
      {},
    .allows (.beside none none none (some ())) {}]

/-- Fresh books with a log of warnings, beside a table of one policy. -/
def mixedWorld : PolicyTable × DecisionStats × (Unit → AuditLog) :=
  (Keyed.ofList [Policy.allowingA], {}, fun _ => { level := .warn, path := [] })

theorem decisions_accounted_mixed :
    let w := DeskAct.run mixedActs mixedWorld
    (beside PolicyTable Unit).stats.read mixedWorld = {} ∧
    w.2.1.total = 2 ∧ w.2.1.allowed = 1 ∧ w.2.1.denied = 1 ∧ w.2.1.failed = 1 ∧
    (w.2.2 ()).lines.length = 1 := by
  obtain ⟨-, -, htotal, hallowed, hdenied, hfailed, -, hlog⟩ :=
    decisions_accounted mixedActs (s := mixedWorld) rfl
  obtain ⟨lines, hlines, hmade⟩ := hlog ()
  have hallowed := hallowed.trans (show _ = 1 by decide)
  refine ⟨rfl, htotal, hallowed, hdenied.trans ?_, hfailed.trans (by decide), ?_⟩
  · rw [htotal, hallowed]
    rfl
  · exact (congrArg List.length hlines).trans (hmade.length_eq.symm.trans (by decide))

end Books

end AccessControl
