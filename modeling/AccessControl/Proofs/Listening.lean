import AccessControl.Guard.Cache
import AccessControl.Proofs.Calls
import AccessControl.Proofs.Decision
import AccessControl.Proofs.Tiers
import AccessControl.Store.Table

/-!
# Who hears of a change

A change that fails is told to nobody.  A change that is made is told to the listeners in the order of
their subscriptions (`Subscribers.listeners_after`), to each of them once: an exception that says what
happened keeps neither the next listener from hearing nor the change from succeeding.  But an exception
that says nothing passes through (`Observed.announce_told`): the listeners behind the one that raised it
hear nothing, a cache among them keeps serving what it remembers, and the change that was made comes to
an exception (`Observed.announce_foreign`).

To tell who was called, listeners are made to note their calls (`Observed.noting`).
-/

namespace AccessControl

/-! ## Subscriptions -/

/-- What is done with subscriptions. -/
inductive Subscription (ι : Type) where
  | subscribe (listener : ι)
  | unsubscribe (id : Nat)

namespace Subscription

variable {ι : Type}

/-- Whether a subscription is given up. -/
def cancels (id : Nat) : Subscription ι → Bool
  | subscribe _ => false
  | unsubscribe k => k == id

/-- The listeners whose subscriptions, numbered from `n` on, are not given up later. -/
def standing : List (Subscription ι) → Nat → List ι
  | [], _ => []
  | subscribe listener :: rest, n =>
    if rest.any (cancels n) then standing rest (n + 1) else listener :: standing rest (n + 1)
  | unsubscribe _ :: rest, n => standing rest n

end Subscription

namespace Subscribers

open Subscription

variable {ι : Type}

/-- The subscribers after something was done with subscriptions. -/
def subscribed (s : Subscribers ι) : Subscription ι → Subscribers ι
  | .subscribe listener => (s.subscribe listener).2
  | .unsubscribe id => s.unsubscribe id

/-- The subscribers after a history of subscriptions. -/
def after (history : List (Subscription ι)) (s : Subscribers ι) : Subscribers ι :=
  history.foldl subscribed s

/-- Listeners stay in the order of their subscriptions until these are given up. -/
theorem listeners_after_from (history : List (Subscription ι)) (s : Subscribers ι) :
    (after history s).listeners =
      (s.entries.filter fun e => !history.any (cancels e.1)).map Prod.snd ++
        standing history s.next := by
  induction history generalizing s with
  | nil =>
    rw [standing, List.append_nil]
    exact congrArg (List.map Prod.snd) (List.filter_eq_self.mpr fun _ _ => rfl).symm
  | cons act history ih =>
    show (after history (s.subscribed act)).listeners = _
    rw [ih]
    cases act with
    | subscribe listener =>
      show ((s.entries ++ [(s.next, listener)]).filter _).map Prod.snd ++ standing history (s.next + 1) = _
      rw [List.filter_append, List.map_append, List.append_assoc, standing]
      congr 1
      cases hlater : history.any (cancels s.next) <;> simp [hlater]
    | unsubscribe id =>
      show ((s.entries.filter fun e => e.1 != id).filter _).map Prod.snd ++ standing history s.next = _
      rw [List.filter_filter, standing]
      congr 3
      funext e
      rw [List.any_cons, Bool.not_or, Bool.and_comm, cancels, bne, Bool.beq_comm]

/-- **Listeners stand in the order of their subscriptions**, from the first subscription on. -/
theorem listeners_after (history : List (Subscription ι)) :
    (after history {}).listeners = standing history 1 := listeners_after_from history {}

end Subscribers

/-! ## Announcements -/

namespace Observed

open Subscription

variable {σ ι : Type} {call : ι → PolicyChange → Run Escape σ Unit} {change : PolicyChange}

/-- A listener that notes its calls. -/
def noting (call : ι → PolicyChange → Run Escape σ Unit) (listener : ι) (change : PolicyChange) :
    Run Escape (σ × List (ι × PolicyChange)) Unit := fun w =>
  let (result, s) := call listener change w.1
  (result, s, w.2 ++ [(listener, change)])

/-- A store whose listeners note their calls. -/
def notingStore (inner : Store σ) (subscribers : σ → Subscribers ι)
    (call : ι → PolicyChange → Run Escape σ Unit) : Store (σ × List (ι × PolicyChange)) :=
  store (inner.within Place.fst) (fun w => (subscribers w.1).listeners) (noting call)

/-- Listeners hear of a change, one after the other, and none of them raises an exception that says
nothing. -/
inductive Told (call : ι → PolicyChange → Run Escape σ Unit) (change : PolicyChange) :
    List ι → σ → σ → Prop
  | none {s : σ} : Told call change [] s s
  | heard {listener : ι} {rest : List ι} {s t u : σ} {result : Except Escape Unit}
      (hcall : call listener change s = (result, t)) (hresult : result ≠ .error .foreign)
      (hrest : Told call change rest t u) : Told call change (listener :: rest) s u

/-- **Telling listeners** reaches all of them, or stops behind the first one that raises an exception that
says nothing. -/
theorem notify_noting (call : ι → PolicyChange → Run Escape σ Unit) (change : PolicyChange)
    (listeners : List ι) (s : σ) (log : List (ι × PolicyChange)) :
    (∃ t, Told call change listeners s t ∧
      notify (noting call) change listeners (s, log) =
        (.ok (), t, log ++ listeners.map fun l => (l, change))) ∨
    ∃ before listener rest t u, listeners = before ++ listener :: rest ∧ Told call change before s t ∧
      call listener change t = (.error .foreign, u) ∧
      notify (noting call) change listeners (s, log) =
        (.error (.escaped .foreign), u, log ++ (before ++ [listener]).map fun l => (l, change)) := by
  induction listeners generalizing s log with
  | nil =>
    refine .inl ⟨s, .none, ?_⟩
    rw [List.map_nil, List.append_nil]
    rfl
  | cons listener rest ih =>
    rcases hcall : call listener change s with ⟨result, t⟩
    by_cases hresult : result = .error .foreign
    · subst hresult
      refine .inr ⟨[], listener, rest, s, t, rfl, .none, hcall, ?_⟩
      simp only [notify, noting, hcall]
      rfl
    · have hnotify : notify (noting call) change (listener :: rest) (s, log) =
          notify (noting call) change rest (t, log ++ [(listener, change)]) := by
        simp only [notify, noting, hcall]
      have hlog (told : List ι) : log ++ [(listener, change)] ++ told.map (fun l => (l, change)) =
          log ++ (listener :: told).map fun l => (l, change) := by
        rw [List.append_assoc]
        rfl
      rcases ih t (log ++ [(listener, change)]) with
        ⟨u, htold, hrest⟩ | ⟨before, l, after, u, v, rfl, htold, hforeign, hrest⟩
      · exact .inl ⟨u, .heard hcall hresult htold, by rw [hnotify, hrest, hlog]⟩
      · exact .inr ⟨listener :: before, l, after, u, v, rfl, .heard hcall hresult htold, hforeign, by
          rw [hnotify, hrest, hlog]; rfl⟩

/-- A change is made and then told. -/
theorem on_notingStore (inner : Store σ) (subscribers : σ → Subscribers ι)
    (call : ι → PolicyChange → Run Escape σ Unit) (change : StoreChange) (s : σ)
    (log : List (ι × PolicyChange)) :
    change.on (notingStore inner subscribers call) (s, log) =
      (match change.on inner s with
        | (.error failure, t) => (.error failure, t, log)
        | (.ok (), t) =>
          notify (noting call) change.announcement (subscribers t).listeners (t, log)) := by
  rw [notingStore, StoreChange.on_observed, Run.bind_apply, StoreChange.on_within]
  simp only [Place.run, Place.fst]
  rcases change.on inner s with ⟨_ | _, t⟩ <;> rfl

/-- **Who hears of a change**, for every store, every history of subscriptions and whatever the listeners
do.

A change that fails is told to nobody.  One that is made is told to each listener once, in the order of
the subscriptions, and succeeds, unless some listener raises an exception that says nothing.  If one does,
the listeners up to the first such are told and the others are not, and the change comes to that
exception. -/
theorem announce_told (inner : Store σ) (subscribers : σ → Subscribers ι)
    (call : ι → PolicyChange → Run Escape σ Unit) (change : StoreChange) (s : σ)
    (log : List (ι × PolicyChange)) :
    let outcome := change.on (notingStore inner subscribers call) (s, log)
    (∀ failure t, change.on inner s = (.error failure, t) → outcome = (.error failure, t, log)) ∧
    ∀ t history, change.on inner s = (.ok (), t) → subscribers t = Subscribers.after history {} →
      let listeners := standing history 1
      let noted (told : List ι) := log ++ told.map fun l => (l, change.announcement)
      ((∀ l ∈ listeners, ∀ u, (call l change.announcement u).1 ≠ .error .foreign) →
        ∃ u, Told call change.announcement listeners t u ∧ outcome = (.ok (), u, noted listeners)) ∧
      ((∃ u, Told call change.announcement listeners t u ∧ outcome = (.ok (), u, noted listeners)) ∨
        ∃ before l rest u v, listeners = before ++ l :: rest ∧
          Told call change.announcement before t u ∧
          call l change.announcement u = (.error .foreign, v) ∧
          outcome = (.error (.escaped .foreign), v, noted (before ++ [l]))) := by
  intro outcome
  have houtcome : outcome = _ := on_notingStore inner subscribers call change s log
  constructor
  · intro failure t hfailed
    rw [houtcome, hfailed]
  · intro t history hmade hsubscribers listeners noted
    rw [hmade] at houtcome
    simp only [hsubscribers, Subscribers.listeners_after] at houtcome
    have htold := notify_noting call change.announcement listeners t log
    rw [← houtcome] at htold
    refine ⟨fun hnamed => ?_, htold⟩
    rcases htold with htold | ⟨before, l, rest, u, v, hlisteners, -, hforeign, -⟩
    · exact htold
    · have hmem : l ∈ listeners := by rw [hlisteners]; exact List.mem_append_right _ List.mem_cons_self
      exact absurd (congrArg Prod.fst hforeign) (hnamed l hmem u)

/-- A listener that comes to what it is, and does nothing. -/
def comesTo (result : Except Escape Unit) (_ : PolicyChange) : Run Escape PolicyTable Unit :=
  fun t => (result, t)

/-- One listener raises an exception that says what happened, one has given up, and one is told. -/
def mixed : List (Subscription (Except Escape Unit)) :=
  [.subscribe (.error (.raised [33])), .subscribe (.error .foreign), .subscribe (.ok ()), .unsubscribe 2]

theorem announce_told_mixed :
    let outcome := (StoreChange.add (some Policy.allowingA)).on
      (notingStore (PolicyTable.store .whole) (fun _ => Subscribers.after mixed {}) comesTo) ({}, [])
    outcome.1 = .ok () ∧
      outcome.2.2 = [(.error (.raised [33]), ⟨.added, [112]⟩), (.ok (), ⟨.added, [112]⟩)] := by
  intro outcome
  have hstanding : standing mixed 1 = [.error (.raised [33]), .ok ()] := rfl
  have hnamed : ∀ l ∈ standing mixed 1, ∀ u : PolicyTable,
      (comesTo l ⟨.added, [112]⟩ u).1 ≠ .error .foreign := by
    rw [hstanding, List.forall_mem_cons]
    exact ⟨fun _ => nofun, List.forall_mem_singleton.mpr fun _ => nofun⟩
  obtain ⟨u, -, houtcome⟩ :=
    ((announce_told (PolicyTable.store .whole) (fun _ => Subscribers.after mixed {}) comesTo
      (.add (some Policy.allowingA)) {} []).2 _ mixed rfl rfl).1 hnamed
  rw [show outcome = _ from houtcome]
  exact ⟨rfl, rfl⟩

/-- A listener that raises an exception that says nothing, and a cache behind it. -/
def deafened : Store (PolicyTable × GuardCache) :=
  store ((PolicyTable.store .whole).within Place.fst)
    (fun _ => (Subscribers.after [.subscribe false, .subscribe true] {}).listeners) fun isCache _ =>
      if isCache then Place.snd.modify GuardCache.policiesChanged else fun w => (.error .foreign, w)

/-- The policy is added, but the cache is not told and serves what it remembers. -/
theorem announce_foreign :
    let lookup := GuardCache.find Place.snd deafened {} none
    let start : PolicyTable × GuardCache := ({}, (GuardCache.ofCapacity 1).markFresh)
    let added := deafened.add (some Policy.allowingA) (lookup start).2
    added.1 = .error (.escaped .foreign) ∧
      (deafened.find {} none added.2).1 = .ok [some Policy.allowingA] ∧
      (lookup added.2).1 = .ok [] := ⟨rfl, rfl, rfl⟩

end Observed

end AccessControl
