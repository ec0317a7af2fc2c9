import AccessControl.Proofs.Listening
import AccessControl.Proofs.PartialTier
import Mathlib.Data.Finset.Dedup
import Mathlib.Data.Finset.Erase
import Mathlib.Data.Finset.Insert

/-!
# Streams of changes

Whoever hears of every change of a store that was empty knows which identifiers it holds.  A change that
a table makes suits the table and does to its identifiers what its announcement says
(`StoreChange.attempt_announced`), be it one table or two tiers of tables that hold the same
(`TableStore.on_holds`).  So the changes that were made, one after the other, can be replayed and lead to
the identifiers stored at last (`ObservedTables.stream_faithful`).

A listener hears of the changes that were made and of nothing else, but it may miss one: an exception
that says nothing, raised by a listener that subscribed earlier, keeps the change from it
(`ObservedTables.stream_deaf`).  If no such listener raises one, it hears of them all.
-/

namespace AccessControl

/-! ## Replaying changes -/

namespace PolicyTable

/-- The identifiers in a table. -/
def uids (t : PolicyTable) : Finset Bytes := (t.toList.map Policy.uid).toFinset

theorem mem_uids {t : PolicyTable} {uid : Bytes} : uid ∈ t.uids ↔ t.contains uid = true := by
  rw [uids, List.mem_toFinset, List.mem_map, Keyed.contains_iff]

theorem mem_uids_iff_isSome {t : PolicyTable} {uid : Bytes} :
    uid ∈ t.uids ↔ (t.find? uid).isSome = true := by
  rw [mem_uids, Keyed.contains_eq_isSome]

end PolicyTable

namespace PolicyChange

/-- Whether a change can be made where these identifiers are: what is added is new, and what is updated
is there. -/
def Suits (change : PolicyChange) (uids : Finset Bytes) : Prop :=
  match change.kind with
  | .added => change.uid ∉ uids
  | .updated => change.uid ∈ uids
  | .removed => True

/-- The identifiers after a change. -/
def applied (change : PolicyChange) (uids : Finset Bytes) : Finset Bytes :=
  match change.kind with
  | .added => insert change.uid uids
  | .updated => uids
  | .removed => uids.erase change.uid

/-- Changes lead from identifiers to identifiers, each of them suiting those that the ones before it
leave. -/
inductive Replay : List PolicyChange → Finset Bytes → Finset Bytes → Prop
  | nil (uids : Finset Bytes) : Replay [] uids uids
  | cons {change : PolicyChange} {rest : List PolicyChange} {uids uids' : Finset Bytes}
      (hsuits : change.Suits uids) (hrest : Replay rest (change.applied uids) uids') :
      Replay (change :: rest) uids uids'

theorem Replay.eq_of_nil {uids uids' : Finset Bytes} (h : Replay [] uids uids') : uids = uids' := by
  cases h
  rfl

end PolicyChange

/-- **A change that a table makes** suits the table, and its announcement says what becomes of the
identifiers. -/
theorem StoreChange.attempt_announced {change : StoreChange} {t t' : PolicyTable}
    (h : change.attempt t = .ok t') :
    change.announcement.Suits t.uids ∧ t'.uids = change.announcement.applied t.uids := by
  cases change with
  | add p =>
    cases p with
    | none => cases h
    | some p =>
      by_cases hknown : t.contains p.uid = true
      · simp only [attempt, PolicyTable.add, if_pos hknown] at h
        cases h
      · simp only [attempt, PolicyTable.add, if_neg hknown] at h
        cases h
        refine ⟨fun hmem => hknown (PolicyTable.mem_uids.mp hmem), ?_⟩
        ext uid
        simp only [announcement, PolicyChange.applied, Observed.uidOf, Option.elim_some,
          Finset.mem_insert, PolicyTable.mem_uids_iff_isSome, Keyed.find?_insertNew,
          Option.isSome_or, Bool.or_eq_true]
        by_cases huid : p.uid = uid
        · simp [huid]
        · simp [huid, Ne.symm huid]
  | update p =>
    cases p with
    | none => cases h
    | some p =>
      by_cases hknown : t.contains p.uid = true
      · simp only [attempt, PolicyTable.update, if_pos hknown] at h
        cases h
        refine ⟨PolicyTable.mem_uids.mpr hknown, ?_⟩
        ext uid
        simp only [announcement, PolicyChange.applied, PolicyTable.mem_uids_iff_isSome,
          Keyed.find?_replace, Option.isSome_map]
      · simp only [attempt, PolicyTable.update, if_neg hknown] at h
        cases h
  | remove uid =>
    cases h
    refine ⟨trivial, ?_⟩
    ext uid'
    simp only [announcement, PolicyChange.applied, Finset.mem_erase, PolicyTable.mem_uids_iff_isSome,
      Keyed.find?_erase]
    by_cases huid : uid' = uid
    · simp [huid]
    · simp [huid]

/-! ## Stores of tables -/

/-- A store that is one table, or two tiers that are tables. -/
inductive TableStore (σ : Type) where
  | table (place : Place σ PolicyTable)
  | tiers (primary cache : Place σ PolicyTable)

namespace TableStore

open PolicyTable

variable {σ α : Type} {inner : TableStore σ} {t : PolicyTable} {s : σ}

/-- The store. -/
def store : TableStore σ → Store σ
  | table place => PolicyTable.store place
  | tiers primary cache => TwoTier.store (PolicyTable.store primary) (PolicyTable.store cache)

/-- The table holds these policies, or both tiers do. -/
def Holds : TableStore σ → PolicyTable → σ → Prop
  | table place, t, s => place.read s = t
  | tiers primary cache, t, s => TwoTier.Holds primary cache t s

/-- Tables hold what was written to them last, and two tiers are two tables. -/
def Lawful : TableStore σ → Prop
  | table place => place.Lawful
  | tiers primary cache => primary.Lawful ∧ cache.Lawful ∧ primary.Apart cache

/-- The tables are elsewhere. -/
def Apart (place : Place σ α) : TableStore σ → Prop
  | table t => t.Apart place
  | tiers primary cache => primary.Apart place ∧ cache.Apart place

/-- What a change does: it is made or refused, and the tables hold what it leaves. -/
inductive Does (inner : TableStore σ) (change : StoreChange) (t : PolicyTable)
    (outcome : Except Failure Unit × σ) : Prop
  | refused (e : PolicyError) (hattempt : change.attempt t = .error e)
      (hresult : outcome.1 = .error (.refused e)) (hholds : inner.Holds t outcome.2)
  | made (t' : PolicyTable) (hattempt : change.attempt t = .ok t') (hresult : outcome.1 = .ok ())
      (hholds : inner.Holds t' outcome.2)

/-- **A change of a store of tables** is made or refused as by the table that it holds. -/
theorem on_holds (hlawful : inner.Lawful) (h : inner.Holds t s) (change : StoreChange) :
    inner.Does change t (change.on inner.store s) := by
  cases inner with
  | table place =>
    have hread : place.read s = t := h
    have hon : change.on (PolicyTable.store place) s = exchange place change.attempt s := by
      cases change <;> rfl
    show Does _ _ _ (change.on (PolicyTable.store place) s)
    rw [hon, exchange, hread]
    cases hattempt : change.attempt t with
    | error e => exact .refused e hattempt rfl h
    | ok t' => exact .made t' hattempt rfl (hlawful.read_write t' s)
  | tiers primary cache =>
    obtain ⟨hprimary, hcache, hapart⟩ := hlawful
    obtain ⟨hresult, hkept⟩ := TwoTier.exchange_holds hprimary hcache hapart h change.tolerated
      change.attempt
    show Does _ _ _ (change.on (TwoTier.store (PolicyTable.store primary) (PolicyTable.store cache)) s)
    rw [TwoTier.on_tiers]
    have hwhole : Place.whole.read t = t := rfl
    rw [exchange, hwhole] at hresult hkept
    cases hattempt : change.attempt t with
    | error e =>
      rw [hattempt] at hresult hkept
      exact .refused e hattempt hresult hkept
    | ok t' =>
      rw [hattempt] at hresult hkept
      exact .made t' hattempt hresult hkept

/-- What is done elsewhere leaves the tables alone. -/
theorem holds_write {place : Place σ α} (hapart : inner.Apart place) (h : inner.Holds t s) (a : α) :
    inner.Holds t (place.write a s) := by
  cases inner with
  | table p => exact (hapart.read_left a s).trans h
  | tiers primary cache =>
    exact ⟨(hapart.1.read_left a s).trans h.primary, (hapart.2.read_left a s).trans h.cache⟩

/-- A change of the tables leaves what is elsewhere alone. -/
theorem read_on {place : Place σ α} (hlawful : inner.Lawful) (hapart : inner.Apart place)
    (change : StoreChange) (s : σ) : place.read (change.on inner.store s).2 = place.read s := by
  cases inner with
  | table p =>
    have hon : change.on (PolicyTable.store p) s = exchange p change.attempt s := by
      cases change <;> rfl
    show place.read (change.on (PolicyTable.store p) s).2 = _
    rw [hon, exchange]
    cases change.attempt (p.read s) with
    | error e => rfl
    | ok t' => exact hapart.read_right t' s
  | tiers primary cache =>
    obtain ⟨hprimary, hcache, htiers⟩ := hlawful
    show place.read (change.on (TwoTier.store (PolicyTable.store primary)
      (PolicyTable.store cache)) s).2 = _
    rw [TwoTier.on_change hprimary hcache htiers, hapart.2.read_right, hapart.1.read_right]

end TableStore

/-! ## Subscriptions that stand -/

namespace Subscribers

open Subscription

variable {ι : Type} {s : Subscribers ι} {id : Nat} {listener : ι} {earlier : ι → Prop}

/-- The numbers of subscriptions increase, up to the next one. -/
structure Numbered (s : Subscribers ι) : Prop where
  increasing : s.entries.Pairwise fun a b => a.1 < b.1
  below : ∀ e ∈ s.entries, e.1 < s.next

theorem Numbered.subscribed (h : s.Numbered) (act : Subscription ι) : (s.subscribed act).Numbered := by
  cases act with
  | subscribe listener =>
    constructor
    · refine List.pairwise_append.mpr ⟨h.increasing, List.pairwise_singleton .., ?_⟩
      intro a ha b hb
      rw [List.mem_singleton.mp hb]
      exact h.below a ha
    · intro e he
      rcases List.mem_append.mp he with he | he
      · exact Nat.lt_succ_of_lt (h.below e he)
      · rw [List.mem_singleton.mp he]
        exact Nat.lt_succ_self _
  | unsubscribe id =>
    exact ⟨h.increasing.filter _, fun e he => h.below e (List.mem_filter.mp he).1⟩

theorem numbered_after (history : List (Subscription ι)) : (after history {}).Numbered := by
  have hfrom (s : Subscribers ι) (h : s.Numbered) : (after history s).Numbered := by
    induction history generalizing s with
    | nil => exact h
    | cons act history ih => exact ih _ (h.subscribed act)
  exact hfrom {} ⟨.nil, nofun⟩

/-- A listener stands under the number of its subscription, which no other has or will get, and those in
front of it are among the earlier ones. -/
def Standing (id : Nat) (listener : ι) (earlier : ι → Prop) (s : Subscribers ι) : Prop :=
  ∃ front back, s.entries = front ++ (id, listener) :: back ∧
    (∀ e ∈ front, e.1 ≠ id ∧ earlier e.2) ∧ (∀ e ∈ back, e.1 ≠ id) ∧ id < s.next

/-- Whoever has subscribed stands, behind those with lower numbers. -/
theorem Numbered.standing (h : s.Numbered) (hmem : (id, listener) ∈ s.entries)
    (hearlier : ∀ e ∈ s.entries, e.1 < id → earlier e.2) : s.Standing id listener earlier := by
  obtain ⟨front, back, hsplit⟩ := List.append_of_mem hmem
  have hsorted := h.increasing
  rw [hsplit] at hsorted
  obtain ⟨-, hbehind, hacross⟩ := List.pairwise_append.mp hsorted
  refine ⟨front, back, hsplit, ?_, ?_, h.below _ hmem⟩
  · intro e he
    have hlt : e.1 < id := hacross e he _ List.mem_cons_self
    exact ⟨Nat.ne_of_lt hlt, hearlier e (hsplit ▸ List.mem_append_left _ he) hlt⟩
  · intro e he
    exact Nat.ne_of_gt (List.rel_of_pairwise_cons hbehind he)

/-- A listener stands until its subscription is given up. -/
theorem Standing.subscribed (h : s.Standing id listener earlier) {act : Subscription ι}
    (hact : act.cancels id = false) : (s.subscribed act).Standing id listener earlier := by
  obtain ⟨front, back, hsplit, hfront, hback, hnext⟩ := h
  cases act with
  | subscribe other =>
    refine ⟨front, back ++ [(s.next, other)], ?_, hfront, ?_, Nat.lt_succ_of_lt hnext⟩
    · show s.entries ++ [(s.next, other)] = _
      rw [hsplit, List.append_assoc, List.cons_append]
    · intro e he
      rcases List.mem_append.mp he with he | he
      · exact hback e he
      · rw [List.mem_singleton.mp he]
        exact Nat.ne_of_gt hnext
  | unsubscribe k =>
    have hk : id ≠ k := by
      intro hk
      rw [cancels, hk, beq_self_eq_true] at hact
      cases hact
    refine ⟨front.filter fun e => e.1 != k, back.filter fun e => e.1 != k, ?_, ?_, ?_, hnext⟩
    · show s.entries.filter _ = _
      rw [hsplit, List.filter_append, List.filter_cons_of_pos (by simpa using hk)]
    · exact fun e he => hfront e (List.mem_filter.mp he).1
    · exact fun e he => hback e (List.mem_filter.mp he).1

theorem Standing.after (h : s.Standing id listener earlier) {history : List (Subscription ι)}
    (hstays : ∀ act ∈ history, act.cancels id = false) :
    (after history s).Standing id listener earlier := by
  induction history generalizing s with
  | nil => exact h
  | cons act history ih =>
    exact ih (h.subscribed (hstays act List.mem_cons_self)) fun act' hact' =>
      hstays act' (List.mem_cons_of_mem _ hact')

/-- Each listener with the number of its subscription. -/
def withNumbers (s : Subscribers ι) : Subscribers (Nat × ι) :=
  ⟨s.next, s.entries.map fun e => (e.1, e)⟩

theorem listeners_withNumbers (s : Subscribers ι) : s.withNumbers.listeners = s.entries := by
  rw [listeners, withNumbers, List.map_map]
  exact List.map_id _

end Subscribers

/-! ## Observed stores of tables -/

/-- A place of a world with something beside it. -/
def Place.beside {σ α β : Type} (place : Place σ α) : Place (σ × β) α :=
  ⟨fun w => place.read w.1, fun a w => (place.write a w.1, w.2)⟩

/-- What happens to an observed store: changes, and what others do with their subscriptions. -/
inductive StreamAct (ι : Type) where
  | change (c : StoreChange)
  | subscription (s : Subscription ι)

namespace StreamAct

variable {τ ι : Type}

/-- Whether a subscription is given up. -/
def cancels (id : Nat) : StreamAct ι → Bool
  | change _ => false
  | subscription s => s.cancels id

/-- What the changes come to, one after the other, each with its announcement, and the world that the
acts leave. -/
def outcomes (store : Store τ) (subscribers : Place τ (Subscribers ι)) :
    List (StreamAct ι) → τ → List (PolicyChange × Except Failure Unit) × τ
  | [], w => ([], w)
  | change c :: rest, w =>
    let (result, w) := c.on store w
    let (results, w) := outcomes store subscribers rest w
    ((c.announcement, result) :: results, w)
  | subscription s :: rest, w =>
    outcomes store subscribers rest (subscribers.write ((subscribers.read w).subscribed s) w)

theorem outcomes_change (store : Store τ) (subscribers : Place τ (Subscribers ι)) (c : StoreChange)
    (rest : List (StreamAct ι)) (w : τ) :
    outcomes store subscribers (change c :: rest) w =
      ((c.announcement, (c.on store w).1) :: (outcomes store subscribers rest (c.on store w).2).1,
        (outcomes store subscribers rest (c.on store w).2).2) := rfl

/-- Whether a change was refused. -/
def isRefused : Except Failure Unit → Bool
  | .error (.refused _) => true
  | _ => false

/-- The changes that were made, also if a listener kept them from succeeding. -/
def made (results : List (PolicyChange × Except Failure Unit)) : List PolicyChange :=
  (results.filter fun r => !isRefused r.2).map Prod.fst

/-- The changes that succeeded. -/
def succeeded (results : List (PolicyChange × Except Failure Unit)) : List PolicyChange :=
  (results.filter fun r => r.2.isOk).map Prod.fst

theorem made_cons {result : Except Failure Unit} (h : isRefused result = false)
    (change : PolicyChange) (rest : List (PolicyChange × Except Failure Unit)) :
    made ((change, result) :: rest) = change :: made rest := by
  rw [made, List.filter_cons_of_pos (by simp [h]), List.map_cons]
  rfl

end StreamAct

/-- A store of tables and those who listen to it.  Listeners may look at the tables and do whatever else
they like, but the tables stay as they are. -/
structure ObservedTables (σ ι : Type) where
  inner : TableStore σ
  subscribers : Place σ (Subscribers ι)
  call : ι → PolicyChange → Run Escape σ Unit
  inner_lawful : inner.Lawful
  subscribers_lawful : subscribers.Lawful
  apart : inner.Apart subscribers
  call_keeps : ∀ listener change t s, inner.Holds t s → inner.Holds t (call listener change s).2

namespace ObservedTables

open Subscription StreamAct

variable {σ ι : Type} (o : ObservedTables σ ι)

/-- Notes of the calls of listeners, under the numbers of their subscriptions. -/
abbrev Notes (ι : Type) := List ((Nat × ι) × PolicyChange)

/-- The store that tells its listeners. -/
def store : Store σ :=
  Observed.store o.inner.store (fun s => (o.subscribers.read s).listeners) o.call

/-- The same store, the calls of its listeners being noted. -/
def notingStore : Store (σ × Notes ι) :=
  Observed.notingStore o.inner.store (fun s => (o.subscribers.read s).withNumbers) fun e => o.call e.2

/-- The changes that a subscriber heard of. -/
def heard (id : Nat) (notes : Notes ι) : List PolicyChange :=
  (notes.filter fun n => n.1.1 == id).map Prod.snd

/-- No listener gives up this subscription, whatever else it does with subscriptions. -/
def Spares (id : Nat) : Prop := ∀ listener change s, ∃ history,
  o.subscribers.read (o.call listener change s).2 =
      Subscribers.after history (o.subscribers.read s) ∧
    ∀ act ∈ history, act.cancels id = false

/-- A listener never raises an exception that says nothing. -/
def IsMild (listener : ι) : Prop := ∀ change s, (o.call listener change s).1 ≠ .error .foreign

variable {o} {id : Nat} {listener : ι} {earlier : ι → Prop} {change : StoreChange} {t : PolicyTable}
  {s : σ} {notes : Notes ι}

/-! ### Notes -/

theorem notify_forgets (call : ι → PolicyChange → Run Escape σ Unit) (change : PolicyChange)
    (told : List (Nat × ι)) (s : σ) (notes : Notes ι) :
    let outcome := Observed.notify (Observed.noting fun e : Nat × ι => call e.2) change told (s, notes)
    Observed.notify call change (told.map Prod.snd) s = (outcome.1, outcome.2.1) := by
  induction told generalizing s notes with
  | nil => rfl
  | cons e told ih =>
    simp only [List.map_cons, Observed.notify, Observed.noting]
    rcases call e.2 change s with ⟨(text | _) | _, u⟩
    · exact ih u _
    · rfl
    · exact ih u _

/-- **Notes change nothing.** -/
theorem on_forgets (o : ObservedTables σ ι) (change : StoreChange) (s : σ) (notes : Notes ι) :
    change.on o.store s =
      ((change.on o.notingStore (s, notes)).1, (change.on o.notingStore (s, notes)).2.1) := by
  rw [store, StoreChange.on_observed, Run.bind_apply, notingStore, Observed.on_notingStore]
  rcases change.on o.inner.store s with ⟨_ | _, u⟩
  · rfl
  · simp only [Subscribers.listeners_withNumbers]
    exact notify_forgets o.call change.announcement (o.subscribers.read u).entries u notes

theorem outcomes_forgets (o : ObservedTables σ ι) (acts : List (StreamAct ι)) (s : σ)
    (notes : Notes ι) :
    outcomes o.store o.subscribers acts s =
      ((outcomes o.notingStore o.subscribers.beside acts (s, notes)).1,
        (outcomes o.notingStore o.subscribers.beside acts (s, notes)).2.1) := by
  induction acts generalizing s notes with
  | nil => rfl
  | cons act acts ih =>
    cases act with
    | change c =>
      rw [outcomes_change, outcomes_change, on_forgets o c s notes,
        ih _ (c.on o.notingStore (s, notes)).2.2]
    | subscription act => exact ih _ notes

theorem heard_append (notes notes' : Notes ι) :
    heard id (notes ++ notes') = heard id notes ++ heard id notes' := by
  rw [heard, List.filter_append, List.map_append]
  rfl

theorem heard_of_others {told : List (Nat × ι)} (h : ∀ e ∈ told, e.1 ≠ id) (change : PolicyChange) :
    heard id (told.map fun e => (e, change)) = [] := by
  have hnone : (told.map fun e => (e, change)).filter (fun n => n.1.1 == id) = [] := by
    rw [List.filter_eq_nil_iff]
    intro n hn
    obtain ⟨e, he, rfl⟩ := List.mem_map.mp hn
    simpa using h e he
  rw [heard, hnone, List.map_nil]

/-- Who is told with the others is told once. -/
theorem heard_of_told {front back : List (Nat × ι)} (hfront : ∀ e ∈ front, e.1 ≠ id)
    (hback : ∀ e ∈ back, e.1 ≠ id) (change : PolicyChange) :
    heard id ((front ++ (id, listener) :: back).map fun e => (e, change)) = [change] := by
  have hself : heard id (((id, listener), change) :: back.map fun e => (e, change)) =
      change :: heard id (back.map fun e => (e, change)) := by
    rw [heard, List.filter_cons_of_pos (by simp), List.map_cons]
    rfl
  rw [List.map_append, List.map_cons, heard_append, hself, heard_of_others hfront,
    heard_of_others hback, List.nil_append]

/-! ### One change -/

/-- Whether a subscriber hears of a change that was made, and whether the change succeeds. -/
inductive Hears (o : ObservedTables σ ι) (id : Nat) (earlier : ι → Prop) (change : PolicyChange)
    (notes : Notes ι) (outcome : Except Failure Unit × σ × Notes ι) : Prop
  /-- The subscriber hears of it once; the change succeeds unless some listener is not mild. -/
  | heard (hresult : outcome.1 = .ok () ∨
        outcome.1 = .error (.escaped .foreign) ∧ ∃ listener, ¬ o.IsMild listener)
      (hnotes : ObservedTables.heard id outcome.2.2 = ObservedTables.heard id notes ++ [change])
  /-- A listener that subscribed earlier keeps the subscriber from hearing of it. -/
  | missed (hresult : outcome.1 = .error (.escaped .foreign))
      (hmissed : ∃ listener, earlier listener ∧ ¬ o.IsMild listener)
      (hnotes : ObservedTables.heard id outcome.2.2 = ObservedTables.heard id notes)

theorem Hears.not_refused {change : PolicyChange} {outcome : Except Failure Unit × σ × Notes ι}
    (h : o.Hears id earlier change notes outcome) : isRefused outcome.1 = false := by
  cases h with
  | heard hresult hnotes =>
    rcases hresult with h | ⟨h, -⟩ <;> rw [h] <;> rfl
  | missed hresult hmissed hnotes =>
    rw [hresult]
    rfl

/-- What a change comes to: nobody hears of it if it is refused. -/
inductive Announced (o : ObservedTables σ ι) (id : Nat) (earlier : ι → Prop) (change : StoreChange)
    (t : PolicyTable) (notes : Notes ι) (outcome : Except Failure Unit × σ × Notes ι) : Prop
  | refused (e : PolicyError) (hresult : outcome.1 = .error (.refused e))
      (hholds : o.inner.Holds t outcome.2.1) (hnotes : outcome.2.2 = notes)
  | made (t' : PolicyTable) (hattempt : change.attempt t = .ok t')
      (hholds : o.inner.Holds t' outcome.2.1)
      (hhears : o.Hears id earlier change.announcement notes outcome)

/-- What every call of a listener keeps, all calls keep. -/
theorem keeps_of_told {call : (Nat × ι) → PolicyChange → Run Escape σ Unit} {change : PolicyChange}
    {I : σ → Prop} (hcall : ∀ e s, I s → I (call e change s).2) {told : List (Nat × ι)} {s u : σ}
    (h : Observed.Told call change told s u) (hs : I s) : I u := by
  induction h with
  | none => exact hs
  | @heard e rest s t u result hresult _ _ ih =>
    have ht := hcall e s hs
    rw [hresult] at ht
    exact ih ht

/-- A row of listeners that were told ends in front of the subscriber or behind it. -/
theorem told_cases {told rest front back : List (Nat × ι)} {e : Nat × ι}
    (h : told ++ rest = front ++ e :: back) :
    (∃ more, front = told ++ more) ∨ ∃ behind, told = front ++ e :: behind ∧ ∃ more, back = behind ++ more := by
  rcases List.append_eq_append_iff.mp h with ⟨more, hmore, -⟩ | ⟨behind, hbehind, hrest⟩
  · exact .inl ⟨more, hmore⟩
  · cases behind with
    | nil => exact .inl ⟨[], by rw [hbehind, List.append_nil, List.append_nil]⟩
    | cons e' behind =>
      obtain ⟨rfl, hback⟩ := List.cons_eq_cons.mp hrest
      exact .inr ⟨behind, hbehind, rest, hback⟩

/-- **Who hears of a change** that was made: the subscriber does, unless an earlier listener keeps it from
that.  The tables and the subscription stay. -/
theorem notify_hears (hspares : o.Spares id) (hholds : o.inner.Holds t s)
    (hstanding : (o.subscribers.read s).Standing id listener earlier) (change : PolicyChange)
    (notes : Notes ι) :
    let outcome := Observed.notify (Observed.noting fun e : Nat × ι => o.call e.2) change
      (o.subscribers.read s).entries (s, notes)
    o.Hears id earlier change notes outcome ∧ o.inner.Holds t outcome.2.1 ∧
      (o.subscribers.read outcome.2.1).Standing id listener earlier := by
  intro outcome
  let Kept (u : σ) : Prop :=
    o.inner.Holds t u ∧ (o.subscribers.read u).Standing id listener earlier
  have hs : Kept s := ⟨hholds, hstanding⟩
  have hcall : ∀ (e : Nat × ι) u, Kept u → Kept (o.call e.2 change u).2 := by
    intro e u hu
    obtain ⟨history, hhistory, hstays⟩ := hspares e.2 change u
    refine ⟨o.call_keeps _ _ _ _ hu.1, ?_⟩
    rw [hhistory]
    exact hu.2.after hstays
  obtain ⟨front, back, hsplit, hfront, hback, -⟩ := hstanding
  have hothers : ∀ e ∈ front, e.1 ≠ id := fun e he => (hfront e he).1
  have hheard (told : List (Nat × ι)) : heard id (notes ++ told.map fun e => (e, change)) =
      heard id notes ++ heard id (told.map fun e => (e, change)) := heard_append _ _
  rcases Observed.notify_noting (fun e : Nat × ι => o.call e.2) change (o.subscribers.read s).entries s
      notes with ⟨u, htold, hnotify⟩ | ⟨before, e, rest, u, v, hentries, htold, hforeign, hnotify⟩
  · -- all listeners are told
    rw [show outcome = _ from hnotify]
    refine ⟨.heard (.inl rfl) ?_, keeps_of_told hcall htold hs⟩
    rw [hheard, hsplit, heard_of_told hothers hback]
  · rw [show outcome = _ from hnotify]
    have hv : Kept v := by
      have hv := hcall e u (keeps_of_told hcall htold hs)
      rw [hforeign] at hv
      exact hv
    have hwild : ¬ o.IsMild e.2 := fun hmild => hmild change u (congrArg Prod.fst hforeign)
    have hrow : (before ++ [e]) ++ rest = front ++ (id, listener) :: back := by
      rw [List.append_assoc, ← hsplit, hentries]
      rfl
    refine ⟨?_, hv⟩
    rcases told_cases hrow with ⟨more, hmore⟩ | ⟨behind, hbehind, more, hmore⟩
    · -- the last one that is told stands in front of the subscriber
      have he : e ∈ front := by
        rw [hmore]
        exact List.mem_append_left _ (List.mem_append_right _ List.mem_cons_self)
      refine .missed rfl ⟨e.2, (hfront e he).2, hwild⟩ ?_
      rw [hheard, heard_of_others, List.append_nil]
      intro e' he'
      exact hothers e' (hmore ▸ List.mem_append_left _ he')
    · refine .heard (.inr ⟨rfl, e.2, hwild⟩) ?_
      rw [hheard, hbehind, heard_of_told hothers]
      intro e' he'
      exact hback e' (hmore ▸ List.mem_append_left _ he')

/-- **What a change comes to**, and that the subscription stays. -/
theorem on_announced (hspares : o.Spares id) (hholds : o.inner.Holds t s)
    (hstanding : (o.subscribers.read s).Standing id listener earlier) (change : StoreChange)
    (notes : Notes ι) :
    o.Announced id earlier change t notes (change.on o.notingStore (s, notes)) ∧
      (o.subscribers.read (change.on o.notingStore (s, notes)).2.1).Standing id listener earlier := by
  have hdoes := TableStore.on_holds o.inner_lawful hholds change
  have hread := TableStore.read_on o.inner_lawful o.apart change s
  rw [notingStore, Observed.on_notingStore]
  rcases hinner : change.on o.inner.store s with ⟨result, s'⟩
  rw [hinner] at hdoes hread
  rw [← hread] at hstanding
  cases hdoes with
  | refused e _ hresult hkept =>
    obtain rfl : result = .error (.refused e) := hresult
    exact ⟨.refused e rfl hkept rfl, hstanding⟩
  | made t' hattempt hresult hkept =>
    obtain rfl : result = .ok () := hresult
    simp only [Subscribers.listeners_withNumbers]
    obtain ⟨hhears, hholds', hstanding'⟩ :=
      notify_hears hspares hkept hstanding change.announcement notes
    exact ⟨.made t' hattempt hholds' hhears, hstanding'⟩

/-! ### All changes -/

/-- What acts come to: the changes that were made can be replayed, and the subscriber heard of some of
them in their order. -/
structure Streamed (o : ObservedTables σ ι) (id : Nat) (earlier : ι → Prop) (t : PolicyTable)
    (notes : Notes ι) (outcome : List (PolicyChange × Except Failure Unit) × σ × Notes ι)
    (events : List PolicyChange) : Prop where
  replay : ∃ t', o.inner.Holds t' outcome.2.1 ∧
    PolicyChange.Replay (made outcome.1) t.uids t'.uids
  heard : ObservedTables.heard id outcome.2.2 = ObservedTables.heard id notes ++ events
  sublist : events.Sublist (made outcome.1)
  all_heard : (∀ listener, earlier listener → o.IsMild listener) → events = made outcome.1
  all_succeed : (∀ listener, o.IsMild listener) → made outcome.1 = succeeded outcome.1

/-- **A change in front**: the subscriber hears of it before all others, or misses it. -/
theorem Streamed.cons {change : PolicyChange} {result : Except Failure Unit} {s' : σ}
    {notes' : Notes ι} {t' : PolicyTable} {events : List PolicyChange}
    {after : List (PolicyChange × Except Failure Unit) × σ × Notes ι}
    (hsuits : change.Suits t.uids) (huids : t'.uids = change.applied t.uids)
    (hhears : o.Hears id earlier change notes (result, s', notes'))
    (h : o.Streamed id earlier t' notes' after events) :
    ∃ events', o.Streamed id earlier t notes ((change, result) :: after.1, after.2) events' := by
  have hcons : made ((change, result) :: after.1) = change :: made after.1 :=
    made_cons hhears.not_refused change after.1
  have hreplay : ∃ u, o.inner.Holds u after.2.1 ∧
      PolicyChange.Replay (made ((change, result) :: after.1)) t.uids u.uids := by
    obtain ⟨u, hu, hreplay⟩ := h.replay
    rw [huids] at hreplay
    exact ⟨u, hu, hcons ▸ .cons hsuits hreplay⟩
  cases hhears with
  | heard hresult hnotes =>
    refine ⟨change :: events, hreplay, ?_, hcons ▸ h.sublist.cons_cons _, ?_, ?_⟩
    · rw [h.heard, show ObservedTables.heard id notes' = _ from hnotes, List.append_assoc,
        List.singleton_append]
    · intro hmild
      rw [hcons, h.all_heard hmild]
    · intro hmild
      rcases hresult with hok | ⟨-, listener, hwild⟩
      · obtain rfl : result = .ok () := hok
        exact hcons.trans (congrArg _ (h.all_succeed hmild))
      · exact absurd (hmild listener) hwild
  | missed hresult hmissed hnotes =>
    obtain ⟨listener', hearlier, hwild⟩ := hmissed
    refine ⟨events, hreplay, ?_, hcons ▸ h.sublist.cons _, ?_, ?_⟩
    · rw [h.heard, show ObservedTables.heard id notes' = _ from hnotes]
    · exact fun hmild => absurd (hmild listener' hearlier) hwild
    · exact fun hmild => absurd (hmild listener') hwild

theorem outcomes_streamed (hspares : o.Spares id) (hholds : o.inner.Holds t s)
    (hstanding : (o.subscribers.read s).Standing id listener earlier) {acts : List (StreamAct ι)}
    (hstays : ∀ act ∈ acts, act.cancels id = false) (notes : Notes ι) :
    ∃ events, o.Streamed id earlier t notes
      (outcomes o.notingStore o.subscribers.beside acts (s, notes)) events := by
  induction acts generalizing t s notes with
  | nil =>
    refine ⟨[], ⟨t, hholds, .nil _⟩, (List.append_nil _).symm, .refl _, fun _ => rfl, fun _ => rfl⟩
  | cons act acts ih =>
    have hlater : ∀ act' ∈ acts, act'.cancels id = false := fun act' hact' =>
      hstays act' (List.mem_cons_of_mem _ hact')
    cases act with
    | subscription act =>
      have hact : act.cancels id = false := hstays _ List.mem_cons_self
      refine ih (TableStore.holds_write o.apart hholds _) ?_ hlater notes
      rw [o.subscribers_lawful.read_write]
      exact hstanding.subscribed hact
    | change c =>
      obtain ⟨hannounced, hstanding'⟩ := on_announced hspares hholds hstanding c notes
      rw [outcomes_change]
      rcases hon : c.on o.notingStore (s, notes) with ⟨result, s', notes'⟩
      rw [hon] at hannounced hstanding'
      cases hannounced with
      | refused e hresult hkept hnotes =>
        obtain rfl : result = .error (.refused e) := hresult
        obtain rfl : notes' = notes := hnotes
        obtain ⟨events, hrest⟩ := ih hkept hstanding' hlater notes'
        exact ⟨events, hrest.replay, hrest.heard, hrest.sublist, hrest.all_heard, hrest.all_succeed⟩
      | made t' hattempt hkept hhears =>
        obtain ⟨hsuits, huids⟩ := StoreChange.attempt_announced hattempt
        obtain ⟨events, hrest⟩ := ih hkept hstanding' hlater notes'
        exact hrest.cons hsuits huids hhears

/-- **The stream of changes is faithful.**  The store was empty and a listener had subscribed, whose
subscription is not given up.  Whatever is done then, the changes that were made, one after the other,
lead from no identifiers to those that the tables hold, each of them suiting what those before it left;
the subscriber hears of no others and of none twice.

It hears of them all if no listener that subscribed earlier raises an exception that says nothing, and
they are the changes that succeeded if no listener does. -/
theorem stream_faithful (o : ObservedTables σ ι) (hempty : o.inner.Holds {} s)
    {history : List (Subscription ι)} (hhistory : o.subscribers.read s = Subscribers.after history {})
    (hsubscribed : (id, listener) ∈ (o.subscribers.read s).entries) (hspares : o.Spares id)
    {acts : List (StreamAct ι)} (hstays : ∀ act ∈ acts, act.cancels id = false) :
    let outcome := outcomes o.store o.subscribers acts s
    let events := heard id (outcomes o.notingStore o.subscribers.beside acts (s, [])).2.2
    ∃ t, o.inner.Holds t outcome.2 ∧ PolicyChange.Replay (made outcome.1) ∅ t.uids ∧
      events.Sublist (made outcome.1) ∧
      ((∀ e ∈ (o.subscribers.read s).entries, e.1 < id → o.IsMild e.2) →
        PolicyChange.Replay events ∅ t.uids ∧ events = made outcome.1) ∧
      ((∀ listener, o.IsMild listener) →
        PolicyChange.Replay events ∅ t.uids ∧ events = succeeded outcome.1) := by
  intro outcome events
  have hnumbered : (o.subscribers.read s).Numbered := by
    rw [hhistory]
    exact Subscribers.numbered_after history
  have hstanding : (o.subscribers.read s).Standing id listener
      fun l => ∃ e ∈ (o.subscribers.read s).entries, e.1 < id ∧ e.2 = l :=
    hnumbered.standing hsubscribed fun e he hlt => ⟨e, he, hlt, rfl⟩
  obtain ⟨events', hstreamed⟩ := outcomes_streamed hspares hempty hstanding hstays []
  have houtcome : outcome = _ := outcomes_forgets o acts s []
  obtain rfl : events' = events := (hstreamed.heard.trans (List.nil_append _)).symm
  obtain ⟨t, hholds, hreplay⟩ := hstreamed.replay
  rw [houtcome]
  refine ⟨t, hholds, hreplay, hstreamed.sublist, ?_, ?_⟩
  · intro hmild
    have hall := hstreamed.all_heard fun l hl => by
      obtain ⟨e, he, hlt, rfl⟩ := hl
      exact hmild e he hlt
    exact ⟨hall ▸ hreplay, hall⟩
  · intro hmild
    have hall := hstreamed.all_heard fun l _ => hmild l
    exact ⟨hall ▸ hreplay, hall.trans (hstreamed.all_succeed hmild)⟩

/-- A table, and listeners that only come to something. -/
def ofTable (comesTo : ι → Except Escape Unit) : ObservedTables (PolicyTable × Subscribers ι) ι where
  inner := .table Place.fst
  subscribers := Place.snd
  call listener _ s := (comesTo listener, s)
  inner_lawful := Place.fst_lawful
  subscribers_lawful := Place.snd_lawful
  apart := Place.fst_apart_snd
  call_keeps _ _ _ _ h := h

/-- A listener that raises an exception that says what happened, and one that is told behind it. -/
def quarrelsome : PolicyTable × Subscribers (Option Bytes) :=
  ({}, Subscribers.after [.subscribe (some [33]), .subscribe none] {})

/-- Changes that are made and changes that are refused, while others come and go. -/
def quarrel : List (StreamAct (Option Bytes)) :=
  [.change (.add none), .change (.add (some Policy.allowingA)), .subscription (.unsubscribe 1),
    .change (.add (some Policy.allowingA)), .subscription (.subscribe (some [])),
    .change (.update (some Policy.allowingA)), .change (.update (some Policy.denyingA)),
    .change (.remove [113]), .change (.add (some Policy.denyingA)), .change (.remove [112])]

theorem stream_faithful_quarrel :
    let o := ofTable fun text : Option Bytes => text.elim (.ok ()) fun text => .error (.raised text)
    let events := heard 2 (outcomes o.notingStore o.subscribers.beside quarrel (quarrelsome, [])).2.2
    PolicyChange.Replay events ∅ {[113]} ∧
      events = [⟨.added, [112]⟩, ⟨.updated, [112]⟩, ⟨.removed, [113]⟩, ⟨.added, [113]⟩,
        ⟨.removed, [112]⟩] := by
  intro o events
  have hmild : ∀ listener, o.IsMild listener := by
    rintro (_ | text) change s h <;> cases h
  have hstays : ∀ act ∈ quarrel, act.cancels 2 = false := by decide
  have hsubscribed : (2, none) ∈ (o.subscribers.read quarrelsome).entries :=
    List.mem_cons_of_mem _ List.mem_cons_self
  obtain ⟨t, hholds, -, -, -, hall⟩ := stream_faithful o (s := quarrelsome) rfl rfl hsubscribed
    (fun _ _ _ => ⟨[], rfl, nofun⟩) hstays
  obtain ⟨hreplay, hevents⟩ := hall hmild
  have huids : t.uids = {[113]} := by
    rw [← show _ = t from hholds]
    rfl
  have hsucceeded : succeeded (outcomes o.store o.subscribers quarrel quarrelsome).1 =
      [⟨.added, [112]⟩, ⟨.updated, [112]⟩, ⟨.removed, [113]⟩, ⟨.added, [113]⟩, ⟨.removed, [112]⟩] := rfl
  rw [huids] at hreplay
  exact ⟨hreplay, hevents.trans hsucceeded⟩

/-- A listener that raises an exception that says nothing keeps the others from hearing that a policy was
added. -/
theorem stream_deaf :
    let o := ofTable fun isMild : Bool => if isMild then .ok () else .error .foreign
    let start := ({}, Subscribers.after [.subscribe false, .subscribe true] {})
    let outcome := outcomes o.notingStore o.subscribers.beside
      [.change (.add (some Policy.allowingA))] (start, [])
    PolicyTable.uids outcome.2.1.1 = {[112]} ∧ heard 1 outcome.2.2 = [⟨.added, [112]⟩] ∧
      heard 2 outcome.2.2 = [] ∧ ¬ PolicyChange.Replay (heard 2 outcome.2.2) ∅ {[112]} :=
  ⟨rfl, rfl, rfl, fun h => Finset.singleton_ne_empty _ h.eq_of_nil.symm⟩

end ObservedTables

end AccessControl
