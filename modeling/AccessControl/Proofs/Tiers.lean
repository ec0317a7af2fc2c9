import AccessControl.Store.TwoTier
import AccessControl.Proofs.Keyed
import AccessControl.Proofs.Walk

/-!
# Tiers that hold the same policies

While both tiers of a store hold the same table, the store behaves as a single table: a change that the
primary tier refuses is refused by the cache tier for the same reason, whether that refusal is tolerated
or not (`TwoTier.exchange_both`), and a miss of the cache tier is a miss of the primary tier
(`TwoTier.ask_both`).  Filling the cache tier inserts the policies of the primary tier one by one and
changes nothing else (`TwoTier.populate_table`); an empty cache tier then holds what the primary tier
holds (`TwoTier.populate_empty`).
-/

namespace AccessControl

open Powers

namespace Place

variable {σ α β : Type}

/-- A place holds what was written to it last, and nothing else. -/
structure Lawful (place : Place σ α) : Prop where
  read_write : ∀ a s, place.read (place.write a s) = a
  write_read : ∀ s, place.write (place.read s) s = s
  write_write : ∀ a b s, place.write b (place.write a s) = place.write b s

/-- Writing at one of two places leaves the other alone. -/
structure Apart (p : Place σ α) (q : Place σ β) : Prop where
  read_left : ∀ b s, p.read (q.write b s) = p.read s
  read_right : ∀ a s, q.read (p.write a s) = q.read s

/-- Two places that hold the same; what is written goes to both. -/
def both (p q : Place σ α) : Place σ α := ⟨p.read, fun a s => q.write a (p.write a s)⟩

/-- The second of two worlds. -/
def snd : Place (α × σ) σ := ⟨Prod.snd, fun s t => (t.1, s)⟩

theorem fst_lawful : (fst : Place (σ × α) σ).Lawful :=
  ⟨fun _ _ => rfl, fun _ => rfl, fun _ _ _ => rfl⟩

theorem snd_lawful : (snd : Place (α × σ) σ).Lawful :=
  ⟨fun _ _ => rfl, fun _ => rfl, fun _ _ _ => rfl⟩

theorem fst_apart_snd : (fst : Place (σ × α) σ).Apart snd := ⟨fun _ _ => rfl, fun _ _ => rfl⟩

end Place

namespace TwoTier

open PolicyTable

variable {σ α : Type} {primary cache : Place σ PolicyTable} {s : σ}

theorem tolerating_apply (codes : List ErrorCode) (change : Run Failure σ Unit) (s : σ) :
    tolerating codes change s =
      (match change s with
        | (.error (.refused e), s') =>
          if codes.contains e.code then (.ok (), s') else (.error (.refused e), s')
        | outcome => outcome) := by
  rw [tolerating, Run.tryCatch_apply]
  rcases change s with ⟨(e | x) | _, s'⟩
  · simp only
    split <;> rfl
  · rfl
  · rfl

theorem readThrough_apply (isMiss : α → Bool) (cached read : Run Failure σ α) (s : σ) :
    readThrough isMiss cached read s =
      (match cached s with
        | (.ok a, s') => if isMiss a then read s' else (.ok a, s')
        | (.error (.refused _), s') => read s'
        | (.error (.escaped x), s') => (.error (.escaped x), s')) := by
  rw [readThrough, Run.bind_apply, Run.tryCatch_apply, map_eq_pure_bind, Run.bind_apply]
  rcases cached s with ⟨(e | x) | a, s'⟩
  · rfl
  · rfl
  · show (if isMiss a then read else pure a) s' = if isMiss a then read s' else (.ok a, s')
    cases isMiss a <;> rfl

/-- **A change of equal tiers** is one change of both, whichever refusals are tolerated. -/
theorem exchange_both (hapart : primary.Apart cache) (hs : cache.read s = primary.read s)
    (codes : List ErrorCode) (f : PolicyTable → Except PolicyError PolicyTable) :
    (do tolerating codes (exchange primary f); exchange cache f) s =
      exchange (primary.both cache) f s := by
  rw [Run.bind_apply, tolerating_apply]
  cases hf : f (primary.read s) with
  | ok t =>
    simp only [exchange, hf, hapart.read_right, hs, Place.both]
  | error e =>
    simp only [exchange, hf, Place.both]
    by_cases hcode : codes.contains e.code
    · simp only [hcode, if_true, hs, hf]
    · simp only [hcode]
      rfl

/-- **A question to equal tiers** has the answer of either. -/
theorem ask_both (hs : cache.read s = primary.read s) (isMiss : α → Bool)
    (f : PolicyTable → Except PolicyError α) :
    readThrough isMiss (ask cache f) (ask primary f) s = ask (primary.both cache) f s := by
  have hboth : ask (primary.both cache) f s = ask primary f s := rfl
  rw [readThrough_apply, hboth]
  cases hf : f (primary.read s) with
  | ok a =>
    rw [ask_of_ok (hs ▸ hf), ask_of_ok hf]
    simp only
    rw [ask_of_ok hf, ite_self]
  | error e =>
    rw [ask_of_error (hs ▸ hf), ask_of_error hf]
    exact ask_of_error hf

/-! ## Filling the cache tier -/

/-- The table with the policies that it lacks. -/
def filled (t : PolicyTable) (policies : List Policy) : PolicyTable :=
  policies.foldl (fun t p => t.insertNew p) t

/-- The policies whose identifiers a table does not know. -/
def unknown (t : PolicyTable) (policies : List Policy) : List Policy :=
  policies.filter fun p => !t.contains p.uid

/-- A policy is loaded unless its identifier is known; loading never fails. -/
theorem load_apply (hlawful : cache.Lawful) (loaded : Nat) (p : Policy) (s : σ) :
    load (PolicyTable.store cache) loaded p s =
      (.ok (loaded + (unknown (cache.read s) [p]).length, true),
        cache.write (Keyed.insertNew p (cache.read s)) s) := by
  rw [load, Run.tryCatch_apply, Run.bind_apply]
  simp only [PolicyTable.store, exchange, PolicyTable.add]
  by_cases hknown : Keyed.contains (cache.read s) p.uid = true
  · have hnone : unknown (cache.read s) [p] = [] := by simp [unknown, hknown]
    rw [hnone, Keyed.insertNew_of_contains hknown, hlawful.write_read]
    simp only [hknown, if_true, PolicyError.code]
    rfl
  · have hnew : unknown (cache.read s) [p] = [p] := by simp [unknown, hknown]
    rw [hnew]
    simp only [hknown]
    rfl

/-- Once a policy is loaded, the others are unknown as they were. -/
theorem unknown_insertNew {t : PolicyTable} {p : Policy} {l : List Policy}
    (h : ∀ p' ∈ l, p.uid ≠ p'.uid) : unknown (t.insertNew p) l = unknown t l := by
  refine List.filter_congr fun p' hp' => ?_
  rw [Keyed.contains_eq_isSome, Keyed.find?_insertNew, if_neg (h p' hp'), Option.or_none,
    Keyed.contains_eq_isSome]

theorem visitPage_load (hlawful : cache.Lawful) {l : List Policy}
    (hdistinct : l.Pairwise fun p p' => p.uid ≠ p'.uid) (progress : Feed.Progress Nat)
    (hgoes : progress.goesOn = true) (s : σ) :
    Feed.visitPage (load (PolicyTable.store cache)) l progress s =
      (.ok ⟨progress.gathered + (unknown (cache.read s) l).length, progress.visited + l.length, true⟩,
        cache.write (filled (cache.read s) l) s) := by
  induction hdistinct generalizing progress s with
  | nil =>
    rw [filled, List.foldl_nil, hlawful.write_read, ← hgoes]
    rfl
  | @cons p l hp hl ih =>
    have hunknown : unknown (cache.read s) (p :: l) =
        unknown (cache.read s) [p] ++ unknown (Keyed.insertNew p (cache.read s)) l := by
      rw [unknown_insertNew hp, unknown, unknown, unknown, ← List.filter_append, List.singleton_append]
    have hrest := ih ⟨progress.gathered + (unknown (cache.read s) [p]).length, progress.visited + 1, true⟩
      rfl (cache.write (Keyed.insertNew p (cache.read s)) s)
    rw [hlawful.read_write, hlawful.write_write] at hrest
    rw [Feed.visitPage, Run.bind_apply, load_apply hlawful, hunknown, List.length_append, ← Nat.add_assoc,
      List.length_cons, Nat.add_comm l.length, ← Nat.add_assoc]
    exact hrest

/-- The size of a page is positive for the store unless it is beyond a signed integer of 64 bits. -/
theorem large_of_limit_nonpos {base : Store σ} (batch : UInt64)
    (h : ¬ 0 < (Feed.ofStore base batch).limit.toInt) : 2 ^ (63 : Nat) ≤ batch.toNat := by
  have htoInt (x : UInt64) : x.toInt64.toInt = (x.toNat : Int).bmod (2 ^ 64) :=
    BitVec.toInt_eq_toNat_bmod x.toBitVec
  have hlt := UInt64.toNat_lt batch
  simp only [Feed.limit, Feed.ofStore, htoInt, Int.bmod_def] at h
  by_cases hzero : batch = 0
  · rw [if_pos hzero] at h
    exact absurd (by decide) h
  · have hpos : 0 < batch.toNat := Nat.pos_of_ne_zero fun hn => hzero (UInt64.toNat_inj.mp hn)
    rw [if_neg hzero] at h
    split at h <;> omega

/-- **Filling the cache tier** from a table inserts its policies in turn.  It can fail only where a page
is larger than a signed integer of 64 bits tells, or the table has more than `2 ^ 62` policies. -/
theorem populate_table (hlawful : cache.Lawful) (hapart : primary.Apart cache) (batch : UInt64)
    (s : σ) :
    populate (PolicyTable.store primary) (PolicyTable.store cache) batch s =
        (.ok (unknown (cache.read s) (primary.read s).toList).length,
          cache.write (filled (cache.read s) (primary.read s).toList) s) ∨
      (2 ^ (63 : Nat) ≤ batch.toNat ∨ 2 ^ (62 : Nat) < (primary.read s).size) ∧
        ∃ reason s', populate (PolicyTable.store primary) (PolicyTable.store cache) batch s =
          (.error (.refused reason), s') := by
  let feed : Feed σ := Feed.ofStore
    { PolicyTable.store primary with
      extent := (store (PolicyTable.store primary) (PolicyTable.store cache)).extent } batch
  let walk (s : σ) := feed.visitPages (load (PolicyTable.store cache))
    ((primary.read s).size + (cache.read s).size + 1) 0 { gathered := 0 } s
  have hpopulate : populate (PolicyTable.store primary) (PolicyTable.store cache) batch s =
      (match walk s with
        | (.ok progress, s') => (.ok progress.gathered, s')
        | (.error failure, s') => (.error failure, s')) := by
    have hforEach : feed.forEach 0 (load (PolicyTable.store cache)) s = walk s := by
      rw [Feed.forEach, Run.bind_apply]
      rfl
    rcases hwalk : walk s with ⟨_ | progress, s'⟩
    · rw [populate, Run.bind_apply, show Feed.forEach _ _ _ s = _ from hforEach.trans hwalk]
    · rw [populate, Run.bind_apply, show Feed.forEach _ _ _ s = _ from hforEach.trans hwalk]
      rfl
  -- loading writes to the cache tier only
  have hvisit : ∀ loaded p s', primary.read s' = primary.read s →
      primary.read (load (PolicyTable.store cache) loaded p s').2 = primary.read s := by
    intro loaded p s' hs'
    rw [load_apply hlawful loaded p s', hapart.read_left, hs']
  by_cases hlimit : 0 < feed.limit.toInt
  · have hwalk := Feed.visitPages_table (f := feed) (fun _ _ => rfl) hvisit hlimit
      ((primary.read s).size + (cache.read s).size + 1) { gathered := 0 }
      Int64.toInt_zero (.inl rfl) (by omega) rfl (rfl : primary.read s = primary.read s)
    rcases hwalk with hwalk | ⟨hlarge, reason, s', hwalk⟩
    · left
      -- all pages were read, so the whole table was loaded
      rw [hpopulate]
      simp only [walk]
      rw [hwalk, List.drop_zero, visitPage_load hlawful (primary.read s).distinct _ rfl, Nat.zero_add]
    · refine .inr ⟨.inr hlarge, reason, s', ?_⟩
      rw [hpopulate]
      simp only [walk]
      rw [hwalk]
  · -- a page without a positive limit is refused at once
    right
    refine ⟨.inl (large_of_limit_nonpos batch hlimit), .pagination feed.limit.toInt 0, s, ?_⟩
    have hpage : (primary.read s).page feed.limit 0 = .error (.pagination feed.limit.toInt 0) :=
      page_of_limit_nonpos hlimit
    have hrefused : feed.store.getAll feed.limit 0 s =
        (.error (.refused (.pagination feed.limit.toInt 0)), s) := by
      show ((primary.read s).page feed.limit 0 |>.mapError Failure.refused, s) = _
      rw [hpage]
      rfl
    rw [hpopulate]
    simp only [walk]
    rw [Feed.visitPages, Run.bind_apply, hrefused]

/-- An empty cache tier that is filled holds what the primary tier holds. -/
theorem populate_empty (hlawful : cache.Lawful) (hapart : primary.Apart cache)
    (hempty : cache.read s = {}) (batch : UInt64) :
    (∃ loaded, populate (PolicyTable.store primary) (PolicyTable.store cache) batch s =
        (.ok loaded, cache.write (primary.read s) s)) ∨
      ∃ reason s', populate (PolicyTable.store primary) (PolicyTable.store cache) batch s =
        (.error (.refused reason), s') := by
  rcases populate_table hlawful hapart batch s with hfilled | ⟨-, hrefused⟩
  · have hall : filled (cache.read s) (primary.read s).toList = primary.read s := by
      rw [hempty]
      exact Keyed.ofList_toList (primary.read s)
    rw [hall] at hfilled
    exact .inl ⟨_, hfilled⟩
  · exact .inr hrefused

end TwoTier

end AccessControl
