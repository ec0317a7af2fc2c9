import AccessControl.Proofs.PartialTier

/-!
# Paging through a table

The loop of a feed asks for pages until one is empty, and its offset is a signed integer of 64 bits.
`Feed.Loop` says what that loop comes to, however many pages it takes, if no page is refused and no
offset leaves the range.  Over a table the loop ends like that, whatever the size of the pages
(`Feed.loop_table`): the offset of a page behind the first one is as large as a page at least and less
than the number of policies, so the next one is less than twice that number.

The visitor then was shown each policy of the table once, in the order of the identifiers, or those up to
the one where it stopped (`Feed.visitPage_visited`).  So the size of the pages shows nowhere: not in what
a feed collects, nor in what filling a cache tier adds (`Feed.paging_exact`).
-/

namespace AccessControl

open Powers

namespace Feed

variable {σ α : Type} {visit : α → Policy → Run Failure σ (α × Bool)}

/-! ## The loop -/

/-- What the loop of a feed comes to from an offset on: it is done with the first empty page, or the
visitor stops it or fails, or it goes on with the next offset, which is in range. -/
inductive Loop (f : Feed σ) (visit : α → Policy → Run Failure σ (α × Bool)) :
    Int64 → Progress α → σ → Except Failure (Progress α) × σ → Prop
  | done {offset : Int64} {progress : Progress α} {s s' : σ}
      (hpage : f.store.getAll f.limit offset s = (.ok [], s')) :
      Loop f visit offset progress s (.ok progress, s')
  | ended {offset : Int64} {progress : Progress α} {s s' s'' : σ} {p : Policy} {page : List Policy}
      {result : Except Failure (Progress α)}
      (hpage : f.store.getAll f.limit offset s = (.ok (p :: page), s'))
      (hvisit : visitPage visit (p :: page) progress s' = (result, s''))
      (hends : ∀ progress', result = .ok progress' → progress'.goesOn = false) :
      Loop f visit offset progress s (result, s'')
  | next {offset : Int64} {progress progress' : Progress α} {s s' s'' : σ} {p : Policy}
      {page : List Policy} {outcome : Except Failure (Progress α) × σ}
      (hpage : f.store.getAll f.limit offset s = (.ok (p :: page), s'))
      (hvisit : visitPage visit (p :: page) progress s' = (.ok progress', s''))
      (hgoes : progress'.goesOn = true)
      (hfits : offset.toInt + f.limit.toInt < 2 ^ (63 : Nat))
      (hrest : Loop f visit (offset + f.limit) progress' s'' outcome) :
      Loop f visit offset progress s outcome

/-- **The loop ends** over a table that its visitor leaves alone, and it is one walk through the list.
`o` is the number of policies passed, which is none or at least one page. -/
theorem loop_table {place : Place σ PolicyTable} {f : Feed σ} {t : PolicyTable}
    (hstore : ∀ limit offset,
      f.store.getAll limit offset = PolicyTable.ask place fun t => t.page limit offset)
    (hvisit : ∀ a p s, place.read s = t → place.read (visit a p s).2 = t)
    (hlimit : 0 < f.limit.toInt) (hsize : t.size ≤ 2 ^ (62 : Nat)) (progress : Progress α) {o : Nat}
    {offset : Int64} {s : σ} (hoffset : offset.toInt = o) (hpassed : o = 0 ∨ f.limit.toInt ≤ o)
    (hgoes : progress.goesOn = true) (hs : place.read s = t) :
    f.Loop visit offset progress s (visitPage visit (t.toList.drop o) progress s) := by
  -- each page leaves fewer policies
  induction hleft : t.size - o using Nat.strongRecOn generalizing o offset progress s with
  | ind left ih =>
    have hbound : f.limit.toInt < 2 ^ 63 := Int64.toInt_lt f.limit
    have hask (page : List Policy) (hpage : t.page f.limit offset = .ok page) :
        f.store.getAll f.limit offset s = (.ok page, s) := by
      rw [hstore]
      exact PolicyTable.ask_of_ok (hs.symm ▸ hpage)
    rcases PolicyTable.page_cases t hlimit hoffset with ⟨hnil, hpage⟩ | ⟨p, page, hpage, hlt, hsplit⟩
    · rw [hnil]
      exact .done (hask [] hpage)
    · have hs' : place.read (visitPage visit (p :: page) progress s).2 = t :=
        visitPage_keeps (P := fun _ => True) (fun a p s _ => hvisit a p s) (fun _ _ => trivial)
          progress s hs
      rw [hsplit, visitPage_append hgoes, Run.bind_apply]
      rcases hv : visitPage visit (p :: page) progress s with ⟨e | progress', s'⟩
      · refine .ended (hask (p :: page) hpage) hv ?_
        intro progress' h
        cases h
      · rw [hv] at hs'
        cases hgoes' : progress'.goesOn with
        | false =>
          simp only [hgoes', Bool.false_eq_true, if_false]
          refine .ended (hask (p :: page) hpage) hv ?_
          intro progress'' h
          cases h
          exact hgoes'
        | true =>
          simp only [hgoes', if_true]
          have hfits : o + f.limit.toInt < 2 ^ 63 := by omega
          refine .next (hask (p :: page) hpage) hv hgoes' (hoffset ▸ hfits) ?_
          exact ih _ (by omega) progress' (toInt_next hoffset hlimit hfits) (.inr (by omega)) hgoes' hs'
            rfl

/-! ## What the visitor is shown -/

/-- The visitor is shown policies one after the other and goes on after each. -/
inductive Passes (visit : α → Policy → Run Failure σ (α × Bool)) : List Policy → α → σ → α → σ → Prop
  | nil (a : α) (s : σ) : Passes visit [] a s a s
  | cons {p : Policy} {rest : List Policy} {a a' a'' : α} {s s' s'' : σ}
      (hvisit : visit a p s = (.ok (a', true), s')) (hrest : Passes visit rest a' s' a'' s'') :
      Passes visit (p :: rest) a s a'' s''

/-- What it comes to that policies are shown to a visitor: it is shown them all, or those up to the one
where it stops or fails; how many it was shown is added to those it had seen. -/
inductive Visited (visit : α → Policy → Run Failure σ (α × Bool)) (policies : List Policy)
    (progress : Progress α) (s : σ) : Except Failure (Progress α) × σ → Prop
  | all {a : α} {s' : σ} (h : Passes visit policies progress.gathered s a s') :
      Visited visit policies progress s (.ok ⟨a, progress.visited + policies.length, true⟩, s')
  | stopped {front back : List Policy} {p : Policy} {a a' : α} {s' s'' : σ}
      (hsplit : policies = (front ++ [p]) ++ back) (h : Passes visit front progress.gathered s a s')
      (hvisit : visit a p s' = (.ok (a', false), s'')) :
      Visited visit policies progress s
        (.ok ⟨a', progress.visited + (front ++ [p]).length, false⟩, s'')
  | failed {front back : List Policy} {p : Policy} {a : α} {s' s'' : σ} {e : Failure}
      (hsplit : policies = (front ++ [p]) ++ back) (h : Passes visit front progress.gathered s a s')
      (hvisit : visit a p s' = (.error e, s'')) : Visited visit policies progress s (.error e, s'')

theorem Visited.cons {p : Policy} {rest : List Policy} {progress : Progress α} {a : α} {s s' : σ}
    {outcome : Except Failure (Progress α) × σ}
    (hvisit : visit progress.gathered p s = (.ok (a, true), s'))
    (h : Visited visit rest ⟨a, progress.visited + 1, true⟩ s' outcome) :
    Visited visit (p :: rest) progress s outcome := by
  have hcount (n : Nat) : progress.visited + 1 + n = progress.visited + (n + 1) := by omega
  cases h with
  | all h =>
    rw [hcount, ← List.length_cons]
    exact .all (.cons hvisit h)
  | @stopped front _ p' _ _ _ _ hsplit h hstop =>
    rw [hcount, ← List.length_cons (a := p), ← List.cons_append]
    exact .stopped (by rw [hsplit]; rfl) (.cons hvisit h) hstop
  | failed hsplit h hfail => exact .failed (by rw [hsplit]; rfl) (.cons hvisit h) hfail

/-- **What a visitor is shown** of a row of policies. -/
theorem visitPage_visited (policies : List Policy) (progress : Progress α)
    (hgoes : progress.goesOn = true) (s : σ) :
    Visited visit policies progress s (visitPage visit policies progress s) := by
  induction policies generalizing progress s with
  | nil =>
    obtain ⟨a, n, _⟩ := progress
    obtain rfl := hgoes
    exact .all (.nil a s)
  | cons p rest ih =>
    rw [visitPage, Run.bind_apply]
    rcases hvisit : visit progress.gathered p s with ⟨e | ⟨a, goesOn⟩, s'⟩
    · exact .failed rfl (.nil _ _) hvisit
    · cases goesOn with
      | false => exact .stopped rfl (.nil _ _) hvisit
      | true => exact .cons hvisit (ih ⟨a, progress.visited + 1, true⟩ rfl s')

theorem visitPage_append_each (policies seen : List Policy) (n : Nat) (s : σ) :
    visitPage (fun seen p => return (seen ++ [p], true)) policies ⟨seen, n, true⟩ s =
      (.ok ⟨seen ++ policies, n + policies.length, true⟩, s) := by
  induction policies generalizing seen n with
  | nil =>
    rw [List.append_nil]
    rfl
  | cons p rest ih =>
    have hrest := ih (seen ++ [p]) (n + 1)
    rw [List.append_assoc, List.singleton_append, Nat.add_assoc, Nat.add_comm 1] at hrest
    exact hrest

/-! ## Pages of any size -/

/-- What a feed does over a table: each size of pages is as good as any other. -/
theorem forEach_table {place : Place σ PolicyTable} {batch : UInt64} {s : σ}
    (hsize : (place.read s).size ≤ 2 ^ (62 : Nat)) (hbatch : batch.toNat < 2 ^ (63 : Nat)) (start : α)
    (hvisit : ∀ a p s', place.read s' = place.read s → place.read (visit a p s').2 = place.read s) :
    let f := ofStore (PolicyTable.store place) batch
    let outcome := visitPage visit (place.read s).toList { gathered := start } s
    f.Loop visit 0 { gathered := start } s outcome ∧ f.forEach start visit s = outcome := by
  intro f outcome
  have hlimit : 0 < f.limit.toInt := Decidable.byContradiction fun hnonpos =>
    absurd hbatch (Nat.not_lt.mpr (TwoTier.large_of_limit_nonpos batch hnonpos))
  have hforEach : f.forEach start visit s =
      f.visitPages visit ((place.read s).size + 1) 0 { gathered := start } s := by
    rw [forEach, Run.bind_apply]
    rfl
  constructor
  · exact loop_table (fun _ _ => rfl) hvisit hlimit hsize { gathered := start } Int64.toInt_zero
      (.inl rfl) rfl rfl
  · rw [hforEach]
    rcases visitPages_table (f := f) (fun _ _ => rfl) hvisit hlimit ((place.read s).size + 1)
      { gathered := start } Int64.toInt_zero (.inl rfl) (by omega) rfl rfl with h | ⟨hlarge, -⟩
    · exact h
    · omega

/-- **Paging is exact**, whatever the size of the pages, over a table of not more policies than a memory
of `2 ^ 63` bytes has room for.  The loop of a feed ends without a refusal and with its offset in range;
the visitor is shown the policies once each, up to the one where it stops, and they are counted.  What
the feed collects are the policies that are stored, in the order of their identifiers.

Filling the cache tier leaves the policies there alone, adds those of the primary tier that it lacks and
tells how many these were. -/
theorem paging_exact {primary cache : Place σ PolicyTable} (hcache : cache.Lawful)
    (hapart : primary.Apart cache) {s : σ} (hsize : (primary.read s).size ≤ 2 ^ (62 : Nat))
    {batch : UInt64} (hbatch : batch.toNat < 2 ^ (63 : Nat)) :
    let t := primary.read s
    let c := cache.read s
    let f := ofStore (PolicyTable.store primary) batch
    let populated := TwoTier.populate (PolicyTable.store primary) (PolicyTable.store cache) batch s
    (∀ {α : Type} (start : α) (visit : α → Policy → Run Failure σ (α × Bool)),
      (∀ a p s', primary.read s' = t → primary.read (visit a p s').2 = t) →
      f.Loop visit 0 { gathered := start } s (f.forEach start visit s) ∧
        Visited visit t.toList { gathered := start } s (f.forEach start visit s)) ∧
    (∃ policies, f.collect s = (.ok policies, s) ∧
      policies.Pairwise (fun p p' => p.uid < p'.uid) ∧ ∀ p, p ∈ policies ↔ t.find? p.uid = some p) ∧
    populated.1 = .ok (t.toList.filter fun p => !c.contains p.uid).length ∧
      primary.read populated.2 = t ∧
      ∀ uid, (cache.read populated.2).find? uid = (c.find? uid).or (t.find? uid) := by
  intro t c f populated
  refine ⟨?_, ⟨t.toList, ?_, t.sorted, fun p => Keyed.mem_toList_iff⟩, ?_⟩
  · intro α start visit hvisit
    obtain ⟨hloop, hforEach⟩ := forEach_table hsize hbatch start hvisit
    rw [hforEach]
    exact ⟨hloop, visitPage_visited _ _ rfl s⟩
  · have hkeeps : ∀ (seen : List Policy) (p : Policy) s', primary.read s' = t →
        primary.read ((return (seen ++ [p], true) : Run Failure σ (List Policy × Bool)) s').2 = t :=
      fun _ _ _ h => h
    obtain ⟨-, hforEach⟩ := forEach_table hsize hbatch [] hkeeps
    rw [visitPage_append_each, List.nil_append] at hforEach
    rw [collect, Run.bind_apply, hforEach]
    rfl
  · have hpopulated : populated =
        (.ok (TwoTier.unknown c t.toList).length, cache.write (TwoTier.filled c t.toList) s) := by
      rcases TwoTier.populate_table hcache hapart batch s with h | ⟨hlarge | hlarge, -⟩
      · exact h
      · exact absurd hbatch (Nat.not_lt.mpr hlarge)
      · exact absurd hsize (Nat.not_le.mpr hlarge)
    rw [hpopulated, hapart.read_left, hcache.read_write]
    exact ⟨rfl, rfl, TwoTier.find?_filled c t.toList⟩

/-- Two policies, the first of which is in the cache tier under its identifier, but denies there. -/
def halfCached : PolicyTable × PolicyTable :=
  (Keyed.ofList [Policy.allowingA, Policy.denyingA], Keyed.ofList [{ Policy.allowingA with effect := .deny }])

theorem paging_exact_halfCached :
    let largest : UInt64 := 0x7FFFFFFFFFFFFFFF
    let primary : Place (PolicyTable × PolicyTable) PolicyTable := Place.fst
    let f := ofStore (PolicyTable.store primary) largest
    let untilDenied := fun (seen : List Bytes) (p : Policy) =>
      (return (seen ++ [p.uid], p.effect == .allow) : Run Failure (PolicyTable × PolicyTable) _)
    f.Loop untilDenied 0 { gathered := [] } halfCached (.ok ⟨[[112], [113]], 2, false⟩, halfCached) ∧
      (∃ policies, f.collect halfCached = (.ok policies, halfCached)) ∧
      (TwoTier.populate (PolicyTable.store primary) (PolicyTable.store Place.snd) largest
        halfCached).1 = .ok 1 := by
  intro largest primary f untilDenied
  have hsize : (primary.read halfCached).size ≤ 2 ^ (62 : Nat) := by
    show 2 ≤ 2 ^ (62 : Nat)
    omega
  have hbatch : largest.toNat < 2 ^ (63 : Nat) := by decide
  have hshown : f.forEach [] untilDenied halfCached = (.ok ⟨[[112], [113]], 2, false⟩, halfCached) :=
    (forEach_table hsize hbatch [] fun _ _ _ h => h).2
  obtain ⟨hwalk, ⟨policies, hcollect, -⟩, hloaded, -⟩ :=
    paging_exact Place.snd_lawful Place.fst_apart_snd hsize hbatch
  obtain ⟨hloop, -⟩ := hwalk [] untilDenied fun _ _ _ h => h
  rw [hshown] at hloop
  exact ⟨hloop, ⟨policies, hcollect⟩, hloaded⟩

end Feed

end AccessControl
