import AccessControl.Store.Feed
import AccessControl.Store.Table
import AccessControl.Proofs.Answers

/-!
# Walks through a table

A feed asks for pages until one is empty.  Over a table that the visitor leaves alone this is one walk
through the whole list of policies, whatever the size of the pages (`Feed.visitPages_table`): no policy
is lost or shown twice where two pages meet.  The offset of a page is a signed integer of 64 bits; it
can leave its range only for a table of more than `2 ^ 62` policies, and then the table refuses.
-/

namespace AccessControl

open Powers

namespace PolicyTable

variable {t : PolicyTable} {limit offset : Int64}

theorem page_of_range {o : Nat} (hlimit : 0 < limit.toInt) (hoffset : offset.toInt = o) :
    t.page limit offset = .ok ((t.toList.drop o).take limit.toInt.toNat) := by
  have hok : ¬ (limit ≤ 0 ∨ offset < 0) := by
    rw [Int64.le_iff_toInt_le, Int64.lt_iff_toInt_lt, Int64.toInt_zero]
    omega
  rw [page, if_neg hok, hoffset, Int.toNat_natCast]

theorem page_of_neg (hoffset : offset.toInt < 0) :
    t.page limit offset = .error (.pagination limit.toInt offset.toInt) :=
  if_pos (.inr (Int64.lt_iff_toInt_lt.mpr (by rwa [Int64.toInt_zero])))

theorem page_of_limit_nonpos (hlimit : ¬ 0 < limit.toInt) :
    t.page limit offset = .error (.pagination limit.toInt offset.toInt) :=
  if_pos (.inl (Int64.le_iff_toInt_le.mpr (by rw [Int64.toInt_zero]; omega)))

/-- A page holds the policies up to the next one; it is empty behind the last policy only. -/
theorem page_cases (t : PolicyTable) {o : Nat} (hlimit : 0 < limit.toInt) (hoffset : offset.toInt = o) :
    t.toList.drop o = [] ∧ t.page limit offset = .ok [] ∨
      ∃ p page, t.page limit offset = .ok (p :: page) ∧ o < t.size ∧
        t.toList.drop o = (p :: page) ++ t.toList.drop (o + limit.toInt.toNat) := by
  rw [page_of_range hlimit hoffset]
  have hsplit : (t.toList.drop o).take limit.toInt.toNat ++ t.toList.drop (o + limit.toInt.toNat) =
      t.toList.drop o := by
    rw [← List.drop_drop, List.take_append_drop]
  rcases hpage : (t.toList.drop o).take limit.toInt.toNat with _ | ⟨p, page⟩
  · left
    rcases List.take_eq_nil_iff.mp hpage with h | h
    · omega
    · exact ⟨h, rfl⟩
  · right
    rw [hpage] at hsplit
    refine ⟨p, page, rfl, Nat.lt_of_not_le fun hle => ?_, hsplit.symm⟩
    rw [List.drop_eq_nil_of_le hle, List.take_nil] at hpage
    cases hpage

section

variable {σ α : Type} {place : Place σ PolicyTable} {f : PolicyTable → Except PolicyError α} {s : σ}

theorem ask_of_ok {a : α} (h : f (place.read s) = .ok a) : ask place f s = (.ok a, s) := by
  rw [ask, h]
  rfl

theorem ask_of_error {e : PolicyError} (h : f (place.read s) = .error e) :
    ask place f s = (.error (.refused e), s) := by
  rw [ask, h]
  rfl

end

end PolicyTable

namespace Feed

variable {σ α : Type} {visit : α → Policy → Run Failure σ (α × Bool)}

/-- Two rows of policies are visited one after the other, if the visitor goes on. -/
theorem visitPage_append {front back : List Policy} {progress : Progress α}
    (h : progress.goesOn = true) :
    visitPage visit (front ++ back) progress = (do
      let progress ← visitPage visit front progress
      if progress.goesOn then visitPage visit back progress else return progress) := by
  induction front generalizing progress with
  | nil => simp [visitPage, h]
  | cons p front ih =>
    simp only [List.cons_append, visitPage, bind_assoc]
    congr
    funext ⟨gathered, goesOn⟩
    cases goesOn with
    | true => exact ih rfl
    | false => simp

/-- A row of visits keeps what each visit keeps. -/
theorem visitPage_keeps {I : σ → Prop} {P : Policy → Prop}
    (hvisit : ∀ a p s, P p → I s → I (visit a p s).2) {page : List Policy} (hpage : ∀ p ∈ page, P p)
    (progress : Progress α) (s : σ) (hs : I s) : I (visitPage visit page progress s).2 := by
  induction page generalizing progress s with
  | nil => exact hs
  | cons p page ih =>
    have hp := hvisit progress.gathered p s (hpage p (List.mem_cons_self ..)) hs
    rw [visitPage, Run.bind_apply]
    rcases hvisited : visit progress.gathered p s with ⟨reason | ⟨gathered, goesOn⟩, s'⟩
    · rw [hvisited] at hp
      exact hp
    · rw [hvisited] at hp
      cases goesOn with
      | true => exact ih (fun p' hp' => hpage p' (List.mem_cons_of_mem _ hp')) _ s' hp
      | false => exact hp

/-- While they fit, offsets are the numbers of the policies passed. -/
theorem toInt_next {offset limit : Int64} {o : Nat} (hoffset : offset.toInt = o) (hlimit : 0 < limit.toInt)
    (hfits : o + limit.toInt < 2 ^ (63 : Nat)) : (offset + limit).toInt = (o + limit.toInt.toNat : Nat) := by
  rw [Int64.toInt_add, hoffset, Int.bmod_eq_of_le (by omega) (by omega)]
  omega

/-- **A walk page by page is one walk through the list.**  `o` is the number of policies passed, which
is none or at least one page; there have to be pages enough for the policies left. -/
theorem visitPages_table {place : Place σ PolicyTable} {f : Feed σ} {t : PolicyTable}
    (hstore : ∀ limit offset,
      f.store.getAll limit offset = PolicyTable.ask place fun t => t.page limit offset)
    (hvisit : ∀ a p s, place.read s = t → place.read (visit a p s).2 = t)
    (hlimit : 0 < f.limit.toInt) (pages : Nat) (progress : Progress α) {o : Nat} {offset : Int64} {s : σ}
    (hoffset : offset.toInt = o) (hpassed : o = 0 ∨ f.limit.toInt ≤ o)
    (hpages : t.size < pages + o) (hgoes : progress.goesOn = true) (hs : place.read s = t) :
    f.visitPages visit pages offset progress s = visitPage visit (t.toList.drop o) progress s ∨
      2 ^ (62 : Nat) < t.size ∧
        ∃ reason s', f.visitPages visit pages offset progress s = (.error (.refused reason), s') := by
  induction pages generalizing o offset progress s with
  | zero =>
    left
    rw [List.drop_eq_nil_of_le (by unfold Keyed.size at hpages; omega)]
    rfl
  | succ pages ih =>
    have hbound : f.limit.toInt < 2 ^ 63 := Int64.toInt_lt f.limit
    have hask (page : List Policy) (hpage : t.page f.limit offset = .ok page) :
        f.store.getAll f.limit offset s = (.ok page, s) := by
      rw [hstore]
      exact PolicyTable.ask_of_ok (hs.symm ▸ hpage)
    rw [visitPages, Run.bind_apply]
    rcases PolicyTable.page_cases t hlimit hoffset with ⟨hnil, hpage⟩ | ⟨p, page, hpage, hlt, hsplit⟩
    · -- an empty page is behind all policies
      left
      rw [hnil, hask [] hpage]
      rfl
    · rw [hask (p :: page) hpage, hsplit, visitPage_append hgoes]
      simp only [List.isEmpty_cons, Bool.false_eq_true, if_false]
      rw [Run.bind_apply, Run.bind_apply]
      have hs' : place.read (visitPage visit (p :: page) progress s).2 = t :=
        visitPage_keeps (P := fun _ => True) (fun a p s _ => hvisit a p s) (fun _ _ => trivial)
          progress s hs
      rcases hv : visitPage visit (p :: page) progress s with ⟨_ | progress', s'⟩
      · exact .inl rfl
      · rw [hv] at hs'
        simp only
        cases hgoes' : progress'.goesOn with
        | false => exact .inl rfl
        | true =>
          simp only [if_true]
          by_cases hfits : o + f.limit.toInt < 2 ^ 63
          · -- the next offset is in range
            exact ih progress' (toInt_next hoffset hlimit hfits) (.inr (by omega)) (by omega) hgoes' hs'
          · -- the next offset is negative, and the table refuses the page
            right
            refine ⟨by omega, ?_⟩
            obtain ⟨more, rfl⟩ : ∃ more, pages = more + 1 := ⟨pages - 1, by omega⟩
            have hneg : (offset + f.limit).toInt < 0 := by
              have := Int64.toInt_lt offset
              rw [Int64.toInt_add, hoffset, Int.bmod_def]
              split <;> omega
            refine ⟨.pagination f.limit.toInt (offset + f.limit).toInt, s', ?_⟩
            have hpage : t.page f.limit (offset + f.limit) = _ := PolicyTable.page_of_neg hneg
            rw [← hs'] at hpage
            rw [visitPages, Run.bind_apply, hstore, PolicyTable.ask_of_error hpage]

end Feed

end AccessControl
