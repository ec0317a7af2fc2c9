import AccessControl.Proofs.Template

/-!
# The grammar of templates

A template can be split exactly if its tags are balanced (`Template.Balanced`), and then it is made of
literals without tags and holes that are balanced themselves in one way only (`Template.Splitting`).  What
has been read of a template has a height, the number of tags that are open behind it (`Template.Height`).
The scan keeps to the height of what it has read (`Scan.ok_run_iff`), the pieces it finds are a splitting
(`Scan.run_splits`), and it finds the pieces of any splitting (`Scan.run_splitting`).
-/

namespace AccessControl

namespace Template

/-- The tags in a text fit: no part in front has more end tags than start tags, and the whole has as many of
both.  If both tags are the same byte, it is the number of these that counts. -/
def Balanced (start stop : UInt8) (text : Bytes) : Prop :=
  if start = stop then text.count start % 2 = 0
  else (∀ front, front <+: text → front.count stop ≤ front.count start) ∧
    text.count start = text.count stop

/-- What may stand in a hole: a text whose tags fit, and none at all if both tags are the same byte. -/
structure Interior (start stop : UInt8) (hole : Bytes) : Prop where
  balanced : Balanced start stop hole
  tagFree : start = stop → start ∉ hole

/-- A template is made of literals and holes between tags. -/
structure Splitting (start stop : UInt8) (pairs : List (Bytes × Bytes)) (tail template : Bytes) : Prop where
  joined : joined start stop pairs tail = template
  literals : ∀ pair ∈ pairs, start ∉ pair.1 ∧ stop ∉ pair.1
  holes : ∀ pair ∈ pairs, Interior start stop pair.2
  tail : start ∉ tail ∧ stop ∉ tail

/-! ## Heights -/

/-- So many tags are open behind a text. -/
def Height (start stop : UInt8) (depth : Nat) (text : Bytes) : Prop :=
  if start = stop then text.count start % 2 = depth
  else (∀ front, front <+: text → front.count stop ≤ front.count start) ∧
    text.count start = text.count stop + depth

section Height

variable {start stop b : UInt8} {depth : Nat} {text behind : Bytes}

theorem height_nil : Height start stop 0 [] := by
  unfold Height
  split
  · rfl
  · exact ⟨fun front h => List.prefix_nil.mp h ▸ Nat.le_refl 0, rfl⟩

theorem Height.balanced_iff (h : Height start stop depth text) : Balanced start stop text ↔ depth = 0 := by
  unfold Height at h
  unfold Balanced
  split at h
  · next heq => rw [if_pos heq, h]
  · next hne =>
    rw [if_neg hne, h.2]
    exact ⟨fun hb => by omega, fun hd => ⟨h.1, by omega⟩⟩

theorem height_zero_iff : Height start stop 0 text ↔ Balanced start stop text := Iff.rfl

theorem Height.le_one (h : Height start stop depth text) (heq : start = stop) : depth ≤ 1 := by
  rw [Height, if_pos heq] at h
  omega

/-- A start tag opens a hole or, if it differs from the end tag, nests. -/
theorem Height.opens (h : Height start stop depth text) (hopens : start ≠ stop ∨ depth = 0) :
    Height start stop (depth + 1) (text ++ [start]) := by
  unfold Height at h ⊢
  split at h
  · next heq =>
    rw [if_pos heq, List.count_append, List.count_singleton_self]
    have hdepth := hopens.resolve_left (not_not_intro heq)
    omega
  · next hne =>
    rw [if_neg hne]
    refine ⟨fun front hfront => ?_, ?_⟩
    · rcases List.prefix_concat_iff.mp hfront with rfl | hfront
      · have hle := h.1 text (List.prefix_refl text)
        rw [List.count_append, List.count_append, List.count_singleton_self, List.count_singleton,
          if_neg (by simpa using hne)]
        omega
      · exact h.1 front hfront
    · rw [List.count_append, List.count_append, List.count_singleton_self, List.count_singleton,
        if_neg (by simpa using hne), h.2]
      omega

/-- An end tag closes what is open. -/
theorem Height.closes (h : Height start stop (depth + 1) text) :
    Height start stop depth (text ++ [stop]) := by
  unfold Height at h ⊢
  split at h
  · next heq =>
    subst heq
    rw [if_pos rfl, List.count_append, List.count_singleton_self]
    omega
  · next hne =>
    have hcount : List.count start [stop] = 0 := by
      rw [List.count_singleton, if_neg (by simpa using Ne.symm hne)]
    rw [if_neg hne]
    refine ⟨fun front hfront => ?_, ?_⟩
    · rcases List.prefix_concat_iff.mp hfront with rfl | hfront
      · rw [List.count_append, List.count_append, List.count_singleton_self, hcount, h.2]
        omega
      · exact h.1 front hfront
    · rw [List.count_append, List.count_append, List.count_singleton_self, hcount, h.2]
      omega

/-- A byte that is no tag changes nothing. -/
theorem Height.other (h : Height start stop depth text) (hstart : b ≠ start) (hstop : b ≠ stop) :
    Height start stop depth (text ++ [b]) := by
  have hcount (tag : UInt8) (htag : b ≠ tag) : (text ++ [b]).count tag = text.count tag := by
    rw [List.count_append, List.count_singleton, if_neg (by simpa using htag), Nat.add_zero]
  unfold Height at h ⊢
  rw [hcount start hstart]
  split at h
  · next heq => rwa [if_pos heq]
  · next hne =>
    rw [if_neg hne, hcount stop hstop]
    refine ⟨fun front hfront => ?_, h.2⟩
    rcases List.prefix_concat_iff.mp hfront with rfl | hfront
    · rw [hcount start hstart, hcount stop hstop]
      exact h.1 text (List.prefix_refl text)
    · exact h.1 front hfront

/-- Where nothing is open an end tag does not fit. -/
theorem Height.not_balanced_stop (h : Height start stop 0 text) (hne : start ≠ stop) :
    ¬ Balanced start stop (text ++ stop :: behind) := by
  unfold Height at h
  unfold Balanced
  rw [if_neg hne] at h ⊢
  intro hb
  have hle := hb.1 (text ++ [stop]) ⟨behind, by rw [List.append_assoc]; rfl⟩
  rw [List.count_append, List.count_append, List.count_singleton_self, List.count_singleton,
    if_neg (by simpa using Ne.symm hne), h.2] at hle
  omega

end Height

/-! ## The scan byte by byte -/

namespace Scan

variable {start stop b : UInt8} {position depth : Nat} {literal inner text : Bytes}

theorem run_open : run start stop position 0 literal inner (start :: text) =
    run start stop (position + 1) 1 literal [] text := by
  rw [run, if_pos ⟨rfl, .inr rfl⟩]

theorem run_deeper (hne : start ≠ stop) : run start stop position (depth + 1) literal inner (start :: text) =
    run start stop (position + 1) (depth + 2) literal (inner ++ [start]) text := by
  rw [run, if_pos ⟨rfl, .inl hne⟩]

theorem run_close : run start stop position 1 literal inner (stop :: text) =
    (run start stop (position + 1) 0 [] [] text).cons literal inner := by
  rw [run, if_neg, if_pos rfl]
  rintro ⟨rfl, hne | hnone⟩
  · exact hne rfl
  · cases hnone

theorem run_shallower (hne : start ≠ stop) :
    run start stop position (depth + 2) literal inner (stop :: text) =
      run start stop (position + 1) (depth + 1) literal (inner ++ [stop]) text := by
  rw [run, if_neg fun h => hne h.1.symm, if_pos rfl]

theorem run_stray (hne : start ≠ stop) : run start stop position 0 literal inner (stop :: text) =
    ⟨[], .error (.strayEnd stop position)⟩ := by
  rw [run, if_neg fun h => hne h.1.symm, if_pos rfl]

theorem run_outside (hstart : b ≠ start) (hstop : b ≠ stop) :
    run start stop position 0 literal inner (b :: text) =
      run start stop (position + 1) 0 (literal ++ [b]) inner text := by
  rw [run, if_neg fun h => hstart h.1, if_neg hstop, if_pos rfl]

theorem run_inside (hstart : b ≠ start) (hstop : b ≠ stop) :
    run start stop position (depth + 1) literal inner (b :: text) =
      run start stop (position + 1) (depth + 1) literal (inner ++ [b]) text := by
  rw [run, if_neg fun h => hstart h.1, if_neg hstop, if_neg (Nat.succ_ne_zero depth)]

/-- What a byte can be for the scan within `depth` open tags. -/
inductive Move (start stop : UInt8) : (depth : Nat) → (b : UInt8) → Prop where
  | opens : Move start stop 0 start
  | deeper (depth : Nat) (hne : start ≠ stop) : Move start stop (depth + 1) start
  | closes : Move start stop 1 stop
  | shallower (depth : Nat) (hne : start ≠ stop) : Move start stop (depth + 2) stop
  | stray (hne : start ≠ stop) : Move start stop 0 stop
  | outside (b : UInt8) (hstart : b ≠ start) (hstop : b ≠ stop) : Move start stop 0 b
  | inside (depth : Nat) (b : UInt8) (hstart : b ≠ start) (hstop : b ≠ stop) : Move start stop (depth + 1) b

theorem move_of (h : start = stop → depth ≤ 1) (b : UInt8) : Move start stop depth b := by
  by_cases hstart : b = start
  · subst hstart
    match depth with
    | 0 => exact .opens
    | d + 1 =>
      by_cases hne : b = stop
      · -- both tags are the same, so the open hole is closed
        subst hne
        obtain rfl : d = 0 := Nat.le_zero.mp (Nat.le_of_succ_le_succ (h rfl))
        exact .closes
      · exact .deeper d hne
  · by_cases hstop : b = stop
    · subst hstop
      match depth with
      | 0 => exact .stray (Ne.symm hstart)
      | 1 => exact .closes
      | d + 2 => exact .shallower d (Ne.symm hstart)
    · match depth with
      | 0 => exact .outside b hstart hstop
      | d + 1 => exact .inside d b hstart hstop

/-- **The scan gets through exactly if the tags are balanced.** -/
theorem ok_run_iff {front : Bytes} (h : Height start stop depth front) :
    (∃ tail, (run start stop position depth literal inner text).tail = .ok tail) ↔
      Balanced start stop (front ++ text) := by
  induction text generalizing position depth literal inner front with
  | nil =>
    rw [List.append_nil, h.balanced_iff]
    cases depth with
    | zero => exact ⟨fun _ => rfl, fun _ => ⟨literal, rfl⟩⟩
    | succ d => exact ⟨nofun, nofun⟩
  | cons b text ih =>
    have hsplit : front ++ b :: text = front ++ [b] ++ text := by rw [List.append_assoc]; rfl
    cases move_of h.le_one b with
    | opens => rw [run_open, hsplit, ih (h.opens (.inr rfl))]
    | deeper d hne => rw [run_deeper hne, hsplit, ih (h.opens (.inl hne))]
    | closes =>
      rw [run_close, hsplit, ← ih h.closes]
      rfl
    | shallower d hne => rw [run_shallower hne, hsplit, ih h.closes]
    | stray hne =>
      rw [run_stray hne]
      exact ⟨nofun, fun hb => absurd hb (h.not_balanced_stop hne)⟩
    | outside _ hstart hstop => rw [run_outside hstart hstop, hsplit, ih (h.other hstart hstop)]
    | inside d _ hstart hstop => rw [run_inside hstart hstop, hsplit, ih (h.other hstart hstop)]

/-- Where a scan does not get through, a tag is at fault. -/
theorem error_of_run {e : TemplateError}
    (h : (run start stop position depth literal inner text).tail = .error e) :
    (∃ position, e = .strayEnd stop position) ∨ e = .neverClosed start := by
  fun_induction run start stop position depth literal inner text with
  | case1 position depth literal inner =>
    split at h
    · cases h
    · cases h
      exact .inr rfl
  | case4 position literal inner rest =>
    cases h
    exact .inl ⟨position, rfl⟩
  | _ =>
    rename_i ih
    exact ih h

/-! ## The pieces of a scan -/

/-- What has been read of a hole, with so many tags open in it. -/
structure Inside (start stop : UInt8) (depth : Nat) (inner : Bytes) : Prop where
  height : Height start stop depth inner
  tagFree : start = stop → start ∉ inner

theorem Inside.eq_zero (h : Inside start stop depth inner) (heq : start = stop) : depth = 0 := by
  have hheight := h.height
  rw [Height, if_pos heq, List.count_eq_zero_of_not_mem (h.tagFree heq)] at hheight
  exact hheight.symm

theorem inside_nil : Inside start stop 0 [] := ⟨height_nil, fun _ => List.not_mem_nil⟩

theorem Inside.opens (h : Inside start stop depth inner) (hne : start ≠ stop) :
    Inside start stop (depth + 1) (inner ++ [start]) :=
  ⟨h.height.opens (.inl hne), fun heq => absurd heq hne⟩

theorem Inside.closes (h : Inside start stop (depth + 1) inner) (hne : start ≠ stop) :
    Inside start stop depth (inner ++ [stop]) :=
  ⟨h.height.closes, fun heq => absurd heq hne⟩

theorem Inside.other (h : Inside start stop depth inner) (hstart : b ≠ start) (hstop : b ≠ stop) :
    Inside start stop depth (inner ++ [b]) := by
  refine ⟨h.height.other hstart hstop, fun heq hmem => ?_⟩
  rcases List.mem_append.mp hmem with hmem | hmem
  · exact h.tagFree heq hmem
  · exact hstart (List.mem_singleton.mp hmem).symm

theorem not_mem_concat {tag : UInt8} (h : tag ∉ text) (hb : b ≠ tag) : tag ∉ text ++ [b] := by
  intro hmem
  rcases List.mem_append.mp hmem with hmem | hmem
  · exact h hmem
  · exact hb (List.mem_singleton.mp hmem).symm

theorem nothing_open : ∀ d, 0 = d + 1 → Inside start stop d inner := nofun

/-- **The pieces of a scan that gets through are literals without tags and balanced holes.** -/
theorem run_splits {tail : Bytes} (hliteral : start ∉ literal ∧ stop ∉ literal)
    (hinner : ∀ d, depth = d + 1 → Inside start stop d inner)
    (h : (run start stop position depth literal inner text).tail = .ok tail) :
    (∀ pair ∈ (run start stop position depth literal inner text).pieces,
      (start ∉ pair.1 ∧ stop ∉ pair.1) ∧ Inside start stop 0 pair.2) ∧ start ∉ tail ∧ stop ∉ tail := by
  induction text generalizing position depth literal inner with
  | nil =>
    cases depth with
    | zero =>
      cases h
      exact ⟨nofun, hliteral⟩
    | succ d => cases h
  | cons b text ih =>
    have hdepth : start = stop → depth ≤ 1 := by
      intro heq
      cases depth with
      | zero => exact Nat.zero_le 1
      | succ d => exact Nat.succ_le_succ (Nat.le_of_eq ((hinner d rfl).eq_zero heq))
    cases move_of hdepth b with
    | opens =>
      rw [run_open] at h ⊢
      refine ih hliteral (fun d hd => ?_) h
      cases hd
      exact inside_nil
    | deeper d hne =>
      rw [run_deeper hne] at h ⊢
      refine ih hliteral (fun d' hd => ?_) h
      cases hd
      exact (hinner d rfl).opens hne
    | closes =>
      rw [run_close] at h ⊢
      have hnone : start ∉ ([] : Bytes) ∧ stop ∉ ([] : Bytes) := ⟨List.not_mem_nil, List.not_mem_nil⟩
      obtain ⟨hpieces, htail⟩ := ih hnone nothing_open h
      exact ⟨List.forall_mem_cons.mpr ⟨⟨hliteral, hinner 0 rfl⟩, hpieces⟩, htail⟩
    | shallower d hne =>
      rw [run_shallower hne] at h ⊢
      refine ih hliteral (fun d' hd => ?_) h
      cases hd
      exact (hinner (d + 1) rfl).closes hne
    | stray hne =>
      rw [run_stray hne] at h
      cases h
    | outside _ hstart hstop =>
      rw [run_outside hstart hstop] at h ⊢
      exact ih ⟨not_mem_concat hliteral.1 hstart, not_mem_concat hliteral.2 hstop⟩ nothing_open h
    | inside d _ hstart hstop =>
      rw [run_inside hstart hstop] at h ⊢
      refine ih hliteral (fun d' hd => ?_) h
      cases hd
      exact (hinner d rfl).other hstart hstop

/-- A literal is read as it stands. -/
theorem run_literal {part : Bytes} (hpart : start ∉ part ∧ stop ∉ part) :
    run start stop position 0 literal inner (part ++ text) =
      run start stop (position + part.length) 0 (literal ++ part) inner text := by
  induction part generalizing position literal with
  | nil => rw [List.append_nil]; rfl
  | cons b part ih =>
    obtain ⟨hstart, hstop⟩ := hpart
    rw [List.mem_cons, not_or] at hstart hstop
    rw [List.cons_append, run_outside (Ne.symm hstart.1) (Ne.symm hstop.1), ih ⟨hstart.2, hstop.2⟩,
      List.append_assoc, List.length_cons, Nat.add_assoc, Nat.add_comm 1]
    rfl

/-- What may stand in a hole is read up to the tag that closes the hole. -/
theorem run_interior {hole : Bytes} (hinner : Inside start stop depth inner)
    (hhole : Interior start stop (inner ++ hole)) :
    run start stop position (depth + 1) literal inner (hole ++ stop :: text) =
      (run start stop (position + hole.length + 1) 0 [] [] text).cons literal (inner ++ hole) := by
  induction hole generalizing position depth inner with
  | nil =>
    rw [List.append_nil] at hhole ⊢
    obtain rfl := hinner.height.balanced_iff.mp hhole.balanced
    exact run_close
  | cons b hole ih =>
    have hsplit : inner ++ b :: hole = inner ++ [b] ++ hole := by rw [List.append_assoc]; rfl
    have hlength : position + (b :: hole).length + 1 = position + 1 + hole.length + 1 := by
      rw [List.length_cons]
      omega
    have hnext {d : Nat} (h : Inside start stop d (inner ++ [b])) :
        run start stop (position + 1) (d + 1) literal (inner ++ [b]) (hole ++ stop :: text) =
          (run start stop (position + (b :: hole).length + 1) 0 [] [] text).cons literal
            (inner ++ b :: hole) := by
      rw [hlength, hsplit]
      exact ih h (hsplit ▸ hhole)
    have hdepth : start = stop → depth + 1 ≤ 1 := fun heq =>
      Nat.succ_le_succ (Nat.le_of_eq (hinner.eq_zero heq))
    rw [List.cons_append]
    generalize hd : depth + 1 = d at hdepth
    cases move_of hdepth b with
    | opens | stray _ | outside _ _ _ => cases hd
    | deeper _ hne =>
      cases hd
      rw [run_deeper hne]
      exact hnext (hinner.opens hne)
    | closes =>
      -- the hole would be closed in its middle
      cases hd
      by_cases heq : start = stop
      · subst heq
        exact absurd (List.mem_append_right inner List.mem_cons_self) (hhole.tagFree rfl)
      · exact absurd hhole.balanced (hinner.height.not_balanced_stop heq)
    | shallower _ hne =>
      cases hd
      rw [run_shallower hne]
      exact hnext (hinner.closes hne)
    | inside _ _ hstart hstop =>
      cases hd
      rw [run_inside hstart hstop]
      exact hnext (hinner.other hstart hstop)

theorem run_splitting {pairs : List (Bytes × Bytes)} {tail : Bytes}
    (hpairs : ∀ pair ∈ pairs, (start ∉ pair.1 ∧ stop ∉ pair.1) ∧ Interior start stop pair.2)
    (htail : start ∉ tail ∧ stop ∉ tail) :
    run start stop position 0 [] inner (joined start stop pairs tail) = ⟨pairs, .ok tail⟩ := by
  induction pairs generalizing position inner with
  | nil =>
    have hread : run start stop position 0 [] inner (tail ++ []) =
        run start stop (position + tail.length) 0 ([] ++ tail) inner [] := run_literal htail
    rw [List.append_nil] at hread
    exact hread
  | cons pair pairs ih =>
    obtain ⟨⟨hliteral, hhole⟩, hpairs⟩ := List.forall_mem_cons.mp hpairs
    rw [joined, run_literal hliteral, run_open, run_interior inside_nil hhole, ih hpairs]
    rfl

end Scan

/-- **Every splitting is what the scan finds.** -/
theorem Splitting.scan_eq {start stop : UInt8} {pairs : List (Bytes × Bytes)} {tail template : Bytes}
    (h : Splitting start stop pairs tail template) : Scan.of template start stop = ⟨pairs, .ok tail⟩ := by
  rw [← h.joined]
  exact Scan.run_splitting (fun pair hpair => ⟨h.literals pair hpair, h.holes pair hpair⟩) h.tail

/-- The tags of `b<c>d` are balanced, so they are part of the hole. -/
example : Scan.of (utf8 "a<b<c>d>e") 60 62 = ⟨[(utf8 "a", utf8 "b<c>d")], .ok (utf8 "e")⟩ := rfl

theorem splitting_of_scan {template tail : Bytes} {start stop : UInt8}
    (h : (Scan.of template start stop).tail = .ok tail) :
    Splitting start stop (Scan.of template start stop).pieces tail template := by
  have hnone : start ∉ ([] : Bytes) ∧ stop ∉ ([] : Bytes) := ⟨List.not_mem_nil, List.not_mem_nil⟩
  obtain ⟨hpieces, htail⟩ := Scan.run_splits hnone Scan.nothing_open h
  refine ⟨joined_of h, fun pair hpair => (hpieces pair hpair).1, fun pair hpair => ?_, htail⟩
  have hhole := (hpieces pair hpair).2
  exact ⟨height_zero_iff.mp hhole.height, hhole.tagFree⟩

theorem scan_ok_iff (template : Bytes) (start stop : UInt8) :
    (∃ tail, (Scan.of template start stop).tail = .ok tail) ↔ Balanced start stop template :=
  Scan.ok_run_iff height_nil

/-- Every splitting is the one that the scan finds, so there is no other. -/
theorem Splitting.unique {start stop : UInt8} {pairs pairs' : List (Bytes × Bytes)}
    {tail tail' template : Bytes} (h : Splitting start stop pairs tail template)
    (h' : Splitting start stop pairs' tail' template) : pairs' = pairs ∧ tail' = tail := by
  obtain ⟨hpairs, htail⟩ := Scan.mk.inj (h'.scan_eq.symm.trans h.scan_eq)
  exact ⟨hpairs, Except.ok.inj htail⟩

/-- **What a template compiles to.**  The scan gets through exactly if the tags are balanced.  Then the
template is split in one way only, the compiled template has the holes of this splitting and its pattern is
made of the pieces; and the template can only fail to compile because a hole or the whole pattern is no
expression.  If the tags are not balanced, these are at fault unless a hole in front of them already is. -/
theorem compile_grammar (template : Bytes) (start stop : UInt8) :
    ((∃ tail, (Scan.of template start stop).tail = .ok tail) ↔ Balanced start stop template) ∧
    (Balanced start stop template →
      ∃ pairs tail, Splitting start stop pairs tail template ∧
        (∀ pairs' tail', Splitting start stop pairs' tail' template → pairs' = pairs ∧ tail' = tail) ∧
        match compile template start stop with
        | .ok t => t.holes = pairs.map Prod.snd ∧
          t.source = utf8 "^" ++ pairs.flatMap (fun p => escaped p.1 ++ utf8 "(" ++ p.2 ++ utf8 ")") ++
            escaped tail ++ utf8 "$"
        | .error e => (PolicyError.template e template).code = .malformedTemplate ∧
          ((∃ hole ∈ pairs.map Prod.snd, Pattern.ofSource? hole = none ∧ e = .invalidHole hole) ∨
            ((∀ hole ∈ pairs.map Prod.snd, Pattern.ofSource? hole ≠ none) ∧
              Pattern.ofSource? (sourceOf pairs tail) = none ∧ e = .invalidPattern))) ∧
    (¬ Balanced start stop template → ∃ e, compile template start stop = .error e ∧
      (PolicyError.template e template).code = .malformedTemplate ∧
      ((∃ hole ∈ (Scan.of template start stop).holes, Pattern.ofSource? hole = none ∧ e = .invalidHole hole) ∨
        ((∀ hole ∈ (Scan.of template start stop).holes, Pattern.ofSource? hole ≠ none) ∧
          ((∃ position, e = .strayEnd stop position) ∨ e = .neverClosed start)))) := by
  have hok := scan_ok_iff template start stop
  have hholes (hparts : ∃ parts, pieces parts = (Scan.of template start stop).pieces) :
      ∀ hole ∈ (Scan.of template start stop).holes, Pattern.ofSource? hole ≠ none := by
    obtain ⟨parts, hparts⟩ := hparts
    intro hole hhole
    rw [Scan.holes, ← hparts] at hhole
    exact ofSource?_of_mem_pieces hhole
  have hcases := innerGroups_cases (Scan.of template start stop).pieces
  refine ⟨hok, fun hbalanced => ?_, fun hunbalanced => ?_⟩
  · obtain ⟨tail, htail⟩ := hok.mpr hbalanced
    have hsplitting := splitting_of_scan htail
    refine ⟨_, tail, hsplitting, fun pairs' tail' h' => hsplitting.unique h', ?_⟩
    rcases hcases with ⟨hole, hmem, hnone, herror⟩ | ⟨parts, hparts⟩
    · -- a hole is no expression
      rw [compile_of_innerGroups_error herror]
      exact ⟨rfl, .inl ⟨hole, hmem, hnone, rfl⟩⟩
    · have hscan : Scan.of template start stop = ⟨pieces parts, .ok tail⟩ := by rw [hparts, ← htail]
      rw [compile_of_parts hscan, hparts]
      cases hpattern : Pattern.ofSource? (sourceOf (Scan.of template start stop).pieces tail) with
      | none => exact ⟨rfl, .inr ⟨hholes ⟨parts, hparts⟩, rfl, rfl⟩⟩
      | some pattern => exact ⟨rfl, source_of_ofSource? hpattern⟩
  · cases htail : (Scan.of template start stop).tail with
    | ok tail => exact absurd (hok.mp ⟨tail, htail⟩) hunbalanced
    | error e =>
      rcases hcases with ⟨hole, hmem, hnone, herror⟩ | ⟨parts, hparts⟩
      · exact ⟨_, compile_of_innerGroups_error herror, rfl, .inl ⟨hole, hmem, hnone, rfl⟩⟩
      · have hscan : Scan.of template start stop = ⟨pieces parts, .error e⟩ := by rw [hparts, ← htail]
        exact ⟨e, compile_of_tail_error hscan, rfl, .inr ⟨hholes ⟨parts, hparts⟩, Scan.error_of_run htail⟩⟩

end Template

end AccessControl
