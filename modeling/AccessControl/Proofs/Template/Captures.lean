import AccessControl.Proofs.Template.Tags

/-!
# What the holes of a template match

The terms of a template are matched one after the other, the literals byte for byte and every hole as a
group.  Neither the expression in a hole nor what stands behind it touches the groups in front
(`Template.spares_terms`), so each hole's own group keeps the text that its hole matched.  These texts and
the literals make up the whole text (`Template.finds_terms`).
-/

namespace AccessControl

open Regex Pattern

namespace Template

/-- The text made of the literals, the texts in place of the holes and the tail. -/
def glued (tail : Bytes) : (pairs : List (Bytes × Bytes)) → (texts : List Bytes) → Bytes
  | (literal, _) :: pairs, text :: texts => literal ++ (text ++ glued tail pairs texts)
  | _, _ => tail

/-! ## The groups of the terms -/

theorem le_groupsBehind (opened : Nat) (parts : List (Bytes × Pattern)) :
    opened ≤ groupsBehind opened parts := by
  induction parts generalizing opened with
  | nil => exact Nat.le_refl opened
  | cons part parts ih =>
    have hle := ih (part.2.groups + (opened + 1))
    rw [groupsBehind]
    omega

/-- Raised numbers are those of other groups. -/
theorem spares_shifted {b k : Nat} (h : b < k) (r : Regex) : (r.shifted k).spares b = true := by
  induction r with
  | seq r s ihr ihs | alt r s ihr ihs => rw [shifted, spares, ihr, ihs, Bool.and_true]
  | group n r ih =>
    rw [shifted, spares, ih, Bool.and_true, decide_eq_true_iff]
    omega
  | look _ r ih | star _ r ih | plus _ r ih | optional _ r ih | counted _ _ _ r ih => exact ih
  | _ => rfl

theorem spares_sequence {b : Nat} (terms : List Regex) :
    (Regex.sequence terms).spares b = terms.all (spares b) := by
  induction terms with
  | nil => rfl
  | cons r terms ih => exact congrArg (r.spares b && ·) ih

/-- The terms of a template leave the groups alone that have been opened in front. -/
theorem spares_terms {b opened : Nat} (h : b ≤ opened) (tail : Bytes) (parts : List (Bytes × Pattern)) :
    (terms opened tail parts).all (spares b) = true := by
  have hliteral (literal : Bytes) : (literal.map Regex.byte).all (spares b) = true := by
    rw [List.all_map]
    exact List.all_eq_true.mpr fun _ _ => rfl
  induction parts generalizing opened with
  | nil => exact hliteral tail
  | cons part parts ih =>
    obtain ⟨literal, hole⟩ := part
    have hgroup : (Regex.group (opened + 1) (hole.root.shifted (opened + 1))).spares b = true := by
      rw [spares, spares_shifted (Nat.lt_succ_of_le h), Bool.and_true, decide_eq_true_iff]
      exact h
    rw [terms, List.all_append, hliteral, Bool.true_and, List.all_cons, hgroup, Bool.true_and]
    exact ih (by omega)

/-- The number of a term that is a group. -/
def number? : Regex → Option Nat
  | .group n _ => some n
  | _ => none

/-- **The numbers added up from the groups within the holes are those of the holes' own groups.** -/
theorem groupNumbers_eq (opened : Nat) (tail : Bytes) (parts : List (Bytes × Pattern)) :
    groupNumbers (opened + 1) (parts.map (·.2.groups)) = (terms opened tail parts).filterMap number? := by
  have hliteral (literal : Bytes) : (literal.map Regex.byte).filterMap number? = [] := by
    rw [List.filterMap_map]
    exact List.filterMap_eq_nil_iff.mpr fun _ _ => rfl
  induction parts generalizing opened with
  | nil => exact (hliteral tail).symm
  | cons part parts ih =>
    obtain ⟨literal, hole⟩ := part
    have hnext : opened + 1 + 1 + hole.groups = hole.groups + (opened + 1) + 1 := by omega
    rw [terms, List.filterMap_append, hliteral, List.nil_append, List.map_cons, groupNumbers, hnext, ih]
    rfl

/-! ## Matching the terms -/

/-- A literal is matched byte for byte. -/
theorem finds_literal {literal : Bytes} {more : List Regex} {path : Path} {k : Rest} {c : Cursor}
    {caps : Captures} (h : (Regex.sequence (literal.map .byte ++ more)).run path k c = .matched caps) :
    ∃ d path', c.rest = literal ++ d.rest ∧ d.captures = c.captures ∧
      (Regex.sequence more).run path' k d = .matched caps := by
  induction literal generalizing path c with
  | nil => exact ⟨c, path, rfl, rfl, h⟩
  | cons b literal ih =>
    obtain ⟨a, hpasses, ha, hnext⟩ := finds_consume (b := 0) h
    obtain ⟨d, path', hrest, hcaptures, hmore⟩ := ih hnext
    refine ⟨d, path', ?_, hcaptures.trans (c.captures_advance 1), hmore⟩
    rw [hpasses.rest, hrest, eq_of_beq ha]
    rfl

/-- A group matches a text of its expression and keeps it; the groups in front are left alone. -/
theorem finds_group {r more : Regex} {opened : Nat} {path : Path} {k : Rest} {c : Cursor} {caps : Captures}
    (hr : r.spares opened = true) (hk : Keeps opened (more.run (1 :: path) k))
    (h : (Regex.seq (.group (opened + 1) r) more).run path k c = .matched caps) :
    ∃ x d, c.rest = x ++ d.rest ∧ (r.isPlain = true → r.Matches x) ∧ Agree opened c.captures d.captures ∧
      (opened < c.captures.length → d.captures[opened]? = some (some x)) ∧
      more.run (1 :: path) k d = .matched caps := by
  have hcaptured := keeps_capture (n := opened + 1) (Nat.le_refl opened) hk c
  obtain ⟨x, d, hx, hmatches, h⟩ := (finds_run hr (0 :: 0 :: path)).finds _ hcaptured _ _ h
  have hcapture := hx.captures_capture (opened + 1)
  refine ⟨x, d.capture (opened + 1) c, hx.rest, hmatches, ?_, fun hroom => ?_,
    Outcome.resetting_eq_matched.mp h⟩
  · rw [hcapture]
    exact hx.captures.set (Nat.le_refl opened) _
  · rw [hcapture]
    exact List.getElem?_set_self (by rwa [hx.captures.length])

/-- **The groups of the holes keep the texts that the holes matched.**  The literals and these texts make
up the text ahead, and the groups in front are left alone. -/
theorem finds_terms {parts : List (Bytes × Pattern)} {tail : Bytes} {opened : Nat} {path : Path} {c : Cursor}
    {caps : Captures} (hroom : groupsBehind opened parts ≤ c.captures.length)
    (h : (Regex.sequence (terms opened tail parts ++ [.lineEnd])).run path atEnd c = .matched caps) :
    ∃ texts, (groupNumbers (opened + 1) (parts.map (·.2.groups))).map (fun n => (caps[n - 1]?.join).getD []) =
        texts ∧
      c.rest = glued tail (pieces parts) texts ∧
      (∀ pair ∈ parts.zip texts, pair.1.2.root.isPlain = true → pair.1.2.root.Matches pair.2) ∧
      Agree opened c.captures caps := by
  induction parts generalizing opened path c with
  | nil =>
    obtain ⟨d, path', hrest, hcaptures, h⟩ := finds_literal h
    obtain ⟨hend, h⟩ := matched_of_require h
    obtain ⟨-, hcaps⟩ := matched_of_require (k := fun d => .matched d.captures) h
    cases hcaps
    refine ⟨[], rfl, ?_, nofun, hcaptures ▸ .refl _⟩
    rw [hrest, List.isEmpty_iff.mp hend, List.append_nil]
    rfl
  | cons part parts ih =>
    obtain ⟨literal, hole⟩ := part
    rw [terms, List.append_assoc] at h
    obtain ⟨d, path', hrest, hcaptures, h⟩ := finds_literal h
    rw [groupsBehind, ← hcaptures] at hroom
    have hroom' := Nat.le_trans (le_groupsBehind _ parts) hroom
    have hspares : (Regex.sequence
        (terms (hole.groups + (opened + 1)) tail parts ++ [.lineEnd])).spares opened = true := by
      rw [spares_sequence, List.all_append, spares_terms (by omega)]
      rfl
    -- the hole matches a text, which its group keeps: what is behind has groups of its own
    obtain ⟨x, e, hx, hmatches, hfront, hown, h⟩ := finds_group
      (spares_shifted (Nat.lt_succ_self opened) hole.root)
      ((finds_run hspares (1 :: path')).keeps _ keeps_atEnd) h
    obtain ⟨texts, htexts, hbehind, hall, hagree⟩ := ih (by rwa [hfront.length]) h
    refine ⟨x :: texts, ?_, ?_, ?_, ?_⟩
    · have hnext : opened + 1 + 1 + hole.groups = hole.groups + (opened + 1) + 1 := by omega
      have hkept : caps[opened]? = some (some x) := by
        rw [hagree.getElem? (by omega), hown (by omega)]
      rw [List.map_cons, groupNumbers, List.map_cons, hnext, htexts, Nat.add_sub_cancel, hkept]
      rfl
    · rw [hrest, hx, hbehind]
      rfl
    · rw [List.zip_cons_cons]
      refine List.forall_mem_cons.mpr ⟨fun hplain => ?_, hall⟩
      have hmatches := hmatches (by rwa [isPlain_shifted])
      rwa [matches_shifted] at hmatches
    · rw [← hcaptures]
      exact hfront.trans (hagree.mono (by omega))

theorem length_groupNumbers (next : Nat) (inner : List Nat) :
    (groupNumbers next inner).length = inner.length := by
  induction inner generalizing next with
  | nil => rfl
  | cons n inner ih => exact congrArg (· + 1) (ih _)

/-- The texts captured and the literals make up the text, and a plain hole matches its own text alone. -/
theorem glued_of_capture? {t : CompiledTemplate} {parts : List (Bytes × Pattern)} {tail subject : Bytes}
    {texts : List Bytes} (hassembled : Assembled parts tail t) (h : t.capture? subject = some texts) :
    texts.length = parts.length ∧ glued tail (pieces parts) texts = subject ∧
      ∀ pair ∈ parts.zip texts, pair.1.2.root.isPlain = true → pair.1.2.root.Matches pair.2 := by
  obtain ⟨caps, hcaps, rfl⟩ := Option.map_eq_some_iff.mp h
  have hrun := match?_eq_some_iff.mp hcaps
  rw [hassembled.root, tree] at hrun
  have hbehind := matched_of_lineStart hrun
  have hroom : groupsBehind 0 parts ≤ (List.replicate t.pattern.groups (none : Option Bytes)).length :=
    Nat.le_of_eq (hassembled.groups.symm.trans List.length_replicate.symm)
  obtain ⟨texts, htexts, hglued, hmatches, -⟩ :=
    finds_terms (c := { rest := subject, captures := List.replicate t.pattern.groups none }) hroom hbehind
  rw [hassembled.holeGroups, htexts]
  refine ⟨?_, hglued.symm, hmatches⟩
  rw [← htexts, List.length_map, length_groupNumbers, List.length_map]

/-- **Captures glue back to the text.**  A compiled template captures something exactly if it matches, and
then it captures one text for each hole, which together with the literals make up the whole text.  The
pieces are those of the template, and the numbers of the groups that are looked up are the numbers of the
groups that the holes became. -/
theorem captures_glue {template : Bytes} {start stop : UInt8} {t : CompiledTemplate}
    (h : compile template start stop = .ok t) :
    ∃ parts tail, Splitting start stop (pieces parts) tail template ∧
      t.holes = (pieces parts).map Prod.snd ∧ t.pattern.root = tree parts tail ∧
      t.holeGroups = (terms 0 tail parts).filterMap number? ∧
      ∀ subject, match t.capture? subject with
        | none => t.accepts subject = false
        | some texts => t.accepts subject = true ∧ texts.length = t.holes.length ∧
          glued tail (pieces parts) texts = subject := by
  obtain ⟨parts, tail, hscan, hassembled⟩ := parts_of_compile h
  have hsplitting := splitting_of_scan (congrArg Scan.tail hscan)
  rw [hscan] at hsplitting
  refine ⟨parts, tail, hsplitting, hassembled.holes, hassembled.root, ?_, fun subject => ?_⟩
  · rw [hassembled.holeGroups, ← groupNumbers_eq]
  · have haccepts : t.accepts subject = (t.capture? subject).isSome := by
      rw [CompiledTemplate.capture?, Option.isSome_map]
      rfl
    rw [haccepts]
    cases hcapture : t.capture? subject with
    | none => rfl
    | some texts =>
      obtain ⟨hlength, hglued, -⟩ := glued_of_capture? hassembled hcapture
      refine ⟨rfl, ?_, hglued⟩
      rw [hlength, hassembled.holes, List.length_map, pieces, List.length_map]

/-- A hole with a parenthesis that does not capture, a look-ahead and a group, and another hole behind it. -/
theorem captures_glue_nested : ∃ t, compile (utf8 "<(?:a)(?=b)(b)>-<c|(d)>") 60 62 = .ok t ∧
    t.holeGroups = [1, 3] ∧ t.capture? (utf8 "ab-d") = some [utf8 "ab", utf8 "d"] ∧
    ∃ parts tail, Splitting 60 62 (pieces parts) tail (utf8 "<(?:a)(?=b)(b)>-<c|(d)>") ∧
      glued tail (pieces parts) [utf8 "ab", utf8 "d"] = utf8 "ab-d" := by
  obtain ⟨t, ht, hnumbers, hcapture⟩ : ∃ t, compile (utf8 "<(?:a)(?=b)(b)>-<c|(d)>") 60 62 = .ok t ∧
      t.holeGroups = [1, 3] ∧ t.capture? (utf8 "ab-d") = some [utf8 "ab", utf8 "d"] :=
    ⟨_, rfl, rfl, rfl⟩
  obtain ⟨parts, tail, hsplitting, -, -, -, hsubjects⟩ := captures_glue ht
  have hglued := hsubjects (utf8 "ab-d")
  rw [hcapture] at hglued
  exact ⟨t, ht, hnumbers, hcapture, parts, tail, hsplitting, hglued.2.2⟩

end Template

end AccessControl
