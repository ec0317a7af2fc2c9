import AccessControl.Proofs.Template.Captures

/-!
# What a hole means in its place

A hole stands in the pattern of a template word for word, within a group.  The groups in it are numbered
behind that group, but a reference in it is to the group that has its number in the whole pattern.  So a hole
without references is the same expression in its place as alone, up to the numbers of groups, and a hole with
references never is (`Regex.shifted_eq_renumbered_iff`).  Holes that are expressions make a pattern that is
one unless a reference stands within the group it is to, or the pattern is too large
(`Template.compile_of_valid_holes`).
-/

namespace AccessControl

open Regex

namespace Template

/-- The groups among the terms are the holes, their groups numbered behind the group of the hole. -/
theorem mem_terms_group {parts : List (Bytes × Pattern)} {opened n : Nat} {tail : Bytes} {body : Regex}
    (h : .group n body ∈ terms opened tail parts) :
    0 < n ∧ ∃ part ∈ parts, body = part.2.root.shifted n := by
  have hliteral (literal : Bytes) : Regex.group n body ∉ literal.map Regex.byte := by
    intro hmem
    obtain ⟨_, -, hbyte⟩ := List.mem_map.mp hmem
    cases hbyte
  induction parts generalizing opened with
  | nil => exact absurd h (hliteral tail)
  | cons part parts ih =>
    obtain ⟨literal, hole⟩ := part
    rcases List.mem_append.mp h with h | h
    · exact absurd h (hliteral literal)
    · rcases List.mem_cons.mp h with hgroup | h
      · obtain ⟨rfl, rfl⟩ := Regex.group.inj hgroup
        exact ⟨Nat.succ_pos opened, (literal, hole), List.mem_cons_self, rfl⟩
      · obtain ⟨hpos, part, hpart, hbody⟩ := ih h
        exact ⟨hpos, part, List.mem_cons_of_mem _ hpart, hbody⟩

/-- **Holes that are expressions make a pattern.**  If the tags are balanced and every hole is an expression,
the template compiles to the tree in which the holes stand as groups, word for word; it fails exactly if in
this tree a reference stands within the group that it is to, or if the tree is too large.  In such a tree a
hole is what it is alone, with all numbers of groups raised by that of its own group, exactly if there are no
references in it.  Without references in the holes nothing is circular, and a hole that is plain matches only
what it matches alone. -/
theorem compile_of_valid_holes {template : Bytes} {start stop : UInt8}
    (hbalanced : Balanced start stop template)
    (hholes : ∀ hole ∈ (Scan.of template start stop).holes, (Pattern.ofSource? hole).isSome = true) :
    ∃ parts tail, Scan.of template start stop = ⟨pieces parts, .ok tail⟩ ∧
      (match compile template start stop with
        | .ok t => t.pattern.root = tree parts tail ∧
          (tree parts tail).isCircular = false ∧ (tree parts tail).isSmall = true ∧
          ∀ subject texts, t.capture? subject = some texts → texts.length = parts.length ∧
            ∀ pair ∈ parts.zip texts, pair.1.2.root.isPlain = true → pair.1.2.accepts pair.2 = true
        | .error e => e = .invalidPattern ∧
          ((tree parts tail).isCircular = true ∨ (tree parts tail).isSmall = false)) ∧
      ((∀ part ∈ parts, part.2.root.references = []) → (tree parts tail).isCircular = false) ∧
      ∀ n body, .group n body ∈ terms 0 tail parts → ∃ part ∈ parts, body = part.2.root.shifted n ∧
        (body = part.2.root.renumbered n ↔ part.2.root.references = []) := by
  obtain ⟨tail, htail⟩ := (scan_ok_iff template start stop).mpr hbalanced
  have hvalid : ∀ hole ∈ (Scan.of template start stop).pieces.map Prod.snd, Pattern.ofSource? hole ≠ none :=
    fun hole hhole => Option.isSome_iff_ne_none.mp (hholes hole hhole)
  obtain ⟨parts, hparts⟩ := exists_parts hvalid
  have hscan : Scan.of template start stop = ⟨pieces parts, .ok tail⟩ := by rw [hparts, ← htail]
  refine ⟨parts, tail, hscan, ?_, fun hreferences => isCircular_tree_of_references hreferences tail,
    fun n body hgroup => ?_⟩
  · cases hcompile : compile template start stop with
    | ok t =>
      have hassembled := assembled_of_parts hscan hcompile
      refine ⟨hassembled.root, hassembled.notCircular, hassembled.isSmall, fun subject texts hcapture => ?_⟩
      obtain ⟨hlength, -, hmatches⟩ := glued_of_capture? hassembled hcapture
      exact ⟨hlength, fun pair hpair hplain =>
        (pair.1.2.accepts_iff_matches hplain pair.2).mpr (hmatches pair hpair hplain)⟩
    | error e => exact error_of_parts hscan hcompile
  · obtain ⟨hpos, part, hpart, rfl⟩ := mem_terms_group hgroup
    exact ⟨part, hpart, rfl, shifted_eq_renumbered_iff hpos part.2.root⟩

/-- The reference in the second hole is to the group of the first. -/
theorem compile_of_valid_holes_referring : ∃ t, compile (utf8 "<(a)(b)>-<(c)\\1>") 60 62 = .ok t ∧
    t.capture? (utf8 "ab-cab") = some [utf8 "ab", utf8 "cab"] ∧
    ∃ parts tail, t.pattern.root = tree parts tail ∧ (tree parts tail).isCircular = false := by
  have hbalanced : Balanced 60 62 (utf8 "<(a)(b)>-<(c)\\1>") := (scan_ok_iff _ 60 62).mp ⟨[], rfl⟩
  have hholes : ∀ hole ∈ (Scan.of (utf8 "<(a)(b)>-<(c)\\1>") 60 62).holes,
      (Pattern.ofSource? hole).isSome = true := by decide
  obtain ⟨t, ht, hcapture⟩ : ∃ t, compile (utf8 "<(a)(b)>-<(c)\\1>") 60 62 = .ok t ∧
      t.capture? (utf8 "ab-cab") = some [utf8 "ab", utf8 "cab"] := ⟨_, rfl, rfl⟩
  obtain ⟨parts, tail, -, hcompiled, -⟩ := compile_of_valid_holes hbalanced hholes
  rw [ht] at hcompiled
  exact ⟨t, ht, hcapture, parts, tail, hcompiled.1, hcompiled.2.1⟩

/-- The tags are balanced and the hole is an expression alone; in its place the reference stands within the
group that it is to.  And behind another hole it is to a group of that hole, so a text is matched that the
hole alone does not match. -/
theorem valid_holes_change :
    (Balanced 60 62 (utf8 "<(a)\\1>") ∧
      (∀ hole ∈ (Scan.of (utf8 "<(a)\\1>") 60 62).holes, (Pattern.ofSource? hole).isSome = true) ∧
      compile (utf8 "<(a)\\1>") 60 62 = .error .invalidPattern) ∧
    ∃ t, compile (utf8 "<(a)><(b)\\1>") 60 62 = .ok t ∧ t.holes = [utf8 "(a)", utf8 "(b)\\1"] ∧
      t.capture? (utf8 "aba") = some [utf8 "a", utf8 "ba"] ∧
      ∃ p, Pattern.ofSource? (utf8 "(b)\\1") = some p ∧ p.accepts (utf8 "ba") = false := by
  have hbalanced : Balanced 60 62 (utf8 "<(a)\\1>") := (scan_ok_iff _ 60 62).mp ⟨[], rfl⟩
  have hholes : ∀ hole ∈ (Scan.of (utf8 "<(a)\\1>") 60 62).holes, (Pattern.ofSource? hole).isSome = true := by
    decide
  have hcircular : Pattern.ofSource? (sourceOf [([], utf8 "(a)\\1")] []) = none :=
    ofSource?_eq_none_iff.mpr (by decide +kernel)
  have hcompile : compile (utf8 "<(a)\\1>") 60 62 = .error .invalidPattern := by
    obtain ⟨parts, hparts⟩ : ∃ parts, pieces parts = [([], utf8 "(a)\\1")] :=
      exists_parts fun hole hhole => Option.isSome_iff_ne_none.mp (hholes hole hhole)
    have hscan : Scan.of (utf8 "<(a)\\1>") 60 62 = ⟨pieces parts, .ok []⟩ := by rw [hparts]; rfl
    rw [compile_of_parts hscan, hparts, hcircular]
  exact ⟨⟨hbalanced, hholes, hcompile⟩, _, rfl, rfl, rfl, _, rfl, rfl⟩

end Template

end AccessControl
