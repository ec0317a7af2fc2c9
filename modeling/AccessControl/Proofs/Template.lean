import AccessControl.Proofs.Regex.Search
import AccessControl.Proofs.Template.Reading

/-!
# What a template matches

A template whose holes are plain expressions matches exactly the texts that consist of its literals and,
in place of each hole, a text that the hole alone matches (`Template.accepts_iff_splits`).  Its pattern is
read as the terms of its pieces, and raising the numbers of groups does not change a plain expression
(`Template.matches_terms`).
-/

namespace AccessControl

open Regex

namespace Template

/-- The text is made of the literals and, for each hole, of a text that the hole alone matches. -/
def Splits : (pieces : List (Bytes × Bytes)) → (tail x : Bytes) → Prop
  | [], tail, x => x = tail
  | (literal, hole) :: rest, tail, x =>
    ∃ y z, x = literal ++ (y ++ z) ∧
      (∃ p, Pattern.ofSource? hole = some p ∧ p.accepts y = true) ∧ Splits rest tail z

/-! ## Splitting a template loses nothing -/

/-- The template that splits into the pieces and the tail. -/
def joined (start stop : UInt8) : (pieces : List (Bytes × Bytes)) → (tail : Bytes) → Bytes
  | [], tail => tail
  | (literal, hole) :: rest, tail =>
    literal ++ start :: (hole ++ stop :: joined start stop rest tail)

theorem joined_run {start stop : UInt8} {position depth : Nat} {literal inner text tail : Bytes}
    (h : (Scan.run start stop position depth literal inner text).tail = .ok tail) :
    joined start stop (Scan.run start stop position depth literal inner text).pieces tail =
      if depth = 0 then literal ++ text else literal ++ start :: (inner ++ text) := by
  induction text generalizing position depth literal inner with
  | nil =>
    unfold Scan.run at h ⊢
    simp only at h
    split at h
    · next hdepth =>
      cases h
      rw [if_pos hdepth, if_pos hdepth, List.append_nil]
      rfl
    · cases h
  | cons b text ih =>
    unfold Scan.run at h ⊢
    split at h
    · next hopens =>
      rw [if_pos hopens]
      obtain ⟨rfl, -⟩ := hopens
      cases depth with
      | zero =>
        -- the tag opens a hole
        simp only at h ⊢
        rw [ih h]
        rfl
      | succ d =>
        -- the tag stands in a hole, which gets deeper
        simp only at h ⊢
        rw [ih h, if_neg (Nat.succ_ne_zero _), if_neg (Nat.succ_ne_zero _), List.append_assoc]
        rfl
    · next hopens =>
      rw [if_neg hopens]
      split at h
      · next hcloses =>
        rw [if_pos hcloses]
        subst hcloses
        match depth with
        | 0 => cases h
        | 1 =>
          -- the tag closes the hole and a piece is complete
          simp only [Scan.cons] at h ⊢
          rw [joined, ih h]
          rfl
        | d + 2 =>
          simp only at h ⊢
          rw [ih h, if_neg (Nat.succ_ne_zero _), if_neg (Nat.succ_ne_zero _), List.append_assoc]
          rfl
      · next hcloses =>
        rw [if_neg hcloses]
        split at h
        · next hdepth =>
          rw [if_pos hdepth, ih h, if_pos rfl, if_pos hdepth, List.append_assoc]
          rfl
        · next hdepth =>
          rw [if_neg hdepth, ih h, if_neg hdepth, if_neg hdepth, List.append_assoc]
          rfl

theorem joined_of {template tail : Bytes} {start stop : UInt8}
    (h : (Scan.of template start stop).tail = .ok tail) :
    joined start stop (Scan.of template start stop).pieces tail = template :=
  joined_run h

/-! ## The language of the terms -/

theorem matches_sequence_append {terms terms' : List Regex} {x : Bytes} :
    (sequence (terms ++ terms')).Matches x ↔
      ∃ y z, x = y ++ z ∧ (sequence terms).Matches y ∧ (sequence terms').Matches z := by
  induction terms generalizing x with
  | nil =>
    constructor
    · exact fun h => ⟨[], x, rfl, rfl, h⟩
    · rintro ⟨_, z, rfl, rfl, h⟩
      exact h
  | cons r terms ih =>
    constructor
    · rintro ⟨u, v, rfl, hu, hv⟩
      obtain ⟨y, z, rfl, hy, hz⟩ := ih.mp hv
      exact ⟨u ++ y, z, (List.append_assoc ..).symm, ⟨u, y, rfl, hu, hy⟩, hz⟩
    · rintro ⟨_, z, rfl, ⟨u, y, rfl, hu, hy⟩, hz⟩
      exact ⟨u, y ++ z, List.append_assoc .., hu, ih.mpr ⟨y, z, rfl, hy, hz⟩⟩

theorem matches_literal {literal x : Bytes} :
    (sequence (literal.map .byte)).Matches x ↔ x = literal := by
  induction literal generalizing x with
  | nil => exact Iff.rfl
  | cons b literal ih =>
    constructor
    · rintro ⟨_, y, rfl, rfl, hy⟩
      rw [ih.mp hy]
      rfl
    · rintro rfl
      exact ⟨[b], literal, rfl, rfl, ih.mpr rfl⟩

/-- If the holes are plain, the terms stand for the splits of the template. -/
theorem matches_terms {parts : List (Bytes × Pattern)} (hplain : ∀ part ∈ parts, part.2.root.isPlain = true)
    (opened : Nat) (tail x : Bytes) :
    (sequence (terms opened tail parts)).Matches x ↔ Splits (pieces parts) tail x := by
  induction parts generalizing opened x with
  | nil => exact matches_literal
  | cons part parts ih =>
    obtain ⟨literal, hole⟩ := part
    obtain ⟨hhole, hparts⟩ := List.forall_mem_cons.mp hplain
    have halone (y : Bytes) : (hole.root.shifted (opened + 1)).Matches y ↔
        ∃ p, Pattern.ofSource? hole.source = some p ∧ p.accepts y = true := by
      obtain ⟨p, hp, hroot⟩ := ofSource?_of_parse? hole.parsed
      have hp' : p.accepts y = true ↔ hole.root.Matches y := by
        rw [← hroot]
        exact p.accepts_iff_matches (hroot ▸ hhole) y
      rw [matches_shifted, ← hp', hp]
      exact ⟨fun h => ⟨p, rfl, h⟩, fun ⟨q, hq, h⟩ => Option.some.inj hq ▸ h⟩
    rw [terms, matches_sequence_append]
    constructor
    · rintro ⟨l, _, rfl, hl, y, z, rfl, hy, hz⟩
      -- the literal stands for itself, the group for what its hole accepts
      obtain rfl := matches_literal.mp hl
      exact ⟨y, z, rfl, (halone y).mp hy, (ih hparts _ z).mp hz⟩
    · rintro ⟨y, z, rfl, hy, hz⟩
      exact ⟨literal, y ++ z, rfl, matches_literal.mpr rfl, y, z, rfl, (halone y).mpr hy,
        (ih hparts _ z).mpr hz⟩

theorem isPlain_literal (literal : Bytes) : ∀ r ∈ literal.map Regex.byte, r.isPlain = true := by
  intro r hr
  obtain ⟨b, -, rfl⟩ := List.mem_map.mp hr
  rfl

theorem isPlain_of_mem_terms {parts : List (Bytes × Pattern)}
    (hplain : ∀ part ∈ parts, part.2.root.isPlain = true) (opened : Nat) (tail : Bytes) :
    ∀ r ∈ terms opened tail parts, r.isPlain = true := by
  induction parts generalizing opened with
  | nil => exact isPlain_literal tail
  | cons part parts ih =>
    obtain ⟨hhole, hplain⟩ := List.forall_mem_cons.mp hplain
    intro r hr
    rcases List.mem_append.mp hr with hr | hr
    · exact isPlain_literal part.1 r hr
    · rcases List.mem_cons.mp hr with rfl | hr
      · exact (isPlain_shifted part.2.root).trans hhole
      · exact ih hplain _ r hr

/-- Whatever has been read in front, the pieces, the tail and the end anchor are read as plain terms which
stand for the splits of the template. -/
theorem reads_pieces {pieces : List (Bytes × Bytes)} (tail : Bytes)
    (hholes : ∀ hole ∈ pieces.map Prod.snd,
      ∃ p, Pattern.ofSource? hole = some p ∧ p.root.isPlain = true)
    {b : Builder} {terms : List Regex} (hb : HasRead b terms) :
    ∃ tokens terms' b',
      Reads (pieces.flatMap (fun p => escaped p.1 ++ utf8 "(" ++ p.2 ++ utf8 ")") ++
        escaped tail ++ utf8 "$") tokens ∧
      b.run tokens = some b' ∧ HasRead b' (terms ++ (terms' ++ [.lineEnd])) ∧
      (∀ r ∈ terms', r.isPlain = true) ∧
      ∀ x, (sequence terms').Matches x ↔ Splits pieces tail x := by
  have hvalid : ∀ hole ∈ pieces.map Prod.snd, Pattern.ofSource? hole ≠ none := by
    intro hole hhole
    obtain ⟨p, hp, -⟩ := hholes hole hhole
    rw [hp]
    nofun
  obtain ⟨parts, rfl⟩ := exists_parts hvalid
  have hplain : ∀ part ∈ parts, part.2.root.isPlain = true := by
    intro part hpart
    have hmem : part.2.source ∈ (Template.pieces parts).map Prod.snd :=
      List.mem_map.mpr ⟨_, List.mem_map_of_mem hpart, rfl⟩
    obtain ⟨p, hp, hroot⟩ := hholes _ hmem
    have hparse := (parse?_of_ofSource? hp).symm.trans part.2.parsed
    rwa [(Prod.mk.inj (Option.some.inj hparse)).1] at hroot
  obtain ⟨tokens, hreads, -, hrun⟩ := reads_parts parts tail hb
  have hterms := isPlain_of_mem_terms hplain b.groups tail
  -- plain terms refer to nothing
  have hcircular : (Template.terms b.groups tail parts).any isCircular = false :=
    List.any_eq_false.mpr fun r hr h => by
      rw [isCircular, isCircularWithin_of_references (references_of_isPlain (hterms r hr))] at h
      cases h
  rw [if_neg (Bool.eq_false_iff.mp hcircular)] at hrun
  obtain ⟨b', hrun, hb', -⟩ := hrun
  exact ⟨tokens, _, b', hreads, hrun, hb', hterms, matches_terms hplain b.groups tail⟩

/-- The pieces of a compiled template are expressions, and so is its pattern. -/
theorem compile_eq_ok {template : Bytes} {start stop : UInt8} {t : CompiledTemplate}
    (h : compile template start stop = .ok t) :
    ∃ tail, (Scan.of template start stop).tail = .ok tail ∧
      (∀ hole ∈ (Scan.of template start stop).holes, ∃ root n, parse? hole = some (root, n)) ∧
      parse? (sourceOf (Scan.of template start stop).pieces tail) =
        some (t.pattern.root, t.pattern.groups) := by
  obtain ⟨parts, tail, hscan, hassembled⟩ := parts_of_compile h
  refine ⟨tail, by rw [hscan], fun hole hhole => ?_, ?_⟩
  · rw [hscan] at hhole
    obtain ⟨piece, hpiece, rfl⟩ := List.mem_map.mp hhole
    obtain ⟨part, -, rfl⟩ := List.mem_map.mp hpiece
    exact ⟨part.2.root, part.2.groups, part.2.parsed⟩
  · rw [hscan, ← hassembled.source]
    exact t.pattern.parsed

/-- **What a template matches.**  If no hole refers to groups, looks ahead or asserts anything, the
texts that match are those which consist of the literals, byte for byte, and for each hole a text that
is matched by the expression in the hole alone.  The pieces are those of the template. -/
theorem accepts_iff_splits {template : Bytes} {start stop : UInt8} {t : CompiledTemplate}
    (h : compile template start stop = .ok t)
    (hplain : ∀ hole ∈ (Scan.of template start stop).holes,
      ∀ p, Pattern.ofSource? hole = some p → p.root.isPlain = true) :
    ∃ tail, (Scan.of template start stop).tail = .ok tail ∧
      joined start stop (Scan.of template start stop).pieces tail = template ∧
      ∀ subject, t.accepts subject = true ↔
        Splits (Scan.of template start stop).pieces tail subject := by
  obtain ⟨tail, htail, hholes, hparse⟩ := compile_eq_ok h
  refine ⟨tail, htail, joined_of htail, fun subject => ?_⟩
  have hholes' : ∀ hole ∈ (Scan.of template start stop).pieces.map Prod.snd,
      ∃ p, Pattern.ofSource? hole = some p ∧ p.root.isPlain = true := by
    intro hole hhole
    obtain ⟨root, n, hroot⟩ := hholes hole hhole
    obtain ⟨p, hp, -⟩ := ofSource?_of_parse? hroot
    exact ⟨p, hp, hplain hole hhole p hp⟩
  -- the start anchor is read first, then the pieces
  have hstart : HasRead (Builder.push {} .lineStart false) [.lineStart] := ⟨rfl, rfl, rfl, rfl⟩
  obtain ⟨tokens, terms, b, hreads, hrun, hb, hterms, hmatches⟩ := reads_pieces tail hholes' hstart
  obtain ⟨tokens', a, hreads', hrun', hfinish⟩ := reads_of_parse? hparse
  have hsource : Reads (sourceOf (Scan.of template start stop).pieces tail)
      (.lineStart :: tokens) := by
    refine .cons ?_ hreads
    rw [sourceOf, List.append_assoc, List.append_assoc, List.append_assoc]
    rfl
  rw [← hsource.deterministic hreads'] at hrun'
  have hall : Builder.run {} (.lineStart :: tokens) = some b := hrun
  obtain rfl : b = a := Option.some.inj (hall.symm.trans hrun')
  -- nothing is open at the end, so the terms read are the whole expression
  have hroot : t.pattern.root = .seq .lineStart (sequence (terms ++ [.lineEnd])) := by
    have hregex : b.top.regex = .seq .lineStart (sequence (terms ++ [.lineEnd])) := by
      rw [Frame.regex, hb.done, hb.terms, List.reverse_reverse]
      rfl
    rw [Builder.finish?, hb.outer] at hfinish
    rw [← hregex]
    exact (congrArg Prod.fst (Option.some.inj hfinish)).symm
  exact (t.pattern.accepts_iff_of_anchored hroot hterms subject).trans (hmatches subject)

/-- The template `a<b|c>d`: the bar is part of the hole. -/
theorem accepts_iff_splits_bar : ∃ t, compile (utf8 "a<b|c>d") 60 62 = .ok t ∧
    t.accepts (utf8 "acd") = true ∧ t.accepts (utf8 "ab") = false := by
  obtain ⟨t, ht⟩ : ∃ t, compile (utf8 "a<b|c>d") 60 62 = .ok t := ⟨_, rfl⟩
  have hparse : parse? (utf8 "b|c") =
      some (.alt (.seq (.byte 98) .empty) (.seq (.byte 99) .empty), 0) := by decide
  have hplain : ∀ hole ∈ (Scan.of (utf8 "a<b|c>d") 60 62).holes,
      ∀ p, Pattern.ofSource? hole = some p → p.root.isPlain = true := by
    intro hole hhole p hp
    obtain rfl : hole = utf8 "b|c" := List.mem_singleton.mp hhole
    have hroot := congrArg Prod.fst (Option.some.inj ((parse?_of_ofSource? hp).symm.trans hparse))
    have hroot : p.root = .alt (.seq (.byte 98) .empty) (.seq (.byte 99) .empty) := hroot
    rw [hroot]
    rfl
  obtain ⟨tail, htail, -, hsplits⟩ := accepts_iff_splits ht hplain
  obtain rfl : tail = utf8 "d" := (Except.ok.inj htail).symm
  refine ⟨t, ht, (hsplits _).mpr ?_, Bool.eq_false_iff.mpr fun h => ?_⟩
  · obtain ⟨p, hp, hroot⟩ := ofSource?_of_parse? hparse
    refine ⟨utf8 "c", utf8 "d", by decide, ⟨p, hp, ?_⟩, rfl⟩
    rw [p.accepts_iff_matches (by rw [hroot]; rfl), hroot]
    exact .inr ⟨utf8 "c", [], rfl, (by decide : utf8 "c" = [99]), rfl⟩
  · obtain ⟨y, z, hxyz, -, hz⟩ := (hsplits _).mp h
    obtain rfl : z = utf8 "d" := hz
    have hlast : (utf8 "ab").getLast? = some 100 := by
      rw [hxyz, ← List.append_assoc]
      exact List.getLast?_concat
    exact absurd hlast (by decide)

end Template

end AccessControl
