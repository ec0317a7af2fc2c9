import AccessControl.Proofs.Regex.Nesting
import AccessControl.Proofs.Regex.Reading
import AccessControl.Template.Compile

/-!
# The tree of a template

The pattern of a template is read piece by piece: the literals as tokens of single bytes
(`Template.reads_escaped`), every hole as the body of a group, and neither reaches over the border to the
other.  So its tree (`Template.tree`) is put together from the trees of the holes, and the pattern can be
read unless a group would refer to itself (`Template.read?_sourceOf`).
-/

namespace AccessControl

open Regex

namespace Template

/-- The pieces of a template whose holes are expressions. -/
def pieces (parts : List (Bytes × Pattern)) : List (Bytes × Bytes) := parts.map fun p => (p.1, p.2.source)

/-- The terms of a template when `opened` groups have been opened in front: the literals byte by byte, and
every hole as a group.  The numbers of the groups in a hole are raised by its own. -/
def terms (opened : Nat) (tail : Bytes) : List (Bytes × Pattern) → List Regex
  | [] => tail.map .byte
  | (literal, hole) :: parts =>
    literal.map .byte ++ .group (opened + 1) (hole.root.shifted (opened + 1)) ::
      terms (hole.groups + (opened + 1)) tail parts

/-- The number of the groups opened when the holes have been read. -/
def groupsBehind (opened : Nat) : List (Bytes × Pattern) → Nat
  | [] => opened
  | (_, hole) :: parts => groupsBehind (hole.groups + (opened + 1)) parts

/-- The tree of a template: its terms between the anchors. -/
def tree (parts : List (Bytes × Pattern)) (tail : Bytes) : Regex :=
  .seq .lineStart (sequence (terms 0 tail parts ++ [.lineEnd]))

/-- What stands in the pattern of a template behind the start anchor. -/
def sourceBehind (pairs : List (Bytes × Bytes)) (tail : Bytes) : Bytes :=
  pairs.flatMap (fun p => escaped p.1 ++ utf8 "(" ++ p.2 ++ utf8 ")") ++ escaped tail ++ utf8 "$"

theorem sourceBehind_nil (tail : Bytes) : sourceBehind [] tail = escaped tail ++ ['$'.toUInt8] := by
  have hend : utf8 "$" = ['$'.toUInt8] := by decide
  rw [sourceBehind, hend]
  rfl

theorem sourceBehind_cons (literal hole : Bytes) (pairs : List (Bytes × Bytes)) (tail : Bytes) :
    sourceBehind ((literal, hole) :: pairs) tail =
      escaped literal ++ '('.toUInt8 :: (hole ++ ')'.toUInt8 :: sourceBehind pairs tail) := by
  have hopens : utf8 "(" = ['('.toUInt8] := by decide
  have hcloses : utf8 ")" = [')'.toUInt8] := by decide
  simp [sourceBehind, hopens, hcloses, List.append_assoc]

theorem sourceOf_eq (pairs : List (Bytes × Bytes)) (tail : Bytes) :
    sourceOf pairs tail = '^'.toUInt8 :: sourceBehind pairs tail := by
  have hstart : utf8 "^" = ['^'.toUInt8] := by decide
  rw [sourceOf, sourceBehind, hstart]
  rfl

theorem eq_toUInt8_of_ofUInt8 {b : UInt8} {c : Char} (h : Char.ofUInt8 b = c) :
    b = c.toUInt8 := by
  subst h
  exact (UInt8.toUInt8_toUInt32 b).symm

/-- A byte of a literal is read as this byte. -/
theorem read?_literal (b : UInt8) (text : Bytes) :
    Token.read? ((if specials.contains b then ['\\'.toUInt8, b] else [b]) ++ text) =
      some (.byte b, text) := by
  have hspecials : specials = [92, 94, 36, 46, 124, 63, 42, 43, 40, 41, 91, 93, 123, 125, 47] := by
    decide
  by_cases hb : specials.contains b = true
  · rw [if_pos hb]
    rw [hspecials] at hb
    simp only [List.contains_cons, List.contains_nil, Bool.or_false, Bool.or_eq_true,
      beq_iff_eq] at hb
    rcases hb with rfl | rfl | rfl | rfl | rfl | rfl | rfl | rfl | rfl | rfl | rfl | rfl | rfl |
      rfl | rfl <;> rfl
  · rw [if_neg hb]
    rw [List.singleton_append]
    unfold Token.read?
    simp only
    split
    case h_13 => rfl
    all_goals
      next h =>
        rw [eq_toUInt8_of_ofUInt8 h] at hb
        exact absurd (by decide) hb

/-- A literal is read byte by byte. -/
theorem reads_escaped (literal : Bytes) {text : Bytes} {tokens : List Regex.Token}
    (h : Reads text tokens) :
    Reads (escaped literal ++ text) (literal.map .byte ++ tokens) := by
  induction literal with
  | nil => exact h
  | cons b literal ih =>
    have hescaped : escaped (b :: literal) ++ text =
        (if specials.contains b then ['\\'.toUInt8, b] else [b]) ++ (escaped literal ++ text) := by
      rw [escaped, List.flatMap_cons, List.append_assoc]
      rfl
    rw [hescaped]
    exact .cons (read?_literal b _) ih

theorem length_le_escaped (literal : Bytes) : literal.length ≤ (escaped literal).length := by
  induction literal with
  | nil => exact Nat.le_refl 0
  | cons b literal ih =>
    rw [escaped, List.flatMap_cons, List.length_append, ← escaped, List.length_cons]
    split <;> simp only [List.length_cons, List.length_nil] <;> omega

/-- The tokens of a text that is an expression, and what they are read as. -/
theorem tokens?_of_parse? {hole : Bytes} {root : Regex} {groups : Nat}
    (h : parse? hole = some (root, groups)) :
    ∃ tokens a, tokens? hole = some tokens ∧ Builder.run {} tokens = some a ∧
      a.finish? = some (root, groups) := by
  obtain ⟨hread, -⟩ := Option.filter_eq_some_iff.mp h
  obtain ⟨tokens, htokens, hread⟩ := Option.bind_eq_some_iff.mp hread
  obtain ⟨a, hrun, hfinish⟩ := Option.bind_eq_some_iff.mp hread
  exact ⟨tokens, a, htokens, hrun, hfinish⟩

/-- What a text that is an expression reads as. -/
theorem reads_of_parse? {hole : Bytes} {root : Regex} {groups : Nat}
    (h : parse? hole = some (root, groups)) :
    ∃ tokens a, Reads hole tokens ∧ Builder.run {} tokens = some a ∧
      a.finish? = some (root, groups) := by
  obtain ⟨tokens, a, htokens, hrun, hfinish⟩ := tokens?_of_parse? h
  exact ⟨tokens, a, reads_of_tokensWithin? htokens, hrun, hfinish⟩

/-- The parenthesis in front of an expression opens a group: no expression begins with a question
mark. -/
theorem read?_open {hole behind : Bytes} {tokens : List Regex.Token} {a : Builder}
    (hreads : Reads hole tokens) (hrun : Builder.run {} tokens = some a) :
    Token.read? ('('.toUInt8 :: (hole ++ ')'.toUInt8 :: behind)) =
      some (.openGroup, hole ++ ')'.toUInt8 :: behind) := by
  show Token.opened? (hole ++ ')'.toUInt8 :: behind) = _
  cases hole with
  | nil => rfl
  | cons b hole =>
    have hb : ¬ (b == '?'.toUInt8) = true := by
      intro hb
      rw [eq_of_beq hb] at hreads
      cases hreads with
      | cons hread _ =>
        have hread : some (Token.quantified .optional hole) = some (_, _) := hread
        obtain ⟨greedy, htoken⟩ : ∃ greedy, (Token.quantified .optional hole).1 =
            .quantifier .optional greedy := by
          cases hole with
          | nil => exact ⟨true, rfl⟩
          | cons c hole =>
            unfold Token.quantified
            simp only
            split
            · exact ⟨false, rfl⟩
            · exact ⟨true, rfl⟩
        rw [congrArg Prod.fst (Option.some.inj hread)] at htoken
        simp only at htoken
        subst htoken
        cases hrun
    rw [List.cons_append]
    unfold Token.opened?
    simp only
    rw [if_neg hb]

/-- The builder has read a row of terms and no parenthesis is open. -/
structure HasRead (b : Builder) (terms : List Regex) : Prop where
  kind : b.top.kind = .plain
  done : b.top.done = none
  terms : b.top.terms = terms.reverse
  outer : b.outer = []

theorem HasRead.push {b : Builder} {terms : List Regex} (h : HasRead b terms) (r : Regex)
    (repeatable : Bool) : HasRead (b.push r repeatable) (terms ++ [r]) := by
  refine ⟨h.kind, h.done, ?_, h.outer⟩
  rw [List.reverse_append]
  exact congrArg (r :: ·) h.terms

theorem HasRead.literal {b : Builder} {terms : List Regex} (h : HasRead b terms) (literal : Bytes) :
    ∃ b', b.run (literal.map .byte) = some b' ∧ HasRead b' (terms ++ literal.map .byte) ∧
      b'.groups = b.groups := by
  induction literal generalizing b terms with
  | nil => exact ⟨b, rfl, by rwa [List.map_nil, List.append_nil], rfl⟩
  | cons c literal ih =>
    obtain ⟨b', hrun, hread, hgroups⟩ := ih (h.push (.byte c) true)
    rw [List.append_assoc] at hread
    exact ⟨b', hrun, hread, hgroups⟩

/-- No group is open behind a row of terms. -/
theorem HasRead.kind_ne_group {b : Builder} {terms : List Regex} (h : HasRead b terms) :
    ∀ f ∈ b.top :: b.outer, ∀ m, f.kind ≠ .group m := by
  intro f hf m hm
  rw [h.outer, List.mem_singleton] at hf
  subst hf
  cases h.kind.symm.trans hm

theorem HasRead.finish? {b : Builder} {terms : List Regex} (h : HasRead b terms) :
    b.finish? = some (sequence terms, b.groups) := by
  have hregex : b.top.regex = sequence terms := by
    rw [Frame.regex, h.done, h.terms, List.reverse_reverse]
  rw [Builder.finish?, h.outer, hregex]
  rfl

theorem parse?_of_ofSource? {source : Bytes} {p : Pattern} (h : Pattern.ofSource? source = some p) :
    parse? source = some (p.root, p.groups) := by
  unfold Pattern.ofSource? at h
  split at h
  · next root groups hparse =>
    cases h
    exact hparse
  · cases h

theorem ofSource?_eq_none_iff {source : Bytes} : Pattern.ofSource? source = none ↔ parse? source = none := by
  unfold Pattern.ofSource?
  split
  · next hparse => exact ⟨nofun, fun h => nomatch hparse.symm.trans h⟩
  · next hparse => exact ⟨fun _ => hparse, fun _ => rfl⟩

theorem source_of_ofSource? {source : Bytes} {p : Pattern} (h : Pattern.ofSource? source = some p) :
    p.source = source := by
  unfold Pattern.ofSource? at h
  split at h
  · cases h
    rfl
  · cases h

theorem ofSource?_of_parse? {source : Bytes} {root : Regex} {groups : Nat}
    (h : parse? source = some (root, groups)) :
    ∃ p, Pattern.ofSource? source = some p ∧ p.root = root := by
  unfold Pattern.ofSource?
  split
  · next hparse =>
    rw [h] at hparse
    cases hparse
    exact ⟨_, rfl, rfl⟩
  · next hparse =>
    rw [h] at hparse
    cases hparse

theorem any_isCircular_literal (literal : Bytes) : (literal.map Regex.byte).any isCircular = false := by
  rw [List.any_map]
  exact List.any_eq_false.mpr fun _ _ => Bool.false_ne_true

/-- **The pattern of a template is read piece by piece.**  Behind other terms the pieces, the tail and the
end anchor are read as the terms of the template, unless one of these is circular; then they cannot be
read. -/
theorem reads_parts (parts : List (Bytes × Pattern)) (tail : Bytes) {b : Builder} {front : List Regex}
    (hb : HasRead b front) :
    ∃ tokens, Reads (sourceBehind (pieces parts) tail) tokens ∧
      tokens.length ≤ (sourceBehind (pieces parts) tail).length ∧
      if (terms b.groups tail parts).any isCircular then b.run tokens = none
      else ∃ b', b.run tokens = some b' ∧ HasRead b' (front ++ (terms b.groups tail parts ++ [.lineEnd])) ∧
        b'.groups = groupsBehind b.groups parts := by
  induction parts generalizing b front with
  | nil =>
    obtain ⟨b', hrun, hb', hgroups⟩ := hb.literal tail
    have htext : sourceBehind (pieces []) tail = escaped tail ++ ['$'.toUInt8] := sourceBehind_nil tail
    rw [htext]
    refine ⟨tail.map .byte ++ [.lineEnd], reads_escaped tail (.cons rfl .nil), ?_, ?_⟩
    · rw [List.length_append, List.length_append, List.length_map]
      exact Nat.add_le_add_right (length_le_escaped tail) 1
    · rw [terms, any_isCircular_literal, if_neg Bool.false_ne_true]
      refine ⟨b'.push .lineEnd false, ?_, ?_, hgroups⟩
      · rw [Builder.run_append, hrun]
        rfl
      · rw [← List.append_assoc]
        exact hb'.push .lineEnd false
  | cons part parts ih =>
    obtain ⟨literal, hole⟩ := part
    obtain ⟨inner, a, htokens, hrun, hfinish⟩ := tokens?_of_parse? hole.parsed
    have hinner := reads_of_tokensWithin? htokens
    obtain ⟨b₁, hrun₁, hb₁, hgroups₁⟩ := hb.literal literal
    -- the hole becomes a group, numbered behind all groups in front
    have hgroup := Builder.run_group hrun hfinish hb₁.kind_ne_group
    rw [hgroups₁] at hgroup
    have hb₂ : HasRead ⟨b₁.top.push (.group (b.groups + 1) (hole.root.shifted (b.groups + 1))) true,
        b₁.outer, hole.groups + (b.groups + 1)⟩ _ :=
      ⟨hb₁.kind, hb₁.done, (hb₁.push _ true).terms, hb₁.outer⟩
    obtain ⟨rest, hrest, hlength, hbehind⟩ := ih hb₂
    have htext : sourceBehind (pieces ((literal, hole) :: parts)) tail = escaped literal ++
        '('.toUInt8 :: (hole.source ++ ')'.toUInt8 :: sourceBehind (pieces parts) tail) :=
      sourceBehind_cons literal hole.source (pieces parts) tail
    rw [htext]
    refine ⟨literal.map .byte ++ ((.openGroup :: inner ++ [.close]) ++ rest), ?_, ?_, ?_⟩
    · -- the hole is read up to the parenthesis, which closes it
      have hclosed := hinner.append_close (.cons rfl hrest)
      have hall := reads_escaped literal (Reads.cons (read?_open hinner hrun) hclosed)
      simpa [List.append_assoc] using hall
    · have hliteral := length_le_escaped literal
      have hhole := length_le_of_tokensWithin? htokens
      simp only [List.length_append, List.length_cons, List.length_nil, List.length_map]
      omega
    · have hsplit : b.run (literal.map .byte ++ ((.openGroup :: inner ++ [.close]) ++ rest)) =
          (b₁.run (.openGroup :: inner ++ [.close])).bind (·.run rest) := by
        rw [Builder.run_append, hrun₁, Option.bind_some, Builder.run_append]
      rw [hsplit, hgroup, terms, groupsBehind, List.any_append, any_isCircular_literal, Bool.false_or,
        List.any_cons]
      cases hcircular : isCircular (.group (b.groups + 1) (hole.root.shifted (b.groups + 1))) with
      | true => rfl
      | false =>
        rw [Bool.false_or, if_neg Bool.false_ne_true, Option.bind_some]
        simpa [List.append_assoc] using hbehind

theorem isCircular_tree (parts : List (Bytes × Pattern)) (tail : Bytes) :
    (tree parts tail).isCircular = (terms 0 tail parts).any isCircular := by
  show isCircularWithin [] (sequence (terms 0 tail parts ++ [.lineEnd])) = _
  rw [isCircularWithin_sequence, List.any_append]
  exact Bool.or_false _

/-- Without references nothing refers to the group it stands in. -/
theorem isCircular_tree_of_references {parts : List (Bytes × Pattern)}
    (h : ∀ part ∈ parts, part.2.root.references = []) (tail : Bytes) :
    (tree parts tail).isCircular = false := by
  rw [isCircular_tree]
  generalize 0 = opened
  induction parts generalizing opened with
  | nil => exact any_isCircular_literal tail
  | cons part parts ih =>
    obtain ⟨literal, hole⟩ := part
    obtain ⟨hhole, hparts⟩ := List.forall_mem_cons.mp h
    have hgroup : (Regex.group (opened + 1) (hole.root.shifted (opened + 1))).isCircular = false := by
      refine isCircularWithin_of_references ?_ []
      rw [references, references_shifted]
      exact hhole
    rw [terms, List.any_append, any_isCircular_literal, Bool.false_or, List.any_cons, hgroup, Bool.false_or]
    exact ih hparts _

/-- The pattern of a template is the pattern of its tree, unless this is circular. -/
theorem read?_sourceOf (parts : List (Bytes × Pattern)) (tail : Bytes) :
    read? (sourceOf (pieces parts) tail) =
      if (tree parts tail).isCircular then none else some (tree parts tail, groupsBehind 0 parts) := by
  -- the start anchor is read first, then the parts
  have hstart : HasRead (Builder.push {} .lineStart false) [.lineStart] := ⟨rfl, rfl, rfl, rfl⟩
  obtain ⟨tokens, hreads, hlength, hrun⟩ := reads_parts parts tail hstart
  have htokens : tokens? (sourceOf (pieces parts) tail) = some (.lineStart :: tokens) := by
    rw [sourceOf_eq]
    exact tokensWithin?_of_reads (.cons rfl hreads) (Nat.succ_le_succ hlength)
  have hread : read? (sourceOf (pieces parts) tail) =
      ((Builder.push {} .lineStart false).run tokens).bind Builder.finish? := by
    rw [read?, htokens]
    rfl
  have hnone : (Builder.push {} .lineStart false).groups = 0 := rfl
  rw [hnone] at hrun
  rw [hread, isCircular_tree]
  split at hrun
  · next h =>
    rw [if_pos h, hrun]
    rfl
  · next h =>
    obtain ⟨b, hrun, hb, hgroups⟩ := hrun
    rw [if_neg h, hrun, Option.bind_some, hb.finish?, hgroups]
    rfl

theorem parse?_sourceOf (parts : List (Bytes × Pattern)) (tail : Bytes) :
    parse? (sourceOf (pieces parts) tail) =
      if (tree parts tail).isCircular = false ∧ (tree parts tail).isSmall = true then
        some (tree parts tail, groupsBehind 0 parts)
      else none := by
  rw [parse?, read?_sourceOf]
  cases (tree parts tail).isCircular with
  | true => rfl
  | false => cases hsmall : (tree parts tail).isSmall <;> simp [Option.filter, hsmall]

/-! ## Compiling a template -/

theorem ofSource?_of_mem_pieces {parts : List (Bytes × Pattern)} {hole : Bytes}
    (h : hole ∈ (pieces parts).map Prod.snd) : Pattern.ofSource? hole ≠ none := by
  obtain ⟨pair, hpair, rfl⟩ := List.mem_map.mp h
  obtain ⟨part, -, rfl⟩ := List.mem_map.mp hpair
  obtain ⟨p, hp, -⟩ := ofSource?_of_parse? part.2.parsed
  have hp : Pattern.ofSource? (part.1, part.2.source).2 = some p := hp
  rw [hp]
  nofun

theorem innerGroups_pieces (parts : List (Bytes × Pattern)) :
    innerGroups ((pieces parts).map Prod.snd) = .ok (parts.map (·.2.groups)) := by
  induction parts with
  | nil => rfl
  | cons part parts ih =>
    obtain ⟨literal, hole⟩ := part
    show innerGroups (hole.source :: (pieces parts).map Prod.snd) = _
    simp only [innerGroups, hole.parsed, ih]
    rfl

/-- If every hole is an expression, it only depends on the pattern whether a template compiles. -/
theorem compile_of_parts {template tail : Bytes} {start stop : UInt8} {parts : List (Bytes × Pattern)}
    (h : Scan.of template start stop = ⟨pieces parts, .ok tail⟩) :
    compile template start stop =
      match Pattern.ofSource? (sourceOf (pieces parts) tail) with
      | some pattern => .ok ⟨pattern, (pieces parts).map Prod.snd, groupNumbers 1 (parts.map (·.2.groups))⟩
      | none => .error .invalidPattern := by
  have hinner : innerGroups (Scan.holes ⟨pieces parts, .ok tail⟩) = .ok (parts.map (·.2.groups)) :=
    innerGroups_pieces parts
  simp only [compile, h, hinner]
  rfl

/-- Either some hole is no expression, and such a hole is reported, or the pieces are parts. -/
theorem innerGroups_cases (pairs : List (Bytes × Bytes)) :
    (∃ hole ∈ pairs.map Prod.snd, Pattern.ofSource? hole = none ∧
      innerGroups (pairs.map Prod.snd) = .error (.invalidHole hole)) ∨
    ∃ parts, pieces parts = pairs := by
  induction pairs with
  | nil => exact .inr ⟨[], rfl⟩
  | cons pair pairs ih =>
    obtain ⟨literal, hole⟩ := pair
    cases hhole : Pattern.ofSource? hole with
    | none =>
      refine .inl ⟨hole, List.mem_cons_self, hhole, ?_⟩
      have hparse : parse? hole = none := ofSource?_eq_none_iff.mp hhole
      simp only [List.map_cons, innerGroups, hparse]
    | some p =>
      rcases ih with ⟨other, hmem, hother, herror⟩ | ⟨parts, rfl⟩
      · refine .inl ⟨other, List.mem_cons_of_mem hole hmem, hother, ?_⟩
        simp only [List.map_cons, innerGroups, parse?_of_ofSource? hhole, herror]
        rfl
      · exact .inr ⟨(literal, p) :: parts, congrArg (· :: _) (Prod.ext rfl (source_of_ofSource? hhole))⟩

/-- Holes that are expressions make parts of the pieces. -/
theorem exists_parts {pairs : List (Bytes × Bytes)}
    (h : ∀ hole ∈ pairs.map Prod.snd, Pattern.ofSource? hole ≠ none) : ∃ parts, pieces parts = pairs := by
  rcases innerGroups_cases pairs with ⟨hole, hmem, hhole, -⟩ | hparts
  · exact absurd hhole (h hole hmem)
  · exact hparts

/-- The first hole that is no expression is what is wrong with a template, whatever is behind it. -/
theorem compile_of_innerGroups_error {template : Bytes} {start stop : UInt8} {e : TemplateError}
    (h : innerGroups (Scan.of template start stop).holes = .error e) :
    compile template start stop = .error e := by
  simp only [compile, h]
  rfl

/-- If the holes are expressions and the tags do not fit, this is what is wrong. -/
theorem compile_of_tail_error {template : Bytes} {start stop : UInt8} {e : TemplateError}
    {parts : List (Bytes × Pattern)} (h : Scan.of template start stop = ⟨pieces parts, .error e⟩) :
    compile template start stop = .error e := by
  have hinner : innerGroups (Scan.holes ⟨pieces parts, .error e⟩) = .ok (parts.map (·.2.groups)) :=
    innerGroups_pieces parts
  simp only [compile, h, hinner]
  rfl

/-- A compiled template is put together from the parts and the tail. -/
structure Assembled (parts : List (Bytes × Pattern)) (tail : Bytes) (t : CompiledTemplate) : Prop where
  source : t.source = sourceOf (pieces parts) tail
  root : t.pattern.root = tree parts tail
  groups : t.pattern.groups = groupsBehind 0 parts
  holes : t.holes = (pieces parts).map Prod.snd
  holeGroups : t.holeGroups = groupNumbers 1 (parts.map (·.2.groups))
  notCircular : (tree parts tail).isCircular = false
  isSmall : (tree parts tail).isSmall = true

/-- A template whose holes are expressions compiles to what is put together from them. -/
theorem assembled_of_parts {template tail : Bytes} {start stop : UInt8} {parts : List (Bytes × Pattern)}
    {t : CompiledTemplate} (hscan : Scan.of template start stop = ⟨pieces parts, .ok tail⟩)
    (h : compile template start stop = .ok t) : Assembled parts tail t := by
  rw [compile_of_parts hscan] at h
  split at h
  · next pattern hpattern =>
    cases h
    have hparse := parse?_of_ofSource? hpattern
    rw [parse?_sourceOf] at hparse
    split at hparse
    · next hfine =>
      obtain ⟨hroot, hgroups⟩ := Prod.mk.inj (Option.some.inj hparse)
      exact ⟨source_of_ofSource? hpattern, hroot.symm, hgroups.symm, rfl, rfl, hfine.1, hfine.2⟩
    · cases hparse
  · cases h

/-- If it does not compile, its pattern is circular or too large. -/
theorem error_of_parts {template tail : Bytes} {start stop : UInt8} {parts : List (Bytes × Pattern)}
    {e : TemplateError} (hscan : Scan.of template start stop = ⟨pieces parts, .ok tail⟩)
    (h : compile template start stop = .error e) :
    e = .invalidPattern ∧ ((tree parts tail).isCircular = true ∨ (tree parts tail).isSmall = false) := by
  rw [compile_of_parts hscan] at h
  split at h
  · cases h
  · next hnone =>
    cases h
    have hparse := ofSource?_eq_none_iff.mp hnone
    rw [parse?_sourceOf] at hparse
    split at hparse
    · cases hparse
    · next hnot =>
      rw [Classical.not_and_iff_not_or_not, Bool.not_eq_false, Bool.not_eq_true] at hnot
      exact ⟨rfl, hnot⟩

/-- What a compiled template consists of. -/
theorem parts_of_compile {template : Bytes} {start stop : UInt8} {t : CompiledTemplate}
    (h : compile template start stop = .ok t) :
    ∃ parts tail, Scan.of template start stop = ⟨pieces parts, .ok tail⟩ ∧ Assembled parts tail t := by
  rcases innerGroups_cases (Scan.of template start stop).pieces with
    ⟨hole, -, -, herror⟩ | ⟨parts, hparts⟩
  · rw [compile_of_innerGroups_error herror] at h
    cases h
  · cases htail : (Scan.of template start stop).tail with
    | error e =>
      have hscan : Scan.of template start stop = ⟨pieces parts, .error e⟩ := by rw [hparts, ← htail]
      rw [compile_of_tail_error hscan] at h
      cases h
    | ok tail =>
      have hscan : Scan.of template start stop = ⟨pieces parts, .ok tail⟩ := by rw [hparts, ← htail]
      exact ⟨parts, tail, hscan, assembled_of_parts hscan h⟩

end Template

end AccessControl
