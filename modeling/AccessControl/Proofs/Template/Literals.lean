import AccessControl.Checker.Fit
import AccessControl.Proofs.Template.Tags

/-!
# Templates without tags

A template without tags is one literal.  Its pattern has a term for each byte between the anchors, whatever
the bytes are, so it matches the literal and nothing else (`Template.accepts_literal_iff`).  The checker that
compares such a template with a text byte for byte answers the same as the pattern would
(`Template.compile_of_tagFree`).
-/

namespace AccessControl

open Regex

namespace Template

variable {literal : Bytes}

theorem tree_literal (literal : Bytes) :
    tree [] literal = .seq .lineStart (Regex.sequence (literal.map .byte ++ [.lineEnd])) := rfl

/-- The pattern of a literal matches the literal and nothing else. -/
theorem accepts_literal_iff (literal : Bytes) (groups : Nat) (subject : Bytes) :
    (tree [] literal).Accepts groups subject ↔ literal = subject := by
  rw [tree_literal, accepts_anchored_iff (isPlain_literal literal), matches_literal]
  exact eq_comm

/-- There is one state for each byte, and three for the anchors and the end. -/
theorem built_literal (literal : Bytes) : (tree [] literal).built = literal.length + 3 := by
  have hterms : (Regex.sequence (literal.map .byte ++ [.lineEnd])).built = literal.length + 2 := by
    induction literal with
    | nil => rfl
    | cons b literal ih =>
      have hcons : (Regex.sequence ((b :: literal).map .byte ++ [.lineEnd])).built =
          1 + (Regex.sequence (literal.map .byte ++ [.lineEnd])).built := rfl
      rw [hcons, ih, List.length_cons]
      omega
  have htree : (tree [] literal).built = 1 + (Regex.sequence (literal.map .byte ++ [.lineEnd])).built := rfl
  rw [htree, hterms]
  omega

theorem scan_of_tagFree {start stop : UInt8} (hstart : start ∉ literal) (hstop : stop ∉ literal) :
    Scan.of literal start stop = ⟨[], .ok literal⟩ :=
  Splitting.scan_eq ⟨rfl, nofun, nofun, hstart, hstop⟩

/-- **A template without tags matches itself.**  It has no holes, its pattern can be read and matches a text
exactly if the text is the template, whatever bytes these are made of; and that is what the checker answers,
without a pattern and without touching the memo.  It compiles unless it has more bytes than an automaton may
have states, and then the pattern is refused for its size. -/
theorem compile_of_tagFree {pattern : Bytes} {start stop : UInt8} (hstart : start ∉ pattern)
    (hstop : stop ∉ pattern) :
    Scan.of pattern start stop = ⟨[], .ok pattern⟩ ∧
    (∃ root, read? (sourceOf [] pattern) = some (root, 0) ∧
      ∀ subject, root.Accepts 0 subject ↔ pattern = subject) ∧
    (match compile pattern start stop with
      | .ok t => t.holes = [] ∧ t.source = sourceOf [] pattern ∧
        ∀ subject, t.accepts subject = (pattern == subject)
      | .error e => e = .invalidPattern ∧ maxStates < pattern.length + 6) ∧
    ∀ p : Policy, p.startTag = start → p.endTag = stop → ∀ subject memo,
      PatternTest.textFits .regex p pattern subject memo = (.ok (pattern == subject), memo) := by
  have hscan : Scan.of pattern start stop = ⟨pieces [], .ok pattern⟩ := scan_of_tagFree hstart hstop
  have hcircular : (tree [] pattern).isCircular = false :=
    isCircular_tree_of_references (List.forall_mem_nil _) pattern
  refine ⟨hscan, ⟨tree [] pattern, ?_, accepts_literal_iff pattern 0⟩, ?_, ?_⟩
  · have hread := read?_sourceOf [] pattern
    rwa [if_neg (Bool.eq_false_iff.mp hcircular)] at hread
  · cases hcompile : compile pattern start stop with
    | ok t =>
      have hassembled := assembled_of_parts hscan hcompile
      refine ⟨hassembled.holes, hassembled.source, fun subject => ?_⟩
      rw [Bool.eq_iff_iff, beq_iff_eq, ← accepts_literal_iff pattern t.pattern.groups, ← hassembled.root]
      exact t.pattern.accepts_iff subject
    | error e =>
      obtain ⟨he, hlarge⟩ := error_of_parts hscan hcompile
      have hlarge := hlarge.resolve_left (Bool.eq_false_iff.mp hcircular)
      rw [isSmall, built_literal, decide_eq_false_iff_not] at hlarge
      exact ⟨he, by omega⟩
  · rintro p rfl rfl subject memo
    have hnone : (pattern.contains p.startTag || pattern.contains p.endTag) = false := by
      rw [Bool.or_eq_false_iff]
      exact ⟨by simpa using hstart, by simpa using hstop⟩
    show PatternTest.templateFits p pattern subject memo = _
    rw [PatternTest.templateFits, hnone]
    rfl

/-- Bytes that mean something in an expression, a zero, a line feed, a hyphen and a byte that is no letter. -/
theorem compile_of_tagFree_special : ∃ t, compile (utf8 "a.*[(\\|$" ++ [0, 10, 45, 255]) 60 62 = .ok t ∧
    t.holes = [] ∧ t.accepts (utf8 "a.*[(\\|$" ++ [0, 10, 45, 255]) = true ∧
    t.accepts (utf8 "ab" ++ [0, 10, 45, 255]) = false := by
  obtain ⟨t, ht⟩ : ∃ t, compile (utf8 "a.*[(\\|$" ++ [0, 10, 45, 255]) 60 62 = .ok t := ⟨_, rfl⟩
  have hstart : (60 : UInt8) ∉ utf8 "a.*[(\\|$" ++ [0, 10, 45, 255] := by decide
  have hstop : (62 : UInt8) ∉ utf8 "a.*[(\\|$" ++ [0, 10, 45, 255] := by decide
  obtain ⟨-, -, hcompiled, -⟩ := compile_of_tagFree hstart hstop
  rw [ht] at hcompiled
  obtain ⟨hholes, -, haccepts⟩ := hcompiled
  refine ⟨t, ht, hholes, ?_, ?_⟩
  · rw [haccepts]
    exact beq_self_eq_true _
  · rw [haccepts]
    decide

end Template

end AccessControl
