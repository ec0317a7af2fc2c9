import AccessControl.Regex.Syntax

/-!
# Languages of regular expressions

An expression is plain (`Regex.isPlain`) if whether it matches a text depends on nothing but the text:
it refers to no group, looks ahead at nothing and asserts nothing about its surroundings.  Such an
expression stands for a language (`Regex.Matches`).  All repetitions are of one sort
(`Regex.Repeats`), and copies beyond the required ones can be taken to match something
(`Repeats.normal`).
-/

namespace AccessControl.Regex

/-- Whether an expression has neither references nor look-aheads nor assertions. -/
def isPlain : Regex → Bool
  | .empty | .byte _ | .any | .set _ => true
  | .seq r s | .alt r s => r.isPlain && s.isPlain
  | .group _ r | .star _ r | .plus _ r | .optional _ r | .counted _ _ _ r => r.isPlain
  | .backref _ | .lineStart | .lineEnd | .wordBoundary _ | .look _ _ => false

/-- A row of texts of a language: `least` of them, and up to `extra` more, or any number more. -/
def Repeats (least : Nat) (extra : Option Nat) (language : Bytes → Prop) (x : Bytes) : Prop :=
  ∃ parts : List Bytes, x = parts.flatten ∧ (∀ y ∈ parts, language y) ∧ least ≤ parts.length ∧
    ∀ n ∈ extra, parts.length ≤ least + n

/-- The texts that a plain expression matches. -/
def Matches : Regex → Bytes → Prop
  | .empty, x => x = []
  | .byte b, x => x = [b]
  | .any, x => ∃ b, x = [b] ∧ b ≠ '\n'.toUInt8 ∧ b ≠ '\r'.toUInt8
  | .set s, x => ∃ b, x = [b] ∧ s.contains b = true
  | .seq r s, x => ∃ y z, x = y ++ z ∧ r.Matches y ∧ s.Matches z
  | .alt r s, x => r.Matches x ∨ s.Matches x
  | .group _ r, x => r.Matches x
  | .star _ r, x => Repeats 0 none r.Matches x
  | .plus _ r, x => Repeats 1 none r.Matches x
  | .optional _ r, x => Repeats 0 (some 1) r.Matches x
  | .counted least extra _ r, x => Repeats least extra r.Matches x
  | .backref _, _ | .lineStart, _ | .lineEnd, _ | .wordBoundary _, _ | .look _ _, _ => False

namespace Repeats

variable {least : Nat} {extra : Option Nat} {language : Bytes → Prop}

theorem of_parts {required more : List Bytes} (hrequired : ∀ y ∈ required, language y)
    (hmore : ∀ y ∈ more, language y) (hleast : required.length = least)
    (hextra : ∀ n ∈ extra, more.length ≤ n) :
    Repeats least extra language (required.flatten ++ more.flatten) := by
  refine ⟨required ++ more, List.flatten_append.symm, fun y hy => ?_, ?_, fun n hn => ?_⟩
  · rcases List.mem_append.mp hy with hy | hy
    · exact hrequired y hy
    · exact hmore y hy
  · rw [List.length_append]
    omega
  · have := hextra n hn
    rw [List.length_append]
    omega

theorem flatten_filter_nonempty (parts : List Bytes) :
    (parts.filter fun y => !y.isEmpty).flatten = parts.flatten := by
  induction parts with
  | nil => rfl
  | cons y parts ih =>
    cases y with
    | nil => exact ih
    | cons b y => exact congrArg (b :: y ++ ·) ih

/-- **Copies that match nothing are needed for the required ones only.** -/
theorem normal {x : Bytes} (h : Repeats least extra language x) :
    ∃ required more : List Bytes, x = required.flatten ++ more.flatten ∧
      required.length = least ∧ (∀ y ∈ required, language y) ∧
      (∀ y ∈ more, language y ∧ y ≠ []) ∧ ∀ n ∈ extra, more.length ≤ n := by
  obtain ⟨parts, rfl, hparts, hleast, hextra⟩ := h
  refine ⟨parts.take least, (parts.drop least).filter fun y => !y.isEmpty, ?_, ?_, ?_, ?_, ?_⟩
  · rw [flatten_filter_nonempty, ← List.flatten_append, List.take_append_drop]
  · rw [List.length_take]
    omega
  · exact fun y hy => hparts y (List.mem_of_mem_take hy)
  · intro y hy
    obtain ⟨hy, hne⟩ := List.mem_filter.mp hy
    exact ⟨hparts y (List.mem_of_mem_drop hy), fun hnil => by simp [hnil] at hne⟩
  · intro n hn
    have hfilter := List.length_filter_le (fun y : Bytes => !y.isEmpty) (parts.drop least)
    have := hextra n hn
    rw [List.length_drop] at hfilter
    omega

end Repeats

/-- Texts that are not empty are no more than their bytes. -/
theorem length_le_flatten {parts : List Bytes} (h : ∀ y ∈ parts, y ≠ []) :
    parts.length ≤ parts.flatten.length := by
  induction parts with
  | nil => exact Nat.le_refl 0
  | cons y parts ih =>
    have hy : 0 < y.length := List.length_pos_iff.mpr (h y (List.mem_cons_self ..))
    have hrest := ih fun z hz => h z (List.mem_cons_of_mem _ hz)
    rw [List.flatten_cons, List.length_cons, List.length_append]
    omega

end AccessControl.Regex
