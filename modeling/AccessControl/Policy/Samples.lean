import AccessControl.Policy.Basic

/-!
# Sample policies

The policies that examples and counterexamples are about: one that allows a subject, one that denies what it
allows, and one that also looks at the context.
-/

namespace AccessControl.Policy

/-- A policy that allows the subject `a`, if neither resource nor action is told. -/
def allowingA : Policy where
  uid := [112]
  uid_ne_nil := List.cons_ne_nil _ _
  description := []
  effect := .allow
  body := .patterns ⟨[[97]], [[]], [[]]⟩
  context := {}
  startTag := 60
  endTag := 62

/-- A policy that denies what `Policy.allowingA` allows. -/
def denyingA : Policy :=
  { allowingA with uid := [113], uid_ne_nil := List.cons_ne_nil _ _, effect := .deny }

/-- The policy `Policy.allowingA` for a context that tells of duty. -/
def allowingOnDuty : Policy :=
  { allowingA with
    context := ⟨[(utf8 "duty", .compare .eq (.bool true))], List.pairwise_singleton ..⟩ }

end AccessControl.Policy
