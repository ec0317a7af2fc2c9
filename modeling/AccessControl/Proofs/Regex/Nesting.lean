import AccessControl.Proofs.Regex.Language
import AccessControl.Regex.Parser

/-!
# Expressions within a group

The tokens of an expression, put between the parentheses of a group, give that expression as the body of
the group, whatever has been read before (`Builder.run_group`): the numbers of its groups are raised and
those of its references are left as they stand (`Regex.shifted`), which changes no language.  They cannot
be read there if the raised numbers would put a reference into the group it refers to
(`Regex.isCircularWithin`), and only then.  The builder that reads the expression alone and the one that
reads it within the group go in step, frame by frame (`Nested`).
-/

namespace AccessControl.Regex

/-- The expression with the numbers of its groups raised by `k`, and those of its references too. -/
def renumbered (k : Nat) : Regex → Regex
  | .seq r s => .seq (r.renumbered k) (s.renumbered k)
  | .alt r s => .alt (r.renumbered k) (s.renumbered k)
  | .group n r => .group (n + k) (r.renumbered k)
  | .backref n => .backref (n + k)
  | .look negated r => .look negated (r.renumbered k)
  | .star greedy r => .star greedy (r.renumbered k)
  | .plus greedy r => .plus greedy (r.renumbered k)
  | .optional greedy r => .optional greedy (r.renumbered k)
  | .counted least extra greedy r => .counted least extra greedy (r.renumbered k)
  | .empty => .empty
  | .byte b => .byte b
  | .any => .any
  | .set s => .set s
  | .lineStart => .lineStart
  | .lineEnd => .lineEnd
  | .wordBoundary negated => .wordBoundary negated

/-- The expression with the numbers of its groups raised by `k`.  A reference keeps its number, and so it
is to another group than before. -/
def shifted (k : Nat) : Regex → Regex
  | .seq r s => .seq (r.shifted k) (s.shifted k)
  | .alt r s => .alt (r.shifted k) (s.shifted k)
  | .group n r => .group (n + k) (r.shifted k)
  | .look negated r => .look negated (r.shifted k)
  | .star greedy r => .star greedy (r.shifted k)
  | .plus greedy r => .plus greedy (r.shifted k)
  | .optional greedy r => .optional greedy (r.shifted k)
  | .counted least extra greedy r => .counted least extra greedy (r.shifted k)
  | r => r

/-- The numbers that the references of an expression have. -/
def references : Regex → List Nat
  | .backref n => [n]
  | .seq r s | .alt r s => r.references ++ s.references
  | .group _ r | .look _ r | .star _ r | .plus _ r | .optional _ r | .counted _ _ _ r => r.references
  | _ => []

/-- Whether a reference stands within the group that it refers to, the groups `around` being open around
the expression. -/
def isCircularWithin (around : List Nat) : Regex → Bool
  | .backref n => around.contains n
  | .group n r => r.isCircularWithin (n :: around)
  | .seq r s | .alt r s => r.isCircularWithin around || s.isCircularWithin around
  | .look _ r | .star _ r | .plus _ r | .optional _ r | .counted _ _ _ r => r.isCircularWithin around
  | _ => false

/-- Whether a group has a reference to itself within. -/
def isCircular (r : Regex) : Bool := r.isCircularWithin []

variable {k n : Nat} {around : List Nat}

@[simp] theorem isPlain_shifted (r : Regex) : (r.shifted k).isPlain = r.isPlain := by
  induction r with
  | seq r s ihr ihs | alt r s ihr ihs => simp only [shifted, isPlain, ihr, ihs]
  | group _ r ih | star _ r ih | plus _ r ih | optional _ r ih | counted _ _ _ r ih =>
    simp only [shifted, isPlain, ih]
  | _ => rfl

@[simp] theorem matches_shifted (r : Regex) : (r.shifted k).Matches = r.Matches := by
  funext x
  induction r generalizing x with
  | seq r s ihr ihs | alt r s ihr ihs => simp only [shifted, Matches, ihr, ihs]
  | group _ r ih => exact ih x
  | star _ r ih | plus _ r ih | optional _ r ih | counted _ _ _ r ih =>
    simp only [shifted, Matches, funext ih]
  | _ => rfl

@[simp] theorem references_shifted (r : Regex) : (r.shifted k).references = r.references := by
  induction r with
  | seq r s ihr ihs | alt r s ihr ihs => simp only [shifted, references, ihr, ihs]
  | group _ r ih | look _ r ih | star _ r ih | plus _ r ih | optional _ r ih | counted _ _ _ r ih =>
    simp only [shifted, references, ih]
  | _ => rfl

theorem references_of_isPlain {r : Regex} (h : r.isPlain = true) : r.references = [] := by
  induction r with
  | seq r s ihr ihs | alt r s ihr ihs =>
    obtain ⟨hr, hs⟩ := Bool.and_eq_true_iff.mp h
    rw [references, ihr hr, ihs hs, List.append_nil]
  | group _ r ih | star _ r ih | plus _ r ih | optional _ r ih | counted _ _ _ r ih => exact ih h
  | backref _ | look _ _ _ => cases h
  | _ => rfl

/-- **References are to the same groups as before only if there are none.** -/
theorem shifted_eq_renumbered_iff (hk : 0 < k) (r : Regex) :
    r.shifted k = r.renumbered k ↔ r.references = [] := by
  induction r with
  | seq r s ihr ihs =>
    rw [shifted, renumbered, references, Regex.seq.injEq, ihr, ihs, List.append_eq_nil_iff]
  | alt r s ihr ihs =>
    rw [shifted, renumbered, references, Regex.alt.injEq, ihr, ihs, List.append_eq_nil_iff]
  | group _ r ih | look _ r ih | star _ r ih | plus _ r ih | optional _ r ih | counted _ _ _ r ih =>
    simp only [shifted, renumbered, references, Regex.group.injEq, Regex.look.injEq, Regex.star.injEq,
      Regex.plus.injEq, Regex.optional.injEq, Regex.counted.injEq, true_and, ih]
  | backref m =>
    simp only [shifted, renumbered, references, Regex.backref.injEq, List.cons_ne_nil, iff_false]
    omega
  | _ => exact ⟨fun _ => rfl, fun _ => rfl⟩

theorem isCircularWithin_of_references {r : Regex} (h : r.references = []) (around : List Nat) :
    r.isCircularWithin around = false := by
  induction r generalizing around with
  | seq r s ihr ihs | alt r s ihr ihs =>
    obtain ⟨hr, hs⟩ := List.append_eq_nil_iff.mp h
    rw [isCircularWithin, ihr hr, ihs hs, Bool.or_false]
  | group n r ih => exact ih h (n :: around)
  | look _ r ih | star _ r ih | plus _ r ih | optional _ r ih | counted _ _ _ r ih => exact ih h around
  | backref _ => cases h
  | _ => rfl

theorem shifted_sequence (terms : List Regex) :
    (sequence terms).shifted k = sequence (terms.map (shifted k)) := by
  induction terms with
  | nil => rfl
  | cons r terms ih => exact congrArg (Regex.seq _) ih

theorem shifted_apply (q : Quantifier) (greedy : Bool) (r : Regex) :
    (q.apply greedy r).shifted k = q.apply greedy (r.shifted k) := by
  cases q <;> rfl

theorem isCircularWithin_sequence (terms : List Regex) :
    (sequence terms).isCircularWithin around = terms.any (isCircularWithin around) := by
  induction terms with
  | nil => rfl
  | cons r terms ih => exact congrArg (r.isCircularWithin around || ·) ih

theorem isCircularWithin_apply (q : Quantifier) (greedy : Bool) (r : Regex) :
    (q.apply greedy r).isCircularWithin around = r.isCircularWithin around := by
  cases q <;> rfl

/-! ## Circular references while reading -/

/-- Whether a token is a reference to one of the groups `around`. -/
def Token.isCircularWithin (around : List Nat) : Token → Bool
  | .backref n => around.contains n
  | _ => false

namespace Frame

/-- Whether what has been read of a parenthesis would be circular within the groups `around`, the numbers
of its own groups being raised by `k`. -/
def isCircularWithin (k : Nat) (around : List Nat) (f : Frame) : Bool :=
  (f.regex.shifted k).isCircularWithin around

variable {f f' : Frame}

theorem isCircularWithin_push (f : Frame) (r : Regex) (repeatable : Bool) :
    (f.push r repeatable).isCircularWithin k around =
      (f.isCircularWithin k around || (r.shifted k).isCircularWithin around) := by
  unfold isCircularWithin regex push
  cases f.done <;>
    simp only [shifted, Regex.isCircularWithin, shifted_sequence, isCircularWithin_sequence,
      List.reverse_cons, List.map_append, List.map_cons, List.map_nil, List.any_append, List.any_cons,
      List.any_nil, Bool.or_false, Bool.or_assoc]

theorem isCircularWithin_bar (f : Frame) :
    f.bar.isCircularWithin k around = f.isCircularWithin k around := Bool.or_false _

theorem isCircularWithin_repeated? {q : Quantifier} {greedy : Bool}
    (h : f.repeated? q greedy = some f') :
    f'.isCircularWithin k around = f.isCircularWithin k around ∧ f'.kind = f.kind := by
  unfold repeated? at h
  split at h
  · next r terms hterms =>
    split at h
    · cases h
      refine ⟨?_, rfl⟩
      unfold isCircularWithin regex
      simp only [hterms]
      cases f.done <;>
        simp only [shifted, Regex.isCircularWithin, shifted_sequence, isCircularWithin_sequence,
          List.reverse_cons, List.map_append, List.map_cons, List.map_nil, List.any_append, List.any_cons,
          List.any_nil, shifted_apply, isCircularWithin_apply]
    · cases h
  · cases h

end Frame

/-- The numbers of the groups that are open in a stack of frames, raised by `k`; the outermost frame is that
of the group `n`. -/
def openGroups (k n : Nat) : List Frame → List Nat
  | f :: g :: fs =>
    match f.kind with
    | .group m => (m + k) :: openGroups k n (g :: fs)
    | _ => openGroups k n (g :: fs)
  | _ => [n]

theorem openGroups_congr {f f' : Frame} (fs : List Frame) (h : f'.kind = f.kind) :
    openGroups k n (f' :: fs) = openGroups k n (f :: fs) := by
  cases fs with
  | nil => rfl
  | cons g fs => rw [openGroups, openGroups, h]

/-- What a closed parenthesis is, is circular if the parenthesis was. -/
theorem Frame.isCircularWithin_closed (f g : Frame) (fs : List Frame) :
    (f.closed.1.shifted k).isCircularWithin (openGroups k n (g :: fs)) =
      f.isCircularWithin k (openGroups k n (f :: g :: fs)) := by
  unfold Frame.isCircularWithin
  rw [Frame.closed, openGroups]
  cases f.kind <;> rfl

/-- Whether something in a stack of frames would be circular within the group `n`, the numbers of its
groups being raised by `k`. -/
def isCircularStack (k n : Nat) : List Frame → Bool
  | [] => false
  | f :: fs => f.isCircularWithin k (openGroups k n (f :: fs)) || isCircularStack k n fs

namespace Builder

/-- Whether something that has been read would be circular within the group `n`, the numbers of its groups
being raised by `k`. -/
def isCircular (k n : Nat) (b : Builder) : Bool := isCircularStack k n (b.top :: b.outer)

/-- The numbers of the open groups, raised by `k`, in the group `n`. -/
def openGroups (k n : Nat) (b : Builder) : List Nat := Regex.openGroups k n (b.top :: b.outer)

variable {a a' : Builder} {token : Token} {tokens : List Token}

theorem isCircular_push (b : Builder) (r : Regex) (repeatable : Bool) :
    (b.push r repeatable).isCircular k n =
      (b.isCircular k n || (r.shifted k).isCircularWithin (b.openGroups k n)) := by
  have hopen : Regex.openGroups k n (b.top.push r repeatable :: b.outer) = b.openGroups k n :=
    openGroups_congr b.outer (show (b.top.push r repeatable).kind = b.top.kind from rfl)
  show ((b.top.push r repeatable).isCircularWithin k
      (Regex.openGroups k n (b.top.push r repeatable :: b.outer)) || isCircularStack k n b.outer) = _
  rw [hopen, Frame.isCircularWithin_push, Bool.or_right_comm]
  rfl

/-- **What is read becomes circular by a reference to an open group**, and not otherwise. -/
theorem isCircular_step (h : a.step token = some a') :
    a'.isCircular k n = (a.isCircular k n || token.isCircularWithin (a.openGroups k n)) := by
  cases token with
  | byte _ | any | set _ | lineStart | lineEnd | wordBoundary _ =>
    cases h
    exact isCircular_push a _ _
  | backref m =>
    unfold step at h
    simp only at h
    split at h
    · cases h
      exact isCircular_push a _ _
    · cases h
  | quantifier q greedy =>
    obtain ⟨top, htop, h⟩ := Option.map_eq_some_iff.mp h
    cases h
    obtain ⟨hcircular, hkind⟩ := Frame.isCircularWithin_repeated? htop
    show (_ || _) = ((_ || _) || _)
    rw [hcircular, openGroups_congr a.outer hkind]
    exact (Bool.or_false _).symm
  | bar =>
    cases h
    have hopen : Regex.openGroups k n (a.top.bar :: a.outer) = a.openGroups k n :=
      openGroups_congr a.outer (show a.top.bar.kind = a.top.kind from rfl)
    show (a.top.bar.isCircularWithin k (Regex.openGroups k n (a.top.bar :: a.outer)) ||
      isCircularStack k n a.outer) = _
    rw [hopen, Frame.isCircularWithin_bar]
    exact (Bool.or_false _).symm
  | openGroup | openPlain | openLook _ =>
    cases h
    exact (Bool.or_false _).symm
  | close =>
    unfold step at h
    simp only at h
    split at h
    · cases h
    · next f rest houter =>
      cases h
      have hpushed := isCircular_push (k := k) (n := n) ⟨f, rest, a.groups⟩ a.top.closed.1 a.top.closed.2
      refine hpushed.trans ?_
      show (isCircularStack k n (f :: rest) ||
        (a.top.closed.1.shifted k).isCircularWithin (Regex.openGroups k n (f :: rest))) =
          (isCircularStack k n (a.top :: a.outer) || false)
      rw [houter, Frame.isCircularWithin_closed, Bool.or_comm]
      exact (Bool.or_false _).symm

/-- What is circular stays so. -/
theorem isCircular_run (h : a.run tokens = some a') (hcircular : a.isCircular k n = true) :
    a'.isCircular k n = true := by
  induction tokens generalizing a with
  | nil =>
    cases h
    exact hcircular
  | cons token tokens ih =>
    rw [run, List.foldlM_cons] at h
    obtain ⟨b, hstep, h⟩ := Option.bind_eq_some_iff.mp h
    refine ih h ?_
    rw [isCircular_step hstep, hcircular, Bool.true_or]

end Builder

/-! ## In step -/

/-- The kind of a frame when the numbers of groups are raised by `k`. -/
def FrameKind.renumbered (k : Nat) : FrameKind → FrameKind
  | plain => .plain
  | group n => .group (n + k)
  | look negated => .look negated

/-- Two frames have read the same, up to the numbers of groups. -/
structure Frame.Like (k : Nat) (f g : Frame) : Prop where
  done : g.done = f.done.map (Regex.shifted k)
  terms : g.terms = f.terms.map (Regex.shifted k)
  repeatable : g.repeatable = f.repeatable

namespace Frame.Like

variable {f g : Frame}

theorem regex (h : f.Like k g) : g.regex = f.regex.shifted k := by
  have hlast : sequence g.terms.reverse = (sequence f.terms.reverse).shifted k := by
    rw [shifted_sequence, h.terms, List.map_reverse]
  unfold Frame.regex
  rw [h.done, hlast]
  cases f.done <;> rfl

theorem push (h : f.Like k g) (r : Regex) (repeatable : Bool) :
    (f.push r repeatable).Like k (g.push (r.shifted k) repeatable) :=
  ⟨h.done, congrArg (r.shifted k :: ·) h.terms, rfl⟩

theorem bar (h : f.Like k g) : f.bar.Like k g.bar := ⟨congrArg some h.regex, rfl, rfl⟩

theorem repeated? (h : f.Like k g) {q : Quantifier} {greedy : Bool} {f' : Frame}
    (hf : f.repeated? q greedy = some f') :
    ∃ g', g.repeated? q greedy = some g' ∧ f'.Like k g' ∧ f'.kind = f.kind ∧ g'.kind = g.kind := by
  unfold Frame.repeated? at hf
  split at hf
  · next r terms hterms =>
    split at hf
    · next hrepeatable =>
      cases hf
      have hg : g.terms = r.shifted k :: terms.map (Regex.shifted k) := by
        rw [h.terms, hterms, List.map_cons]
      refine ⟨{ g with terms := q.apply greedy (r.shifted k) :: terms.map (Regex.shifted k) },
        ?_, ⟨h.done, ?_, h.repeatable⟩, rfl, rfl⟩
      · unfold Frame.repeated?
        rw [hg]
        exact if_pos (h.repeatable.trans hrepeatable)
      · exact congrArg (· :: _) (shifted_apply q greedy r).symm
    · cases hf
  · cases hf

theorem closed (h : f.Like k g) (hkind : g.kind = f.kind.renumbered k) :
    g.closed = (f.closed.1.shifted k, f.closed.2) := by
  unfold Frame.closed
  rw [hkind, h.regex]
  cases f.kind <;> rfl

end Frame.Like

/-- Two stacks of frames have read the same, the second within the group `n`, which stands above the
frames `host`, where no group is open. -/
inductive Nested (k n : Nat) (host : List Frame) : List Frame → List Frame → Prop
  | base {f g : Frame} (hlike : f.Like k g) (hkind : g.kind = .group n)
      (hhost : ∀ h ∈ host, ∀ m, h.kind ≠ .group m) : Nested k n host [f] (g :: host)
  | cons {f g : Frame} {fs gs : List Frame} (hlike : f.Like k g)
      (hkind : g.kind = f.kind.renumbered k) (hrest : Nested k n host fs gs) :
      Nested k n host (f :: fs) (g :: gs)

namespace Nested

variable {host fs gs : List Frame} {f f' g g' : Frame}

theorem like (h : Nested k n host (f :: fs) (g :: gs)) : f.Like k g := by
  cases h with
  | base hlike _ _ => exact hlike
  | cons hlike _ _ => exact hlike

/-- The innermost frames may go on in step. -/
theorem replace (h : Nested k n host (f :: fs) (g :: gs)) (hlike : f'.Like k g')
    (hf : f'.kind = f.kind) (hg : g'.kind = g.kind) : Nested k n host (f' :: fs) (g' :: gs) := by
  cases h with
  | base _ hkind hhost => exact .base hlike (hg.trans hkind) hhost
  | cons _ hkind hrest => exact .cons hlike (by rw [hg, hf, hkind]) hrest

/-- The groups that are open in the second stack. -/
theorem exists_kind_iff (h : Nested k n host fs gs) (m : Nat) :
    (∃ g ∈ gs, g.kind = .group m) ↔ m ∈ openGroups k n fs := by
  induction h with
  | @base f g _ hkind hhost =>
    show _ ↔ m ∈ [n]
    rw [List.mem_singleton]
    constructor
    · rintro ⟨h, hh, hm⟩
      rcases List.mem_cons.mp hh with rfl | hh
      · exact (FrameKind.group.inj (hkind.symm.trans hm)).symm
      · exact absurd hm (hhost h hh m)
    · rintro rfl
      exact ⟨g, List.mem_cons_self .., hkind⟩
  | @cons f g fs gs _ hkind hrest ih =>
    obtain ⟨f', fs', rfl⟩ : ∃ f' fs', fs = f' :: fs' := by cases hrest <;> exact ⟨_, _, rfl⟩
    simp only [List.mem_cons (l := gs), or_and_right, exists_or, exists_eq_left]
    rw [ih, hkind, openGroups]
    cases f.kind with
    | group j => rw [List.mem_cons, FrameKind.renumbered, FrameKind.group.injEq, eq_comm (a := m)]
    | plain | look _ => exact ⟨fun h => h.resolve_left nofun, .inr⟩

end Nested

/-- The second builder has read within a group what the first has read alone. -/
structure Builder.Within (k n : Nat) (host : List Frame) (a b : Builder) : Prop where
  frames : Nested k n host (a.top :: a.outer) (b.top :: b.outer)
  groups : b.groups = a.groups + k

namespace Builder

variable {host : List Frame} {a a' b : Builder} {token : Token} {tokens : List Token}

theorem Within.push (h : Within k n host a b) (r : Regex) (repeatable : Bool) :
    Within k n host (a.push r repeatable) (b.push (r.shifted k) repeatable) :=
  ⟨h.frames.replace (h.frames.like.push r repeatable) rfl rfl, h.groups⟩

theorem Within.opened (h : Within k n host a b) (kind : FrameKind) (m : Nat) :
    Within k n host (a.opened kind m) (b.opened (kind.renumbered k) (m + k)) :=
  ⟨.cons ⟨rfl, rfl, rfl⟩ rfl h.frames, rfl⟩

theorem Within.isOpen (h : Within k n host a b) (m : Nat) :
    b.isOpen m = (a.openGroups k n).contains m := by
  rw [Bool.eq_iff_iff, List.contains_iff_mem, openGroups, ← h.frames.exists_kind_iff m, Builder.isOpen,
    List.any_eq_true]
  simp only [beq_iff_eq]

/-- A reference to an open group cannot be read. -/
theorem Within.step_of_circular (h : Within k n host a b)
    (hcircular : token.isCircularWithin (a.openGroups k n) = true) : b.step token = none := by
  cases token with
  | backref m =>
    have hopen : b.isOpen m = true := (h.isOpen m).trans hcircular
    rw [Builder.step, hopen, Bool.not_true, Bool.and_false]
    rfl
  | _ => cases hcircular

/-- **One token keeps the builders in step**, unless it is a reference to an open group. -/
theorem Within.step (h : Within k n host a b) (hstep : a.step token = some a')
    (hcircular : token.isCircularWithin (a.openGroups k n) = false) :
    ∃ b', b.step token = some b' ∧ Within k n host a' b' := by
  cases token with
  | byte c =>
    cases hstep
    exact ⟨_, rfl, h.push (.byte c) true⟩
  | any =>
    cases hstep
    exact ⟨_, rfl, h.push .any true⟩
  | set s =>
    cases hstep
    exact ⟨_, rfl, h.push (.set s) true⟩
  | backref m =>
    have hopen : b.isOpen m = false := (h.isOpen m).trans hcircular
    unfold Builder.step at hstep
    simp only at hstep
    split at hstep
    · next hm =>
      cases hstep
      have hm : m ≤ b.groups := by
        have hle : m ≤ a.groups := of_decide_eq_true (Bool.and_eq_true_iff.mp hm).1
        rw [h.groups]
        omega
      refine ⟨_, ?_, h.push (.backref m) true⟩
      rw [Builder.step, hopen, decide_eq_true hm]
      rfl
    · cases hstep
  | lineStart =>
    cases hstep
    exact ⟨_, rfl, h.push .lineStart false⟩
  | lineEnd =>
    cases hstep
    exact ⟨_, rfl, h.push .lineEnd false⟩
  | wordBoundary negated =>
    cases hstep
    exact ⟨_, rfl, h.push (.wordBoundary negated) false⟩
  | quantifier q greedy =>
    obtain ⟨top, htop, hstep⟩ := Option.map_eq_some_iff.mp hstep
    cases hstep
    obtain ⟨top', htop', hlike, hf, hg⟩ := h.frames.like.repeated? htop
    refine ⟨{ b with top := top' }, ?_, h.frames.replace hlike hf hg, h.groups⟩
    rw [Builder.step, htop', Option.map_some]
  | bar =>
    cases hstep
    exact ⟨_, rfl, h.frames.replace h.frames.like.bar rfl rfl, h.groups⟩
  | openGroup =>
    cases hstep
    -- a new group has the next number in either builder
    have hnumber : b.groups + 1 = a.groups + 1 + k := by rw [h.groups, Nat.add_right_comm]
    refine ⟨_, rfl, ?_⟩
    rw [hnumber]
    exact h.opened (.group (a.groups + 1)) (a.groups + 1)
  | openPlain =>
    cases hstep
    refine ⟨_, rfl, ?_⟩
    rw [h.groups]
    exact h.opened .plain a.groups
  | openLook negated =>
    cases hstep
    refine ⟨_, rfl, ?_⟩
    rw [h.groups]
    exact h.opened (.look negated) a.groups
  | close =>
    obtain ⟨top, outer, groups⟩ := a
    obtain ⟨top', outer', groups'⟩ := b
    obtain ⟨hframes, hgroups⟩ := h
    cases outer with
    | nil => cases hstep
    | cons f rest =>
      cases hstep
      cases hframes with
      | cons hlike hkind hrest =>
        cases outer' with
        | nil => cases hrest
        | cons g rest' =>
          -- both builders close the frames on top
          have hclosed := hlike.closed hkind
          refine ⟨⟨g.push (top.closed.1.shifted k) top.closed.2, rest', groups'⟩, ?_,
            hrest.replace (hrest.like.push top.closed.1 top.closed.2) rfl rfl, hgroups⟩
          simp only [Builder.step, hclosed]

/-- **A row of tokens keeps the builders in step**, unless it makes a group refer to itself; then it cannot
be read within the group. -/
theorem Within.run (h : Within k n host a b) (hclear : a.isCircular k n = false)
    (hrun : a.run tokens = some a') :
    if a'.isCircular k n then b.run tokens = none
    else ∃ b', b.run tokens = some b' ∧ Within k n host a' b' := by
  induction tokens generalizing a b with
  | nil =>
    cases hrun
    rw [hclear]
    exact ⟨b, rfl, h⟩
  | cons token tokens ih =>
    rw [Builder.run, List.foldlM_cons] at hrun
    obtain ⟨c, hstep, hrun⟩ := Option.bind_eq_some_iff.mp hrun
    have hc : c.isCircular k n = (a.isCircular k n || token.isCircularWithin (a.openGroups k n)) :=
      isCircular_step hstep
    rw [hclear, Bool.false_or] at hc
    cases hcircular : token.isCircularWithin (a.openGroups k n) with
    | true =>
      rw [if_pos (isCircular_run hrun (hc.trans hcircular)), Builder.run, List.foldlM_cons,
        h.step_of_circular hcircular]
      rfl
    | false =>
      obtain ⟨c', hstep', hwithin⟩ := h.step hstep hcircular
      have hall : b.run (token :: tokens) = c'.run tokens := by
        rw [Builder.run, List.foldlM_cons, hstep']
        rfl
      rw [hall]
      exact ih hwithin (hc.trans hcircular) hrun

theorem run_append (b : Builder) (tokens tokens' : List Token) :
    b.run (tokens ++ tokens') = (b.run tokens).bind (·.run tokens') := List.foldlM_append

/-- **The tokens of an expression between the parentheses of a group** give the group with this expression,
if no other group is open, and cannot be read if a group would refer to itself. -/
theorem run_group {root : Regex} {groups : Nat} (hrun : Builder.run {} tokens = some a)
    (hfinish : a.finish? = some (root, groups)) {b : Builder}
    (hb : ∀ f ∈ b.top :: b.outer, ∀ m, f.kind ≠ .group m) :
    b.run (.openGroup :: tokens ++ [.close]) =
      if (Regex.group (b.groups + 1) (root.shifted (b.groups + 1))).isCircular then none
      else some ⟨b.top.push (.group (b.groups + 1) (root.shifted (b.groups + 1))) true, b.outer,
        groups + (b.groups + 1)⟩ := by
  obtain ⟨top, outer, m⟩ := a
  unfold finish? at hfinish
  split at hfinish
  · next hempty =>
    obtain rfl : outer = [] := List.isEmpty_iff.mp hempty
    cases hfinish
    have hstart : Within (b.groups + 1) (b.groups + 1) (b.top :: b.outer) {}
        (b.opened (.group (b.groups + 1)) (b.groups + 1)) :=
      ⟨.base ⟨rfl, rfl, rfl⟩ rfl hb, (Nat.zero_add _).symm⟩
    have hinner := hstart.run rfl hrun
    have hsplit : b.run (.openGroup :: tokens ++ [.close]) =
        ((b.opened (.group (b.groups + 1)) (b.groups + 1)).run tokens).bind (·.run [.close]) :=
      run_append _ tokens [.close]
    have hcircular : isCircular (b.groups + 1) (b.groups + 1) ⟨top, [], m⟩ =
        (Regex.group (b.groups + 1) (top.regex.shifted (b.groups + 1))).isCircular := Bool.or_false _
    rw [hcircular] at hinner
    rw [hsplit]
    split at hinner
    · next hcircular =>
      rw [hinner, if_pos hcircular]
      rfl
    · next hcircular =>
      obtain ⟨⟨top', outer', m'⟩, hrun', hframes, hgroups⟩ := hinner
      rw [hrun', if_neg hcircular]
      cases hframes with
      | base hlike hkind _ =>
        have hclosed : top'.closed = (.group (b.groups + 1) top'.regex, true) := by
          rw [Frame.closed, hkind]
        have hgroups : m' = m + (b.groups + 1) := hgroups
        rw [Option.bind_some, Builder.run, List.foldlM_cons, Builder.step]
        simp only [hclosed, hlike.regex, hgroups]
        rfl
      | cons _ _ hrest => cases hrest
  · cases hfinish

end Builder

end AccessControl.Regex
