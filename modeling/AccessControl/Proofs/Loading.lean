import AccessControl.Proofs.Codec.Values
import AccessControl.Proofs.Transparency

/-!
# From documents to engines

The policies of a configuration are read one after the other, up to the first that cannot be read or
that repeats an identifier.  `Config.FaultAt` says what is wrong with the policy at an index, and reading
finds the fault of the least index (`Config.policiesOf_spec`).  What is read has distinct identifiers and
pages of a size that a store can be asked for, so an engine can always be built of it, and the engine
lists the policies of the document in the order of their identifiers (`Engine.build_lists`).
-/

namespace AccessControl

open Powers

namespace Config

variable {registry : RuleRegistry} {source : Bytes} {sections : List (Node × Node)} {base : Config}

/-! ## The settings -/

/-- The configuration that the settings of a document give. -/
def globalOf (sections : List (Node × Node)) : Except SettingError Config :=
  match Node.lookup (utf8 "global") sections with
  | none | some .null => .ok {}
  | some (.map settings) => ofSettings settings
  | some _ => .error .notMap

/-- The elements of the policies of a document, if those are a sequence, missing or null. -/
def policyItems? (sections : List (Node × Node)) : Option (List Node) :=
  match Node.lookup (utf8 "policies") sections with
  | none | some .null => some []
  | some (.sequence items) => some items
  | some _ => none

theorem ofDocument_of_global (hglobal : globalOf sections = .ok base) :
    ofDocument registry source (some (.map sections)) =
      (match policyItems? sections with
        | none => .error (.policies source .notSequence)
        | some items =>
          ((policiesOf registry 0 [] items).mapError (.policies source)).map fun ps =>
            { base with policies := ps.map some }) := by
  have hrest (config : Config) : (do
      let policies ← match Node.lookup (utf8 "policies") sections with
        | none | some .null => .ok []
        | some (.sequence items) => (policiesOf registry 0 [] items).mapError (.policies source)
        | some _ => .error (.policies source .notSequence)
      return { config with policies := policies.map some } : Except Error Config) =
      (match policyItems? sections with
        | none => .error (.policies source .notSequence)
        | some items =>
          ((policiesOf registry 0 [] items).mapError (.policies source)).map fun ps =>
            { config with policies := ps.map some }) := by
    unfold policyItems?
    rcases Node.lookup (utf8 "policies") sections with _ | (_ | _ | items | _)
    · rfl
    · rfl
    · rfl
    · simp only
      cases policiesOf registry 0 [] items <;> rfl
    · rfl
  simp only [ofDocument]
  revert hglobal
  unfold globalOf
  rcases Node.lookup (utf8 "global") sections with _ | (_ | _ | _ | settings)
  · rintro ⟨⟩
    exact hrest {}
  · rintro ⟨⟩
    exact hrest {}
  · nofun
  · nofun
  · intro hsettings
    simp only at hsettings ⊢
    rw [hsettings]
    exact hrest base

/-- A size that is accepted is the usual one or a positive integer of 64 bits. -/
theorem sizeSetting_lt {key : Bytes} {usual n : Nat} {settings : List (Node × Node)}
    (husual : usual < 2 ^ (63 : Nat)) (h : sizeSetting key usual settings = .ok n) :
    n < 2 ^ (63 : Nat) := by
  unfold sizeSetting at h
  split at h
  · cases h
    exact husual
  · cases h
    exact husual
  · split at h
    · cases h
    · next i _ =>
      split at h
      · cases h
        have hlt := i.toInt_lt
        omega
      · cases h

theorem batch_lt (hglobal : globalOf sections = .ok base) :
    base.warmupBatchSize.toNat < 2 ^ (63 : Nat) := by
  unfold globalOf at hglobal
  split at hglobal
  · cases hglobal
    decide
  · cases hglobal
    decide
  · next settings _ =>
    simp only [ofSettings] at hglobal
    split at hglobal
    · simp only [bind_eq_ok] at hglobal
      obtain ⟨compiler, -, guard, -, batch, hbatch, hglobal⟩ := hglobal
      have hlt : batch < 2 ^ (63 : Nat) := sizeSetting_lt (by decide) hbatch
      split at hglobal
      · cases hglobal
        show (UInt64.ofNat batch).toNat < 2 ^ (63 : Nat)
        rw [UInt64.toNat_ofNat', Nat.mod_eq_of_lt (by omega)]
        exact hlt
      · cases hglobal
    · cases hglobal
  · cases hglobal

/-! ## The policies -/

/-- What is wrong with the policy at an index of a sequence. -/
inductive FaultAt (registry : RuleRegistry) (items : List Node) : Nat → PoliciesError → Prop where
  | invalid {i : Nat} {n : Node} {e : PolicyError} (hitem : items[i]? = some n)
      (hread : Policy.ofDocument registry (some n) = .error e) : FaultAt registry items i (.invalid i e)
  | duplicate {i j : Nat} {n n' : Node} {p p' : Policy} (hitem : items[i]? = some n)
      (hread : Policy.ofDocument registry (some n) = .ok p) (hearlier : j < i)
      (hitem' : items[j]? = some n') (hread' : Policy.ofDocument registry (some n') = .ok p')
      (huid : p'.uid = p.uid) : FaultAt registry items i (.duplicate i p.uid)

/-- The policies that the elements of a sequence describe, in their order; they have distinct
identifiers. -/
structure Describe (registry : RuleRegistry) (items : List Node) (ps : List Policy) : Prop where
  read : items.map (fun n => Policy.ofDocument registry (some n)) = ps.map .ok
  distinct : ps.Pairwise fun p p' => p.uid ≠ p'.uid

theorem Describe.not_faultAt {items : List Node} {ps : List Policy} (h : Describe registry items ps)
    (i : Nat) (cause : PoliciesError) : ¬ FaultAt registry items i cause := by
  have hread {i : Nat} {n : Node} (hitem : items[i]? = some n) :
      ∃ p, ps[i]? = some p ∧ Policy.ofDocument registry (some n) = .ok p := by
    have hboth := congrArg (·[i]?) h.read
    simp only [List.getElem?_map, hitem, Option.map_some] at hboth
    obtain ⟨p, hp, hok⟩ := Option.map_eq_some_iff.mp hboth.symm
    exact ⟨p, hp, hok.symm⟩
  rintro (⟨hitem, herror⟩ | ⟨hitem, hp, hearlier, hitem', hp', huid⟩)
  · obtain ⟨p, -, hok⟩ := hread hitem
    rw [herror] at hok
    cases hok
  · obtain ⟨b, hb, hok⟩ := hread hitem
    obtain ⟨a, ha, hok'⟩ := hread hitem'
    rw [hp] at hok
    rw [hp'] at hok'
    cases hok
    cases hok'
    obtain ⟨hi, rfl⟩ := List.getElem?_eq_some_iff.mp hb
    obtain ⟨hj, rfl⟩ := List.getElem?_eq_some_iff.mp ha
    exact List.pairwise_iff_getElem.mp h.distinct _ _ hj hi hearlier huid

/-- A policy that is read, and whose identifier is new, has no fault. -/
theorem not_faultAt_of_new {front rest : List Node} {n : Node} {p : Policy}
    (hread : Policy.ofDocument registry (some n) = .ok p)
    (hnew : ∀ n' ∈ front, ∀ p', Policy.ofDocument registry (some n') = .ok p' → p'.uid ≠ p.uid)
    (cause : PoliciesError) : ¬ FaultAt registry (front ++ n :: rest) front.length cause := by
  have hhere : (front ++ n :: rest)[front.length]? = some n := by simp
  rintro (⟨hitem, herror⟩ | ⟨hitem, hp, hearlier, hitem', hp', huid⟩)
  · rw [hhere] at hitem
    cases hitem
    rw [hread] at herror
    cases herror
  · rw [hhere] at hitem
    cases hitem
    rw [hread] at hp
    cases hp
    rw [List.getElem?_append_left hearlier] at hitem'
    exact hnew _ (List.mem_of_getElem? hitem') _ hp' huid

/-- A policy whose identifier was seen before repeats it. -/
theorem faultAt_of_known {front rest : List Node} {n n' : Node} {p p' : Policy}
    (hread : Policy.ofDocument registry (some n) = .ok p) (hn' : n' ∈ front)
    (hread' : Policy.ofDocument registry (some n') = .ok p') (huid : p'.uid = p.uid) :
    FaultAt registry (front ++ n :: rest) front.length (.duplicate front.length p.uid) := by
  obtain ⟨j, hj, hget⟩ := List.getElem_of_mem hn'
  have hearlier : (front ++ n :: rest)[j]? = some n' := by
    rw [List.getElem?_append_left hj, List.getElem?_eq_getElem hj, hget]
  exact .duplicate (by simp) hread hj hearlier hread' huid

/-- **Reading policies** gives those that the sequence describes, or the fault of the least index.  The
induction is on what is left to read behind `front`, whose identifiers were seen. -/
theorem policiesOf_spec (registry : RuleRegistry) (front items : List Node) (seen : List Bytes)
    (hseen : ∀ uid, uid ∈ seen ↔
      ∃ n ∈ front, ∃ p, Policy.ofDocument registry (some n) = .ok p ∧ p.uid = uid) :
    (∃ ps, policiesOf registry front.length seen items = .ok ps ∧ Describe registry items ps ∧
        ∀ p ∈ ps, p.uid ∉ seen) ∨
      ∃ cause i, policiesOf registry front.length seen items = .error cause ∧
        FaultAt registry (front ++ items) i cause ∧
        ∀ j, front.length ≤ j → j < i → ∀ cause', ¬ FaultAt registry (front ++ items) j cause' := by
  induction items generalizing front seen with
  | nil => exact .inl ⟨[], rfl, ⟨rfl, .nil⟩, nofun⟩
  | cons n rest ih =>
    have hnone : ∀ j, front.length ≤ j → j < front.length →
        ∀ cause', ¬ FaultAt registry (front ++ n :: rest) j cause' := by
      intro j hle hlt
      omega
    cases hread : Policy.ofDocument registry (some n) with
    | error e =>
      refine .inr ⟨.invalid front.length e, front.length, ?_, .invalid (by simp) hread, hnone⟩
      rw [policiesOf, hread]
    | ok p =>
      by_cases hknown : p.uid ∈ seen
      · obtain ⟨n', hn', p', hread', huid⟩ := (hseen p.uid).mp hknown
        refine .inr ⟨.duplicate front.length p.uid, front.length, ?_,
          faultAt_of_known hread hn' hread' huid, hnone⟩
        rw [policiesOf, hread]
        exact if_pos hknown
      · -- the policy is read, and the rest behind it
        have hseen' : ∀ uid, uid ∈ p.uid :: seen ↔ ∃ n' ∈ front ++ [n], ∃ p',
            Policy.ofDocument registry (some n') = .ok p' ∧ p'.uid = uid := by
          intro uid
          simp only [List.mem_cons, hseen, List.mem_append, List.not_mem_nil, or_false, or_and_right,
            exists_or, exists_eq_left, hread, Except.ok.injEq, exists_eq_left', eq_comm (a := uid)]
          exact or_comm
        have hstep : policiesOf registry front.length seen (n :: rest) =
            (policiesOf registry (front ++ [n]).length (p.uid :: seen) rest).map (p :: ·) := by
          rw [policiesOf, hread, List.length_append]
          exact if_neg hknown
        have hsplit : front ++ n :: rest = (front ++ [n]) ++ rest := by simp
        rw [hstep]
        rcases ih (front ++ [n]) (p.uid :: seen) hseen' with
          ⟨ps, hps, hdescribe, hnew⟩ | ⟨cause, i, herror, hfault, hleast⟩
        · refine .inl ⟨p :: ps, by rw [hps]; rfl, ⟨?_, ?_⟩, ?_⟩
          · rw [List.map_cons, List.map_cons, hread, hdescribe.read]
          · refine List.pairwise_cons.mpr ⟨fun p' hp' huid => ?_, hdescribe.distinct⟩
            exact hnew p' hp' (huid ▸ List.mem_cons_self ..)
          · intro p' hp'
            rcases List.mem_cons.mp hp' with rfl | hp'
            · exact hknown
            · exact fun h => hnew p' hp' (List.mem_cons_of_mem _ h)
        · rw [← hsplit] at hfault hleast
          refine .inr ⟨cause, i, by rw [herror]; rfl, hfault, fun j hle hlt => ?_⟩
          rcases Nat.eq_or_lt_of_le hle with rfl | hlater
          · exact not_faultAt_of_new hread fun n' hn' p' hp' huid =>
              hknown ((hseen p.uid).mpr ⟨n', hn', p', hp', huid⟩)
          · refine hleast j ?_ hlt
            rw [List.length_append]
            exact hlater

/-- A fault is reported under its index. -/
theorem FaultAt.message {items : List Node} {i : Nat} {cause : PoliciesError}
    (h : FaultAt registry items i cause) :
    ∃ rest, cause.message = utf8 "policies[" ++ Bytes.ofNat i ++ utf8 "]: " ++ rest := by
  cases h with
  | @invalid n e =>
    refine ⟨e.message ++ utf8 " (" ++ e.code.name ++ utf8 ")", ?_⟩
    simp only [PoliciesError.message, List.append_assoc]
  | @duplicate j n n' p p' =>
    have hword : utf8 "]: duplicate uid " = utf8 "]: " ++ utf8 "duplicate uid " := by decide
    refine ⟨utf8 "duplicate uid " ++ quoted p.uid, ?_⟩
    simp only [PoliciesError.message, hword, List.append_assoc]

end Config

/-! ## The engine -/

namespace Engine

/-- An engine lists the policies of the table that it mirrors. -/
theorem getAll_mirrors {kind : CheckerKind} {t : PolicyTable} {e : Engine} (h : e.Mirrors kind t)
    (limit offset : Int64) :
    (Engine.store.getAll limit offset e).1 = (t.page limit offset).mapError .refused := by
  have hsame : tierPlace.read e = primaryPlace.read e := h.tier.trans h.primary.symm
  have hask : Engine.store.getAll limit offset =
      TwoTier.readThrough List.isEmpty (PolicyTable.ask tierPlace fun t => t.page limit offset)
        (PolicyTable.ask primaryPlace fun t => t.page limit offset) := rfl
  have hprimary : (primaryPlace.both tierPlace).read e = t := h.primary
  rw [hask, TwoTier.ask_both hsame, PolicyTable.ask, hprimary]

/-- **An engine can be built of distinct policies**, and it lists them in the order of their
identifiers. -/
theorem build_lists {config : Config} {ps : List Policy} (hpolicies : config.policies = ps.map some)
    (hdistinct : ps.Pairwise fun p p' => p.uid ≠ p'.uid) (hsize : ps.length ≤ 2 ^ (62 : Nat))
    (hbatch : config.warmupBatchSize.toNat < 2 ^ (63 : Nat)) (haudit : config.auditLogPath = []) :
    ∃ e l, build config = .ok e ∧ (Engine.store.getAll Int64.maxValue 0 e).1 = .ok l ∧ l.Perm ps ∧
      l.Pairwise fun p p' => p.uid < p'.uid := by
  obtain ⟨e, hbuild⟩ := build_accepts hpolicies hdistinct hsize hbatch haudit
  let t : PolicyTable := Keyed.ofList ps
  have hmirrors : e.Mirrors (Checker.madeKind config.checker) t := by
    have hnamed : config.policies.filterMap id = ps := by
      rw [hpolicies, List.filterMap_map]
      exact List.filterMap_some
    have hmirrors := build_mirrors hbuild
    rwa [hnamed] at hmirrors
  have hperm : t.toList.Perm ps := Keyed.perm_ofList hdistinct
  refine ⟨e, t.toList, hbuild, ?_, hperm, t.sorted⟩
  have hmax : Int64.maxValue.toInt = 2 ^ (63 : Nat) - 1 := by decide
  have hlength : t.toList.length ≤ Int64.maxValue.toInt.toNat := by
    rw [hperm.length_eq, hmax]
    omega
  rw [getAll_mirrors hmirrors, PolicyTable.page_of_range (by rw [hmax]; decide) Int64.toInt_zero,
    List.drop_zero, List.take_of_length_le hlength]
  rfl

end Engine

namespace Config

/-- **From documents to engines.**  Of a map with acceptable settings a configuration is read exactly if
its policies are missing, null or a sequence that describes distinct policies.  The configuration holds
these in the order of the document, with the settings; if no audit log is asked for, an engine can be
built of it and lists exactly these policies in the order of their identifiers, up to `2 ^ 62` policies,
more than any memory holds.  Otherwise the error names the least index at which a policy cannot be read
or repeats an identifier. -/
theorem ofDocument_spec (registry : RuleRegistry) (source : Bytes) {sections : List (Node × Node)}
    {base : Config} (hglobal : globalOf sections = .ok base) :
    ((∃ config, ofDocument registry source (some (.map sections)) = .ok config) ↔
      ∃ items ps, policyItems? sections = some items ∧ Describe registry items ps) ∧
    (∀ config, ofDocument registry source (some (.map sections)) = .ok config →
      ∃ items ps, policyItems? sections = some items ∧ Describe registry items ps ∧
        config = { base with policies := ps.map some } ∧
        (config.auditLogPath = [] → ps.length ≤ 2 ^ (62 : Nat) →
          ∃ e l, Engine.build config = .ok e ∧
            (Engine.store.getAll Int64.maxValue 0 e).1 = .ok l ∧ l.Perm ps ∧
            l.Pairwise fun p p' => p.uid < p'.uid)) ∧
    ∀ error, ofDocument registry source (some (.map sections)) = .error error →
      (policyItems? sections = none ∧ error = .policies source .notSequence) ∨
      ∃ items i cause rest, policyItems? sections = some items ∧ error = .policies source cause ∧
        FaultAt registry items i cause ∧
        (∀ j < i, ∀ cause', ¬ FaultAt registry items j cause') ∧
        error.message = utf8 "policy_loader: error parsing 'policies' section of " ++ quoted source ++
          utf8 ": " ++ (utf8 "policies[" ++ Bytes.ofNat i ++ utf8 "]: " ++ rest) := by
  rw [ofDocument_of_global hglobal]
  cases hitems : policyItems? sections with
  | none =>
    refine ⟨⟨?_, ?_⟩, nofun, fun error herror => .inl ⟨rfl, ?_⟩⟩
    · rintro ⟨config, ⟨⟩⟩
    · rintro ⟨items, ps, ⟨⟩, -⟩
    · cases herror
      rfl
  | some items =>
    rcases policiesOf_spec registry [] items [] (by simp) with
      ⟨ps, hread, hdescribe, -⟩ | ⟨cause, i, hread, hfault, hleast⟩
    · have hread : policiesOf registry 0 [] items = .ok ps := hread
      simp only [hread]
      refine ⟨⟨fun _ => ⟨items, ps, rfl, hdescribe⟩, fun _ => ⟨_, rfl⟩⟩, ?_, nofun⟩
      rintro _ ⟨⟩
      have hbatch := batch_lt hglobal
      exact ⟨items, ps, rfl, hdescribe, rfl, fun haudit hsize =>
        Engine.build_lists rfl hdescribe.distinct hsize hbatch haudit⟩
    · have hread : policiesOf registry 0 [] items = .error cause := hread
      simp only [hread]
      obtain ⟨rest, hmessage⟩ := hfault.message
      refine ⟨⟨?_, ?_⟩, nofun, ?_⟩
      · rintro ⟨config, ⟨⟩⟩
      · rintro ⟨_, ps, ⟨⟩, hdescribe⟩
        exact absurd hfault (hdescribe.not_faultAt i cause)
      · rintro _ ⟨⟩
        refine .inr ⟨items, i, cause, rest, rfl, rfl, hfault,
          fun j hlt => hleast j (Nat.zero_le j) hlt, ?_⟩
        rw [Error.message, hmessage]

/-- A document of two policies that deny, the later first. -/
def deniers : List (Node × Node) :=
  [(.plain (utf8 "policies"), .sequence
    [.ofFields [(utf8 "uid", .plain [113])], .ofFields [(utf8 "uid", .plain [112])]])]

theorem ofDocument_spec_deniers :
    globalOf deniers = .ok {} ∧
      ∃ config e l, ofDocument .builtin unnamedSource (some (.map deniers)) = .ok config ∧
        Engine.build config = .ok e ∧ (Engine.store.getAll Int64.maxValue 0 e).1 = .ok l ∧
        l.map Policy.uid = [[112], [113]] := by
  have hglobal : globalOf deniers = .ok {} := rfl
  obtain ⟨config, hread, huids, haudit⟩ :
      ∃ config, ofDocument .builtin unnamedSource (some (.map deniers)) = .ok config ∧
        config.policies.map (Option.map Policy.uid) = [some [113], some [112]] ∧
        config.auditLogPath = [] := ⟨_, rfl, rfl, rfl⟩
  obtain ⟨items, ps, -, -, rfl, hbuild⟩ :=
    (ofDocument_spec .builtin unnamedSource hglobal).2.1 config hread
  have huids : ps.map Policy.uid = [[113], [112]] := by
    simpa [List.map_eq_cons_iff] using huids
  have hsize : ps.length ≤ 2 ^ (62 : Nat) := by
    rw [← List.length_map Policy.uid, huids]
    decide
  obtain ⟨e, l, hbuild, hlist, hperm, hsorted⟩ := hbuild haudit hsize
  refine ⟨hglobal, _, e, l, hread, hbuild, hlist, ?_⟩
  have hperm : (l.map Policy.uid).Perm [[112], [113]] :=
    (hperm.map _).trans (huids ▸ .swap [112] [113] [])
  refine hperm.eq_of_pairwise (fun a b _ _ hab hba => ?_) (List.pairwise_map.mpr hsorted) (by decide)
  exact absurd (List.lt_trans hab hba) (List.lt_irrefl _)

end Config

end AccessControl
