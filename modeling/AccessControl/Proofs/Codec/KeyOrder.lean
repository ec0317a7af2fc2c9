import AccessControl.Proofs.Codec.Readings

/-!
# The order of keys

A document in which no map has two pairs with one key means the same in whatever order the pairs of its
maps stand.  `Node.Rearranged` changes the order of the pairs of any maps, at any depths and in keys too,
and `Node.Distinct` says that no map repeats a key.  A map is read by its keys or pair by pair; either way
the order does not matter if the keys are distinct (`EntriesAlike.of_perm`), nor does it in what stands in
the pairs (`EntriesAlike.of_forall₂`).  So a rearranged document is read like the document
(`Node.Rearranged.readAlike`), as a policy too.
-/

namespace AccessControl

namespace Node

/-- The texts of the scalar keys of pairs. -/
def scalarKeys (entries : List (Node × Node)) : List Bytes := entries.filterMap fun e => e.1.scalar?

theorem scalarKeys_cons {e : Node × Node} {key : Bytes} (h : e.1.scalar? = some key)
    (rest : List (Node × Node)) : scalarKeys (e :: rest) = key :: scalarKeys rest :=
  List.filterMap_cons_some h

theorem mem_scalarKeys {entries : List (Node × Node)} {e : Node × Node} {key : Bytes} (he : e ∈ entries)
    (hkey : e.1.isKey key = true) : key ∈ scalarKeys entries := by
  rw [isKey_eq, beq_iff_eq] at hkey
  exact List.mem_filterMap.mpr ⟨e, he, hkey⟩

/-- Where keys are distinct, each pair is found by its key. -/
theorem lookup_eq_some_iff {entries : List (Node × Node)} (h : (scalarKeys entries).Nodup) (key : Bytes)
    (n : Node) : lookup key entries = some n ↔ ∃ k, (k, n) ∈ entries ∧ k.isKey key = true := by
  refine ⟨fun hlookup => ?_, ?_⟩
  · rw [lookup, Option.map_eq_some_iff] at hlookup
    obtain ⟨e, he, rfl⟩ := hlookup
    have hkey : e.1.isKey key = true := List.find?_some (p := fun e : Node × Node => e.1.isKey key) he
    exact ⟨e.1, List.mem_of_find?_eq_some he, hkey⟩
  · rintro ⟨k, hmem, hkey⟩
    induction entries with
    | nil => cases hmem
    | cons e rest ih =>
      rw [lookup_cons]
      rcases List.mem_cons.mp hmem with rfl | hrest
      · exact if_pos hkey
      · have hlater := mem_scalarKeys hrest hkey
        split
        · next hfirst =>
          rw [isKey_eq, beq_iff_eq] at hfirst
          rw [scalarKeys_cons hfirst, List.nodup_cons] at h
          exact absurd hlater h.1
        · refine ih (h.sublist ?_) hrest
          exact (List.sublist_cons_self e rest).filterMap _

theorem lookup_perm {xs ys : List (Node × Node)} (hperm : xs.Perm ys) (h : (scalarKeys xs).Nodup)
    (key : Bytes) : lookup key xs = lookup key ys := by
  have h' : (scalarKeys ys).Nodup := (hperm.filterMap _).nodup_iff.mp h
  refine Option.ext fun n => ?_
  rw [lookup_eq_some_iff h, lookup_eq_some_iff h']
  exact exists_congr fun k => and_congr_left fun _ => hperm.mem_iff

end Node

/-! ## Maps read pair by pair -/

section Pairs

variable {α : Type}

/-- A pair with a scalar key and a value that can be read. -/
def readPair (read : Node → Option α) (e : Node × Node) : Option (Bytes × α) :=
  e.1.scalar?.bind fun key => (read e.2).map (Prod.mk key)

theorem readPair_scalar (read : Node → Option α) (tag key : Bytes) (n : Node) :
    readPair read (.scalar tag key, n) = (read n).map (Prod.mk key) := rfl

theorem ofEntries_eq_mapM (entries : List (Node × Node)) :
    (Value.ofEntries entries).toOption = entries.mapM (readPair fun n => (Value.ofNode n).toOption) := by
  induction entries with
  | nil => rfl
  | cons e rest ih =>
    obtain ⟨k, n⟩ := e
    rw [List.mapM_cons, ← ih]
    cases k with
    | scalar tag key =>
      rw [Value.ofEntries, toOption_bind, readPair_scalar]
      cases Value.ofNode n with
      | error e => rfl
      | ok v => exact toOption_bind ..
    | _ => rfl

theorem rulesOf_eq_mapM (registry : RuleRegistry) (fault : DocumentError) (entries : List (Node × Node)) :
    (Policy.rulesOf registry fault entries).toOption =
      entries.mapM (readPair fun n => (Policy.ruleOrLiteral registry n).toOption) := by
  induction entries with
  | nil => rfl
  | cons e rest ih =>
    obtain ⟨k, n⟩ := e
    rw [List.mapM_cons, ← ih]
    cases k with
    | scalar tag key =>
      rw [Policy.rulesOf, toOption_bind, readPair_scalar]
      cases Policy.ruleOrLiteral registry n with
      | error e => rfl
      | ok r => exact toOption_bind ..
    | _ => rfl

/-- The keys of what is read are those of the pairs. -/
theorem keys_of_mapM {read : Node → Option α} {entries : List (Node × Node)} {pairs : List (Bytes × α)}
    (h : entries.mapM (readPair read) = some pairs) : pairs.map Prod.fst = Node.scalarKeys entries := by
  induction entries generalizing pairs with
  | nil =>
    obtain rfl : [] = pairs := Option.some.inj h
    rfl
  | cons e rest ih =>
    simp only [List.mapM_cons, Option.bind_eq_bind, Option.bind_eq_some_iff, readPair,
      Option.map_eq_some_iff] at h
    obtain ⟨pair, ⟨key, hkey, v, -, rfl⟩, others, hothers, hpairs⟩ := h
    obtain rfl : (key, v) :: others = pairs := Option.some.inj hpairs
    rw [List.map_cons, ih hothers, Node.scalarKeys_cons hkey]

/-- Pairs with distinct keys are read as the same map in any order. -/
theorem ofPairs_of_perm {read : Node → Option α} {xs ys : List (Node × Node)} (hperm : xs.Perm ys)
    (h : (Node.scalarKeys xs).Nodup) :
    (xs.mapM (readPair read)).map Dict.ofPairs = (ys.mapM (readPair read)).map Dict.ofPairs := by
  cases hxs : xs.mapM (readPair read) with
  | none =>
    cases hys : ys.mapM (readPair read) with
    | none => rfl
    | some pairs =>
      obtain ⟨pairs', hxs', -⟩ := perm_of_mapM hperm.symm hys
      rw [hxs] at hxs'
      cases hxs'
  | some pairs =>
    obtain ⟨pairs', hys, hpairs⟩ := perm_of_mapM hperm hxs
    have hdistinct : (pairs.map Prod.fst).Nodup := keys_of_mapM hxs ▸ h
    rw [hys]
    exact congrArg some (Keyed.ofList_perm hpairs (List.pairwise_map.mp hdistinct))

end Pairs

namespace EntriesAlike

variable {registry : RuleRegistry} {xs ys : List (Node × Node)}

/-- Maps of values and of rules are made of what the pairs are read as. -/
theorem of_pairs
    (hlookup : ∀ key, Option.Rel (ReadAlike registry) (Node.lookup key xs) (Node.lookup key ys))
    (h : ∀ {α : Type} (read : Node → Option α),
      (∀ a b, ReadAlike registry a b → read a = read b) →
      (xs.mapM (readPair read)).map Dict.ofPairs = (ys.mapM (readPair read)).map Dict.ofPairs) :
    EntriesAlike registry xs ys where
  lookup := hlookup
  value := by
    have hvalues := congrArg (Option.map fun d : Dict Value => Value.map d.toList)
      (h (fun n => (Value.ofNode n).toOption) fun a b hab => hab.value)
    rw [Option.map_map, Option.map_map] at hvalues
    rw [Value.ofNode, Value.ofNode, toOption_map, toOption_map, ofEntries_eq_mapM, ofEntries_eq_mapM]
    exact hvalues
  fields fault := by
    rw [Policy.fieldsAt, Policy.fieldsAt, toOption_map, toOption_map, rulesOf_eq_mapM, rulesOf_eq_mapM]
    exact h _ fun a b hab => hab.ruleOrLiteral

/-- **The order of pairs with distinct keys does not matter.** -/
theorem of_perm (hperm : xs.Perm ys) (h : (Node.scalarKeys xs).Nodup) : EntriesAlike registry xs ys := by
  refine of_pairs (fun key => ?_) fun read _ => ofPairs_of_perm hperm h
  rw [Node.lookup_perm hperm h]
  cases Node.lookup key ys with
  | none => exact .none
  | some n => exact .some (.refl n)

/-- Pairs with the same key and with values that are read alike. -/
def PairAlike (registry : RuleRegistry) (e f : Node × Node) : Prop :=
  e.1.scalar? = f.1.scalar? ∧ ReadAlike registry e.2 f.2

/-- **Nor does the order in what stands in the pairs.** -/
theorem of_forall₂ (h : List.Forall₂ (PairAlike registry) xs ys) : EntriesAlike registry xs ys := by
  refine of_pairs (fun key => ?_) fun read hread => ?_
  · induction h with
    | nil => exact .none
    | cons hab _ ih =>
      rw [Node.lookup_cons, Node.lookup_cons, Node.isKey_eq, Node.isKey_eq, hab.1]
      split
      · exact .some hab.2
      · exact ih
  · refine congrArg _ (mapM_congr (h.imp fun e f hef => ?_))
    rw [readPair, readPair, hef.1, hread _ _ hef.2]

end EntriesAlike

/-! ## Rearranged documents -/

namespace Node

mutual

/-- In no map, at any depth and in keys too, two pairs have scalar keys with one text. -/
def Distinct : Node → Prop
  | .sequence items => ItemsDistinct items
  | .map entries => (scalarKeys entries).Nodup ∧ EntriesDistinct entries
  | _ => True
termination_by structural n => n

/-- Keys are distinct in each of the items. -/
def ItemsDistinct : List Node → Prop
  | [] => True
  | n :: rest => n.Distinct ∧ ItemsDistinct rest
termination_by structural l => l

/-- Keys are distinct in each key and each value. -/
def EntriesDistinct : List (Node × Node) → Prop
  | [] => True
  | (k, n) :: rest => k.Distinct ∧ n.Distinct ∧ EntriesDistinct rest
termination_by structural l => l

end

theorem itemsDistinct_iff (items : List Node) : ItemsDistinct items ↔ ∀ n ∈ items, n.Distinct := by
  induction items with
  | nil => simp [ItemsDistinct]
  | cons n rest ih => simp [ItemsDistinct, ih]

theorem entriesDistinct_iff (entries : List (Node × Node)) :
    EntriesDistinct entries ↔ ∀ e ∈ entries, e.1.Distinct ∧ e.2.Distinct := by
  induction entries with
  | nil => simp [EntriesDistinct]
  | cons e rest ih =>
    rw [EntriesDistinct, ih, List.forall_mem_cons, and_assoc]

/-- One document is the other one with the pairs of some of its maps in another order. -/
inductive Rearranged : Node → Node → Prop
  | refl (a : Node) : Rearranged a a
  | trans {a b c : Node} : Rearranged a b → Rearranged b c → Rearranged a c
  | pairs {xs ys : List (Node × Node)} : xs.Perm ys → Rearranged (.map xs) (.map ys)
  /-- In an item of a sequence. -/
  | item (front back : List Node) {a b : Node} : Rearranged a b →
      Rearranged (.sequence (front ++ a :: back)) (.sequence (front ++ b :: back))
  /-- In the value of a pair. -/
  | value (front back : List (Node × Node)) (k : Node) {a b : Node} : Rearranged a b →
      Rearranged (.map (front ++ (k, a) :: back)) (.map (front ++ (k, b) :: back))
  /-- In the key of a pair. -/
  | key (front back : List (Node × Node)) (n : Node) {a b : Node} : Rearranged a b →
      Rearranged (.map (front ++ (a, n) :: back)) (.map (front ++ (b, n) :: back))

theorem forall₂_splice {α : Type} {R : α → α → Prop} (hrefl : ∀ a, R a a) (front back : List α)
    {a b : α} (h : R a b) : List.Forall₂ R (front ++ a :: back) (front ++ b :: back) :=
  have hsame (l : List α) : List.Forall₂ R l l := List.forall₂_same.mpr fun a _ => hrefl a
  List.rel_append (hsame front) (.cons h (hsame back))

section

variable {registry : RuleRegistry}

theorem scalarKeys_congr {xs ys : List (Node × Node)}
    (h : List.Forall₂ (EntriesAlike.PairAlike registry) xs ys) : scalarKeys xs = scalarKeys ys := by
  induction h with
  | nil => rfl
  | cons hab _ ih =>
    rw [scalarKeys, scalarKeys, List.filterMap_cons, List.filterMap_cons, hab.1, ← scalarKeys, ← scalarKeys, ih]

/-- A pair may be exchanged for one that is alike and has distinct keys in it. -/
theorem exchange_pair (front back : List (Node × Node)) {e f : Node × Node}
    (hdistinct : (Node.map (front ++ e :: back)).Distinct) (hf : f.1.Distinct ∧ f.2.Distinct)
    (h : EntriesAlike.PairAlike registry e f) :
    (Node.map (front ++ f :: back)).Distinct ∧
      ReadAlike registry (.map (front ++ e :: back)) (.map (front ++ f :: back)) := by
  have hpairs : List.Forall₂ (EntriesAlike.PairAlike registry) (front ++ e :: back) (front ++ f :: back) :=
    forall₂_splice (fun e => ⟨rfl, .refl e.2⟩) front back h
  rw [Distinct, entriesDistinct_iff, List.forall_mem_append, List.forall_mem_cons] at hdistinct
  obtain ⟨hkeys, hfront, -, hback⟩ := hdistinct
  refine ⟨?_, (EntriesAlike.of_forall₂ hpairs).map⟩
  rw [Distinct, entriesDistinct_iff, List.forall_mem_append, List.forall_mem_cons, ← scalarKeys_congr hpairs]
  exact ⟨hkeys, hfront, hf, hback⟩

/-- **A rearranged document is read like the document**, and its keys are distinct too: by induction on
how it was rearranged, since each step needs the keys of what it rearranges to be distinct. -/
theorem Rearranged.readAlike {a b : Node} (h : Rearranged a b) (hdistinct : a.Distinct) :
    b.Distinct ∧ ReadAlike registry a b := by
  induction h with
  | refl a => exact ⟨hdistinct, .refl a⟩
  | trans _ _ ih ih' =>
    obtain ⟨hmiddle, hread⟩ := ih hdistinct
    obtain ⟨hlast, hread'⟩ := ih' hmiddle
    exact ⟨hlast, hread.trans hread'⟩
  | pairs hperm =>
    rw [Distinct, entriesDistinct_iff] at hdistinct
    refine ⟨?_, (EntriesAlike.of_perm hperm hdistinct.1).map⟩
    rw [Distinct, entriesDistinct_iff]
    exact ⟨(hperm.filterMap _).nodup_iff.mp hdistinct.1, fun e he => hdistinct.2 e (hperm.mem_iff.mpr he)⟩
  | item front back _ ih =>
    rw [Distinct, itemsDistinct_iff, List.forall_mem_append, List.forall_mem_cons] at hdistinct
    obtain ⟨hfront, ha, hback⟩ := hdistinct
    obtain ⟨hb, hread⟩ := ih ha
    refine ⟨?_, .sequence (forall₂_splice .refl front back hread)⟩
    rw [Distinct, itemsDistinct_iff, List.forall_mem_append, List.forall_mem_cons]
    exact ⟨hfront, hb, hback⟩
  | value front back k _ ih =>
    have hpair := (entriesDistinct_iff _).mp hdistinct.2 _ List.mem_append_cons_self
    obtain ⟨hb, hread⟩ := ih hpair.2
    exact exchange_pair front back hdistinct ⟨hpair.1, hb⟩ ⟨rfl, hread⟩
  | key front back n _ ih =>
    have hpair := (entriesDistinct_iff _).mp hdistinct.2 _ List.mem_append_cons_self
    obtain ⟨hb, hread⟩ := ih hpair.1
    exact exchange_pair front back hdistinct ⟨hb, hpair.2⟩ ⟨hread.shape.scalar?_eq, .refl n⟩

end

end Node

namespace Policy

/-- **The order of keys does not matter.**  If no map in a document repeats a key, then the document with
the pairs of any of its maps in another order is accepted as a policy exactly if the document is, and as
the same policy. -/
theorem ofDocument_rearranged (registry : RuleRegistry) {d e : Node} (hdistinct : d.Distinct)
    (h : Node.Rearranged d e) (p : Policy) :
    ofDocument registry (some d) = .ok p ↔ ofDocument registry (some e) = .ok p := by
  have hread : ReadAlike registry d e := (h.readAlike hdistinct).2
  have hok (x : Except PolicyError Policy) : x = .ok p ↔ x.toOption = some p := by
    cases x <;> simp
  rw [hok, hok, hread.policy]

/-- A policy for the subjects that are called Max and have a role. -/
def maxDocument : Node :=
  .map [(.plain (utf8 "uid"), .plain (utf8 "p")),
    (.plain (utf8 "subjects"), .sequence [.map [(.plain (utf8 "name"), .plain (utf8 "Max")),
      (.plain (utf8 "role"), .map [(.plain (utf8 "type"), .plain (utf8 "any"))])]])]

theorem ofDocument_rearranged_max :
    let swapped := Node.map [(.plain (utf8 "subjects"),
        .sequence [.map [(.plain (utf8 "role"), .map [(.plain (utf8 "type"), .plain (utf8 "any"))]),
          (.plain (utf8 "name"), .plain (utf8 "Max"))]]),
      (.plain (utf8 "uid"), .plain (utf8 "p"))]
    maxDocument.Distinct ∧ Node.Rearranged maxDocument swapped ∧
      ∃ p, ofDocument .builtin (some maxDocument) = .ok p ∧ ofDocument .builtin (some swapped) = .ok p := by
  intro swapped
  have hdistinct : maxDocument.Distinct := by
    simp only [maxDocument, Node.Distinct, Node.EntriesDistinct, Node.ItemsDistinct, Node.plain, true_and,
      and_true]
    decide
  have hrearranged : Node.Rearranged maxDocument swapped :=
    .trans (.value [_] [] _ (.item [] [] (.pairs (.swap ..)))) (.pairs (.swap ..))
  have haccepted : (ofDocument .builtin (some maxDocument)).toOption.isSome = true := by decide +kernel
  obtain ⟨p, hp⟩ : ∃ p, ofDocument .builtin (some maxDocument) = .ok p := by
    cases hread : ofDocument .builtin (some maxDocument) with
    | ok p => exact ⟨p, rfl⟩
    | error e =>
      rw [hread] at haccepted
      cases haccepted
  exact ⟨hdistinct, hrearranged, p, hp, (ofDocument_rearranged .builtin hdistinct hrearranged p).mp hp⟩

end Policy

end AccessControl
