import AccessControl.Proofs.Recency.Values
import Mathlib.Data.List.Forall2

/-!
# Which keys are present

A key is **used** when it is put and when it is found (`Lru.Act.uses`).  If no key is erased and the table
is not cleared, the keys of the table are the keys that were used, the latest first and each of them once,
as far as there is room (`Lru.keys_left`).  So a key is present exactly if it was put and fewer other keys
were used since it was used last than there is room for (`Lru.contains_left_iff`).

Keys that are the same need not be equal, so lists of keys are compared item by item (`Lru.Alike`).
-/

namespace AccessControl.Lru

open Act

variable {κ ν : Type} [BEq κ] {c : Lru κ ν} {acts : List (Act κ ν)} {act : Act κ ν} {key k : κ} {l : List κ}

/-! ## Lists of distinct keys -/

/-- Whether a key is in a list, or one that is the same. -/
def amid (l : List κ) (key : κ) : Bool := l.any fun k => k == key

/-- The keys of a list but one. -/
def but (l : List κ) (key : κ) : List κ := l.filter fun k => !(k == key)

/-- The keys in front of one. -/
def infront (l : List κ) (key : κ) : List κ := l.takeWhile fun k => !(k == key)

/-- Two lists of the same keys in the same order. -/
def Alike : List κ → List κ → Prop := List.Forall₂ fun a b => (a == b) = true

theorem amid_take_iff {n : Nat} :
    amid (l.take n) key = true ↔ amid l key = true ∧ (infront l key).length < n := by
  induction l generalizing n with
  | nil => simp [amid]
  | cons a l ih =>
    cases n with
    | zero => simp [amid]
    | succ n =>
      have ih := ih (n := n)
      cases ha : a == key with
      | true => simp [amid, infront, ha]
      | false =>
        simp only [amid, infront] at ih ⊢
        simp [ha, ih]

theorem amid_eq_false_iff : amid l key = false ↔ ∀ k ∈ l, (k == key) = false := by
  simp [amid]

/-- The first keys do not miss a key that is not among them. -/
theorem take_but_of_not_amid {n : Nat} (h : amid (l.take n) key = false) :
    (but l key).take n = l.take n := by
  induction l generalizing n with
  | nil => rfl
  | cons a l ih =>
    cases n with
    | zero => rfl
    | succ n =>
      rw [List.take_succ_cons, amid, List.any_cons, Bool.or_eq_false_iff] at h
      rw [but, List.filter_cons_of_pos (by simp [h.1]), List.take_succ_cons, List.take_succ_cons]
      exact congrArg (a :: ·) (ih h.2)

section Equivalence

variable [EquivBEq κ]

theorem amid_but (h : (k == key) = false) (l : List κ) : amid (but l k) key = amid l key := by
  rw [amid, amid, but, List.any_filter]
  congr 1
  funext a
  cases ha : a == key with
  | false => rw [Bool.and_false]
  | true => simp [BEq.congr_left ha, beq_comm_false h]

theorem infront_but (h : (k == key) = false) (l : List κ) :
    infront (but l k) key = but (infront l key) k := by
  rw [infront, but, List.takeWhile_filter]
  congr 2
  funext a
  cases ha : a == key with
  | false => simp
  | true => simp [BEq.congr_left ha, beq_comm_false h]

/-- Whether duplicates or a key are dropped first does not matter. -/
theorem eraseDups_but (key : κ) : ∀ l : List κ, (but l key).eraseDups = but l.eraseDups key
  | [] => rfl
  | a :: l => by
    have hshorter : (but l a).length < l.length + 1 := Nat.lt_succ_of_le (List.length_filter_le ..)
    have ih := eraseDups_but key (but l a)
    have hcons : (a :: l).eraseDups = a :: (but l a).eraseDups := List.eraseDups_cons
    cases ha : a == key with
    | false =>
      have hfirst (l : List κ) : but (a :: l) key = a :: but l key := List.filter_cons_of_pos (by simp [ha])
      have hcomm : but (but l key) a = but (but l a) key := List.filter_comm ..
      rw [hcons, hfirst, hfirst, ← ih, ← hcomm]
      exact List.eraseDups_cons
    | true =>
      have hfirst (l : List κ) : but (a :: l) key = but l key := List.filter_cons_of_neg (by simp [ha])
      have htwice : but (but l a) key = but l key := by
        rw [but, but, but, List.filter_filter]
        congr 1
        funext b
        rw [BEq.congr_right ha, Bool.and_self]
      rw [hcons, hfirst, hfirst, ← ih, htwice]
termination_by l => l.length

theorem eraseDups_cons_but (a : κ) (l : List κ) : (a :: l).eraseDups = a :: but l.eraseDups a := by
  rw [List.eraseDups_cons]
  exact congrArg (a :: ·) (eraseDups_but a l)

theorem amid_eraseDups (key : κ) (l : List κ) : amid l.eraseDups key = amid l key := by
  induction l with
  | nil => rfl
  | cons a l ih =>
    rw [eraseDups_cons_but]
    cases ha : a == key with
    | true => simp [amid, ha]
    | false =>
      have hbut := amid_but ha l.eraseDups
      rw [ih] at hbut
      simp only [amid] at hbut ⊢
      simp [ha, hbut]

/-- In front of a key are the distinct keys in front of it. -/
theorem infront_eraseDups (key : κ) (l : List κ) :
    infront l.eraseDups key = (infront l key).eraseDups := by
  induction l with
  | nil => rfl
  | cons a l ih =>
    rw [eraseDups_cons_but]
    cases ha : a == key with
    | true =>
      have hfirst (l : List κ) : infront (a :: l) key = [] := List.takeWhile_cons_of_neg (by simp [ha])
      rw [hfirst, hfirst]
      rfl
    | false =>
      have hfirst (l : List κ) : infront (a :: l) key = a :: infront l key :=
        List.takeWhile_cons_of_pos (by simp [ha])
      rw [hfirst, hfirst, eraseDups_cons_but, infront_but ha, ih]

theorem pairwise_eraseDups (l : List κ) : l.eraseDups.Pairwise fun a b => (a == b) = false := by
  induction l with
  | nil => exact .nil
  | cons a l ih =>
    rw [eraseDups_cons_but]
    refine List.pairwise_cons.mpr ⟨fun b hb => ?_, ih.filter _⟩
    have hother := (List.mem_filter.mp hb).2
    rw [Bool.not_eq_true'] at hother
    exact beq_comm_false hother

/-- Of distinct keys, the first `n` but one are the first `n + 1` without that one, if it is among these. -/
theorem take_but_of_amid {n : Nat} (hl : l.Pairwise fun a b => (a == b) = false)
    (h : amid (l.take (n + 1)) key = true) : (but l key).take n = but (l.take (n + 1)) key := by
  induction hl generalizing n with
  | nil => cases h
  | @cons a l ha _ ih =>
    rw [List.take_succ_cons] at h ⊢
    cases hkey : a == key with
    | true =>
      have hfirst (l : List κ) : but (a :: l) key = but l key := List.filter_cons_of_neg (by simp [hkey])
      have hrest : ∀ b ∈ l, (!(b == key)) = true := by
        intro b hb
        rw [BEq.congr_right (BEq.symm hkey), beq_comm_false (ha b hb)]
        rfl
      have hall : but l key = l := List.filter_eq_self.mpr hrest
      have htake : but (l.take n) key = l.take n :=
        List.filter_eq_self.mpr fun b hb => hrest b (List.mem_of_mem_take hb)
      rw [hfirst, hfirst, hall, htake]
    | false =>
      have hfirst (l : List κ) : but (a :: l) key = a :: but l key :=
        List.filter_cons_of_pos (by simp [hkey])
      rw [amid, List.any_cons, hkey, Bool.false_or] at h
      cases n with
      | zero => cases h
      | succ n => rw [hfirst, hfirst, List.take_succ_cons, ih h]

/-! ## Lists of the same keys -/

theorem Alike.amid_eq {l l' : List κ} (h : Alike l l') (key : κ) : amid l key = amid l' key := by
  induction h with
  | nil => rfl
  | @cons a b l l' hab _ ih =>
    simp only [amid] at ih ⊢
    rw [List.any_cons, List.any_cons, BEq.congr_left hab, ih]

theorem Alike.but {l l' : List κ} (h : Alike l l') (key : κ) : Alike (but l key) (but l' key) := by
  induction h with
  | nil => exact .nil
  | @cons a b l l' hab _ ih =>
    simp only [Lru.but] at ih ⊢
    rw [List.filter_cons, List.filter_cons, BEq.congr_left hab]
    split
    · exact .cons hab ih
    · exact ih

/-- A key that is used again comes to the front. -/
theorem Alike.again {l used : List κ} {n : Nat} {a : κ} (h : Alike l (used.eraseDups.take (n + 1)))
    (hk : amid l k = true) (ha : (a == k) = true) :
    Alike (a :: Lru.but l k) ((k :: used).eraseDups.take (n + 1)) := by
  rw [h.amid_eq] at hk
  rw [eraseDups_cons_but, List.take_succ_cons, take_but_of_amid (pairwise_eraseDups used) hk]
  exact .cons ha (h.but k)

/-- A key that is used for the first time, or again after it was dropped, comes in front of those that
there is room for. -/
theorem Alike.anew {l used : List κ} {n : Nat} (h : Alike l (used.eraseDups.take (n + 1)))
    (hk : amid l k = false) : Alike (k :: l.take n) ((k :: used).eraseDups.take (n + 1)) := by
  have htake : (used.eraseDups.take (n + 1)).take n = used.eraseDups.take n := by
    rw [List.take_take, Nat.min_eq_left (Nat.le_succ n)]
  have hbefore : amid (used.eraseDups.take n) k = false := by
    rw [h.amid_eq, amid_eq_false_iff] at hk
    rw [amid_eq_false_iff]
    intro a ha
    rw [← htake] at ha
    exact hk a (List.mem_of_mem_take ha)
  have hfront := List.forall₂_take n h
  rw [htake] at hfront
  rw [eraseDups_cons_but, List.take_succ_cons, take_but_of_not_amid hbefore]
  exact .cons BEq.rfl hfront

end Equivalence

/-! ## Uses -/

/-- The key that an act uses: one that is put, or one that is found. -/
def Act.use? (act : Act κ ν) (c : Lru κ ν) : Option κ :=
  match act with
  | get key => if (c.get? key).1.isSome then some key else none
  | put key _ => some key
  | _ => none

/-- The keys that acts use, in the order of their uses. -/
def Act.uses : List (Act κ ν) → Lru κ ν → List κ
  | [], _ => []
  | act :: rest, c => (act.use? c).toList ++ uses rest (act.on c).2

/-- The keys that were used in a history after the last use of a key. -/
def Act.usedSince (acts : List (Act κ ν)) (capacity : Nat) (key : κ) : List κ :=
  infront (uses acts (ofCapacity capacity)).reverse key

theorem uses_concat (acts : List (Act κ ν)) (act : Act κ ν) (c : Lru κ ν) :
    uses (acts ++ [act]) c = uses acts c ++ (act.use? (after on acts c)).toList := by
  induction acts generalizing c with
  | nil => rw [List.nil_append, uses, uses, uses, List.append_nil, List.nil_append]; rfl
  | cons first acts ih =>
    rw [List.cons_append, uses, uses, ih, List.append_assoc]
    rfl

section Presence

variable [EquivBEq κ]

theorem contains_eq_amid (h : c.InStep []) (key : κ) : c.contains key = amid c.keys key := by
  rw [contains_eq h, listed, amid, keys, List.any_map, Bool.eq_iff_iff, List.find?_isSome,
    List.any_eq_true]
  rfl

theorem keys_others (h : c.InStep []) (key : κ) : (c.others key).map Prod.fst = but c.keys key := by
  rw [others_eq h, but, keys, List.filter_map]
  rfl

/-- **An act brings the key that it uses to the front**, and takes no other key out but the last, if
there is no room. -/
theorem keys_on (h : c.InStep []) {act : Act κ ν} (hact : act.keeps = true) {used : List κ}
    (hused : Alike c.keys (used.eraseDups.take c.capacity)) :
    Alike (act.on c).2.keys (((act.use? c).toList ++ used).eraseDups.take c.capacity) := by
  obtain ⟨n, hn⟩ : ∃ n, c.capacity = n + 1 := ⟨c.capacity - 1, (Nat.succ_pred_eq_of_pos h.capacity_pos).symm⟩
  rw [hn] at hused ⊢
  cases act with
  | get key =>
    cases he : c.entries.find? fun e => e.1 == key with
    | none =>
      rw [Act.on, Act.use?, get?_of_new h he]
      exact hused
    | some e =>
      have hknown : amid c.keys key = true := by
        rw [← contains_eq_amid h, contains_eq h, listed, he]
        rfl
      rw [Act.on, Act.use?, get?_of_found h he]
      show Alike (e.1 :: (c.others key).map Prod.fst) _
      rw [keys_others h]
      exact hused.again hknown (beq_of_find? he)
  | put key value =>
    cases he : c.entries.find? fun e => e.1 == key with
    | none =>
      have hnew : amid c.keys key = false := by
        rw [← contains_eq_amid h, contains_eq h, listed, he]
        rfl
      have hfront : c.withRoom.keys = c.keys.take n := by
        have hroom := h.room
        rw [keys, keys, entries_withRoom h]
        split
        · rw [List.take_of_length_le]
          rw [List.length_map]
          omega
        · rw [← List.map_take, List.dropLast_eq_take]
          congr 2
          omega
      rw [Act.on, put_of_new h he]
      show Alike (key :: c.withRoom.keys) _
      rw [hfront]
      exact hused.anew hnew
    | some e =>
      have hknown : amid c.keys key = true := by
        rw [← contains_eq_amid h, contains_eq h, listed, he]
        rfl
      rw [Act.on, put_of_found h he]
      show Alike (e.1 :: (c.others key).map Prod.fst) _
      rw [keys_others h]
      exact hused.again hknown (beq_of_find? he)
  | contains key => exact hused
  | erase key => cases hact
  | clear => cases hact

/-- **The keys of a table are the keys that were used**, the latest first and each of them once, as far
as there is room. -/
theorem keys_left (hacts : ∀ act ∈ acts, act.keeps = true) (capacity : Nat) :
    Alike (left acts capacity).keys
      ((uses acts (ofCapacity capacity)).reverse.eraseDups.take (max capacity 1)) := by
  induction acts using List.reverseRecOn with
  | nil =>
    rw [uses, List.reverse_nil, List.eraseDups_nil, List.take_nil]
    exact .nil
  | append_singleton acts act ih =>
    have hbefore := ih fun a ha => hacts a (List.mem_append_left _ ha)
    rw [← capacity_left acts capacity] at hbefore ⊢
    have hstep := keys_on (inStep_left acts capacity) (hacts act List.mem_concat_self) hbefore
    rw [left_concat, uses_concat, List.reverse_append]
    have htoList : (act.use? (left acts capacity)).toList.reverse =
        (act.use? (left acts capacity)).toList := by
      cases act.use? (left acts capacity) <;> rfl
    show Alike _ (((act.use? (left acts capacity)).toList.reverse ++ _).eraseDups.take _)
    rw [htoList]
    exact hstep

/-- Whether a value was ever put under a key. -/
def WasPut (acts : List (Act κ ν)) (key : κ) : Prop := ∃ k value, .put k value ∈ acts ∧ (k == key) = true

/-- What is found was put. -/
theorem wasPut_of_get? {capacity : Nat} (h : ((left acts capacity).get? key).1.isSome = true) :
    WasPut acts key := by
  obtain ⟨value, hvalue⟩ := Option.isSome_iff_exists.mp h
  obtain ⟨before, k, since, rfl, hkey, -⟩ := (get?_left_iff acts capacity key value).mp hvalue
  exact ⟨k, value, by simp, hkey⟩

/-- A key that was ever put was used, and the other way round. -/
theorem amid_uses_iff (acts : List (Act κ ν)) (capacity : Nat) (key : κ) :
    amid (uses acts (ofCapacity capacity)) key = true ↔ WasPut acts key := by
  induction acts using List.reverseRecOn with
  | nil => simp [uses, amid, WasPut]
  | append_singleton acts act ih =>
    have hlast : amid (act.use? (left acts capacity)).toList key = true →
        WasPut (acts ++ [act]) key := by
      cases act with
      | get k =>
        intro hused
        rw [use?] at hused
        split at hused
        · next hfound =>
          obtain ⟨k', value, hput, hsame⟩ := wasPut_of_get? hfound
          have hkey : (k == key) = true := by simpa [amid] using hused
          exact ⟨k', value, List.mem_append_left _ hput, PartialEquivBEq.trans hsame hkey⟩
        · cases hused
      | put k value =>
        intro hused
        exact ⟨k, value, List.mem_concat_self, by simpa [use?, amid] using hused⟩
      | _ => exact fun hused => nomatch hused
    rw [uses_concat, amid, List.any_append, Bool.or_eq_true]
    constructor
    · rintro (hused | hused)
      · obtain ⟨k, value, hput, hkey⟩ := ih.mp hused
        exact ⟨k, value, List.mem_append_left _ hput, hkey⟩
      · exact hlast hused
    · rintro ⟨k, value, hput, hkey⟩
      rcases List.mem_append.mp hput with hput | hput
      · exact .inl (ih.mpr ⟨k, value, hput, hkey⟩)
      · rw [← List.mem_singleton.mp hput]
        exact .inr (by simp [use?, hkey])

/-- **A key is present** if it was put and fewer other keys were used since its last use than there is
room for, in a history in which nothing is erased or cleared. -/
theorem contains_left_iff (hacts : ∀ act ∈ acts, act.keeps = true) (capacity : Nat) (key : κ) :
    (left acts capacity).contains key = true ↔
      WasPut acts key ∧ (usedSince acts capacity key).eraseDups.length < max capacity 1 := by
  rw [contains_eq_amid (inStep_left acts capacity), (keys_left hacts capacity).amid_eq, amid_take_iff,
    amid_eraseDups, infront_eraseDups, ← amid_uses_iff acts capacity key, amid, amid, List.any_reverse]
  rfl

end Presence

end AccessControl.Lru
