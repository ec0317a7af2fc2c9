import AccessControl.Proofs.Regex.Language
import AccessControl.Regex.Match

/-!
# The search is sound and complete

A search is a function on continuations.  It is sound (`Finds`) if it goes on only behind a text of its
language and leaves the groups alone that it does not capture, also where it fails; it is complete
(`Covers`) if it succeeds wherever some text of the language leads to places from which the continuation
succeeds.  The matcher is sound for every expression (`finds_run`), the language being that of the
expression if this is plain and any text otherwise.  For a plain expression it is complete too
(`covers_run`), although it may enter the body of a repetition only twice at one place: a cursor is fresh
at a path (`Cursor.FreshAt`) if every repetition there was last entered further to the left, and a search
by copies that are not empty keeps it so.
-/

namespace AccessControl.Regex

namespace Outcome

/-- The groups of an outcome that is a match. -/
def captures? : Outcome → Option Captures
  | .matched caps => some caps
  | .failed _ => none

/-- Whether an outcome is a match. -/
def Succeeds (o : Outcome) : Prop := ∃ caps, o = .matched caps

theorem not_succeeds_fail (c : Cursor) : ¬ c.fail.Succeeds := nofun

theorem matched_of_orElse {o : Outcome} {next : Captures → Outcome} {caps : Captures}
    (h : o.orElse next = .matched caps) :
    o = .matched caps ∨ ∃ caps', o = .failed caps' ∧ next caps' = .matched caps := by
  cases o with
  | matched _ => exact .inl h
  | failed caps' => exact .inr ⟨caps', rfl, h⟩

theorem failed_of_orElse {o : Outcome} {next : Captures → Outcome} {caps : Captures}
    (h : o.orElse next = .failed caps) : ∃ caps', o = .failed caps' ∧ next caps' = .failed caps := by
  cases o with
  | matched _ => cases h
  | failed caps' => exact ⟨caps', rfl, h⟩

theorem resetting_eq_matched {o : Outcome} {n : Nat} {old : Option Bytes} {caps : Captures} :
    o.resetting n old = .matched caps ↔ o = .matched caps := by
  cases o with
  | matched _ => exact Iff.rfl
  | failed _ => exact ⟨nofun, nofun⟩

theorem failed_of_resetting {o : Outcome} {n : Nat} {old : Option Bytes} {caps : Captures}
    (h : o.resetting n old = .failed caps) : ∃ caps', o = .failed caps' ∧ caps = caps'.set (n - 1) old := by
  cases o with
  | matched _ => cases h
  | failed caps' =>
    cases h
    exact ⟨caps', rfl, rfl⟩

theorem Succeeds.orElse {o : Outcome} (h : o.Succeeds) (next : Captures → Outcome) :
    (o.orElse next).Succeeds := by
  obtain ⟨caps, rfl⟩ := h
  exact ⟨caps, rfl⟩

theorem succeeds_orElse_next (o : Outcome) {next : Captures → Outcome}
    (h : ∀ caps, (next caps).Succeeds) : (o.orElse next).Succeeds := by
  cases o with
  | matched caps => exact ⟨caps, rfl⟩
  | failed caps => exact h caps

theorem succeeds_resetting {o : Outcome} {n : Nat} {old : Option Bytes} :
    (o.resetting n old).Succeeds ↔ o.Succeeds := by
  cases o with
  | matched caps => exact Iff.rfl
  | failed caps => exact ⟨nofun, nofun⟩

end Outcome

/-! ## Groups that are left alone -/

/-- Two rows of groups are equally long and begin with the same `b` groups. -/
structure Agree (b : Nat) (caps caps' : Captures) : Prop where
  length : caps'.length = caps.length
  take : caps'.take b = caps.take b

namespace Agree

variable {b : Nat} {caps caps' caps'' : Captures}

theorem refl (caps : Captures) : Agree b caps caps := ⟨rfl, rfl⟩

theorem trans (h : Agree b caps caps') (h' : Agree b caps' caps'') : Agree b caps caps'' :=
  ⟨h'.length.trans h.length, h'.take.trans h.take⟩

theorem set (h : Agree b caps caps') {i : Nat} (hi : b ≤ i) (t : Option Bytes) :
    Agree b caps (caps'.set i t) :=
  ⟨by rw [List.length_set, h.length], by rw [List.take_set_of_le hi, h.take]⟩

theorem mono (h : Agree b caps caps') {b' : Nat} (hb : b' ≤ b) : Agree b' caps caps' := by
  refine ⟨h.length, ?_⟩
  rw [← Nat.min_eq_left hb, ← List.take_take, h.take, List.take_take]

theorem merged_self (caps : Captures) : merged caps caps = caps := by
  induction caps with
  | nil => rfl
  | cons t caps ih =>
    show t.or t :: Regex.merged caps caps = t :: caps
    rw [ih, Option.or_self]

theorem merged (h : Agree b caps caps') : Agree b caps (merged caps caps') := by
  refine ⟨?_, ?_⟩
  · rw [Regex.merged, List.length_zipWith, h.length, Nat.min_self]
  · rw [Regex.merged, List.take_zipWith, h.take]
    exact merged_self _

/-- Below `b` the groups are the same. -/
theorem getElem? (h : Agree b caps caps') {i : Nat} (hi : i < b) : caps'[i]? = caps[i]? := by
  rw [← List.getElem?_take_of_lt hi, h.take, List.getElem?_take_of_lt hi]

end Agree

/-- Whether an expression captures none of the first `b` groups. -/
def spares (b : Nat) : Regex → Bool
  | .group n r => decide (b ≤ n - 1) && r.spares b
  | .seq r s | .alt r s => r.spares b && s.spares b
  | .look _ r | .star _ r | .plus _ r | .optional _ r | .counted _ _ _ r => r.spares b
  | _ => true

theorem spares_zero (r : Regex) : r.spares 0 = true := by
  induction r with
  | seq r s ihr ihs | alt r s ihr ihs => rw [spares, ihr, ihs, Bool.and_true]
  | group _ r ih => exact ih
  | look _ r ih | star _ r ih | plus _ r ih | optional _ r ih | counted _ _ _ r ih => exact ih
  | _ => rfl

/-! ## Soundness -/

/-- A cursor stands behind another and the text `x`, with the same first `b` groups. -/
structure Cursor.Passes (b : Nat) (x : Bytes) (c d : Cursor) : Prop where
  rest : c.rest = x ++ d.rest
  position : d.position = c.position + x.length
  captures : Agree b c.captures d.captures

/-- Where the continuation fails it leaves the first `b` groups as they were. -/
def Keeps (b : Nat) (k : Rest) : Prop := ∀ c caps, k c = .failed caps → Agree b c.captures caps

/-- The search goes on only behind a text of the language, and leaves the first `b` groups alone. -/
structure Finds (b : Nat) (language : Bytes → Prop) (search : Rest → Rest) : Prop where
  keeps : ∀ k, Keeps b k → Keeps b (search k)
  finds : ∀ k, Keeps b k → ∀ c caps, search k c = .matched caps →
    ∃ x d, c.Passes b x d ∧ language x ∧ k d = .matched caps

section Finds

variable {b : Nat} {language : Bytes → Prop} {k exit : Rest} {c d e : Cursor} {caps : Captures}
  {x y : Bytes}

theorem Cursor.Passes.of_agree (h : Agree b c.captures caps) : c.Passes b [] (c.withCaptures caps) :=
  ⟨rfl, rfl, h⟩

theorem Cursor.Passes.refl (c : Cursor) : c.Passes b [] c := ⟨rfl, rfl, .refl _⟩

theorem Cursor.Passes.trans (h : c.Passes b x d) (h' : d.Passes b y e) : c.Passes b (x ++ y) e := by
  refine ⟨?_, ?_, h.captures.trans h'.captures⟩
  · rw [h.rest, h'.rest, List.append_assoc]
  · rw [h'.position, h.position, List.length_append, Nat.add_assoc]

theorem Cursor.captures_advance (c : Cursor) (n : Nat) : (c.advance n).captures = c.captures := by
  unfold Cursor.advance
  split <;> rfl

theorem Cursor.passes_advance (h : c.rest = x ++ y) : c.Passes b x (c.advance x.length) := by
  refine ⟨?_, ?_, ?_⟩
  · unfold Cursor.advance
    split
    · next hx => rw [List.length_eq_zero_iff.mp hx, List.nil_append]
    · rw [h, List.drop_left]
  · unfold Cursor.advance
    split
    · next hx => rw [hx, Nat.add_zero]
    · rfl
  · rw [Cursor.captures_advance]
    exact .refl _

theorem keeps_advance (hk : Keeps b k) (n : Nat) : Keeps b fun c => k (c.advance n) := by
  intro c caps h
  have hcaps := hk _ _ h
  rwa [Cursor.captures_advance] at hcaps

theorem keeps_fail (h : c.fail = .failed caps) : Agree b c.captures caps := by
  cases h
  exact .refl _

theorem keeps_require {condition : Bool} (hk : Keeps b k) : Keeps b (require condition k) := by
  intro c caps h
  unfold require at h
  split at h
  · exact hk c caps h
  · exact keeps_fail h

theorem matched_of_require {condition : Bool} (h : require condition k c = .matched caps) :
    condition = true ∧ k c = .matched caps := by
  unfold require at h
  split at h
  · next hcondition => exact ⟨hcondition, h⟩
  · cases h

theorem keeps_consume {test : UInt8 → Bool} (hk : Keeps b k) : Keeps b (consume test k) := by
  intro c caps h
  unfold consume at h
  split at h
  · split at h
    · exact keeps_advance hk 1 c caps h
    · exact keeps_fail h
  · exact keeps_fail h

theorem finds_consume {test : UInt8 → Bool} (h : consume test k c = .matched caps) :
    ∃ a, c.Passes b [a] (c.advance 1) ∧ test a = true ∧ k (c.advance 1) = .matched caps := by
  unfold consume at h
  cases hrest : c.rest with
  | nil =>
    rw [hrest] at h
    cases h
  | cons a rest =>
    rw [hrest] at h
    simp only at h
    split at h
    · next htest => exact ⟨a, Cursor.passes_advance hrest, htest, h⟩
    · cases h

/-- Behind its body a group is captured, and given back if the rest fails. -/
theorem keeps_capture {n : Nat} (hn : b ≤ n - 1) (hk : Keeps b k) (start : Cursor) :
    Keeps b fun d => (k (d.capture n start)).resetting n (d.group? n) := by
  intro d caps h
  obtain ⟨caps', hfailed, rfl⟩ := Outcome.failed_of_resetting h
  exact (((Agree.refl _).set hn _).trans (hk _ _ hfailed)).set hn _

/-- What is captured is the text that was passed. -/
theorem Cursor.Passes.captures_capture (h : c.Passes b x d) (n : Nat) :
    (d.capture n c).captures = d.captures.set (n - 1) (some x) := by
  have htext : c.rest.take (d.position - c.position) = x := by
    rw [h.position, Nat.add_sub_cancel_left, h.rest, List.take_left]
  rw [Cursor.capture, htext]
  rfl

section Branch

variable {greedy : Bool} {path : Path} {body : Rest}

/-- Into the body of a repetition, if it may be entered. -/
def entered (path : Path) (body : Rest) (c : Cursor) : Outcome :=
  if c.mayEnter path then body (c.enter path) else c.fail

theorem branch_eq : branch greedy path body exit c =
    if greedy then (entered path body c).orElse fun caps => exit (c.withCaptures caps)
    else (exit c).orElse fun caps => entered path body (c.withCaptures caps) := rfl

theorem keeps_entered (hbody : Keeps b body) : Keeps b (entered path body) := by
  intro c caps h
  unfold entered at h
  split at h
  · have hcaps := hbody (c.enter path) caps h
    exact hcaps
  · exact keeps_fail h

theorem matched_of_entered (h : entered path body c = .matched caps) :
    body (c.enter path) = .matched caps := by
  unfold entered at h
  split at h
  · exact h
  · cases h

theorem keeps_orElse {f g : Rest} (hf : Keeps b f) (hg : Keeps b g) :
    Keeps b fun c => (f c).orElse fun caps => g (c.withCaptures caps) := by
  intro c caps h
  obtain ⟨caps', hf', hg'⟩ := Outcome.failed_of_orElse h
  exact (hf _ _ hf').trans (hg _ _ hg')

/-- One of two alternatives succeeds, at the same place. -/
theorem finds_orElse {f g : Rest} (hf : Keeps b f)
    (h : ((f c).orElse fun caps => g (c.withCaptures caps)) = .matched caps) :
    ∃ d, c.Passes b [] d ∧ (f d = .matched caps ∨ g d = .matched caps) := by
  rcases Outcome.matched_of_orElse h with h | ⟨caps', hf', h⟩
  · exact ⟨c, .refl c, .inl h⟩
  · exact ⟨_, .of_agree (hf _ _ hf'), .inr h⟩

theorem keeps_branch (hbody : Keeps b body) (hexit : Keeps b exit) :
    Keeps b (branch greedy path body exit) := by
  intro c caps h
  rw [branch_eq] at h
  split at h
  · exact keeps_orElse (keeps_entered hbody) hexit c caps h
  · exact keeps_orElse hexit (keeps_entered hbody) c caps h

/-- A branch goes into the body or past it, at the same place. -/
theorem finds_branch (hbody : Keeps b body) (hexit : Keeps b exit)
    (h : branch greedy path body exit c = .matched caps) :
    ∃ d, c.Passes b [] d ∧ (body d = .matched caps ∨ exit d = .matched caps) := by
  have hinto (d : Cursor) (hd : c.Passes b [] d) (h : entered path body d = .matched caps) :
      ∃ d, c.Passes b [] d ∧ (body d = .matched caps ∨ exit d = .matched caps) :=
    ⟨d.enter path, ⟨hd.rest, hd.position, hd.captures⟩, .inl (matched_of_entered h)⟩
  rw [branch_eq] at h
  split at h
  · obtain ⟨d, hd, h | h⟩ := finds_orElse (keeps_entered hbody) h
    · exact hinto d hd h
    · exact ⟨d, hd, .inr h⟩
  · obtain ⟨d, hd, h | h⟩ := finds_orElse hexit h
    · exact ⟨d, hd, .inr h⟩
    · exact hinto d hd h

end Branch

theorem keeps_loop {body : Rest → Rest} (hbody : Finds b language body) {greedy : Bool} {path : Path}
    (hexit : Keeps b exit) (fuel : Nat) : Keeps b (loop greedy path body exit fuel) := by
  induction fuel with
  | zero => exact hexit
  | succ fuel ih => exact keeps_branch (hbody.keeps _ ih) hexit

theorem finds_loop {body : Rest → Rest} (hbody : Finds b language body) {greedy : Bool} {path : Path}
    (hexit : Keeps b exit) {fuel : Nat} (h : loop greedy path body exit fuel c = .matched caps) :
    ∃ (parts : List Bytes) (d : Cursor), c.Passes b parts.flatten d ∧
      (∀ y ∈ parts, language y) ∧ exit d = .matched caps := by
  induction fuel generalizing c with
  | zero => exact ⟨[], c, .refl c, nofun, h⟩
  | succ fuel ih =>
    have hloop : Keeps b (loop greedy path body exit fuel) := keeps_loop hbody hexit fuel
    obtain ⟨c', hc', h | h⟩ := finds_branch (hbody.keeps _ hloop) hexit h
    · obtain ⟨x, d, hx, hlanguage, h⟩ := hbody.finds _ hloop _ _ h
      obtain ⟨parts, e, hparts, hall, h⟩ := ih h
      exact ⟨x :: parts, e, hc'.trans (hx.trans hparts), List.forall_mem_cons.mpr ⟨hlanguage, hall⟩, h⟩
    · exact ⟨[], c', hc', nofun, h⟩

section Copies

variable {body : Path → Rest → Rest} {path : Path}

theorem keeps_copies (hbody : ∀ path, Finds b language (body path)) (hexit : Keeps b exit)
    (first count : Nat) : Keeps b (copies body path first count exit) := by
  induction count generalizing first with
  | zero => exact hexit
  | succ count ih => exact (hbody _).keeps _ (ih (first + 1))

theorem finds_copies (hbody : ∀ path, Finds b language (body path)) (hexit : Keeps b exit)
    {first count : Nat} (h : copies body path first count exit c = .matched caps) :
    ∃ (parts : List Bytes) (d : Cursor), c.Passes b parts.flatten d ∧
      (∀ y ∈ parts, language y) ∧ parts.length = count ∧ exit d = .matched caps := by
  induction count generalizing first c with
  | zero => exact ⟨[], c, .refl c, nofun, rfl, h⟩
  | succ count ih =>
    obtain ⟨x, d, hx, hlanguage, h⟩ := (hbody _).finds _ (keeps_copies hbody hexit (first + 1) count) _ _ h
    obtain ⟨parts, e, hparts, hall, hcount, h⟩ := ih h
    exact ⟨x :: parts, e, hx.trans hparts, List.forall_mem_cons.mpr ⟨hlanguage, hall⟩,
      congrArg (· + 1) hcount, h⟩

theorem keeps_upTo (hbody : ∀ path, Finds b language (body path)) {greedy : Bool} (hexit : Keeps b exit)
    (first count : Nat) : Keeps b (upTo greedy body path first count exit) := by
  induction count generalizing first with
  | zero => exact hexit
  | succ count ih => exact keeps_branch ((hbody _).keeps _ (ih (first + 1))) hexit

theorem finds_upTo (hbody : ∀ path, Finds b language (body path)) {greedy : Bool} (hexit : Keeps b exit)
    {first count : Nat} (h : upTo greedy body path first count exit c = .matched caps) :
    ∃ (parts : List Bytes) (d : Cursor), c.Passes b parts.flatten d ∧
      (∀ y ∈ parts, language y) ∧ parts.length ≤ count ∧ exit d = .matched caps := by
  induction count generalizing first c with
  | zero => exact ⟨[], c, .refl c, nofun, Nat.le_refl 0, h⟩
  | succ count ih =>
    have hmore : Keeps b (upTo greedy body path (first + 1) count exit) :=
      keeps_upTo hbody hexit (first + 1) count
    obtain ⟨c', hc', h | h⟩ := finds_branch ((hbody _).keeps _ hmore) hexit h
    · obtain ⟨x, d, hx, hlanguage, h⟩ := (hbody _).finds _ hmore _ _ h
      obtain ⟨parts, e, hparts, hall, hcount, h⟩ := ih h
      exact ⟨x :: parts, e, hc'.trans (hx.trans hparts), List.forall_mem_cons.mpr ⟨hlanguage, hall⟩,
        Nat.succ_le_succ hcount, h⟩
    · exact ⟨[], c', hc', nofun, Nat.zero_le _, h⟩

end Copies

end Finds

/-- A plain part of the language of an expression that need not be plain. -/
theorem finds_of_consume {test : UInt8 → Bool} {language : Bytes → Prop} {b : Nat}
    (h : ∀ a, test a = true → language [a]) : Finds b language (consume test) where
  keeps _ := keeps_consume
  finds _ _ _ _ hmatched := by
    obtain ⟨a, hpasses, htest, hk⟩ := finds_consume hmatched
    exact ⟨[a], _, hpasses, h a htest, hk⟩

theorem finds_of_require {condition : Cursor → Bool} {language : Bytes → Prop} {b : Nat}
    (h : language []) : Finds b language fun k c => require (condition c) k c where
  keeps _ hk c := keeps_require hk c
  finds _ _ c _ hmatched := ⟨[], c, .refl c, h, (matched_of_require hmatched).2⟩

/-- **The matcher is sound.**  It leaves the groups alone that the expression spares, and goes on only
behind a text of the language if the expression is plain. -/
theorem finds_run {r : Regex} {b : Nat} (hspares : r.spares b = true) (path : Path) :
    Finds b (fun x => r.isPlain = true → r.Matches x) (r.run path) := by
  induction r generalizing path with
  | empty => exact ⟨fun _ hk => hk, fun _ _ c _ h => ⟨[], c, .refl c, fun _ => rfl, h⟩⟩
  | byte a => exact finds_of_consume fun a' ha _ => congrArg ([·]) (eq_of_beq ha)
  | any => exact finds_of_consume fun a ha _ => ⟨a, rfl, by simpa using ha⟩
  | set s => exact finds_of_consume fun a ha _ => ⟨a, rfl, ha⟩
  | lineStart | lineEnd | wordBoundary _ => exact finds_of_require nofun
  | seq r s ihr ihs =>
    obtain ⟨hr, hs⟩ := Bool.and_eq_true_iff.mp hspares
    refine ⟨fun k hk => (ihr hr _).keeps _ ((ihs hs _).keeps _ hk), fun k hk c caps h => ?_⟩
    obtain ⟨x, d, hx, hrx, h⟩ := (ihr hr _).finds _ ((ihs hs _).keeps _ hk) _ _ h
    obtain ⟨y, e, hy, hsy, h⟩ := (ihs hs _).finds _ hk _ _ h
    refine ⟨x ++ y, e, hx.trans hy, fun hplain => ?_, h⟩
    obtain ⟨hrplain, hsplain⟩ := Bool.and_eq_true_iff.mp hplain
    exact ⟨x, y, rfl, hrx hrplain, hsy hsplain⟩
  | alt r s ihr ihs =>
    obtain ⟨hr, hs⟩ := Bool.and_eq_true_iff.mp hspares
    refine ⟨fun k hk => keeps_orElse ((ihr hr _).keeps _ hk) ((ihs hs _).keeps _ hk),
      fun k hk c caps h => ?_⟩
    obtain ⟨c', hc', h | h⟩ := finds_orElse ((ihr hr _).keeps _ hk) h
    · obtain ⟨x, d, hx, hrx, h⟩ := (ihr hr _).finds _ hk _ _ h
      exact ⟨x, d, hc'.trans hx, fun hplain => .inl (hrx (Bool.and_eq_true_iff.mp hplain).1), h⟩
    · obtain ⟨x, d, hx, hsx, h⟩ := (ihs hs _).finds _ hk _ _ h
      exact ⟨x, d, hc'.trans hx, fun hplain => .inr (hsx (Bool.and_eq_true_iff.mp hplain).2), h⟩
  | group n r ih =>
    obtain ⟨hn, hr⟩ := Bool.and_eq_true_iff.mp hspares
    have hn : b ≤ n - 1 := of_decide_eq_true hn
    refine ⟨fun k hk c => (ih hr _).keeps _ (keeps_capture hn hk c) c, fun k hk c caps h => ?_⟩
    obtain ⟨x, d, hx, hrx, h⟩ := (ih hr _).finds _ (keeps_capture hn hk c) _ _ h
    exact ⟨x, d.capture n c, ⟨hx.rest, hx.position, hx.captures.set hn _⟩, hrx,
      Outcome.resetting_eq_matched.mp h⟩
  | backref n =>
    refine ⟨fun k hk c caps h => ?_, fun k hk c caps h => ?_⟩
    · unfold run at h
      split at h
      · next t _ => exact keeps_require (keeps_advance hk t.length) c caps h
      · exact keeps_fail h
    · unfold run at h
      split at h
      · next t _ =>
        obtain ⟨hahead, h⟩ := matched_of_require h
        obtain ⟨y, hy⟩ := List.isPrefixOf_iff_prefix.mp hahead
        exact ⟨t, _, Cursor.passes_advance hy.symm, nofun, h⟩
      · cases h
  | look negated r ih =>
    have hcaptures : Keeps b fun d => .matched d.captures := nofun
    refine ⟨fun k hk c caps h => ?_, fun k hk c caps h => ?_⟩
    · unfold run at h
      split at h
      · next caps' hmatched =>
        obtain ⟨x, d, hx, -, hd⟩ := (ih hspares _).finds _ hcaptures _ _ hmatched
        cases hd
        exact hx.captures.merged.trans (keeps_require hk _ caps h)
      · exact keeps_require hk c caps h
    · unfold run at h
      split at h
      · next caps' hmatched =>
        obtain ⟨x, d, hx, -, hd⟩ := (ih hspares _).finds _ hcaptures _ _ hmatched
        cases hd
        exact ⟨[], _, .of_agree hx.captures.merged, nofun, (matched_of_require h).2⟩
      · exact ⟨[], c, .refl c, nofun, (matched_of_require h).2⟩
  | star greedy r ih =>
    refine ⟨fun k hk c => keeps_loop (ih hspares _) hk _ c, fun k hk c caps h => ?_⟩
    -- every round of the loop reads one part
    obtain ⟨parts, d, hparts, hall, h⟩ := finds_loop (ih hspares _) hk h
    exact ⟨parts.flatten, d, hparts, fun hplain =>
      ⟨parts, rfl, fun y hy => hall y hy hplain, Nat.zero_le _, nofun⟩, h⟩
  | plus greedy r ih =>
    have hloop {k : Rest} (hk : Keeps b k) :
        Keeps b fun d => loop greedy path (r.run (0 :: path)) k (entries d) d :=
      fun d => keeps_loop (ih hspares _) hk _ d
    refine ⟨fun k hk => (ih hspares _).keeps _ (hloop hk), fun k hk c caps h => ?_⟩
    obtain ⟨x, d, hx, hrx, h⟩ := (ih hspares _).finds _ (hloop hk) _ _ h
    obtain ⟨parts, e, hparts, hall, h⟩ := finds_loop (ih hspares _) hk h
    exact ⟨x ++ parts.flatten, e, hx.trans hparts, fun hplain =>
      ⟨x :: parts, rfl, List.forall_mem_cons.mpr ⟨hrx hplain, fun y hy => hall y hy hplain⟩,
        Nat.le_add_left 1 _, nofun⟩, h⟩
  | optional greedy r ih =>
    refine ⟨fun k hk => keeps_branch ((ih hspares _).keeps _ hk) hk, fun k hk c caps h => ?_⟩
    obtain ⟨c', hc', h | h⟩ := finds_branch ((ih hspares _).keeps _ hk) hk h
    · obtain ⟨x, d, hx, hrx, h⟩ := (ih hspares _).finds _ hk _ _ h
      refine ⟨x, d, hc'.trans hx, fun hplain => ?_, h⟩
      refine ⟨[x], (List.append_nil x).symm, ?_, Nat.zero_le _, fun n hn => ?_⟩
      · exact List.forall_mem_cons.mpr ⟨hrx hplain, nofun⟩
      · cases hn
        exact Nat.le_refl 1
    · exact ⟨[], c', hc', fun _ => ⟨[], rfl, nofun, Nat.zero_le _, fun n _ => Nat.zero_le _⟩, h⟩
  | counted least extra greedy r ih =>
    have hbody (path : Path) := ih hspares path
    cases extra with
    | none =>
      have hloop {k : Rest} (hk : Keeps b k) :
          Keeps b fun d => loop greedy (least :: path) (r.run (0 :: least :: path)) k (entries d) d :=
        fun d => keeps_loop (hbody _) hk _ d
      refine ⟨fun k hk => keeps_copies hbody (hloop hk) 0 least, fun k hk c caps h => ?_⟩
      obtain ⟨required, d, hrequired, hall, hcount, h⟩ := finds_copies hbody (hloop hk) h
      obtain ⟨more, e, hmore, hallMore, h⟩ := finds_loop (hbody _) hk h
      exact ⟨required.flatten ++ more.flatten, e, hrequired.trans hmore, fun hplain =>
        .of_parts (fun y hy => hall y hy hplain) (fun y hy => hallMore y hy hplain) hcount nofun, h⟩
    | some n =>
      have hup {k : Rest} (hk : Keeps b k) :
          Keeps b fun d => upTo greedy r.run path least n k d :=
        keeps_upTo hbody hk least n
      refine ⟨fun k hk => keeps_copies hbody (hup hk) 0 least, fun k hk c caps h => ?_⟩
      obtain ⟨required, d, hrequired, hall, hcount, h⟩ := finds_copies hbody (hup hk) h
      obtain ⟨more, e, hmore, hallMore, hmost, h⟩ := finds_upTo hbody hk h
      refine ⟨required.flatten ++ more.flatten, e, hrequired.trans hmore, fun hplain => ?_, h⟩
      refine .of_parts (fun y hy => hall y hy hplain) (fun y hy => hallMore y hy hplain) hcount
        fun m hm => ?_
      cases hm
      exact hmost

/-! ## Fresh places -/

namespace Cursor

variable {c d e : Cursor} {path path' : Path}

/-- Every repetition at the path or below was last entered further to the left. -/
def FreshAt (path : Path) (c : Cursor) : Prop :=
  ∀ p v, path <:+ p → c.visits.lookup p = some v → v.position < c.position

/-- From one cursor to another nothing was entered that the second has not left behind. -/
def Leads (c d : Cursor) : Prop :=
  c.position ≤ d.position ∧
    ∀ p v, d.visits.lookup p = some v → c.visits.lookup p = some v ∨ v.position < d.position

theorem Leads.refl (c : Cursor) : c.Leads c := ⟨Nat.le_refl _, fun _ _ h => .inl h⟩

theorem Leads.trans (h : c.Leads d) (h' : d.Leads e) : c.Leads e := by
  refine ⟨Nat.le_trans h.1 h'.1, fun p v hv => ?_⟩
  rcases h'.2 p v hv with hv | hv
  · exact (h.2 p v hv).imp id fun hlt => Nat.lt_of_lt_of_le hlt h'.1
  · exact .inr hv

theorem FreshAt.of_suffix (h : c.FreshAt path) (hpath : path <:+ path') : c.FreshAt path' :=
  fun p v hp => h p v (hpath.trans hp)

theorem FreshAt.cons (h : c.FreshAt path) (n : Nat) : c.FreshAt (n :: path) :=
  h.of_suffix (List.suffix_cons n path)

theorem FreshAt.of_leads (h : c.FreshAt path) (hd : c.Leads d) : d.FreshAt path := by
  intro p v hp hv
  rcases hd.2 p v hv with hv | hv
  · exact Nat.lt_of_lt_of_le (h p v hp hv) hd.1
  · exact hv

theorem lookup_filter_ne {visits : List (Path × Visit)} {p : Path} (h : p ≠ path) :
    (visits.filter fun v => v.1 != path).lookup p = visits.lookup p := by
  induction visits with
  | nil => rfl
  | cons v visits ih =>
    obtain ⟨p', v⟩ := v
    by_cases hp' : p' = path
    · have hne : (p == p') = false := by simpa [hp'] using h
      rw [List.filter_cons_of_neg (by simpa using hp'), ih, List.lookup_cons, hne]
    · rw [List.filter_cons_of_pos (by simpa using hp'), List.lookup_cons, List.lookup_cons, ih]

theorem lookup_enter_of_ne (c : Cursor) {p : Path} (h : p ≠ path) :
    (c.enter path).visits.lookup p = c.visits.lookup p := by
  have hne : (p == path) = false := by simpa using h
  rw [enter, List.lookup_cons, hne]
  exact lookup_filter_ne h

theorem lookup_enter_self (c : Cursor) {v : Visit}
    (h : (c.enter path).visits.lookup path = some v) : v.position = c.position := by
  rw [enter, List.lookup_cons, beq_self_eq_true] at h
  cases h
  rfl

/-- A repetition may be entered at a fresh place. -/
theorem mayEnter_of_freshAt (h : c.FreshAt path) : c.mayEnter path = true := by
  unfold mayEnter
  cases hv : c.visits.lookup path with
  | none => rfl
  | some v =>
    have hlt := h path v (List.suffix_refl path) hv
    simp only [Bool.or_eq_true, bne_iff_ne]
    exact .inl (Nat.ne_of_lt hlt)

/-- Within a body everything is as fresh as it was in front of it. -/
theorem freshAt_enter (h : c.FreshAt path) (n : Nat) : (c.enter path).FreshAt (n :: path) := by
  intro p v hp hv
  have hne : p ≠ path := by
    rintro rfl
    have := hp.length_le
    rw [List.length_cons] at this
    omega
  rw [lookup_enter_of_ne c hne] at hv
  exact h p v ((List.suffix_cons n path).trans hp) hv

/-- Behind a body that is not empty its entry is left behind. -/
theorem leads_of_enter (h : (c.enter path).Leads d) (hlt : c.position < d.position) :
    c.Leads d := by
  refine ⟨h.1, fun p v hv => ?_⟩
  rcases h.2 p v hv with hv | hv
  · by_cases hp : p = path
    · subst hp
      rw [lookup_enter_self c hv]
      exact .inr hlt
    · rw [lookup_enter_of_ne c hp] at hv
      exact .inl hv
  · exact .inr hv

/-- The continuation succeeds at every place behind `x` that this cursor leads to. -/
def Reaches (c : Cursor) (x y : Bytes) (k : Rest) : Prop :=
  ∀ d : Cursor, d.rest = y → d.position = c.position + x.length → c.Leads d → (k d).Succeeds

end Cursor

/-! ## Completeness -/

/-- The search succeeds wherever a text of the language lies ahead behind which it can go on. -/
def Covers (path : Path) (language : Bytes → Prop) (search : Rest → Rest) : Prop :=
  ∀ k (c : Cursor) x y, language x → c.rest = x ++ y → c.FreshAt path → c.Reaches x y k →
    (search k c).Succeeds

section Covers

variable {language : Bytes → Prop} {path : Path} {k exit : Rest} {c d : Cursor} {x y z : Bytes}

/-- Behind the first of two texts the second lies ahead. -/
theorem Cursor.Reaches.behind (h : c.Reaches (x ++ y) z k)
    (hposition : d.position = c.position + x.length) (hleads : c.Leads d) : d.Reaches y z k := by
  intro e hrest he hd
  refine h e hrest ?_ (hleads.trans hd)
  rw [he, hposition, List.length_append, Nat.add_assoc]

theorem Cursor.Reaches.here (h : c.Reaches [] y k) (hrest : c.rest = y) (caps : Captures) :
    (k (c.withCaptures caps)).Succeeds := h _ hrest rfl (.refl c)

theorem covers_consume {test : UInt8 → Bool} {b : UInt8} (hb : test b = true)
    (hrest : c.rest = [b] ++ y) (hk : c.Reaches [b] y k) : (consume test k c).Succeeds := by
  have hadvance : (c.advance 1).rest = y := by simp [Cursor.advance, hrest]
  unfold consume
  rw [hrest]
  simp only [List.cons_append, List.nil_append, hb, if_true]
  exact hk _ hadvance rfl ⟨Nat.le_succ _, fun p v hv => .inl hv⟩

/-- A branch succeeds if it can be passed. -/
theorem covers_branch_exit {greedy : Bool} {body : Rest}
    (h : ∀ caps, (exit (c.withCaptures caps)).Succeeds) :
    (branch greedy path body exit c).Succeeds := by
  unfold branch
  cases greedy with
  | true => exact Outcome.succeeds_orElse_next _ h
  | false => exact Outcome.Succeeds.orElse (h c.captures) _

/-- A branch at a fresh place succeeds if its body does. -/
theorem covers_branch_body {greedy : Bool} {body : Rest} (hfresh : c.FreshAt path)
    (h : ∀ caps, (body ((c.withCaptures caps).enter path)).Succeeds) :
    (branch greedy path body exit c).Succeeds := by
  have entered (caps : Captures) : (if (c.withCaptures caps).mayEnter path then
      body ((c.withCaptures caps).enter path) else (c.withCaptures caps).fail).Succeeds := by
    rw [if_pos (Cursor.mayEnter_of_freshAt (c := c.withCaptures caps) hfresh)]
    exact h caps
  unfold branch
  cases greedy with
  | true => exact Outcome.Succeeds.orElse (entered c.captures) _
  | false => exact Outcome.succeeds_orElse_next _ entered

/-- A copy that is not empty goes through the body of a branch and leaves its entry behind. -/
theorem covers_branch_copy {greedy : Bool} {body : Rest → Rest} {n : Nat}
    (hbody : Covers (n :: path) language body) (hx : language x) (hne : x ≠ [])
    (hrest : c.rest = x ++ y) (hfresh : c.FreshAt path) (hk : c.Reaches x y k) :
    (branch greedy path (body k) exit c).Succeeds := by
  refine covers_branch_body hfresh fun caps => ?_
  have hfresh' : (c.withCaptures caps).FreshAt path := hfresh
  refine hbody k _ x y hx hrest (Cursor.freshAt_enter hfresh' n) ?_
  intro d hdrest hposition hleads
  have hlt : c.position < d.position := by
    have hpos : 0 < x.length := List.length_pos_iff.mpr hne
    have hposition : d.position = c.position + x.length := hposition
    omega
  exact hk d hdrest hposition (Cursor.leads_of_enter (c := c.withCaptures caps) hleads hlt)

theorem covers_loop {body : Rest → Rest} (hbody : Covers (0 :: path) language body) {greedy : Bool}
    {parts : List Bytes} {fuel : Nat} (hparts : ∀ y ∈ parts, language y ∧ y ≠ [])
    (hfuel : parts.length ≤ fuel) (hrest : c.rest = parts.flatten ++ y) (hfresh : c.FreshAt path)
    (hk : c.Reaches parts.flatten y exit) : (loop greedy path body exit fuel c).Succeeds := by
  induction fuel generalizing parts c with
  | zero =>
    obtain rfl : parts = [] := List.length_eq_zero_iff.mp (Nat.le_zero.mp hfuel)
    exact hk.here hrest c.captures
  | succ fuel ih =>
    cases parts with
    | nil => exact covers_branch_exit (hk.here hrest)
    | cons x parts =>
      obtain ⟨⟨hx, hne⟩, hparts⟩ := List.forall_mem_cons.mp hparts
      rw [List.flatten_cons] at hrest hk
      rw [List.append_assoc] at hrest
      refine covers_branch_copy hbody hx hne hrest hfresh fun d hdrest hposition hleads => ?_
      exact ih hparts (Nat.le_of_succ_le_succ hfuel) hdrest (hfresh.of_leads hleads)
        (hk.behind hposition hleads)

theorem covers_copies {body : Path → Rest → Rest} (hbody : ∀ path, Covers path language (body path))
    {parts : List Bytes} {first : Nat} (hparts : ∀ y ∈ parts, language y)
    (hrest : c.rest = parts.flatten ++ y) (hfresh : c.FreshAt path)
    (hk : c.Reaches parts.flatten y exit) :
    (copies body path first parts.length exit c).Succeeds := by
  induction parts generalizing first c with
  | nil => exact hk.here hrest c.captures
  | cons x parts ih =>
    obtain ⟨hx, hparts⟩ := List.forall_mem_cons.mp hparts
    rw [List.flatten_cons] at hrest hk
    rw [List.append_assoc] at hrest
    refine hbody (first :: path) _ c x _ hx hrest (hfresh.cons first) ?_
    intro d hdrest hposition hleads
    exact ih hparts hdrest (hfresh.of_leads hleads) (hk.behind hposition hleads)

theorem covers_upTo {body : Path → Rest → Rest} (hbody : ∀ path, Covers path language (body path))
    {greedy : Bool} {parts : List Bytes} {first count : Nat}
    (hparts : ∀ y ∈ parts, language y ∧ y ≠ []) (hcount : parts.length ≤ count)
    (hrest : c.rest = parts.flatten ++ y) (hfresh : c.FreshAt path)
    (hk : c.Reaches parts.flatten y exit) :
    (upTo greedy body path first count exit c).Succeeds := by
  induction count generalizing parts first c with
  | zero =>
    obtain rfl : parts = [] := List.length_eq_zero_iff.mp (Nat.le_zero.mp hcount)
    exact hk.here hrest c.captures
  | succ count ih =>
    cases parts with
    | nil => exact covers_branch_exit (hk.here hrest)
    | cons x parts =>
      obtain ⟨⟨hx, hne⟩, hparts⟩ := List.forall_mem_cons.mp hparts
      rw [List.flatten_cons] at hrest hk
      rw [List.append_assoc] at hrest
      refine covers_branch_copy (hbody _) hx hne hrest (hfresh.cons first) ?_
      intro d hdrest hposition hleads
      exact ih hparts (Nat.le_of_succ_le_succ hcount) hdrest (hfresh.of_leads hleads)
        (hk.behind hposition hleads)

/-- The entries allowed suffice for copies that are not empty. -/
theorem length_le_entries {parts : List Bytes} (hparts : ∀ y ∈ parts, language y ∧ y ≠ [])
    (hrest : c.rest = parts.flatten ++ y) : parts.length ≤ entries c := by
  have hle := length_le_flatten fun y hy => (hparts y hy).2
  have hlength := congrArg List.length hrest
  rw [List.length_append] at hlength
  unfold entries
  omega

end Covers

/-- **The matcher of a plain expression is complete.** -/
theorem covers_run {r : Regex} (hplain : r.isPlain = true) (path : Path) :
    Covers path r.Matches (r.run path) := by
  induction r generalizing path with
  | empty =>
    rintro k c x y rfl hrest - hk
    exact hk.here hrest c.captures
  | byte b =>
    rintro k c x y rfl hrest - hk
    exact covers_consume (beq_self_eq_true b) hrest hk
  | any =>
    rintro k c x y ⟨b, rfl, hb⟩ hrest - hk
    exact covers_consume (by simpa using hb) hrest hk
  | set s =>
    rintro k c x y ⟨b, rfl, hb⟩ hrest - hk
    exact covers_consume hb hrest hk
  | seq r s ihr ihs =>
    obtain ⟨hr, hs⟩ := Bool.and_eq_true_iff.mp hplain
    rintro k c _ z ⟨x, y, rfl, hx, hy⟩ hrest hfresh hk
    rw [List.append_assoc] at hrest
    refine ihr hr _ _ c x (y ++ z) hx hrest (hfresh.cons 0) fun d hdrest hposition hleads => ?_
    exact ihs hs _ k d y z hy hdrest ((hfresh.cons 1).of_leads hleads) (hk.behind hposition hleads)
  | alt r s ihr ihs =>
    obtain ⟨hr, hs⟩ := Bool.and_eq_true_iff.mp hplain
    rintro k c x y (hx | hx) hrest hfresh hk
    · exact Outcome.Succeeds.orElse (ihr hr _ k c x y hx hrest (hfresh.cons 0) hk) _
    · exact Outcome.succeeds_orElse_next _ fun caps =>
        ihs hs _ k (c.withCaptures caps) x y hx hrest (hfresh.cons 1) hk
  | group n r ih =>
    intro k c x y hx hrest hfresh hk
    refine ih hplain _ _ c x y hx hrest (hfresh.cons 0) fun d hdrest hposition hleads => ?_
    exact Outcome.succeeds_resetting.mpr (hk (d.capture n c) hdrest hposition hleads)
  | star greedy r ih =>
    intro k c x y hx hrest hfresh hk
    obtain ⟨required, more, rfl, hnone, -, hmore, -⟩ := hx.normal
    obtain rfl : required = [] := List.length_eq_zero_iff.mp hnone
    exact covers_loop (ih hplain _) hmore (length_le_entries hmore hrest) hrest hfresh hk
  | plus greedy r ih =>
    intro k c x y hx hrest hfresh hk
    -- one copy may be empty, all further ones are not
    obtain ⟨required, more, rfl, hone, hrequired, hmore, -⟩ := hx.normal
    obtain ⟨first, rfl⟩ := List.length_eq_one_iff.mp hone
    rw [List.append_assoc, List.flatten_singleton] at hrest
    rw [List.flatten_singleton] at hk
    refine ih hplain _ _ c first _ (hrequired first (List.mem_cons_self ..)) hrest (hfresh.cons 0) ?_
    intro d hdrest hposition hleads
    exact covers_loop (ih hplain _) hmore (length_le_entries hmore hdrest) hdrest
      (hfresh.of_leads hleads) (hk.behind hposition hleads)
  | optional greedy r ih =>
    intro k c x y hx hrest hfresh hk
    obtain ⟨required, more, rfl, hnone, -, hmore, hextra⟩ := hx.normal
    obtain rfl : required = [] := List.length_eq_zero_iff.mp hnone
    cases more with
    | nil => exact covers_branch_exit (hk.here hrest)
    | cons x more =>
      obtain rfl : more = [] := List.length_eq_zero_iff.mp (by simpa using hextra 1 rfl)
      obtain ⟨hx, hne⟩ := hmore x (List.mem_cons_self ..)
      rw [List.flatten_nil, List.nil_append, List.flatten_singleton] at hrest hk
      exact covers_branch_copy (ih hplain _) hx hne hrest hfresh hk
  | counted least extra greedy r ih =>
    intro k c x y hx hrest hfresh hk
    obtain ⟨required, more, rfl, rfl, hrequired, hmore, hextra⟩ := hx.normal
    rw [List.append_assoc] at hrest
    refine covers_copies (fun path => ih hplain path) hrequired hrest hfresh ?_
    intro d hdrest hposition hleads
    -- the places behind the required copies have not been entered yet
    have hdfresh := hfresh.of_leads hleads
    have hdk := hk.behind hposition hleads
    cases extra with
    | none =>
      exact covers_loop (ih hplain _) hmore (length_le_entries hmore hdrest) hdrest
        (hdfresh.cons _) hdk
    | some n => exact covers_upTo (fun path => ih hplain path) hmore (hextra n rfl) hdrest hdfresh hdk
  | _ => cases hplain

/-! ## Whole texts -/

/-- Accepts the end of a text. -/
def atEnd : Rest := fun c => if c.rest.isEmpty then .matched c.captures else c.fail

theorem succeeds_atEnd {c : Cursor} : (atEnd c).Succeeds ↔ c.rest = [] := by
  unfold atEnd
  cases c.rest with
  | nil => exact ⟨fun _ => rfl, fun _ => ⟨c.captures, rfl⟩⟩
  | cons b rest => exact ⟨fun h => absurd h (Outcome.not_succeeds_fail c), nofun⟩

theorem succeeds_require {condition : Bool} {k : Rest} {c : Cursor} :
    (require condition k c).Succeeds ↔ condition = true ∧ (k c).Succeeds := by
  unfold require
  cases condition with
  | true => exact ⟨fun h => ⟨rfl, h⟩, fun h => h.2⟩
  | false => exact ⟨fun h => absurd h (Outcome.not_succeeds_fail c), nofun⟩

theorem succeeds_lineStart {r : Regex} {path : Path} {k : Rest} {c : Cursor} :
    ((Regex.seq .lineStart r).run path k c).Succeeds ↔
      c.atStart = true ∧ (r.run (1 :: path) k c).Succeeds := succeeds_require

theorem matched_of_lineStart {r : Regex} {path : Path} {k : Rest} {c : Cursor} {caps : Captures}
    (h : (Regex.seq .lineStart r).run path k c = .matched caps) : r.run (1 :: path) k c = .matched caps := by
  have hrequire : require c.atStart (r.run (1 :: path) k) c = .matched caps := h
  exact (matched_of_require hrequire).2

theorem keeps_atEnd {b : Nat} : Keeps b atEnd := by
  intro c caps h
  unfold atEnd at h
  split at h
  · cases h
  · exact keeps_fail h

theorem finds_lineEnd {terms : List Regex} (hplain : ∀ r ∈ terms, r.isPlain = true) {path : Path}
    {c : Cursor} {caps : Captures}
    (h : (sequence (terms ++ [.lineEnd])).run path atEnd c = .matched caps) :
    (sequence terms).Matches c.rest := by
  induction terms generalizing path c with
  | nil => exact List.isEmpty_iff.mp (matched_of_require h).1
  | cons r terms ih =>
    obtain ⟨hr, hterms⟩ := List.forall_mem_cons.mp hplain
    have hkeeps := (finds_run (spares_zero (sequence (terms ++ [.lineEnd]))) (1 :: path)).keeps _ keeps_atEnd
    obtain ⟨x, d, hx, hrx, h⟩ := (finds_run (spares_zero r) _).finds _ hkeeps _ _ h
    exact ⟨x, d.rest, hx.rest, hrx hr, ih hterms h⟩

theorem covers_lineEnd {terms : List Regex} (hplain : ∀ r ∈ terms, r.isPlain = true) {path : Path}
    {c : Cursor} (hfresh : c.FreshAt path) (h : (sequence terms).Matches c.rest) :
    ((sequence (terms ++ [.lineEnd])).run path atEnd c).Succeeds := by
  induction terms generalizing path c with
  | nil =>
    have hempty : c.rest = [] := h
    exact succeeds_require.mpr ⟨List.isEmpty_iff.mpr hempty, succeeds_atEnd.mpr hempty⟩
  | cons r terms ih =>
    obtain ⟨hr, hterms⟩ := List.forall_mem_cons.mp hplain
    obtain ⟨x, y, hxy, hx, hy⟩ := h
    refine covers_run hr _ _ c x y hx hxy (hfresh.cons 0) fun d hdrest hposition hleads => ?_
    exact ih hterms ((hfresh.cons 1).of_leads hleads) (hdrest ▸ hy)

/-- An expression with so many groups matches a whole text. -/
def Accepts (r : Regex) (groups : Nat) (subject : Bytes) : Prop :=
  (r.run [] atEnd { rest := subject, captures := List.replicate groups none }).Succeeds

/-- **A plain expression matches exactly its language.** -/
theorem accepts_iff_matches {r : Regex} (hplain : r.isPlain = true) (groups : Nat) (subject : Bytes) :
    r.Accepts groups subject ↔ r.Matches subject := by
  constructor
  · rintro ⟨caps, h⟩
    obtain ⟨x, d, hx, hmatches, hend⟩ := (finds_run (spares_zero r) _).finds _ keeps_atEnd _ _ h
    have hx := hx.rest
    rw [succeeds_atEnd.mp ⟨caps, hend⟩, List.append_nil] at hx
    have hx : subject = x := hx
    exact hx ▸ hmatches hplain
  · intro h
    refine covers_run hplain _ _ _ subject [] h (List.append_nil subject).symm (fun _ _ _ => nofun) ?_
    exact fun d hrest _ _ => succeeds_atEnd.mpr hrest

/-- Between anchors an expression matches what is between them. -/
theorem accepts_anchored_iff {terms : List Regex} (hplain : ∀ r ∈ terms, r.isPlain = true) (groups : Nat)
    (subject : Bytes) :
    (Regex.seq .lineStart (sequence (terms ++ [.lineEnd]))).Accepts groups subject ↔
      (sequence terms).Matches subject := by
  rw [Accepts, succeeds_lineStart]
  constructor
  · rintro ⟨-, caps, h⟩
    exact finds_lineEnd hplain h
  · exact fun h => ⟨rfl, covers_lineEnd hplain (fun _ _ _ => nofun) h⟩

end AccessControl.Regex

namespace AccessControl.Pattern

open Regex

variable {p : Pattern}

theorem match?_eq_some_iff {p : Pattern} {subject : Bytes} {caps : Captures} :
    p.match? subject = some caps ↔
      p.root.run [] atEnd { rest := subject, captures := List.replicate p.groups none } =
        .matched caps := by
  have hmatch : p.match? subject =
      (p.root.run [] atEnd { rest := subject, captures := List.replicate p.groups none }).captures? := rfl
  rw [hmatch]
  cases p.root.run [] atEnd { rest := subject, captures := List.replicate p.groups none } with
  | matched caps' =>
    exact ⟨fun h => congrArg _ (Option.some.inj h), fun h => congrArg _ (Outcome.matched.inj h)⟩
  | failed caps' => exact ⟨nofun, nofun⟩

theorem accepts_iff (p : Pattern) (subject : Bytes) :
    p.accepts subject = true ↔ p.root.Accepts p.groups subject := by
  rw [accepts, Option.isSome_iff_exists]
  exact exists_congr fun _ => match?_eq_some_iff

/-- **A plain pattern accepts exactly its language.** -/
theorem accepts_iff_matches (hplain : p.root.isPlain = true) (subject : Bytes) :
    p.accepts subject = true ↔ p.root.Matches subject :=
  (p.accepts_iff subject).trans (Regex.accepts_iff_matches hplain p.groups subject)

/-- Between anchors a pattern accepts what is between them. -/
theorem accepts_iff_of_anchored {terms : List Regex}
    (hroot : p.root = .seq .lineStart (sequence (terms ++ [.lineEnd])))
    (hplain : ∀ r ∈ terms, r.isPlain = true) (subject : Bytes) :
    p.accepts subject = true ↔ (sequence terms).Matches subject := by
  rw [accepts_iff, hroot]
  exact accepts_anchored_iff hplain p.groups subject

end AccessControl.Pattern
