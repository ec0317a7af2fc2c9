import AccessControl.Proofs.Network.Octets
import AccessControl.Proofs.Number.Numerals
import AccessControl.Proofs.Number.Spelling
import AccessControl.Proofs.Pieces

/-!
# Address literals

An address of the fourth version is written as four decimal octets with points between them, one of the
sixth as groups of digits of base sixteen between colons, the last two groups possibly as a dotted quad and
one or more groups of zeros possibly as `::` (`Address.Literal`).  What is read as an address is what its
literal is up to the first zero byte (`Address.parse?_eq_some_iff`); the bytes behind that are not looked at,
except for colons (`Address.parse?_append_zero`).
-/

namespace AccessControl

namespace Network

open Bytes

namespace Address

/-! ## Dotted quads -/

/-- Octets in decimal, with points between them. -/
def quadText (octets : List UInt8) : Bytes := joined (utf8 ".") (octets.map fun x => ofNat x.toNat)

/-- An octet is read from its decimal text and from no other. -/
theorem octet?_eq_some_iff {text : Bytes} {x : UInt8} : octet? text = some x ↔ text = ofNat x.toNat := by
  have hvalue : octet? text = some x ↔ (∀ b ∈ text, Ascii.isDigit b = true) ∧ text ≠ [] ∧
      (text.length = 1 ∨ text.head? ≠ some '0'.toUInt8) ∧ Decimal.value text = x.toNat := by
    unfold octet?
    have hself : text.foldl (fun n b => 10 * n + (b - '0'.toUInt8).toNat) 0 = Decimal.value text := rfl
    simp only [hself]
    constructor
    · intro h
      split at h
      · next hall =>
        simp only [Bool.and_eq_true, List.all_eq_true, Bool.not_eq_true', List.isEmpty_eq_false_iff,
          Bool.or_eq_true, beq_iff_eq, bne_iff_ne, decide_eq_true_eq] at hall
        obtain ⟨⟨⟨hdigits, hne⟩, hzero⟩, hle⟩ := hall
        cases h
        exact ⟨hdigits, hne, hzero, (UInt8.toNat_ofNat_of_lt' (Nat.lt_succ_of_le hle)).symm⟩
      · cases h
    · rintro ⟨hdigits, hne, hzero, hx⟩
      have hle : Decimal.value text ≤ 255 := hx ▸ Nat.le_of_lt_succ x.toNat_lt
      rw [if_pos (by simpa [hne, hle] using ⟨hdigits, hzero⟩), hx, UInt8.ofNat_toNat]
  rw [hvalue]
  constructor
  · rintro ⟨hdigits, hne, hzero, hx⟩
    obtain ⟨b, digits, rfl⟩ := List.exists_cons_of_ne_nil hne
    by_cases hb : b = '0'.toUInt8
    · -- a leading zero stands alone
      obtain rfl : digits = [] := by simpa [hb] using hzero
      rw [← hx, hb]
      rfl
    · rw [← hx, Decimal.ofNat_value hb hdigits]
  · rintro rfl
    obtain ⟨b, digits, hcons, -, hzero⟩ := ofNat_eq_cons x.toNat
    refine ⟨isDigit_of_mem_ofNat _, by rw [hcons]; exact List.cons_ne_nil _ _, ?_, Decimal.value_ofNat _⟩
    by_cases hb : b = '0'.toUInt8
    · rw [hcons, (hzero hb).2]
      exact .inl rfl
    · rw [hcons]
      exact .inr fun h => hb (Option.some.inj h)

theorem mapM_eq_some_iff {α β : Type} {f : α → Option β} {g : β → α} (h : ∀ a b, f a = some b ↔ a = g b)
    {l : List α} {l' : List β} : l.mapM f = some l' ↔ l = l'.map g := by
  induction l generalizing l' with
  | nil => simp [eq_comm]
  | cons a l ih =>
    simp only [List.mapM_cons, Option.bind_eq_bind, Option.bind_eq_some_iff, h, ih, Option.pure_def,
      Option.some.injEq]
    cases l' with
    | nil => simp
    | cons b l' => simp [eq_comm]

theorem not_mem_ofNat {b : UInt8} (hb : Ascii.isDigit b = false) (n : Nat) : b ∉ ofNat n := by
  intro h
  rw [isDigit_of_mem_ofNat n b h] at hb
  cases hb

/-- **A dotted quad** is read from its text and from no other. -/
theorem quad?_eq_some_iff {text : Bytes} {octets : List UInt8} :
    quad? text = some octets ↔ octets.length = 4 ∧ text = quadText octets := by
  have hoctets (parts : List Bytes) : parts.mapM octet? = some octets ↔
      parts = octets.map fun x => ofNat x.toNat := mapM_eq_some_iff fun _ _ => octet?_eq_some_iff
  unfold quad?
  simp only
  constructor
  · intro h
    split at h
    · next hfour =>
      rw [hoctets] at h
      rw [h, List.length_map] at hfour
      exact ⟨hfour, by rw [quadText, ← h]; exact (joined_pieces _ text).symm⟩
    · cases h
  · rintro ⟨hfour, rfl⟩
    have hpieces : pieces '.'.toUInt8 (quadText octets) = octets.map fun x => ofNat x.toNat := by
      refine pieces_joined ?_ fun t ht => ?_
      · rw [Ne, List.map_eq_nil_iff, ← List.length_eq_zero_iff, hfour]
        decide
      · obtain ⟨x, -, rfl⟩ := List.mem_map.mp ht
        exact not_mem_ofNat (by decide) _
    rw [hpieces, if_pos (by rw [List.length_map, hfour]), hoctets]

theorem point_mem_quadText {octets : List UInt8} (hfour : octets.length = 4) :
    '.'.toUInt8 ∈ quadText octets := by
  obtain ⟨x, y, z, w, rfl⟩ := List.length_eq_four.mp hfour
  have hpoint : utf8 "." = ['.'.toUInt8] := by decide
  simp [quadText, joined, hpoint]

theorem of_mem_quadText {octets : List UInt8} :
    ∀ b ∈ quadText octets, Ascii.isDigit b = true ∨ b = '.'.toUInt8 := by
  refine forall_mem_joined (fun b hb => .inr (List.mem_singleton.mp hb)) fun t ht b hb => .inl ?_
  obtain ⟨x, -, rfl⟩ := List.mem_map.mp ht
  exact isDigit_of_mem_ofNat _ b hb

/-! ## Groups -/

/-- A group of one to four digits of base sixteen and the two octets that are the same number. -/
structure IsGroup (text : Bytes) (octets : List UInt8) : Prop where
  digits : ∀ b ∈ text, Ascii.isHexDigit b = true
  nonempty : text ≠ []
  short : text.length ≤ 4
  two : octets.length = 2
  value : bigEndian octets = inBase 16 text

theorem hexValue?_getD_lt (b : UInt8) : (Ascii.hexValue? b).getD 0 < 16 :=
  forall_byte (p := fun b => (Ascii.hexValue? b).getD 0 < 16) (by decide +kernel) b

theorem inBase_sixteen_lt (digits : Bytes) : inBase 16 digits < 16 ^ digits.length := by
  refine Nat.lt_of_lt_of_eq (Nat.ofDigits_lt_base_pow_length (by decide) fun d hd => ?_) (by simp)
  obtain ⟨b, -, rfl⟩ := List.mem_map.mp hd
  exact hexValue?_getD_lt b

theorem bigEndian_pair (x y : UInt8) : bigEndian [x, y] = 256 * x.toNat + y.toNat := by
  rw [bigEndian_cons, bigEndian_cons, Nat.mul_comm]
  exact congrArg _ (Nat.mul_one _)

/-- Two octets are the quotient and the remainder of their number. -/
theorem pair_eq_iff {x y : UInt8} {n : Nat} (hn : n < 65536) :
    UInt8.ofNat (n / 256) = x ∧ UInt8.ofNat n = y ↔ bigEndian [x, y] = n := by
  have hx := x.toNat_lt
  have hy := y.toNat_lt
  rw [bigEndian_pair, ← UInt8.toNat_inj, ← UInt8.toNat_inj, UInt8.toNat_ofNat', UInt8.toNat_ofNat']
  omega

theorem group?_eq_some_iff {text : Bytes} {octets : List UInt8} :
    group? text = some octets ↔ IsGroup text octets := by
  have hread : text.foldl (fun n b => 16 * n + (Ascii.hexValue? b).getD 0) 0 = inBase 16 text :=
    foldl_eq_inBase fun _ _ _ => rfl
  unfold group?
  simp only [hread]
  constructor
  · intro h
    split at h
    · next hall =>
      simp only [Bool.and_eq_true, List.all_eq_true, Bool.not_eq_true', List.isEmpty_eq_false_iff,
        decide_eq_true_eq] at hall
      obtain ⟨⟨hdigits, hne⟩, hshort⟩ := hall
      have hn : inBase 16 text < 65536 :=
        Nat.lt_of_lt_of_le (inBase_sixteen_lt text) (Nat.pow_le_pow_right (by decide) hshort)
      cases h
      exact ⟨hdigits, hne, hshort, rfl, (pair_eq_iff hn).mp ⟨rfl, rfl⟩⟩
    · cases h
  · rintro ⟨hdigits, hne, hshort, htwo, hvalue⟩
    have hn : inBase 16 text < 65536 :=
      Nat.lt_of_lt_of_le (inBase_sixteen_lt text) (Nat.pow_le_pow_right (by decide) hshort)
    obtain ⟨x, y, rfl⟩ := List.length_eq_two.mp htwo
    obtain ⟨rfl, rfl⟩ := (pair_eq_iff hn).mpr hvalue
    rw [if_pos (by simpa [hne, hshort] using hdigits)]

/-- Groups and their octets; where told so, the last group may be a dotted quad. -/
inductive Groups (quadLast : Bool) : List Bytes → List UInt8 → Prop where
  | nil : Groups quadLast [] []
  | group {text : Bytes} {texts : List Bytes} {first octets : List UInt8} (hgroup : IsGroup text first)
      (hrest : Groups quadLast texts octets) : Groups quadLast (text :: texts) (first ++ octets)
  | quad {octets : List UInt8} (hlast : quadLast = true) (hfour : octets.length = 4) :
      Groups quadLast [quadText octets] octets

/-- A dotted quad is no group, as a point is no digit. -/
theorem group?_quadText {octets : List UInt8} (hfour : octets.length = 4) :
    group? (quadText octets) = none := by
  refine Option.eq_none_iff_forall_not_mem.mpr fun o ho => ?_
  exact absurd ((group?_eq_some_iff.mp ho).digits _ (point_mem_quadText hfour)) (by decide)

/-- **Groups** are read as they stand between the colons. -/
theorem groups?_eq_some_iff {quadLast : Bool} {texts : List Bytes} {octets : List UInt8} :
    groups? quadLast texts = some octets ↔ Groups quadLast texts octets := by
  induction texts generalizing octets with
  | nil =>
    constructor
    · rintro ⟨⟩
      exact .nil
    · rintro ⟨⟩
      rfl
  | cons text texts ih =>
    cases texts with
    | nil =>
      constructor
      · intro h
        have hcases : group? text = some octets ∨ quadLast = true ∧ quad? text = some octets := by
          unfold groups? at h
          split at h
          · next hlast => exact (Option.or_eq_some_iff.mp h).imp id fun h => ⟨hlast, h.2⟩
          · exact .inl h
        rcases hcases with hgroup | ⟨hlast, hquad⟩
        · rw [← List.append_nil octets]
          exact .group (group?_eq_some_iff.mp hgroup) .nil
        · obtain ⟨hfour, rfl⟩ := quad?_eq_some_iff.mp hquad
          exact .quad hlast hfour
      · intro h
        cases h with
        | group hgroup hrest =>
          cases hrest
          rw [List.append_nil]
          simp [groups?, group?_eq_some_iff.mpr hgroup]
        | quad hlast hfour =>
          simp [groups?, hlast, group?_quadText hfour, quad?_eq_some_iff.mpr ⟨hfour, rfl⟩]
    | cons next texts =>
      simp only [groups?, Option.bind_eq_bind, Option.bind_eq_some_iff, Option.pure_def, Option.some.injEq, ih,
        group?_eq_some_iff]
      constructor
      · rintro ⟨first, hgroup, rest, hrest, rfl⟩
        exact .group hgroup hrest
      · intro h
        cases h with
        | group hgroup hrest => exact ⟨_, hgroup, _, hrest, rfl⟩

/-- No group is empty, and none has a colon in it. -/
theorem Groups.no_colon {quadLast : Bool} {texts : List Bytes} {octets : List UInt8}
    (h : Groups quadLast texts octets) : ∀ t ∈ texts, t ≠ [] ∧ ':'.toUInt8 ∉ t := by
  induction h with
  | nil => nofun
  | group hgroup _ ih =>
    refine List.forall_mem_cons.mpr ⟨⟨hgroup.nonempty, fun h => ?_⟩, ih⟩
    exact absurd (hgroup.digits _ h) (by decide)
  | quad _ hfour =>
    refine List.forall_mem_singleton.mpr ⟨List.ne_nil_of_mem (point_mem_quadText hfour), fun h => ?_⟩
    exact absurd (of_mem_quadText _ h) (by decide)

/-- The bytes of groups. -/
theorem Groups.bytes {quadLast : Bool} {texts : List Bytes} {octets : List UInt8}
    (h : Groups quadLast texts octets) :
    ∀ t ∈ texts, ∀ b ∈ t, Ascii.isHexDigit b = true ∨ b = '.'.toUInt8 := by
  induction h with
  | nil => nofun
  | group hgroup _ ih => exact List.forall_mem_cons.mpr ⟨fun b hb => .inl (hgroup.digits b hb), ih⟩
  | quad =>
    refine List.forall_mem_singleton.mpr fun b hb => (of_mem_quadText b hb).imp (fun hdigit => ?_) id
    rw [Ascii.isHexDigit, hdigit]
    rfl

/-- A group has two octets and a dotted quad four. -/
theorem Groups.length_le {quadLast : Bool} {texts : List Bytes} {octets : List UInt8}
    (h : Groups quadLast texts octets) : octets.length ≤ 4 * texts.length := by
  induction h with
  | nil => exact Nat.le_refl 0
  | group hgroup _ ih =>
    rw [List.length_append, hgroup.two, List.length_cons]
    omega
  | quad _ hfour => exact Nat.le_of_eq hfour

/-! ## The gap -/

/-- The gap is looked for behind bytes that are no colons. -/
theorem cutGap?_append {front : Bytes} (h : ':'.toUInt8 ∉ front) (rest : Bytes) :
    cutGap? (front ++ rest) = (cutGap? rest).map fun p => (front ++ p.1, p.2) := by
  induction front with
  | nil => simp
  | cons b front ih =>
    rw [List.mem_cons, not_or] at h
    have hb : (b == ':'.toUInt8) = false := by simpa using Ne.symm h.1
    rw [List.cons_append, cutGap?, hb, Bool.false_and, if_neg Bool.false_ne_true, ih h.2, Option.map_map]
    rfl

/-- The gap is looked for behind groups. -/
theorem cutGap?_joined {texts : List Bytes} (h : ∀ t ∈ texts, t ≠ [] ∧ ':'.toUInt8 ∉ t) (rest : Bytes) :
    cutGap? (joined (utf8 ":") texts ++ rest) =
      (cutGap? rest).map fun p => (joined (utf8 ":") texts ++ p.1, p.2) := by
  have hcolon : utf8 ":" = [':'.toUInt8] := by decide
  rw [hcolon]
  induction texts with
  | nil => simp [joined]
  | cons t texts ih =>
    obtain ⟨⟨-, ht⟩, htexts⟩ := List.forall_mem_cons.mp h
    cases texts with
    | nil => exact cutGap?_append ht rest
    | cons u texts =>
      -- the colon behind the first group is no gap, since a group follows it
      obtain ⟨⟨hne, hu⟩, -⟩ := List.forall_mem_cons.mp htexts
      obtain ⟨b, u, rfl⟩ := List.exists_cons_of_ne_nil hne
      have hb : b ≠ ':'.toUInt8 := fun h => hu (h ▸ List.mem_cons_self ..)
      have hhead : (joined [':'.toUInt8] ((b :: u) :: texts) ++ rest).head? = some b := by
        cases texts <;> rfl
      rw [joined, List.append_assoc, List.append_assoc, cutGap?_append ht, List.singleton_append, cutGap?,
        hhead, if_neg (by simpa using hb), ih htexts, Option.map_map, Option.map_map]
      simp [Function.comp_def]

theorem eq_of_cutGap? {text front back : Bytes} (h : cutGap? text = some (front, back)) :
    text = front ++ utf8 "::" ++ back := by
  have hgap : utf8 "::" = [':'.toUInt8, ':'.toUInt8] := by decide
  rw [hgap]
  induction text generalizing front with
  | nil => cases h
  | cons b rest ih =>
    unfold cutGap? at h
    split at h
    · next hcolons =>
      cases h
      obtain ⟨hb, hhead⟩ := Bool.and_eq_true_iff.mp hcolons
      rw [eq_of_beq hb, List.eq_cons_of_mem_head? (beq_iff_eq.mp hhead)]
      rfl
    · obtain ⟨⟨f, k⟩, hcut, hp⟩ := Option.map_eq_some_iff.mp h
      cases hp
      exact congrArg (b :: ·) (ih hcut)

/-! ## Literals -/

/-- The literals of addresses of a family, with the octets that they stand for: dotted quads, and groups
between colons, where `::` once stands for one or more groups of zeros. -/
inductive Literal : Family → Bytes → List UInt8 → Prop where
  | quad {octets : List UInt8} (hfour : octets.length = 4) : Literal .v4 (quadText octets) octets
  | full {texts : List Bytes} {octets : List UInt8} (hgroups : Groups true texts octets)
      (hlength : octets.length = 16) : Literal .v6 (joined (utf8 ":") texts) octets
  | gap {texts texts' : List Bytes} {front back : List UInt8} (hfront : Groups false texts front)
      (hback : Groups true texts' back) (hlength : front.length + back.length < 16) :
      Literal .v6 (joined (utf8 ":") texts ++ utf8 "::" ++ joined (utf8 ":") texts')
        (front ++ List.replicate (16 - (front.length + back.length)) 0 ++ back)

theorem colonGroups_joined {texts : List Bytes} (h : ∀ t ∈ texts, t ≠ [] ∧ ':'.toUInt8 ∉ t) :
    colonGroups (joined (utf8 ":") texts) = texts := by
  cases texts with
  | nil => rfl
  | cons t texts =>
    obtain ⟨⟨hne, -⟩, -⟩ := List.forall_mem_cons.mp h
    obtain ⟨b, t, rfl⟩ := List.exists_cons_of_ne_nil hne
    have hjoined : (joined (utf8 ":") ((b :: t) :: texts)).isEmpty = false := by
      cases texts <;> rfl
    rw [colonGroups, hjoined, if_neg Bool.false_ne_true]
    exact pieces_joined (List.cons_ne_nil _ _) fun u hu => (h u hu).2

theorem joined_colonGroups (text : Bytes) : joined (utf8 ":") (colonGroups text) = text := by
  unfold colonGroups
  split
  · next hempty => rw [List.isEmpty_iff.mp hempty, joined]
  · exact joined_pieces _ text

/-- **An address of the sixth version** is read from its literals and from no other text. -/
theorem sixteen?_iff_literal {text : Bytes} {octets : List UInt8} :
    sixteen? text = some octets ∧ octets.length = 16 ↔ Literal .v6 text octets := by
  unfold sixteen?
  constructor
  · rintro ⟨h, hlength⟩
    split at h
    · rw [groups?_eq_some_iff] at h
      rw [← joined_colonGroups text]
      exact .full h hlength
    · next front back hcut =>
      simp only [Option.bind_eq_bind, Option.bind_eq_some_iff, groups?_eq_some_iff] at h
      obtain ⟨first, hfirst, second, hsecond, h⟩ := h
      split at h
      · next hless =>
        cases h
        rw [eq_of_cutGap? hcut, ← joined_colonGroups front, ← joined_colonGroups back]
        exact .gap hfirst hsecond hless
      · cases h
  · intro h
    cases h with
    | full hgroups hlength =>
      have hcut := cutGap?_joined hgroups.no_colon []
      rw [List.append_nil] at hcut
      rw [hcut]
      simp only [cutGap?, Option.map_none, colonGroups_joined hgroups.no_colon]
      exact ⟨groups?_eq_some_iff.mpr hgroups, hlength⟩
    | @gap texts texts' front back hfront hback hlength =>
      have hgap : cutGap? (utf8 "::" ++ joined (utf8 ":") texts') = some ([], joined (utf8 ":") texts') := rfl
      rw [List.append_assoc, cutGap?_joined hfront.no_colon, hgap]
      simp only [Option.map_some, List.append_nil, colonGroups_joined hfront.no_colon,
        colonGroups_joined hback.no_colon, groups?_eq_some_iff.mpr hfront, groups?_eq_some_iff.mpr hback,
        Option.bind_eq_bind, Option.bind_some, if_pos hlength]
      refine ⟨rfl, ?_⟩
      simp only [List.length_append, List.length_replicate]
      omega

/-- The bytes of a literal. -/
theorem Literal.bytes {family : Family} {text : Bytes} {octets : List UInt8} (h : Literal family text octets) :
    ∀ b ∈ text, Ascii.isHexDigit b = true ∨ b = '.'.toUInt8 ∨ b = ':'.toUInt8 := by
  have hjoined {quadLast : Bool} {texts : List Bytes} {octets : List UInt8}
      (h : Groups quadLast texts octets) : ∀ b ∈ joined (utf8 ":") texts,
        Ascii.isHexDigit b = true ∨ b = '.'.toUInt8 ∨ b = ':'.toUInt8 :=
    forall_mem_joined (fun b hb => .inr (.inr (List.mem_singleton.mp hb)))
      fun t ht b hb => (h.bytes t ht b hb).imp id .inl
  cases h with
  | quad hfour => exact fun b hb => (Groups.quad rfl hfour).bytes _ (List.mem_singleton.mpr rfl) b hb |>.imp id .inl
  | full hgroups => exact hjoined hgroups
  | gap hfront hback =>
    intro b hb
    rcases List.mem_append.mp hb with hb | hb
    · rcases List.mem_append.mp hb with hb | hb
      · exact hjoined hfront b hb
      · have hgap : utf8 "::" = [':'.toUInt8, ':'.toUInt8] := by decide
        exact .inr (.inr (by simpa [hgap] using hb))
    · exact hjoined hback b hb

/-- A literal has a colon in it just if it is one of the sixth version. -/
theorem Literal.colon_mem_iff {family : Family} {text : Bytes} {octets : List UInt8}
    (h : Literal family text octets) : ':'.toUInt8 ∈ text ↔ family = .v6 := by
  cases h with
  | quad => exact iff_of_false (fun h => absurd (of_mem_quadText _ h) (by decide)) nofun
  | @full texts _ hgroups hlength =>
    refine iff_of_true ?_ rfl
    have hle : 16 ≤ 4 * texts.length := hlength ▸ hgroups.length_le
    match texts with
    | [] => exact absurd hle (by decide)
    | [t] => exact absurd hle (by simp)
    | t :: u :: texts =>
      have hcolon : utf8 ":" = [':'.toUInt8] := by decide
      simp [joined, hcolon]
  | gap =>
    have hgap : utf8 "::" = [':'.toUInt8, ':'.toUInt8] := by decide
    exact iff_of_true (by simp [hgap]) rfl

theorem ofOctets?_eq_some_iff {family : Family} {octets : List UInt8} {a : Address} :
    ofOctets? family octets = some a ↔ a.family = family ∧ a.octets = octets := by
  obtain ⟨f, o, hlength⟩ := a
  unfold ofOctets?
  constructor
  · intro h
    split at h
    · cases h
      exact ⟨rfl, rfl⟩
    · cases h
  · rintro ⟨rfl, rfl⟩
    rw [dif_pos hlength]

theorem quad?_iff_literal {text : Bytes} {octets : List UInt8} :
    quad? text = some octets ↔ Literal .v4 text octets := by
  rw [quad?_eq_some_iff]
  constructor
  · rintro ⟨hfour, rfl⟩
    exact .quad hfour
  · rintro ⟨hfour⟩
    exact ⟨hfour, rfl⟩

/-- **Addresses are read from literals**, up to the first zero byte; one that has no colon is not read if a
colon stands behind that byte. -/
theorem parse?_eq_some_iff {text : Bytes} {a : Address} :
    parse? text = some a ↔ Literal a.family (text.takeWhile (· != 0)) a.octets ∧
      (':'.toUInt8 ∈ text → a.family = .v6) := by
  unfold parse?
  simp only
  split
  · next hcolon =>
    have hcolon : ':'.toUInt8 ∈ text := List.contains_iff_mem.mp hcolon
    simp only [Option.bind_eq_some_iff, ofOctets?_eq_some_iff]
    constructor
    · rintro ⟨octets, hread, hfamily, rfl⟩
      rw [hfamily]
      refine ⟨sixteen?_iff_literal.mp ⟨hread, ?_⟩, fun _ => rfl⟩
      rw [a.length_octets, hfamily]
      rfl
    · rintro ⟨hliteral, hfamily⟩
      rw [hfamily hcolon] at hliteral
      exact ⟨a.octets, (sixteen?_iff_literal.mpr hliteral).1, hfamily hcolon, rfl⟩
  · next hcolon =>
    have hcolon : ':'.toUInt8 ∉ text := fun h => hcolon (List.contains_iff_mem.mpr h)
    simp only [Option.bind_eq_some_iff, ofOctets?_eq_some_iff]
    constructor
    · rintro ⟨octets, hread, hfamily, rfl⟩
      rw [hfamily]
      exact ⟨quad?_iff_literal.mp hread, fun h => absurd h hcolon⟩
    · rintro ⟨hliteral, -⟩
      cases hfamily : a.family with
      | v4 =>
        rw [hfamily] at hliteral
        exact ⟨a.octets, quad?_iff_literal.mpr hliteral, rfl, rfl⟩
      | v6 =>
        have hmem := hliteral.colon_mem_iff.mpr hfamily
        exact absurd ((List.takeWhile_prefix _).subset hmem) hcolon

/-- What stands behind a zero byte is not read, but a colon there keeps a dotted quad from being read. -/
theorem parse?_append_zero {front : Bytes} (h : 0 ∉ front) (back : Bytes) :
    parse? (front ++ 0 :: back) =
      if ':'.toUInt8 ∈ back ∧ ':'.toUInt8 ∉ front then none else parse? front := by
  have hne : ∀ b ∈ front, (b != 0) = true := fun b hb => bne_iff_ne.mpr fun hzero => h (hzero ▸ hb)
  have hcut : (front ++ 0 :: back).takeWhile (· != 0) = front.takeWhile (· != 0) := by
    rw [List.takeWhile_append_of_pos hne, List.takeWhile_cons_of_neg (by decide), List.append_nil]
    exact (List.takeWhile_eq_self_iff.mpr hne).symm
  have hfront : front.takeWhile (· != 0) = front := List.takeWhile_eq_self_iff.mpr hne
  refine Option.ext fun a => ?_
  rw [parse?_eq_some_iff, hcut]
  have hcolon : ':'.toUInt8 ∈ front ++ 0 :: back ↔ ':'.toUInt8 ∈ front ∨ ':'.toUInt8 ∈ back := by
    have hzero : ':'.toUInt8 ≠ 0 := by decide
    simp [hzero]
  rw [hcolon]
  split
  · next hbehind =>
    refine iff_of_false ?_ nofun
    rintro ⟨hliteral, hfamily⟩
    rw [hfront] at hliteral
    exact hbehind.2 (hliteral.colon_mem_iff.mpr (hfamily (.inr hbehind.1)))
  · next hbehind =>
    rw [parse?_eq_some_iff]
    refine and_congr_right fun _ => ⟨fun hfamily hmem => hfamily (.inl hmem), fun hfamily hmem => ?_⟩
    exact hfamily (hmem.elim id fun hback => Classical.not_not.mp fun hnot => hbehind ⟨hback, hnot⟩)

end Address

end Network

end AccessControl
