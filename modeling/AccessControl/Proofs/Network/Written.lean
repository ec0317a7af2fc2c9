import AccessControl.Proofs.Network.Blocks
import AccessControl.Proofs.Network.Literals

/-!
# Blocks as they are written

A block is written as an address, a slash and the length of the prefix in decimal, in front of whose digits
blanks and a sign are let pass (`Block.PrefixText`).  `Block.written_blocks` says which texts spell blocks,
and `Block.satisfied_by_literals` which texts satisfy the rules of blocks: literals of addresses, which end at
the first zero byte.
-/

namespace AccessControl.Network

open Bytes

namespace Address

/-- Whether no bit of an address behind a prefix is set. -/
def ClearBehind (a : Address) (p : Nat) : Prop := ∀ i < a.family.width - p, a.value.testBit i = false

instance (a : Address) (p : Nat) : Decidable (a.ClearBehind p) :=
  inferInstanceAs (Decidable (∀ i < a.family.width - p, a.value.testBit i = false))

theorem clearBehind_iff_dvd {a : Address} {p : Nat} :
    a.ClearBehind p ↔ 2 ^ (a.family.width - p) ∣ a.value := by
  rw [Nat.dvd_iff_mod_eq_zero, ClearBehind]
  constructor
  · intro h
    refine Nat.eq_of_testBit_eq fun i => ?_
    rw [Nat.testBit_mod_two_pow, Nat.zero_testBit, Bool.and_eq_false_iff, decide_eq_false_iff_not]
    by_cases hi : i < a.family.width - p
    · exact .inr (h i hi)
    · exact .inl hi
  · intro h i hi
    have hbit := congrArg (·.testBit i) h
    simpa [Nat.testBit_mod_two_pow, hi] using hbit

end Address

namespace Block

/-! ## Lengths of prefixes -/

/-- A text that is read as the length of a prefix: decimal digits, with blanks and a sign in front. -/
inductive PrefixText : Bytes → Int → Prop where
  | intro {blanks sign digits : Bytes} {negative : Bool} (hblanks : ∀ b ∈ blanks, Ascii.isSpace b = true)
      (hsign : Scalar.Sign sign negative) (hne : digits ≠ []) (hdigits : ∀ b ∈ digits, Ascii.isDigit b = true) :
      PrefixText (blanks ++ (sign ++ digits)) (Binary64.signed negative (inBase 10 digits))

theorem length?_eq_some_iff {text : Bytes} {i : Int} : length? text = some i ↔ PrefixText text i := by
  constructor
  · intro h
    obtain ⟨sign, negative, digits, hread, hrest, hsign⟩ := Scalar.sign_spec (text.dropWhile Ascii.isSpace)
    simp only [length?, hread] at h
    split at h
    · cases h
    · next hall =>
      simp only [Bool.or_eq_true, List.isEmpty_iff, Bool.not_eq_true', List.all_eq_false, not_or,
        not_exists, not_and, Decidable.not_not] at hall
      cases h
      rw [value_eq_inBase hall.2, ← List.takeWhile_append_dropWhile (p := Ascii.isSpace) (l := text), hrest]
      exact .intro (fun b hb => List.mem_takeWhile_imp hb) hsign hall.1 hall.2
  · rintro ⟨hblanks, hsign, hne, hdigits⟩
    obtain ⟨b, digits, rfl⟩ := List.exists_cons_of_ne_nil hne
    have hb := hdigits b (List.mem_cons_self ..)
    have hread := hsign.read hb digits
    rw [length?, (Scalar.span_of_head? hblanks (hsign.no_space hb digits)).2, hread]
    simp only [List.isEmpty_cons, List.all_eq_true.mpr hdigits, Bool.not_true, Bool.or_false,
      Bool.false_eq_true, if_false, value_eq_inBase hdigits]
    rfl

theorem make?_eq_some_iff {network : Address} {i : Int} {block : Block} :
    make? network i = some block ↔ block.network = network ∧ (block.prefixLength : Int) = i := by
  unfold make?
  constructor
  · intro h
    split at h
    · next hall =>
      cases h
      exact ⟨rfl, Int.toNat_of_nonneg hall.1⟩
    · cases h
  · rintro ⟨rfl, rfl⟩
    rw [dif_pos ⟨Int.natCast_nonneg _, block.prefixLength_le, block.clear⟩]
    rfl

/-- A block is read from what is in front of the first slash and what is behind it. -/
theorem parse?_eq_some_iff {text : Bytes} {block : Block} :
    parse? text = some block ↔ ∃ front back, text = front ++ '/'.toUInt8 :: back ∧ '/'.toUInt8 ∉ front ∧
      Address.parse? front = some block.network ∧ PrefixText back block.prefixLength := by
  simp only [parse?, Option.bind_eq_bind, Option.bind_eq_some_iff, Prod.exists, cut?_eq_some_iff,
    make?_eq_some_iff, length?_eq_some_iff, and_assoc]
  refine exists_congr fun front => exists_congr fun back => and_congr_right fun _ => and_congr_right fun _ => ?_
  constructor
  · rintro ⟨network, hnetwork, i, hlength, rfl, rfl⟩
    exact ⟨hnetwork, hlength⟩
  · rintro ⟨hnetwork, hlength⟩
    exact ⟨_, hnetwork, _, hlength, rfl, rfl⟩

end Block

/-- A text satisfies a rule if it is an address in the block of the rule. -/
theorem cidr_satisfied (cidr s : Bytes) (q : Option Inquiry) :
    (Rule.cidr cidr).satisfied (.string s) q =
      .ok ((Block.parse? cidr).any fun block => (Address.parse? s).any block.contains) := by
  rw [Rule.satisfied, Rule.cidrSatisfied]
  rfl

theorem cidr_satisfied_iff {cidr s : Bytes} {q : Option Inquiry} :
    (Rule.cidr cidr).satisfied (.string s) q = .ok true ↔
      ∃ block a, Block.parse? cidr = some block ∧ Address.parse? s = some a ∧ block.contains a = true := by
  rw [cidr_satisfied, Except.ok.injEq, Option.any_eq_true]
  simp only [Option.any_eq_true, exists_and_left]

namespace Block

theorem family_of_contains {block : Block} {a : Address} (h : block.contains a = true) :
    a.family = block.network.family := by
  rw [contains, Bool.and_eq_true, beq_iff_eq] at h
  exact h.1

/-- **A text spells a block** just if its parts do and fit each other. -/
theorem isSome_parse?_iff {text : Bytes} :
    (parse? text).isSome = true ↔ ∃ front back network p, text = front ++ '/'.toUInt8 :: back ∧
      '/'.toUInt8 ∉ front ∧ Address.parse? front = some network ∧ PrefixText back (p : Nat) ∧
      p ≤ network.family.width ∧ network.ClearBehind p := by
  constructor
  · intro hsome
    obtain ⟨block, hblock⟩ := Option.isSome_iff_exists.mp hsome
    obtain ⟨front, back, htext, hslash, hnetwork, hprefix⟩ := parse?_eq_some_iff.mp hblock
    exact ⟨front, back, block.network, block.prefixLength, htext, hslash, hnetwork, hprefix,
      block.prefixLength_le, Address.clearBehind_iff_dvd.mpr block.dvd_network⟩
  · rintro ⟨front, back, network, p, htext, hslash, hnetwork, hprefix, hle, hclear⟩
    obtain ⟨block, hmake⟩ := Option.isSome_iff_exists.mp
      ((make?_isSome_iff network hle).mpr (Address.clearBehind_iff_dvd.mp hclear))
    obtain ⟨rfl, hlength⟩ := make?_eq_some_iff.mp hmake
    exact Option.isSome_of_mem
      (parse?_eq_some_iff.mpr ⟨front, back, htext, hslash, hnetwork, hlength ▸ hprefix⟩)

/-- Digits alone are the length that they are in decimal. -/
theorem prefixText_digits_iff {digits : Bytes} (hne : digits ≠ [])
    (hdigits : ∀ b ∈ digits, Ascii.isDigit b = true) {i : Int} :
    PrefixText digits i ↔ inBase 10 digits = i := by
  have hself : PrefixText digits (inBase 10 digits) :=
    @PrefixText.intro [] [] digits false nofun .absent hne hdigits
  rw [← length?_eq_some_iff, length?_eq_some_iff.mpr hself, Option.some.injEq]

/-- No value satisfies a rule whose text spells no block. -/
theorem satisfied_of_isSome_eq_false {text : Bytes} (h : (parse? text).isSome = false) (what : Value)
    (q : Option Inquiry) : (Rule.cidr text).satisfied what q = .ok false := by
  rw [Rule.satisfied]
  unfold Rule.cidrSatisfied
  split
  · rw [Option.isNone_iff_eq_none.mp (Option.isSome_eq_false_iff.mp h), Option.any_none]
  · rfl

/-- **Blocks as they are written.**  A text spells a block just if it is an address, a slash and the length
of a prefix that the address has and behind which no bit of it is set; otherwise no value satisfies the
rule.  The length is written in decimal digits, in front of which blanks and a sign may stand; where digits
alone follow the slash, these are the length. -/
theorem written_blocks (text : Bytes) :
    ((parse? text).isSome = true ↔ ∃ front back network p,
      text = front ++ '/'.toUInt8 :: back ∧ '/'.toUInt8 ∉ front ∧ Address.parse? front = some network ∧
      PrefixText back (p : Nat) ∧ p ≤ network.family.width ∧ network.ClearBehind p) ∧
    ((parse? text).isSome = false →
      ∀ (what : Value) (q : Option Inquiry), (Rule.cidr text).satisfied what q = .ok false) ∧
    ∀ {front digits : Bytes}, text = front ++ '/'.toUInt8 :: digits → '/'.toUInt8 ∉ front → digits ≠ [] →
      (∀ b ∈ digits, Ascii.isDigit b = true) →
      ((parse? text).isSome = true ↔ ∃ network,
        Address.parse? front = some network ∧ inBase 10 digits ≤ network.family.width ∧
        network.ClearBehind (inBase 10 digits)) := by
  refine ⟨isSome_parse?_iff, satisfied_of_isSome_eq_false, ?_⟩
  rintro front digits rfl hslash hne hdigits
  rw [isSome_parse?_iff]
  constructor
  · rintro ⟨front', back, network, p, htext, hslash', hnetwork, hprefix, hle, hclear⟩
    -- a text has one first slash
    have hcut : cut? '/'.toUInt8 (front ++ '/'.toUInt8 :: digits) = some (front', back) :=
      cut?_eq_some_iff.mpr ⟨htext, hslash'⟩
    rw [cut?_eq_some_iff.mpr ⟨rfl, hslash⟩] at hcut
    cases hcut
    obtain rfl := Int.ofNat.inj ((prefixText_digits_iff hne hdigits).mp hprefix)
    exact ⟨network, hnetwork, hle, hclear⟩
  · rintro ⟨network, hnetwork, hle, hclear⟩
    exact ⟨front, digits, network, inBase 10 digits, rfl, hslash, hnetwork,
      (prefixText_digits_iff hne hdigits).mpr rfl, hle, hclear⟩

/-- The length may have leading zeros, and the last group of the second network is behind the prefix. -/
theorem written_blocks_documentation :
    (parse? (utf8 "2001:db8::/032")).isSome = true ∧
      (Rule.cidr (utf8 "2001:db8::1/64")).satisfied (.string (utf8 "2001:db8::1")) none = .ok false := by
  obtain ⟨-, hnothing, -⟩ := written_blocks (utf8 "2001:db8::1/64")
  obtain ⟨-, -, hdigits⟩ := written_blocks (utf8 "2001:db8::/032")
  refine ⟨?_, hnothing rfl _ none⟩
  have htext : utf8 "2001:db8::/032" = utf8 "2001:db8::" ++ '/'.toUInt8 :: utf8 "032" := by decide
  refine (hdigits htext (by decide) (by decide) (by decide +kernel)).mpr
    ⟨⟨.v6, [0x20, 0x01, 0x0d, 0xb8, 0, 0, 0, 0, 0, 0, 0, 0, 0, 0, 0, 0], rfl⟩, rfl, ?_, ?_⟩
  · decide +kernel
  · decide +kernel

/-- Blanks and a sign are let pass in front of the digits. -/
theorem parse?_signed_length :
    (parse? (utf8 "10.0.0.0/ +8")).isSome = true ∧
      (Rule.cidr (utf8 "10.0.0.0/ +8")).satisfied (.string (utf8 "10.1.2.3")) none = .ok true ∧
      ¬ ∃ front digits, utf8 "10.0.0.0/ +8" = front ++ '/'.toUInt8 :: digits ∧ '/'.toUInt8 ∉ front ∧
        ∀ b ∈ digits, Ascii.isDigit b = true := by
  refine ⟨rfl, rfl, ?_⟩
  rintro ⟨front, digits, htext, hslash, hdigits⟩
  have hcut : cut? '/'.toUInt8 (utf8 "10.0.0.0/ +8") = some (utf8 "10.0.0.0", utf8 " +8") := rfl
  rw [cut?_eq_some_iff.mpr ⟨htext, hslash⟩] at hcut
  cases hcut
  exact absurd hdigits (by decide)

/-! ## What satisfies a rule -/

/-- **Only literals satisfy a rule, up to the first zero byte.**  A text satisfies a rule just if what
stands in front of its first zero byte is a literal of an address in the block, and the network of a block
is such a literal as well; without zero bytes these are the whole texts.  What stands behind the zero byte
changes nothing, except that a colon there keeps a dotted quad from being read. -/
theorem satisfied_by_literals (cidr s : Bytes) (q : Option Inquiry) :
    ((Rule.cidr cidr).satisfied (.string s) q = .ok true ↔
      ∃ block a, parse? cidr = some block ∧ block.contains a = true ∧
        Address.Literal block.network.family (s.takeWhile (· != 0)) a.octets ∧
        (':'.toUInt8 ∈ s → block.network.family = .v6)) ∧
    ((Rule.cidr cidr).satisfied (.string s) q = .ok true → 0 ∉ s →
      ∃ family octets, Address.Literal family s octets) ∧
    (∀ {block : Block}, parse? cidr = some block →
      ∃ front back, cidr = front ++ '/'.toUInt8 :: back ∧ '/'.toUInt8 ∉ front ∧
        Address.Literal block.network.family (front.takeWhile (· != 0)) block.network.octets ∧
        (0 ∉ front → Address.Literal block.network.family front block.network.octets)) ∧
    ∀ {front back : Bytes}, s = front ++ 0 :: back → 0 ∉ front →
      (Rule.cidr cidr).satisfied (.string s) q =
        if ':'.toUInt8 ∈ back ∧ ':'.toUInt8 ∉ front then .ok false
        else (Rule.cidr cidr).satisfied (.string front) q := by
  have hwhole {t : Bytes} (h : 0 ∉ t) : t.takeWhile (· != 0) = t :=
    List.takeWhile_eq_self_iff.mpr fun b hb => bne_iff_ne.mpr fun hzero => h (hzero ▸ hb)
  have hsatisfied : (Rule.cidr cidr).satisfied (.string s) q = .ok true ↔
      ∃ block a, parse? cidr = some block ∧ block.contains a = true ∧
        Address.Literal block.network.family (s.takeWhile (· != 0)) a.octets ∧
        (':'.toUInt8 ∈ s → block.network.family = .v6) := by
    rw [cidr_satisfied_iff]
    refine exists_congr fun block => exists_congr fun a => and_congr_right fun _ => ?_
    rw [and_comm]
    refine and_congr_right fun hcontains => ?_
    rw [Address.parse?_eq_some_iff, family_of_contains hcontains]
  refine ⟨hsatisfied, ?_, ?_, ?_⟩
  · intro h hzero
    obtain ⟨block, a, -, -, hliteral, -⟩ := hsatisfied.mp h
    exact ⟨block.network.family, a.octets, hwhole hzero ▸ hliteral⟩
  · intro block h
    obtain ⟨front, back, hcidr, hslash, hnetwork, -⟩ := parse?_eq_some_iff.mp h
    have hliteral := (Address.parse?_eq_some_iff.mp hnetwork).1
    exact ⟨front, back, hcidr, hslash, hliteral, fun hzero => hwhole hzero ▸ hliteral⟩
  · rintro front back rfl hzero
    rw [cidr_satisfied, cidr_satisfied, Address.parse?_append_zero hzero]
    split
    · simp
    · rfl

/-- A text behind a zero byte changes nothing, but a colon does. -/
theorem satisfied_by_literals_front :
    (Rule.cidr (utf8 "10.0.0.0/8")).satisfied (.string (utf8 "10.0.0.1" ++ 0 :: utf8 "x")) none = .ok true ∧
      (∃ family octets, Address.Literal family (utf8 "10.0.0.1") octets) ∧
      (Rule.cidr (utf8 "10.0.0.0/8")).satisfied (.string (utf8 "10.0.0.1" ++ 0 :: utf8 ":")) none =
        .ok false := by
  have hsatisfied : (Rule.cidr (utf8 "10.0.0.0/8")).satisfied (.string (utf8 "10.0.0.1")) none = .ok true := rfl
  obtain ⟨-, hliteral, -⟩ := satisfied_by_literals (utf8 "10.0.0.0/8") (utf8 "10.0.0.1") none
  obtain ⟨-, -, -, hletter⟩ := satisfied_by_literals (utf8 "10.0.0.0/8") (utf8 "10.0.0.1" ++ 0 :: utf8 "x") none
  obtain ⟨-, -, -, hcolon⟩ := satisfied_by_literals (utf8 "10.0.0.0/8") (utf8 "10.0.0.1" ++ 0 :: utf8 ":") none
  refine ⟨?_, hliteral hsatisfied (by decide), ?_⟩
  · rw [hletter rfl (by decide), if_neg (by decide), hsatisfied]
  · rw [hcolon rfl (by decide), if_pos (by decide)]

/-- A candidate that goes on behind a zero byte is no literal, and satisfies a rule. -/
theorem satisfied_by_trailing :
    (Rule.cidr (utf8 "10.0.0.0/8")).satisfied (.string (utf8 "10.0.0.1" ++ 0 :: utf8 "x")) none = .ok true ∧
      ¬ ∃ family octets, Address.Literal family (utf8 "10.0.0.1" ++ 0 :: utf8 "x") octets := by
  refine ⟨rfl, ?_⟩
  rintro ⟨family, octets, hliteral⟩
  exact absurd (hliteral.bytes 0 (by decide)) (by decide)

end Block

end AccessControl.Network
