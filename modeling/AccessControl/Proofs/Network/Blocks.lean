import AccessControl.Proofs.Network.Octets
import AccessControl.Rule.Basic

/-!
# Blocks as intervals

The addresses of a block are those between its network address and the one that has all bits behind the
prefix set (`Block.contains_iff`), and a network address with a prefix is a block if what is behind the
prefix divides it (`Block.make?_isSome_iff`).

An address of either family is kept in an array of sixteen octets.  Comparisons that read such arrays
octet by octet, each read having to be inside, come to the same (`samePrefix?_padded`,
`clearBehind?_padded`): no prefix that an address has leads beyond the array.
-/

namespace AccessControl.Network

/-! ## Arrays of octets -/

/-- Compares octets from the one numbered `i` on; each of them has to be there. -/
def sameOctets? (a b : List UInt8) (i : Nat) : (count : Nat) → Option Bool
  | 0 => return true
  | count + 1 => do
    if (← a[i]?) == (← b[i]?) then sameOctets? a b (i + 1) count else return false

/-- Compares the first `n` bits of two arrays. -/
def samePrefix? (n : Nat) (a b : List UInt8) : Option Bool := do
  if !(← sameOctets? a b 0 (n / 8)) then return false
  if n % 8 = 0 then return true
  return (← a[n / 8]?) &&& upperMask (n % 8) == (← b[n / 8]?) &&& upperMask (n % 8)

/-- Whether octets from the one numbered `i` on are zero; each of them has to be there. -/
def zeroOctets? (a : List UInt8) (i : Nat) : (count : Nat) → Option Bool
  | 0 => return true
  | count + 1 => do
    if (← a[i]?) == 0 then zeroOctets? a (i + 1) count else return false

/-- Whether no bit of an array is set behind the first `n`. -/
def clearBehind? (n : Nat) (a : List UInt8) : Option Bool := do
  if n % 8 = 0 then zeroOctets? a (n / 8) (a.length - n / 8)
  else if (← a[n / 8]?) &&& lowerMask (n % 8) == 0 then
    zeroOctets? a (n / 8 + 1) (a.length - (n / 8 + 1))
  else return false

variable {a b : List UInt8} {i count n : Nat}

theorem sameOctets?_eq (ha : i + count ≤ a.length) (hb : i + count ≤ b.length) :
    sameOctets? a b i count = some ((a.drop i).take count == (b.drop i).take count) := by
  induction count generalizing i with
  | zero => simp [sameOctets?]
  | succ count ih =>
    have hia : i < a.length := by omega
    have hib : i < b.length := by omega
    have hrest := ih (i := i + 1) (by omega) (by omega)
    rw [List.drop_eq_getElem_cons hia, List.drop_eq_getElem_cons hib, List.take_succ_cons,
      List.take_succ_cons, List.cons_beq_cons]
    simp only [sameOctets?, List.getElem?_eq_getElem hia, List.getElem?_eq_getElem hib,
      Option.bind_eq_bind, Option.bind_some, hrest]
    cases a[i] == b[i] <;> rfl

/-- **Comparing prefixes** reads no octet that is not there. -/
theorem samePrefix?_eq (ha : n ≤ 8 * a.length) (hb : n ≤ 8 * b.length) :
    samePrefix? n a b = some (samePrefix n a b) := by
  have hfull : sameOctets? a b 0 (n / 8) = some (a.take (n / 8) == b.take (n / 8)) :=
    sameOctets?_eq (by omega) (by omega)
  simp only [samePrefix?, samePrefix, hfull, Option.bind_eq_bind, Option.bind_some]
  cases a.take (n / 8) == b.take (n / 8) with
  | false => rfl
  | true =>
    by_cases hrest : n % 8 = 0
    · simp [hrest]
    · have hia : n / 8 < a.length := by omega
      have hib : n / 8 < b.length := by omega
      simp [hrest, List.head?_drop, List.getElem?_eq_getElem hia, List.getElem?_eq_getElem hib]

theorem zeroOctets?_eq (ha : i + count = a.length) :
    zeroOctets? a i count = some ((a.drop i).all (· == 0)) := by
  induction count generalizing i with
  | zero =>
    rw [List.drop_eq_nil_of_le (by omega)]
    rfl
  | succ count ih =>
    have hi : i < a.length := by omega
    rw [List.drop_eq_getElem_cons hi, List.all_cons]
    simp only [zeroOctets?, List.getElem?_eq_getElem hi, Option.bind_eq_bind, Option.bind_some,
      ih (i := i + 1) (by omega)]
    cases a[i] == 0 <;> rfl

/-- **Looking behind a prefix** reads no octet that is not there. -/
theorem clearBehind?_eq (ha : n ≤ 8 * a.length) : clearBehind? n a = some (clearBehind n a) := by
  by_cases hrest : n % 8 = 0
  · simp only [clearBehind?, clearBehind, if_pos hrest]
    exact zeroOctets?_eq (by omega)
  · have hi : n / 8 < a.length := by omega
    have hbehind : zeroOctets? a (n / 8 + 1) (a.length - (n / 8 + 1)) =
        some ((a.drop (n / 8 + 1)).all (· == 0)) := zeroOctets?_eq (by omega)
    simp only [clearBehind?, clearBehind, if_neg hrest, List.getElem?_eq_getElem hi, hbehind,
      Option.bind_eq_bind, Option.bind_some, List.drop_eq_getElem_cons hi, List.take_succ_cons,
      List.take_zero, List.all_cons, List.all_nil, Bool.and_true, List.drop_succ_cons, List.drop_zero]
    cases a[n / 8] &&& lowerMask (n % 8) == 0 <;> rfl

/-- What is behind the compared bits does not matter. -/
theorem samePrefix_append (hlength : a.length = b.length) (hn : n ≤ 8 * a.length) (c d : List UInt8) :
    samePrefix n (a ++ c) (b ++ d) = samePrefix n a b := by
  induction a generalizing b n with
  | nil =>
    obtain rfl : n = 0 := Nat.le_zero.mp hn
    rw [samePrefix_zero, samePrefix_zero]
  | cons x a ih =>
    obtain ⟨y, b, rfl⟩ := List.exists_cons_of_length_eq_add_one hlength.symm
    have hab : a.length = b.length := Nat.succ_inj.mp hlength
    rw [List.length_cons] at hn
    rcases Nat.lt_or_ge n 8 with hlt | hge
    · rcases Nat.eq_zero_or_pos n with rfl | hpos
      · rw [samePrefix_zero, samePrefix_zero]
      · simp only [List.cons_append, samePrefix_cons_first hpos hlt]
    · obtain ⟨n, rfl⟩ := Nat.exists_eq_add_of_le' hge
      simp only [List.cons_append, samePrefix_cons]
      rw [ih hab (by omega)]

/-- Zeros behind a row set no bit. -/
theorem clearBehind_append_zeros (hn : n ≤ 8 * a.length) (k : Nat) :
    clearBehind n (a ++ List.replicate k 0) = clearBehind n a := by
  induction a generalizing n with
  | nil =>
    obtain rfl : n = 0 := Nat.le_zero.mp hn
    simp [clearBehind]
  | cons x a ih =>
    rw [List.length_cons] at hn
    rcases Nat.lt_or_ge n 8 with hlt | hge
    · rw [List.cons_append, clearBehind_cons_first hlt, clearBehind_cons_first hlt,
        ih (Nat.zero_le _)]
    · obtain ⟨n, rfl⟩ := Nat.exists_eq_add_of_le' hge
      rw [List.cons_append, clearBehind_cons, clearBehind_cons, ih (by omega)]

namespace Address

/-- The number of an address. -/
def value (a : Address) : Nat := bigEndian a.octets

/-- The array that an address of either family is kept in. -/
def padded (a : Address) : List UInt8 := a.octets ++ List.replicate (16 - a.octets.length) 0

theorem width_eq (a : Address) : 8 * a.octets.length = a.family.width := by
  rw [a.length_octets, Family.width]

theorem length_padded (a : Address) : a.padded.length = 16 := by
  have hle : a.octets.length ≤ 16 := by
    rw [a.length_octets]
    cases a.family <;> decide
  rw [padded, List.length_append, List.length_replicate, Nat.add_sub_cancel' hle]

theorem width_le_padded (a : Address) : a.family.width ≤ 8 * a.padded.length := by
  rw [length_padded]
  cases a.family <;> decide

end Address

theorem samePrefix?_padded {a b : Address} {p : Nat} (hfamily : a.family = b.family)
    (hp : p ≤ a.family.width) :
    samePrefix? p a.padded b.padded = some (samePrefix p a.octets b.octets) := by
  have hlength : a.octets.length = b.octets.length := by
    rw [a.length_octets, b.length_octets, hfamily]
  rw [samePrefix?_eq (Nat.le_trans hp a.width_le_padded)
    (Nat.le_trans (hfamily ▸ hp) b.width_le_padded), Address.padded, Address.padded,
    samePrefix_append hlength (Nat.le_trans hp (Nat.le_of_eq a.width_eq.symm))]

theorem clearBehind?_padded {a : Address} {p : Nat} (hp : p ≤ a.family.width) :
    clearBehind? p a.padded = some (clearBehind p a.octets) := by
  rw [clearBehind?_eq (Nat.le_trans hp a.width_le_padded), Address.padded,
    clearBehind_append_zeros (Nat.le_trans hp (Nat.le_of_eq a.width_eq.symm))]

/-! ## Blocks -/

namespace Block

theorem dvd_network (block : Block) :
    2 ^ (block.network.family.width - block.prefixLength) ∣ block.network.value := by
  rw [← block.network.width_eq]
  exact (clearBehind_iff (Nat.le_trans block.prefixLength_le
    (Nat.le_of_eq block.network.width_eq.symm))).mp block.clear

/-- Numbers have the quotient of a multiple from the multiple on, up to the next one. -/
theorem div_eq_div_iff_of_dvd {m k l : Nat} (hm : 0 < m) (hdvd : m ∣ k) :
    l / m = k / m ↔ k ≤ l ∧ l ≤ k + m - 1 := by
  obtain ⟨q, rfl⟩ := hdvd
  rw [Nat.mul_div_cancel_left q hm, Nat.div_eq_iff hm, Nat.mul_comm]

/-- **The addresses of a block** are an interval. -/
theorem contains_iff (block : Block) (a : Address) :
    block.contains a = true ↔ a.family = block.network.family ∧ block.network.value ≤ a.value ∧
      a.value ≤
        block.network.value + 2 ^ (block.network.family.width - block.prefixLength) - 1 := by
  rw [contains, Bool.and_eq_true, beq_iff_eq, and_congr_right_iff]
  intro hfamily
  have hlength : a.octets.length = block.network.octets.length := by
    rw [a.length_octets, block.network.length_octets, hfamily]
  have hp : block.prefixLength ≤ 8 * a.octets.length := by
    rw [hlength, block.network.width_eq]
    exact block.prefixLength_le
  rw [samePrefix_iff hlength hp, hlength, block.network.width_eq]
  exact div_eq_div_iff_of_dvd (Nat.two_pow_pos _) block.dvd_network

/-- **A network with a prefix** is a block if no bit behind the prefix is worth anything. -/
theorem make?_isSome_iff (network : Address) {p : Nat} (hp : p ≤ network.family.width) :
    (make? network p).isSome = true ↔ 2 ^ (network.family.width - p) ∣ network.value := by
  have hclear : clearBehind p network.octets = true ↔
      2 ^ (network.family.width - p) ∣ network.value := by
    rw [← network.width_eq]
    exact clearBehind_iff (Nat.le_trans hp (Nat.le_of_eq network.width_eq.symm))
  rw [← hclear, make?]
  by_cases h : clearBehind p network.octets = true
  · rw [dif_pos ⟨Int.natCast_nonneg p, hp, h⟩]
    exact iff_of_true rfl h
  · rw [dif_neg fun hall => h hall.2.2]
    exact iff_of_false Bool.false_ne_true h

/-- **Blocks are intervals.**  A rule whose text spells a block is satisfied by an address just if that is
of the family of the network and not less than it, nor greater than the last address with its prefix.  A
network address with a prefix of its family spells a block just if the number of addresses with that
prefix divides it.  No octet outside the array of sixteen is read for any such prefix. -/
theorem blocks_are_intervals :
    (∀ {text s : Bytes} {block : Block} {a : Address} (q : Option Inquiry),
      parse? text = some block → Address.parse? s = some a →
      (Rule.cidr text).satisfied (.string s) q =
        .ok (decide (a.family = block.network.family ∧ block.network.value ≤ a.value ∧
          a.value ≤
            block.network.value + 2 ^ (block.network.family.width - block.prefixLength) - 1))) ∧
    (∀ {text front back : Bytes} {network : Address} {p : Nat},
      Bytes.cut? '/'.toUInt8 text = some (front, back) → Address.parse? front = some network →
      length? back = some (p : Int) → p ≤ network.family.width →
      ((parse? text).isSome = true ↔ 2 ^ (network.family.width - p) ∣ network.value)) ∧
    ∀ {a b : Address} {p : Nat}, a.family = b.family → p ≤ a.family.width →
      a.padded.length = 16 ∧
        samePrefix? p a.padded b.padded = some (samePrefix p a.octets b.octets) ∧
        clearBehind? p a.padded = some (clearBehind p a.octets) := by
  refine ⟨?_, ?_, ?_⟩
  · intro text s block a q hblock ha
    have hsatisfied : (Rule.cidr text).satisfied (.string s) q = .ok (block.contains a) := by
      rw [Rule.satisfied, Rule.cidrSatisfied, hblock, Option.any_some, containsText, ha,
        Option.any_some]
    rw [hsatisfied]
    exact congrArg _ (Bool.eq_iff_iff.mpr ((contains_iff block a).trans decide_eq_true_iff.symm))
  · intro text front back network p hcut hnetwork hlength hp
    have hparse : parse? text = make? network p := by
      simp only [parse?, hcut, hnetwork, hlength, Option.bind_eq_bind, Option.bind_some]
    rw [hparse]
    exact make?_isSome_iff network hp
  · intro a b p hfamily hp
    exact ⟨a.length_padded, samePrefix?_padded hfamily hp, clearBehind?_padded hp⟩

/-- The eleventh bit is the last one of the prefix, so the block ends in front of 10.64.0.0. -/
theorem blocks_are_intervals_ten :
    (Rule.cidr (utf8 "10.32.0.0/11")).satisfied (.string (utf8 "10.63.255.255")) none = .ok true ∧
      (Rule.cidr (utf8 "10.32.0.0/11")).satisfied (.string (utf8 "10.64.0.0")) none = .ok false ∧
      (parse? (utf8 "10.32.0.0/10")).isSome = false := by
  obtain ⟨hmember, hspells, -⟩ := blocks_are_intervals
  refine ⟨?_, ?_, ?_⟩
  · exact (hmember none rfl rfl).trans rfl
  · exact (hmember none rfl rfl).trans rfl
  · have hcut : Bytes.cut? '/'.toUInt8 (utf8 "10.32.0.0/10") = some (utf8 "10.32.0.0", utf8 "10") := rfl
    have hlength : length? (utf8 "10") = some (10 : Nat) := rfl
    have hspelled := hspells hcut rfl hlength (by decide)
    exact Bool.eq_false_iff.mpr fun h => absurd (hspelled.mp h) (by decide)

end Block

end AccessControl.Network
