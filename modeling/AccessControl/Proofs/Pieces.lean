import AccessControl.Network.Address

/-!
# Texts in pieces

A text is cut at its first separator (`Bytes.cut?_eq_some_iff`) or in the pieces between all separators.
The pieces make the text up (`Bytes.joined_pieces`), and texts without the separator are the pieces of what
they make up (`Bytes.pieces_joined`).
-/

namespace AccessControl

namespace Bytes

variable {separator : UInt8} {front text : Bytes} {texts : List Bytes}

/-- What holds of the bytes with all numbers holds of every byte. -/
theorem forall_byte {p : UInt8 → Prop} (h : ∀ n < 256, p (UInt8.ofNat n)) (b : UInt8) : p b := by
  simpa using h b.toNat b.toNat_lt

/-- Behind the first text, each has a separator in front of it. -/
theorem joined_cons (separator text : Bytes) (texts : List Bytes) :
    joined separator (text :: texts) = text ++ texts.flatMap (separator ++ ·) := by
  induction texts generalizing text with
  | nil => exact (List.append_nil text).symm
  | cons next texts ih =>
    rw [joined, ih, List.flatMap_cons, List.append_assoc, List.append_assoc]

/-- What holds of the bytes of texts and of a separator holds of those of the texts joined by it. -/
theorem forall_mem_joined {p : UInt8 → Prop} {separator : Bytes} (hseparator : ∀ b ∈ separator, p b)
    (h : ∀ t ∈ texts, ∀ b ∈ t, p b) : ∀ b ∈ joined separator texts, p b := by
  induction texts with
  | nil => nofun
  | cons t rest ih =>
    obtain ⟨ht, hrest⟩ := List.forall_mem_cons.mp h
    cases rest with
    | nil => exact ht
    | cons u rest =>
      intro b hb
      rcases List.mem_append.mp hb with hb | hb
      · exact (List.mem_append.mp hb).elim (ht b) (hseparator b)
      · exact ih hrest b hb

/-! ## Cuts -/

/-- **A text is cut at the first separator.** -/
theorem cut?_eq_some_iff {back : Bytes} :
    cut? separator text = some (front, back) ↔ text = front ++ separator :: back ∧ separator ∉ front := by
  induction text generalizing front with
  | nil => simp [cut?]
  | cons b rest ih =>
    unfold cut?
    by_cases hb : b = separator
    · subst hb
      rw [if_pos (beq_self_eq_true b)]
      cases front with
      | nil => simp
      | cons c front =>
        simp only [Option.some.injEq, Prod.mk.injEq, List.nil_eq, reduceCtorEq, false_and, List.cons_append,
          List.cons.injEq, List.mem_cons, not_or, false_iff]
        rintro ⟨⟨rfl, -⟩, hne, -⟩
        exact hne rfl
    · rw [if_neg (by simpa using hb)]
      cases front with
      | nil => simp [hb]
      | cons c front =>
        simp only [Option.map_eq_some_iff, Prod.exists, Prod.mk.injEq, List.cons.injEq, List.cons_append,
          List.mem_cons, not_or]
        constructor
        · rintro ⟨f, k, hcut, ⟨rfl, rfl⟩, rfl⟩
          obtain ⟨rfl, hnot⟩ := ih.mp hcut
          exact ⟨⟨rfl, rfl⟩, Ne.symm hb, hnot⟩
        · rintro ⟨⟨rfl, hrest⟩, -, hnot⟩
          exact ⟨front, back, ih.mpr ⟨hrest, hnot⟩, ⟨rfl, rfl⟩, rfl⟩

/-! ## Pieces -/

theorem pieces_ne_nil (separator : UInt8) (text : Bytes) : pieces separator text ≠ [] := by
  cases text with
  | nil => exact List.cons_ne_nil _ _
  | cons b rest =>
    unfold pieces
    split
    · exact List.cons_ne_nil _ _
    · split <;> exact List.cons_ne_nil _ _

theorem pieces_cons_of_ne {b : UInt8} (hb : b ≠ separator) {piece : Bytes}
    (h : pieces separator text = piece :: texts) : pieces separator (b :: text) = (b :: piece) :: texts := by
  rw [pieces, if_neg (by simpa using hb), h]

theorem pieces_of_not_mem (h : separator ∉ text) : pieces separator text = [text] := by
  induction text with
  | nil => rfl
  | cons b rest ih =>
    rw [List.mem_cons, not_or] at h
    exact pieces_cons_of_ne (Ne.symm h.1) (ih h.2)

theorem pieces_append (h : separator ∉ front) (rest : Bytes) :
    pieces separator (front ++ separator :: rest) = front :: pieces separator rest := by
  induction front with
  | nil => exact if_pos (beq_self_eq_true separator)
  | cons b front ih =>
    rw [List.mem_cons, not_or] at h
    exact pieces_cons_of_ne (Ne.symm h.1) (ih h.2)

/-- Texts without the separator are the pieces of the text that they make up. -/
theorem pieces_joined (hne : texts ≠ []) (h : ∀ t ∈ texts, separator ∉ t) :
    pieces separator (joined [separator] texts) = texts := by
  induction texts with
  | nil => exact absurd rfl hne
  | cons t rest ih =>
    obtain ⟨ht, hrest⟩ := List.forall_mem_cons.mp h
    cases rest with
    | nil => exact pieces_of_not_mem ht
    | cons u rest =>
      rw [joined, List.append_assoc, List.singleton_append, pieces_append ht,
        ih (List.cons_ne_nil _ _) hrest]

/-- The pieces of a text make it up. -/
theorem joined_pieces (separator : UInt8) (text : Bytes) :
    joined [separator] (pieces separator text) = text := by
  induction text with
  | nil => rfl
  | cons b rest ih =>
    obtain ⟨piece, others, hpieces⟩ := List.exists_cons_of_ne_nil (pieces_ne_nil separator rest)
    rw [hpieces] at ih
    by_cases hb : b = separator
    · subst hb
      rw [pieces, if_pos (beq_self_eq_true b), hpieces]
      exact congrArg (b :: ·) ih
    · rw [pieces_cons_of_ne hb hpieces]
      cases others with
      | nil => exact congrArg (b :: ·) ih
      | cons t others => exact congrArg (b :: ·) ih

end Bytes

end AccessControl
