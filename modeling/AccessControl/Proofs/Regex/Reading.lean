import AccessControl.Regex.Token

/-!
# Reading what another text follows

A text that can be read to its end is read in the same way in front of a closing parenthesis
(`Reads.append_close`): none of its tokens reaches beyond its end, for a bracket, a brace or an escape
that is still open there could not have been read, and a parenthesis neither prolongs a number nor makes
a repetition lazy.
-/

namespace AccessControl.Regex

/-- The text is a row of tokens. -/
inductive Reads : Bytes → List Token → Prop
  | nil : Reads [] []
  | cons {text rest : Bytes} {token : Token} {tokens : List Token}
      (hread : Token.read? text = some (token, rest)) (hrest : Reads rest tokens) :
      Reads text (token :: tokens)

theorem reads_of_tokensWithin? {fuel : Nat} {text : Bytes} {tokens : List Token}
    (h : tokensWithin? fuel text = some tokens) : Reads text tokens := by
  induction fuel generalizing text tokens with
  | zero =>
    cases text with
    | nil =>
      cases h
      exact .nil
    | cons b text => cases h
  | succ fuel ih =>
    cases text with
    | nil =>
      cases h
      exact .nil
    | cons b text =>
      unfold tokensWithin? at h
      obtain ⟨⟨token, rest⟩, hread, h⟩ := Option.bind_eq_some_iff.mp h
      obtain ⟨tokens', htokens, h⟩ := Option.bind_eq_some_iff.mp h
      cases h
      exact .cons hread (ih htokens)

theorem length_le_of_tokensWithin? {fuel : Nat} {text : Bytes} {tokens : List Token}
    (h : tokensWithin? fuel text = some tokens) : tokens.length ≤ fuel := by
  induction fuel generalizing text tokens with
  | zero =>
    cases text with
    | nil =>
      cases h
      exact Nat.le_refl 0
    | cons b text => cases h
  | succ fuel ih =>
    cases text with
    | nil =>
      cases h
      exact Nat.zero_le _
    | cons b text =>
      unfold tokensWithin? at h
      obtain ⟨⟨token, rest⟩, hread, h⟩ := Option.bind_eq_some_iff.mp h
      obtain ⟨tokens', htokens, h⟩ := Option.bind_eq_some_iff.mp h
      cases h
      exact Nat.succ_le_succ (ih htokens)

theorem tokensWithin?_of_reads {fuel : Nat} {text : Bytes} {tokens : List Token} (h : Reads text tokens)
    (hfuel : tokens.length ≤ fuel) : tokensWithin? fuel text = some tokens := by
  induction h generalizing fuel with
  | nil => rw [tokensWithin?]
  | @cons text rest token tokens hread _ ih =>
    obtain ⟨fuel, rfl⟩ : ∃ m, fuel = m + 1 := ⟨fuel - 1, by rw [List.length_cons] at hfuel; omega⟩
    cases text with
    | nil => cases hread
    | cons b text =>
      unfold tokensWithin?
      simp only [hread, Option.bind_eq_bind, Option.bind_some, ih (Nat.le_of_succ_le_succ hfuel)]
      rfl

theorem Reads.deterministic {text : Bytes} {tokens tokens' : List Token} (h : Reads text tokens)
    (h' : Reads text tokens') : tokens = tokens' := by
  induction h generalizing tokens' with
  | nil =>
    cases h' with
    | nil => rfl
    | cons hread _ => cases hread
  | cons hread _ ih =>
    cases h' with
    | nil => cases hread
    | cons hread' hrest' =>
      rw [hread] at hread'
      cases hread'
      rw [ih hrest']

/-! ## Sets -/

namespace ByteSet

variable {text rest behind : Bytes} {token : Token}

theorem hexByte?_append {n : Nat} {b : UInt8} (h : hexByte? n text = some (b, rest)) :
    hexByte? n (text ++ behind) = some (b, rest ++ behind) := by
  unfold hexByte? at h
  simp only at h
  split at h
  · next hfront =>
    cases h
    have hlength : n ≤ text.length := by
      simp only [Bool.and_eq_true, decide_eq_true_eq, List.length_take] at hfront
      omega
    have htake : (text ++ behind).take n = text.take n := List.take_append_of_le_length hlength
    have hdrop : (text ++ behind).drop n = text.drop n ++ behind :=
      List.drop_append_of_le_length hlength
    rw [hexByte?, htake, hdrop, if_pos hfront]
  · cases h

theorem escapedByte?_append {b : UInt8} (h : escapedByte? text = some (b, rest)) :
    escapedByte? (text ++ behind) = some (b, rest ++ behind) := by
  cases text with
  | nil => cases h
  | cons c text =>
    unfold escapedByte? at h
    rw [List.cons_append]
    unfold escapedByte?
    simp only at h ⊢
    split at h
    case h_7 =>
      cases text with
      | nil => cases h
      | cons x text =>
        cases h
        rfl
    case h_8 => exact hexByte?_append h
    case h_9 => exact hexByte?_append h
    all_goals
      cases h
      rfl

theorem escaped?_append {t : ByteSet.Token} (h : escaped? text = some (t, rest)) :
    escaped? (text ++ behind) = some (t, rest ++ behind) := by
  cases text with
  | nil => cases h
  | cons b text =>
    rw [List.cons_append]
    unfold escaped? at h ⊢
    simp only at h ⊢
    split at h
    · cases h
      rfl
    · split at h
      · next hb =>
        cases h
        rw [if_pos hb]
      · next hb =>
        rw [if_neg hb]
        split at h
        · cases h
        · next hdigit =>
          obtain ⟨⟨c, rest'⟩, hescape, h⟩ := Option.map_eq_some_iff.mp h
          cases h
          rw [if_neg hdigit, ← List.cons_append, escapedByte?_append hescape]
          rfl

theorem dropWhile_append_of_ne_nil {p : UInt8 → Bool} (h : text.dropWhile p ≠ [])
    (behind : Bytes) :
    (text ++ behind).dropWhile p = text.dropWhile p ++ behind ∧
      (text ++ behind).takeWhile p = text.takeWhile p := by
  induction text with
  | nil => exact absurd rfl h
  | cons b text ih =>
    cases hb : p b with
    | true =>
      rw [List.dropWhile_cons_of_pos hb] at h ⊢
      rw [List.cons_append, List.dropWhile_cons_of_pos hb, List.takeWhile_cons_of_pos hb,
        List.takeWhile_cons_of_pos hb, (ih h).2]
      exact ⟨(ih h).1, rfl⟩
    | false =>
      have hb : ¬ p b = true := by rw [hb]; exact Bool.false_ne_true
      rw [List.cons_append, List.dropWhile_cons_of_neg hb, List.takeWhile_cons_of_neg hb,
        List.dropWhile_cons_of_neg hb, List.takeWhile_cons_of_neg hb]
      exact ⟨rfl, rfl⟩

theorem name?_append {mark : UInt8} {name : Bytes} (h : name? mark text = some (name, rest)) :
    name? mark (text ++ behind) = some (name, rest ++ behind) := by
  unfold name? at h
  split at h
  · next c b more hdrop =>
    have hne : text.dropWhile (· != mark) ≠ [] := by
      rw [hdrop]
      exact List.cons_ne_nil _ _
    obtain ⟨hdrop', htake'⟩ := dropWhile_append_of_ne_nil hne behind
    rw [name?, hdrop', hdrop, htake']
    simp only [List.cons_append]
    split at h
    · next hb =>
      cases h
      rw [if_pos hb]
    · cases h
  · cases h

theorem read?_append {t : ByteSet.Token} (h : read? text = some (t, rest)) :
    read? (text ++ behind) = some (t, rest ++ behind) := by
  cases text with
  | nil => cases h
  | cons b text =>
    rw [List.cons_append]
    unfold read? at h ⊢
    simp only at h ⊢
    split at h
    · cases h
      rfl
    · cases h
      rfl
    · exact escaped?_append h
    · cases text with
      | nil => cases h
      | cons mark text =>
        rw [List.cons_append]
        simp only at h ⊢
        split at h
        case h_4 =>
          cases h
          rfl
        all_goals
          obtain ⟨⟨name, more⟩, hname, h⟩ := Option.bind_eq_some_iff.mp h
          obtain ⟨code, hcode, h⟩ := Option.bind_eq_some_iff.mp h
          cases h
          rw [name?_append hname]
          simp only [Option.bind_eq_bind, Option.bind_some, hcode]
          rfl
    · cases h
      rfl

/-- The items of a set are those in front of its closing bracket, whatever stands behind it. -/
theorem items?_append {fuel fuel' : Nat} {pending : Pending} {items items' : List SetItem}
    (h : items? fuel pending items text = some (items', rest)) (hfuel : fuel ≤ fuel') :
    items? fuel' pending items (text ++ behind) = some (items', rest ++ behind) := by
  induction fuel generalizing fuel' pending items text with
  | zero => cases h
  | succ fuel ih =>
    obtain ⟨fuel', rfl⟩ : ∃ n, fuel' = n + 1 := ⟨fuel' - 1, by omega⟩
    have hfuel := Nat.le_of_succ_le_succ hfuel
    rw [items?] at h ⊢
    obtain ⟨⟨t, more⟩, hread, h⟩ := Option.bind_eq_some_iff.mp h
    rw [read?_append hread]
    simp only [Option.bind_eq_bind, Option.bind_some] at h ⊢
    cases t with
    | close =>
      cases h
      rfl
    | byte b => exact ih h hfuel
    | named b => exact ih h hfuel
    | item i => exact ih h hfuel
    | dash =>
      obtain ⟨⟨next, behind'⟩, hnext, h⟩ := Option.bind_eq_some_iff.mp h
      simp only [read?_append hnext, Option.bind_some]
      cases next with
      | close =>
        cases h
        rfl
      | _ =>
        cases pending with
        | item => cases h
        | nothing => exact ih h hfuel
        | byte a =>
          obtain ⟨b, hb, h⟩ := Option.bind_eq_some_iff.mp h
          simp only [hb, Option.bind_some] at h ⊢
          split at h
          · next hle =>
            rw [if_pos hle]
            exact ih h hfuel
          · cases h

theorem parse?_append {set : ByteSet} (h : parse? text = some (set, rest)) :
    parse? (text ++ behind) = some (set, rest ++ behind) := by
  have hitems (negated : Bool) (text : Bytes)
      (h : (items? text.length .nothing [] text).map (fun p => (⟨negated, p.1⟩, p.2)) =
        some (set, rest)) :
      (items? (text ++ behind).length .nothing [] (text ++ behind)).map
        (fun p => ((⟨negated, p.1⟩ : ByteSet), p.2)) = some (set, rest ++ behind) := by
    obtain ⟨⟨items, more⟩, hitems, h⟩ := Option.map_eq_some_iff.mp h
    have hfuel : text.length ≤ (text ++ behind).length := by
      rw [List.length_append]
      exact Nat.le_add_right ..
    rw [items?_append hitems hfuel]
    cases h
    rfl
  cases text with
  | nil => cases h
  | cons b text =>
    rw [List.cons_append]
    unfold parse? at h ⊢
    simp only at h ⊢
    split at h
    · next hb =>
      rw [if_pos hb]
      exact hitems true text h
    · next hb =>
      rw [if_neg hb]
      exact hitems false (b :: text) h

end ByteSet

/-! ## Tokens -/

namespace Token

variable {text rest behind : Bytes} {token : Token}

/-- A number ends where the text ends, if no digit follows. -/
theorem digits_append {b : UInt8} (hb : Ascii.isDigit b = false) (text behind : Bytes) :
    (text ++ b :: behind).takeWhile Ascii.isDigit = text.takeWhile Ascii.isDigit ∧
      (text ++ b :: behind).dropWhile Ascii.isDigit =
        text.dropWhile Ascii.isDigit ++ b :: behind := by
  induction text with
  | nil =>
    have hb : ¬ Ascii.isDigit b = true := by rw [hb]; exact Bool.false_ne_true
    rw [List.nil_append, List.takeWhile_cons_of_neg hb, List.dropWhile_cons_of_neg hb]
    exact ⟨rfl, rfl⟩
  | cons c text ih =>
    cases hc : Ascii.isDigit c with
    | true =>
      rw [List.cons_append, List.takeWhile_cons_of_pos hc, List.takeWhile_cons_of_pos hc,
        List.dropWhile_cons_of_pos hc, List.dropWhile_cons_of_pos hc, ih.1]
      exact ⟨rfl, ih.2⟩
    | false =>
      have hc : ¬ Ascii.isDigit c = true := by rw [hc]; exact Bool.false_ne_true
      rw [List.cons_append, List.takeWhile_cons_of_neg hc, List.takeWhile_cons_of_neg hc,
        List.dropWhile_cons_of_neg hc, List.dropWhile_cons_of_neg hc]
      exact ⟨rfl, rfl⟩

theorem close_not_digit : Ascii.isDigit ')'.toUInt8 = false := by decide

theorem count?_append {n : Int} (h : count? text = some (n, rest)) :
    count? (text ++ ')'.toUInt8 :: behind) = some (n, rest ++ ')'.toUInt8 :: behind) := by
  obtain ⟨htake, hdrop⟩ := digits_append close_not_digit text behind
  unfold count? at h ⊢
  simp only at h ⊢
  rw [htake, hdrop]
  split at h
  · cases h
  · next hfront =>
    obtain ⟨hn, hrest⟩ := Prod.mk.inj (Option.some.inj h)
    rw [if_neg hfront, hn, hrest]

theorem counts?_append {q : Quantifier} (h : counts? text = some (q, rest)) :
    counts? (text ++ ')'.toUInt8 :: behind) = some (q, rest ++ ')'.toUInt8 :: behind) := by
  unfold counts? at h ⊢
  obtain ⟨⟨least, more⟩, hleast, h⟩ := Option.bind_eq_some_iff.mp h
  rw [count?_append hleast]
  simp only [Option.bind_eq_bind, Option.bind_some] at h ⊢
  cases more with
  | nil => cases h
  | cons b more =>
    rw [List.cons_append]
    simp only at h ⊢
    split at h
    · next hb =>
      cases h
      rw [if_pos hb]
    · next hb =>
      rw [if_neg hb]
      split at h
      · next hcomma =>
        rw [if_pos hcomma]
        cases more with
        | nil => cases h
        | cons c more =>
          rw [List.cons_append]
          simp only at h ⊢
          split at h
          · next hc =>
            cases h
            rw [if_pos hc]
          · next hc =>
            rw [if_neg hc]
            obtain ⟨⟨most, more'⟩, hmost, h⟩ := Option.bind_eq_some_iff.mp h
            rw [← List.cons_append, count?_append hmost]
            simp only [Option.bind_some] at h ⊢
            cases more' with
            | nil => cases h
            | cons d more' =>
              rw [List.cons_append]
              simp only at h ⊢
              split at h
              · next hd =>
                cases h
                rw [if_pos hd]
              · cases h
      · cases h

theorem quantified_append (q : Quantifier) (text : Bytes) :
    quantified q (text ++ ')'.toUInt8 :: behind) =
      ((quantified q text).1, (quantified q text).2 ++ ')'.toUInt8 :: behind) := by
  cases text with
  | nil => rfl
  | cons b text =>
    rw [List.cons_append]
    unfold quantified
    simp only
    split <;> rfl

theorem escaped?_append (h : escaped? text = some (token, rest)) :
    escaped? (text ++ ')'.toUInt8 :: behind) = some (token, rest ++ ')'.toUInt8 :: behind) := by
  cases text with
  | nil => cases h
  | cons b text =>
    obtain ⟨htake, hdrop⟩ := digits_append close_not_digit (b :: text) behind
    rw [List.cons_append] at htake hdrop ⊢
    unfold escaped? at h ⊢
    simp only [htake, hdrop] at h ⊢
    split at h
    · cases h
      rfl
    · split at h
      · next hb =>
        cases h
        rw [if_pos hb]
      · next hb =>
        rw [if_neg hb]
        split at h
        · next hb' =>
          cases h
          rw [if_pos hb']
        · next hb' =>
          rw [if_neg hb']
          split at h
          · next hdigit =>
            rw [if_pos hdigit]
            split at h
            · next hn =>
              cases h
              rw [if_pos hn]
            · cases h
          · next hdigit =>
            obtain ⟨⟨c, more⟩, hescape, h⟩ := Option.map_eq_some_iff.mp h
            cases h
            rw [if_neg hdigit, ← List.cons_append, ByteSet.escapedByte?_append hescape]
            rfl

theorem opened?_append (h : opened? text = some (token, rest)) :
    opened? (text ++ ')'.toUInt8 :: behind) = some (token, rest ++ ')'.toUInt8 :: behind) := by
  cases text with
  | nil =>
    cases h
    rfl
  | cons b text =>
    rw [List.cons_append]
    unfold opened? at h ⊢
    simp only at h ⊢
    split at h
    · next hb =>
      rw [if_pos hb]
      cases text with
      | nil => cases h
      | cons c text =>
        rw [List.cons_append]
        simp only at h ⊢
        split at h
        case h_4 => cases h
        all_goals
          cases h
          rfl
    · next hb =>
      cases h
      rw [if_neg hb]
      rfl

/-- **A token is read in the same way in front of a closing parenthesis.** -/
theorem read?_append (h : read? text = some (token, rest)) :
    read? (text ++ ')'.toUInt8 :: behind) = some (token, rest ++ ')'.toUInt8 :: behind) := by
  cases text with
  | nil => cases h
  | cons b text =>
    rw [List.cons_append]
    unfold read? at h ⊢
    simp only at h ⊢
    split at h
    case h_1 => exact escaped?_append h
    case h_2 => exact opened?_append h
    case h_4 =>
      obtain ⟨⟨set, more⟩, hset, h⟩ := Option.map_eq_some_iff.mp h
      cases h
      rw [ByteSet.parse?_append hset]
      rfl
    case h_5 =>
      obtain ⟨⟨q, more⟩, hcounts, h⟩ := Option.map_eq_some_iff.mp h
      have h : quantified q more = (token, rest) := h
      rw [counts?_append hcounts, Option.map_some, quantified_append, h]
    case h_6 => rw [quantified_append, Option.some.inj h]
    case h_7 => rw [quantified_append, Option.some.inj h]
    case h_8 => rw [quantified_append, Option.some.inj h]
    all_goals
      cases h
      rfl

end Token

/-- **A text is read in the same way in front of a closing parenthesis.** -/
theorem Reads.append_close {text behind : Bytes} {tokens tokens' : List Token}
    (h : Reads text tokens) (h' : Reads (')'.toUInt8 :: behind) tokens') :
    Reads (text ++ ')'.toUInt8 :: behind) (tokens ++ tokens') := by
  induction h with
  | nil => exact h'
  | cons hread _ ih => exact .cons (Token.read?_append hread) ih

end AccessControl.Regex
