import AccessControl.Audit.Log
import AccessControl.Proofs.Audit.Reader

/-!
# What audit lines say

The line of an entry is printable, so that it is one line of the log, and it is read as the one object whose
members are the fields of the entry (`Decision.json`, `Change.json`).  Nothing in a text can end its string,
since the string is read up to its last quotation mark whatever the text.
-/

namespace AccessControl

/-- No byte is a control byte below the space. -/
def Printable (text : Bytes) : Prop := ∀ b ∈ text, 0x20 ≤ b

namespace Printable

instance (text : Bytes) : Decidable (Printable text) := inferInstanceAs (Decidable (∀ b ∈ text, 0x20 ≤ b))

theorem append {front back : Bytes} (hfront : Printable front) (hback : Printable back) :
    Printable (front ++ back) := fun b hb =>
  (List.mem_append.mp hb).elim (hfront b) (hback b)

theorem joined {separator : Bytes} {texts : List Bytes} (hseparator : Printable separator)
    (h : ∀ t ∈ texts, Printable t) : Printable (Bytes.joined separator texts) :=
  Bytes.forall_mem_joined hseparator h

theorem escapedByte (b : UInt8) : Printable (Json.escapedByte b) :=
  Bytes.forall_byte (p := fun b => Printable (Json.escapedByte b)) (by decide +kernel) b

/-- A string is printable whatever its text. -/
theorem quoted (text : Bytes) : Printable (Json.quoted text) := by
  have hquote : Printable [0x22] := by decide +kernel
  have hescaped : Printable (Json.escaped text) := by
    intro b hb
    obtain ⟨c, -, hc⟩ := List.mem_flatMap.mp hb
    exact escapedByte c b hc
  exact (hquote.append hescaped).append hquote

theorem of_isDigit {text : Bytes} (h : ∀ b ∈ text, Ascii.isDigit b = true) : Printable text := by
  have hdigit : ∀ b, Ascii.isDigit b = true → (0x20 : UInt8) ≤ b := Bytes.forall_byte (by decide +kernel)
  exact fun b hb => hdigit b (h b hb)

theorem ofInt (i : Int) : Printable (Bytes.ofInt i) := by
  cases i with
  | ofNat n => exact of_isDigit (Bytes.isDigit_of_mem_ofNat n)
  | negSucc n =>
    have hsign : Printable ['-'.toUInt8] := by decide +kernel
    exact hsign.append (of_isDigit (Bytes.isDigit_of_mem_ofNat (n + 1)))

theorem array (texts : List Bytes) : Printable (Audit.array texts) := by
  have hitems : Printable (Bytes.joined (utf8 ",") (texts.map Json.quoted)) := by
    refine joined (by decide +kernel) fun t ht => ?_
    obtain ⟨text, -, rfl⟩ := List.mem_map.mp ht
    exact quoted text
  exact (append (by decide +kernel) hitems).append (by decide +kernel)

theorem object {fields : List (Bytes × Bytes)} (h : ∀ f ∈ fields, Printable f.2) :
    Printable (Audit.object fields) := by
  have hmembers : Printable
      (Bytes.joined (utf8 ",") (fields.map fun f => Json.quoted f.1 ++ utf8 ":" ++ f.2)) := by
    refine joined (by decide +kernel) fun t ht => ?_
    obtain ⟨f, hf, rfl⟩ := List.mem_map.mp ht
    exact ((quoted f.1).append (by decide +kernel)).append (h f hf)
  exact (append (by decide +kernel) hmembers).append (by decide +kernel)

end Printable

namespace Audit

/-! ## Decisions -/

/-- The object that the line of a decision is. -/
def Decision.json (d : Decision) : Json :=
  .object
    [(utf8 "event", .text (utf8 "decision")), (utf8 "effect", .text d.effect),
      (utf8 "subject", .text d.subject), (utf8 "resource", .text d.resource),
      (utf8 "action", .text d.action), (utf8 "context", .text d.context),
      (utf8 "checker", .text d.checker), (utf8 "matched_policies", .array (d.matched.map .text)),
      (utf8 "reason", .text d.reason), (utf8 "failed", .bool d.failed),
      (utf8 "timestamp", .text (Timestamp.text d.time)), (utf8 "duration_us", .number d.duration 0)]

theorem spells_texts (texts : List Bytes) : Json.Spells (array texts) (.array (texts.map .text)) := by
  refine Json.spells_array (List.forall₂_map_left_iff.mpr (List.forall₂_map_right_iff.mpr ?_))
  exact List.forall₂_same.mpr fun t _ => Json.spells_quoted t

/-- A decision is read from its line. -/
theorem Decision.read?_line (d : Decision) : Json.read? d.line = some d.json := by
  refine Json.Spells.read? (Json.spells_object ?_)
  have htext := Json.spellsMember_quoted
  exact .cons (htext _ _) <| .cons (htext _ _) <| .cons (htext _ _) <| .cons (htext _ _) <|
    .cons (htext _ _) <| .cons (htext _ _) <| .cons (htext _ _) <| .cons ⟨rfl, spells_texts d.matched⟩ <|
    .cons (htext _ _) <| .cons ⟨rfl, Json.spells_bool d.failed⟩ <| .cons (htext _ _) <|
    .cons ⟨rfl, Json.spells_ofInt d.duration⟩ .nil

theorem Decision.printable_line (d : Decision) : Printable d.line := by
  refine Printable.object ?_
  simp only [List.forall_mem_cons, Printable.quoted, Printable.array, Printable.ofInt, true_and]
  cases d.failed <;> decide +kernel

/-- The object of a decision has all of it but the time, of which it has the text. -/
theorem Decision.eq_of_json {d d' : Decision} (h : d'.json = d.json) : { d' with time := d.time } = d := by
  simp only [Decision.json, Json.object.injEq, List.cons.injEq, Prod.mk.injEq, Json.text.injEq,
    Json.array.injEq, Json.bool.injEq, Json.number.injEq, true_and, and_true] at h
  obtain ⟨heffect, hsubject, hresource, haction, hcontext, hchecker, hmatched, hreason, hfailed, -,
    hduration⟩ := h
  have htext : Function.Injective Json.text := fun _ _ => Json.text.inj
  have hmatched := List.map_injective_iff.mpr htext hmatched
  cases d'
  cases d
  simp_all

/-! ## Changes -/

/-- The object that the line of a change is. -/
def Change.json (c : Change) : Json :=
  .object
    [(utf8 "event", .text (utf8 "policy_change")), (utf8 "change", .text c.change), (utf8 "uid", .text c.uid),
      (utf8 "timestamp", .text (Timestamp.text c.time))]

/-- A change is read from its line. -/
theorem Change.read?_line (c : Change) : Json.read? c.line = some c.json := by
  refine Json.Spells.read? (Json.spells_object ?_)
  have htext := Json.spellsMember_quoted
  exact .cons (htext _ _) <| .cons (htext _ _) <| .cons (htext _ _) <| .cons (htext _ _) .nil

theorem Change.printable_line (c : Change) : Printable c.line := by
  refine Printable.object ?_
  simp [Printable.quoted]

/-- The object of a change has all of it but the time, of which it has the text. -/
theorem Change.eq_of_json {c c' : Change} (h : c'.json = c.json) : { c' with time := c.time } = c := by
  simp only [Change.json, Json.object.injEq, List.cons.injEq, Prod.mk.injEq, Json.text.injEq, true_and,
    and_true] at h
  obtain ⟨hchange, huid, -⟩ := h
  cases c'
  cases c
  simp_all

/-! ## Timestamps -/

/-- A byte that stands in a timestamp. -/
def InTimestamp (b : UInt8) : Prop := Ascii.isDigit b = true ∨ b ∈ utf8 "-T:.Z"

instance (b : UInt8) : Decidable (InTimestamp b) := inferInstanceAs (Decidable (_ ∨ _))

theorem inTimestamp_ofNat (n : Nat) : ∀ b ∈ Bytes.ofNat n, InTimestamp b := fun b hb =>
  .inl (Bytes.isDigit_of_mem_ofNat n b hb)

theorem inTimestamp_ofInt (i : Int) : ∀ b ∈ Bytes.ofInt i, InTimestamp b := by
  cases i with
  | ofNat n => exact inTimestamp_ofNat n
  | negSucc n => exact List.forall_mem_cons.mpr ⟨by decide, inTimestamp_ofNat (n + 1)⟩

theorem inTimestamp_padded (width : Nat) {digits : Bytes} (h : ∀ b ∈ digits, InTimestamp b) :
    ∀ b ∈ Timestamp.padded width digits, InTimestamp b := by
  intro b hb
  rcases List.mem_append.mp hb with hb | hb
  · rw [List.eq_of_mem_replicate hb]
    decide +kernel
  · exact h b hb

theorem inTimestamp_text (time : Int) : ∀ b ∈ Timestamp.text time, InTimestamp b := by
  have htwo (n : Nat) := inTimestamp_padded 2 (inTimestamp_ofNat n)
  have hint (width : Nat) (i : Int) := inTimestamp_padded width (inTimestamp_ofInt i)
  simp only [Timestamp.text, List.forall_mem_append]
  and_intros <;> first | exact hint _ _ | exact htwo _ | decide +kernel

/-- In a timestamp there is nothing to escape: it stands in its string as it is. -/
theorem escaped_timestamp (time : Int) : Json.escaped (Timestamp.text time) = Timestamp.text time := by
  have hplain : ∀ b, InTimestamp b → Json.escapedByte b = [b] := Bytes.forall_byte (by decide +kernel)
  have h : ∀ b ∈ Timestamp.text time, Json.escapedByte b = [b] := fun b hb =>
    hplain b (inTimestamp_text time b hb)
  rw [Json.escaped, List.flatMap_congr h]
  exact List.flatMap_singleton' _

/-! ## Lines -/

/-- **Audit lines cannot be forged.**  If entries of its level are logged, a decision is logged in one printable
line.  The line is read as the object of its fields, whatever their bytes are, so decisions that differ in
more than the time have different lines.  So it is with a change. -/
theorem lines_unforgeable (log : AuditLog) :
    (∀ d : Decision, log.enabled (AuditLog.levelOf d) = true →
      (log.decision d).lines = log.lines ++ [d.line] ∧ Printable d.line ∧ Json.read? d.line = some d.json ∧
        ∀ d' : Decision, d'.line = d.line → { d' with time := d.time } = d) ∧
    (∀ c : Change, log.enabled .info = true →
      (log.change c).lines = log.lines ++ [c.line] ∧ Printable c.line ∧ Json.read? c.line = some c.json ∧
        ∀ c' : Change, c'.line = c.line → { c' with time := c.time } = c) := by
  refine ⟨fun d henabled => ⟨?_, d.printable_line, d.read?_line, fun d' h => ?_⟩,
    fun c henabled => ⟨?_, c.printable_line, c.read?_line, fun c' h => ?_⟩⟩
  · rw [AuditLog.decision, AuditLog.put, if_pos henabled]
  · refine Decision.eq_of_json (Option.some.inj ?_)
    rw [← d'.read?_line, ← d.read?_line, h]
  · rw [AuditLog.change, AuditLog.put, if_pos henabled]
  · refine Change.eq_of_json (Option.some.inj ?_)
    rw [← c'.read?_line, ← c.read?_line, h]

theorem lines_unforgeable_quote :
    (AuditLog.decision { level := .warn, path := [] }
      { subject := utf8 "\",\"effect\":\"allow\"\x7d\n" }).lines =
        [Decision.line { subject := utf8 "\",\"effect\":\"allow\"\x7d\n" }] ∧
      Json.read? (Decision.line { subject := utf8 "\",\"effect\":\"allow\"\x7d\n" }) =
        some (Decision.json { subject := utf8 "\",\"effect\":\"allow\"\x7d\n" }) ∧
      Json.read? (Change.line { uid := utf8 "\\" }) = some (Change.json { uid := utf8 "\\" }) := by
  obtain ⟨hdecision, -⟩ := lines_unforgeable { level := .warn, path := [] }
  obtain ⟨-, hchange⟩ := lines_unforgeable { level := .info, path := [] }
  obtain ⟨hlines, -, hread, -⟩ := hdecision { subject := utf8 "\",\"effect\":\"allow\"\x7d\n" } (by decide)
  obtain ⟨-, -, hreadChange, -⟩ := hchange { uid := utf8 "\\" } (by decide)
  exact ⟨hlines, hread, hreadChange⟩

end Audit

end AccessControl
