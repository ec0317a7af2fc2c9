import AccessControl.Audit.Line
import AccessControl.Proofs.Number.Integers
import AccessControl.Proofs.Pieces
import Mathlib.Data.List.Forall2

/-!
# A reader of JSON

`Json.read?` reads a JSON text byte by byte.  Between two bytes it knows its place in the value that it is
reading, and the arrays and objects around that value with what they hold so far (`Json.State`).  Bytes of
128 or more stand for themselves in texts, so that a text is any sequence of bytes.
-/

namespace AccessControl

/-- A JSON value.  A number is `coefficient * 10 ^ exponent`; the members of an object are those of the
text, in its order. -/
inductive Json where
  | null
  | bool (b : Bool)
  | number (coefficient exponent : Int)
  | text (bytes : Bytes)
  | array (items : List Json)
  | object (members : List (Bytes × Json))

namespace Json

/-! ## Texts -/

/-- A place in a text that is being read. -/
inductive InText where
  | plain (soFar : Bytes)
  /-- Behind a backslash. -/
  | escape (soFar : Bytes)
  /-- Behind `\u` and some digits with a value, when this many are missing besides the next.  If there is a
  high surrogate in front, this is to be the low one. -/
  | unit (soFar : Bytes) (high : Option Nat) (missing value : Nat)
  /-- Behind a high surrogate. -/
  | mate (soFar : Bytes) (high : Nat)
  /-- Behind a high surrogate and a backslash. -/
  | mateEscape (soFar : Bytes) (high : Nat)
  /-- Behind the last quotation mark. -/
  | closed (text : Bytes)

/-- What single letters behind a backslash stand for. -/
def escapes : List (UInt8 × UInt8) :=
  [('"'.toUInt8, '"'.toUInt8), ('\\'.toUInt8, '\\'.toUInt8), ('/'.toUInt8, '/'.toUInt8), ('b'.toUInt8, 8),
    ('f'.toUInt8, 12), ('n'.toUInt8, 10), ('r'.toUInt8, 13), ('t'.toUInt8, 9)]

/-- The bytes of a character. -/
def characterBytes (n : Nat) : Bytes := String.utf8EncodeChar (Char.ofNat n)

/-- The place behind the four digits of a code unit. -/
def InText.ofUnit (soFar : Bytes) (high : Option Nat) (n : Nat) : Option InText :=
  let isHigh := 0xD800 ≤ n ∧ n < 0xDC00
  let isLow := 0xDC00 ≤ n ∧ n < 0xE000
  match high with
  | none =>
    if isHigh then some (.mate soFar n) else if isLow then none else some (.plain (soFar ++ characterBytes n))
  | some h =>
    if isLow then
      some (.plain (soFar ++ characterBytes (0x10000 + (h - 0xD800) * 0x400 + (n - 0xDC00))))
    else none

/-- The place behind a further byte. -/
def InText.step : InText → UInt8 → Option InText
  | plain s, b =>
    if b = '"'.toUInt8 then some (closed s) else if b = '\\'.toUInt8 then some (escape s)
    else if b < 0x20 then none else some (plain (s ++ [b]))
  | escape s, b =>
    if b = 'u'.toUInt8 then some (unit s none 3 0) else (escapes.lookup b).map fun c => plain (s ++ [c])
  | unit s high missing n, b => do
    let d ← Ascii.hexValue? b
    match missing with
    | 0 => ofUnit s high (16 * n + d)
    | m + 1 => some (unit s high m (16 * n + d))
  | mate s h, b => if b = '\\'.toUInt8 then some (mateEscape s h) else none
  | mateEscape s h, b => if b = 'u'.toUInt8 then some (unit s (some h) 3 0) else none
  | closed _, _ => none

/-! ## Numbers -/

/-- The parts of a number: behind the sign, behind a leading zero, in the whole places, behind the point, in
the places behind it, behind the mark of the exponent, behind its sign, in the exponent. -/
inductive Part where
  | sign | zero | whole | point | fraction | mark | markSign | exponent
  deriving DecidableEq

/-- A place in a number that is being read, with what was read of it. -/
structure InNumber where
  negative : Bool
  coefficient : Nat := 0
  places : Nat := 0
  negativeExponent : Bool := false
  exponent : Nat := 0
  part : Part := .sign

/-- The place behind a further byte, if that belongs to the number. -/
def InNumber.step (n : InNumber) (b : UInt8) : Option InNumber :=
  match Ascii.digitValue? b with
  | some d =>
    match n.part with
    | .sign => some { n with coefficient := d, part := if d = 0 then .zero else .whole }
    | .zero => none
    | .whole => some { n with coefficient := 10 * n.coefficient + d }
    | .point | .fraction =>
      some { n with coefficient := 10 * n.coefficient + d, places := n.places + 1, part := .fraction }
    | .mark | .markSign | .exponent => some { n with exponent := 10 * n.exponent + d, part := .exponent }
  | none =>
    if b = '.'.toUInt8 ∧ n.part ∈ [.zero, .whole] then some { n with part := .point }
    else if (b = 'e'.toUInt8 ∨ b = 'E'.toUInt8) ∧ n.part ∈ [.zero, .whole, .fraction] then
      some { n with part := .mark }
    else if (b = '+'.toUInt8 ∨ b = '-'.toUInt8) ∧ n.part = .mark then
      some { n with negativeExponent := b = '-'.toUInt8, part := .markSign }
    else none

/-- The number, if it may end here. -/
def InNumber.value? (n : InNumber) : Option Json :=
  if n.part ∈ [.zero, .whole, .fraction, .exponent] then
    some (.number (Binary64.signed n.negative n.coefficient)
      (Binary64.signed n.negativeExponent n.exponent - n.places))
  else none

/-! ## Values -/

/-- An array or an object around a value that is being read: the items in front of it, or the members in
front of it and its key. -/
inductive Frame where
  | array (items : List Json)
  | object (members : List (Bytes × Json)) (key : Bytes)

/-- A place in a JSON text. -/
inductive Place where
  /-- In front of a value. -/
  | value
  /-- Behind the bracket of an array. -/
  | firstItem
  /-- Behind the brace of an object. -/
  | firstKey
  /-- In front of the key of a member behind others. -/
  | nextKey (members : List (Bytes × Json))
  | key (members : List (Bytes × Json)) (t : InText)
  /-- Behind a key. -/
  | colon (members : List (Bytes × Json)) (key : Bytes)
  | text (t : InText)
  /-- In a word that stands for a value, in front of the rest of it. -/
  | word (rest : Bytes) (v : Json)
  | number (n : InNumber)
  /-- Behind a value. -/
  | after (v : Json)

/-- A place and the arrays and objects around it, the innermost first. -/
structure State where
  place : Place
  around : List Frame

/-- Blanks between the parts of a JSON text. -/
def isBlank (b : UInt8) : Bool := b == 0x20 || b == 0x09 || b == 0x0a || b == 0x0d

/-- The place behind the first byte of a value. -/
def Place.begin (b : UInt8) : Option Place :=
  if b = '"'.toUInt8 then some (.text (.plain []))
  else if b = '['.toUInt8 then some .firstItem
  else if b = 0x7b then some .firstKey
  else if b = 't'.toUInt8 then some (.word (utf8 "rue") (.bool true))
  else if b = 'f'.toUInt8 then some (.word (utf8 "alse") (.bool false))
  else if b = 'n'.toUInt8 then some (.word (utf8 "ull") .null)
  else if b = '-'.toUInt8 then some (.number { negative := true })
  else (InNumber.step { negative := false } b).map .number

/-- The place in a text, or behind it. -/
def InText.placed (within : InText → Place) (behind : Bytes → Place) : InText → Place
  | .closed s => behind s
  | t => within t

/-- The state behind a byte that follows a value. -/
def State.follow (v : Json) (around : List Frame) (b : UInt8) : Option State :=
  if isBlank b then some ⟨.after v, around⟩
  else match around with
    | .array items :: outer =>
      if b = ','.toUInt8 then some ⟨.value, .array (items ++ [v]) :: outer⟩
      else if b = ']'.toUInt8 then some ⟨.after (.array (items ++ [v])), outer⟩ else none
    | .object members key :: outer =>
      if b = ','.toUInt8 then some ⟨.nextKey (members ++ [(key, v)]), outer⟩
      else if b = 0x7d then some ⟨.after (.object (members ++ [(key, v)])), outer⟩ else none
    | [] => none

/-- The state behind a further byte. -/
def State.step (s : State) (b : UInt8) : Option State :=
  match s.place with
  | .value => if isBlank b then some s else (Place.begin b).map (⟨·, s.around⟩)
  | .firstItem =>
    if isBlank b then some s
    else if b = ']'.toUInt8 then some ⟨.after (.array []), s.around⟩
    else (Place.begin b).map (⟨·, .array [] :: s.around⟩)
  | .firstKey =>
    if isBlank b then some s
    else if b = 0x7d then some ⟨.after (.object []), s.around⟩
    else if b = '"'.toUInt8 then some ⟨.key [] (.plain []), s.around⟩ else none
  | .nextKey members =>
    if isBlank b then some s
    else if b = '"'.toUInt8 then some ⟨.key members (.plain []), s.around⟩ else none
  | .key members t => (t.step b).map fun t => ⟨t.placed (.key members) (.colon members), s.around⟩
  | .colon members key =>
    if isBlank b then some s
    else if b = ':'.toUInt8 then some ⟨.value, .object members key :: s.around⟩ else none
  | .text t => (t.step b).map fun t => ⟨t.placed .text fun s => .after (.text s), s.around⟩
  | .word rest v =>
    match rest with
    | c :: rest =>
      if b = c then some ⟨if rest.isEmpty then .after v else .word rest v, s.around⟩ else none
    | [] => none
  | .number n =>
    match n.step b with
    | some n => some ⟨.number n, s.around⟩
    | none => n.value?.bind fun v => State.follow v s.around b
  | .after v => State.follow v s.around b

/-- The value that ends here, if nothing is around it. -/
def State.result? (s : State) : Option Json :=
  match s.place, s.around with
  | .after v, [] => some v
  | .number n, [] => n.value?
  | _, _ => none

/-- The value that a text is. -/
def read? (text : Bytes) : Option Json := (text.foldlM State.step ⟨.value, []⟩).bind State.result?

/-! ## Runs -/

/-- Reading a text leads from a state to another. -/
def Reads (s : State) (text : Bytes) (s' : State) : Prop := text.foldlM State.step s = some s'

theorem Reads.nil (s : State) : Reads s [] s := rfl

theorem Reads.cons {s s' s'' : State} {b : UInt8} {text : Bytes} (h : s.step b = some s')
    (hrest : Reads s' text s'') : Reads s (b :: text) s'' := by
  rw [Reads, List.foldlM_cons, h]
  exact hrest

theorem Reads.append {s s' s'' : State} {front back : Bytes} (h : Reads s front s')
    (hrest : Reads s' back s'') : Reads s (front ++ back) s'' := by
  rw [Reads, List.foldlM_append, h]
  exact hrest

/-! ## Texts as they are written -/

theorem characterBytes_of_lt : ∀ n < 0x20, characterBytes n = [UInt8.ofNat n] := by decide

theorem hexValue?_hexDigit : ∀ n < 16, Ascii.hexValue? (hexDigit n) = some n := by decide

/-- A code unit below the space is a byte. -/
theorem ofUnit_of_lt (s : Bytes) {n : Nat} (h : n < 0x20) :
    InText.ofUnit s none n = some (.plain (s ++ [UInt8.ofNat n])) := by
  have hhigh : ¬ (0xD800 ≤ n ∧ n < 0xDC00) := by omega
  have hlow : ¬ (0xDC00 ≤ n ∧ n < 0xE000) := by omega
  simp only [InText.ofUnit, if_neg hhigh, if_neg hlow, characterBytes_of_lt n h]

/-- A byte is read as it is escaped. -/
theorem foldlM_escapedByte (s : Bytes) (b : UInt8) :
    (escapedByte b).foldlM InText.step (.plain s) = some (.plain (s ++ [b])) := by
  unfold escapedByte
  -- the seven bytes with an escape of their own
  iterate 7
    split
    · next h => subst h; rfl
  split
  · next hcontrol =>
    have hlt : b.toNat < 0x20 := hcontrol
    have hmark : (utf8 "\\u00").foldlM InText.step (.plain s) = some (.unit s none 1 0) := rfl
    have hfirst : InText.step (.unit s none 1 0) (hexDigit (b.toNat / 16)) =
        some (.unit s none 0 (b.toNat / 16)) := by
      rw [InText.step, hexValue?_hexDigit _ (by omega)]
      simp
    have hsecond : InText.step (.unit s none 0 (b.toNat / 16)) (hexDigit (b.toNat % 16)) =
        some (.plain (s ++ [b])) := by
      rw [InText.step, hexValue?_hexDigit _ (by omega)]
      refine (ofUnit_of_lt s (show 16 * (b.toNat / 16) + b.toNat % 16 < 0x20 by omega)).trans ?_
      rw [Nat.div_add_mod, UInt8.ofNat_toNat]
    rw [List.foldlM_append, hmark]
    show ([hexDigit (b.toNat / 16), hexDigit (b.toNat % 16)]).foldlM InText.step (.unit s none 1 0) = _
    rw [List.foldlM_cons, hfirst]
    show ([hexDigit (b.toNat % 16)]).foldlM InText.step (.unit s none 0 (b.toNat / 16)) = _
    rw [List.foldlM_cons, hsecond]
    rfl
  · next hquote hbackslash _ _ _ _ _ hcontrol =>
    have hstep : InText.step (.plain s) b = some (.plain (s ++ [b])) :=
      (if_neg hquote).trans ((if_neg hbackslash).trans (if_neg hcontrol))
    rw [List.foldlM_cons, hstep]
    rfl

/-- **A text is read as it is escaped.** -/
theorem foldlM_escaped (s text : Bytes) :
    (escaped text).foldlM InText.step (.plain s) = some (.plain (s ++ text)) := by
  induction text generalizing s with
  | nil => rw [List.append_nil]; rfl
  | cons b text ih =>
    rw [escaped, List.flatMap_cons, List.foldlM_append, foldlM_escapedByte]
    refine (ih (s ++ [b])).trans ?_
    rw [List.append_assoc, List.singleton_append]

theorem placed_of_step {within : InText → Place} {behind : Bytes → Place} {t t' : InText} {b : UInt8}
    (h : t.step b = some t') : t.placed within behind = within t := by
  cases t with
  | closed => cases h
  | _ => rfl

/-- What is read in a text is read wherever the text stands. -/
theorem Reads.of_inText (within : InText → Place) (behind : Bytes → Place)
    (hstep : ∀ t around b, State.step ⟨within t, around⟩ b =
      (t.step b).map fun t => ⟨t.placed within behind, around⟩)
    {t t' : InText} {text : Bytes} (hne : text ≠ []) (h : text.foldlM InText.step t = some t')
    (around : List Frame) : Reads ⟨within t, around⟩ text ⟨t'.placed within behind, around⟩ := by
  induction text generalizing t with
  | nil => exact absurd rfl hne
  | cons b rest ih =>
    rw [List.foldlM_cons] at h
    obtain ⟨u, hu, hrest⟩ := Option.bind_eq_some_iff.mp h
    have hfirst : State.step ⟨within t, around⟩ b = some ⟨u.placed within behind, around⟩ := by
      rw [hstep, hu]
      rfl
    refine .cons hfirst ?_
    cases rest with
    | nil =>
      cases hrest
      exact .nil _
    | cons c rest =>
      have hplaced : u.placed within behind = within u := by
        rw [List.foldlM_cons] at hrest
        obtain ⟨_, hstep, -⟩ := Option.bind_eq_some_iff.mp hrest
        exact placed_of_step hstep
      rw [hplaced]
      exact ih (List.cons_ne_nil _ _) hrest

/-- A text is read up to its last quotation mark. -/
theorem foldlM_escaped_quote (text : Bytes) :
    (escaped text ++ [0x22]).foldlM InText.step (.plain []) = some (.closed text) := by
  rw [List.foldlM_append, foldlM_escaped]
  rfl

theorem escaped_quote_ne_nil (text : Bytes) : escaped text ++ [0x22] ≠ [] :=
  List.append_ne_nil_of_right_ne_nil _ (List.cons_ne_nil _ _)

theorem reads_quoted (text : Bytes) (around : List Frame) :
    Reads ⟨.value, around⟩ (quoted text) ⟨.after (.text text), around⟩ := by
  have hfirst : State.step ⟨.value, around⟩ 0x22 = some ⟨.text (.plain []), around⟩ := rfl
  exact .cons hfirst (.of_inText .text (fun s => .after (.text s)) (fun _ _ _ => rfl)
    (escaped_quote_ne_nil text) (foldlM_escaped_quote text) around)

/-- A key is read behind other members. -/
theorem reads_key (members : List (Bytes × Json)) (key : Bytes) (around : List Frame) :
    Reads ⟨.nextKey members, around⟩ (quoted key) ⟨.colon members key, around⟩ := by
  have hfirst : State.step ⟨.nextKey members, around⟩ 0x22 = some ⟨.key members (.plain []), around⟩ := rfl
  exact .cons hfirst (.of_inText (.key members) (.colon members) (fun _ _ _ => rfl)
    (escaped_quote_ne_nil key) (foldlM_escaped_quote key) around)

/-! ## Integers as they are written -/

theorem digitValue?_digit : ∀ d < 10, Ascii.digitValue? (UInt8.ofNat (48 + d)) = some d := by decide

/-- Decimal digits are read as their number. -/
theorem foldlM_ofNat (negative : Bool) (n : Nat) :
    (Bytes.ofNat n).foldlM InNumber.step { negative } =
      some { negative, coefficient := n, part := if n = 0 then .zero else .whole } := by
  refine Bytes.ofNat_induction (motive := fun n text => text.foldlM InNumber.step { negative } =
    some { negative, coefficient := n, part := if n = 0 then .zero else .whole }) ?_ ?_ n
  · intro d hd
    have hstep : InNumber.step { negative } (UInt8.ofNat (48 + d)) =
        some { negative, coefficient := d, part := if d = 0 then .zero else .whole } := by
      rw [InNumber.step, digitValue?_digit d hd]
    rw [List.foldlM_cons, hstep]
    rfl
  · intro n d text hn hd ih
    have hstep : InNumber.step { negative, coefficient := n, part := .whole } (UInt8.ofNat (48 + d)) =
        some { negative, coefficient := 10 * n + d, part := .whole } := by
      rw [InNumber.step, digitValue?_digit d hd]
    have hpos : 10 * n + d ≠ 0 := by omega
    rw [List.foldlM_append, ih, if_neg (Nat.ne_of_gt hn), if_neg hpos]
    show [UInt8.ofNat (48 + d)].foldlM InNumber.step { negative, coefficient := n, part := .whole } = _
    rw [List.foldlM_cons, hstep]
    rfl

theorem Reads.of_inNumber {n n' : InNumber} {text : Bytes} (h : text.foldlM InNumber.step n = some n')
    (around : List Frame) : Reads ⟨.number n, around⟩ text ⟨.number n', around⟩ := by
  induction text generalizing n with
  | nil =>
    cases h
    exact .nil _
  | cons b rest ih =>
    rw [List.foldlM_cons] at h
    obtain ⟨m, hm, hrest⟩ := Option.bind_eq_some_iff.mp h
    have hfirst : State.step ⟨.number n, around⟩ b = some ⟨.number m, around⟩ := by
      simp only [State.step, hm]
    exact .cons hfirst (ih hrest)

/-- A digit begins a number. -/
theorem begin_digit {b : UInt8} (hb : Ascii.isDigit b = true) :
    isBlank b = false ∧ Place.begin b = (InNumber.step { negative := false } b).map .number := by
  have hne {c : UInt8} (hc : Ascii.isDigit c = false) : b ≠ c := by
    rintro rfl
    rw [hb] at hc
    cases hc
  refine ⟨?_, ?_⟩
  · simp only [isBlank, Bool.or_eq_false_iff, beq_eq_false_iff_ne]
    exact ⟨⟨⟨hne rfl, hne rfl⟩, hne rfl⟩, hne rfl⟩
  · rw [Place.begin, if_neg (hne rfl), if_neg (hne rfl), if_neg (hne rfl), if_neg (hne rfl),
      if_neg (hne rfl), if_neg (hne rfl), if_neg (hne rfl)]

theorem reads_ofNat (n : Nat) (around : List Frame) : Reads ⟨.value, around⟩ (Bytes.ofNat n)
    ⟨.number { negative := false, coefficient := n, part := if n = 0 then .zero else .whole }, around⟩ := by
  obtain ⟨b, text, hcons, hb, -⟩ := Bytes.ofNat_eq_cons n
  have hread := foldlM_ofNat false n
  rw [hcons, List.foldlM_cons] at hread
  obtain ⟨m, hm, hrest⟩ := Option.bind_eq_some_iff.mp hread
  obtain ⟨hblank, hbegin⟩ := begin_digit hb
  have hfirst : State.step ⟨.value, around⟩ b = some ⟨.number m, around⟩ := by
    simp only [State.step, hblank, Bool.false_eq_true, if_false, hbegin, hm, Option.map_some]
  rw [hcons]
  exact .cons hfirst (.of_inNumber hrest around)

/-! ## Values as they are written -/

/-- The value may end at this place. -/
inductive Place.Ends : Place → Json → Prop where
  | after (v : Json) : Ends (.after v) v
  | number {n : InNumber} {v : Json} (h : n.value? = some v) : Ends (.number n) v

theorem InNumber.step_separator (n : InNumber) {b : UInt8} (hb : b ∈ [0x2c, 0x5d, 0x7d]) :
    n.step b = none := by
  have hall : ∀ b ∈ [0x2c, 0x5d, 0x7d], Ascii.digitValue? b = none ∧ b ≠ '.'.toUInt8 ∧
      b ≠ 'e'.toUInt8 ∧ b ≠ 'E'.toUInt8 ∧ b ≠ '+'.toUInt8 ∧ b ≠ '-'.toUInt8 := by decide +kernel
  obtain ⟨hdigit, hpoint, hlower, hupper, hplus, hminus⟩ := hall b hb
  simp only [InNumber.step, hdigit, hpoint, hlower, hupper, hplus, hminus, or_self, false_and, if_false]

/-- A comma or a bracket where a value may end follows that value. -/
theorem Place.Ends.step {place : Place} {v : Json} (h : place.Ends v) (around : List Frame) {b : UInt8}
    (hb : b ∈ [0x2c, 0x5d, 0x7d]) : State.step ⟨place, around⟩ b = State.follow v around b := by
  cases h with
  | after => rfl
  | number h => simp only [State.step, InNumber.step_separator _ hb, h, Option.bind_some]

/-- The text is one way to write the value: wherever a value is expected, it is read as this one. -/
structure Spells (text : Bytes) (v : Json) : Prop where
  starts : ∃ b rest, text = b :: rest ∧ isBlank b = false ∧ b ≠ ']'.toUInt8
  reads : ∀ around, ∃ place, Reads ⟨.value, around⟩ text ⟨place, around⟩ ∧ place.Ends v

/-- **A text that is one way to write a value is read as the value.** -/
theorem Spells.read? {text : Bytes} {v : Json} (h : Spells text v) : Json.read? text = some v := by
  obtain ⟨place, hread, hends⟩ := h.reads []
  rw [Json.read?, show text.foldlM State.step ⟨.value, []⟩ = some ⟨place, []⟩ from hread]
  cases hends with
  | after => rfl
  | number h => exact h

example : read? (utf8 "[\"\\u00e9\\ud83d\\ude00\\/\", -1.50e+3 , true]") =
    some (.array [.text (utf8 "é😀/"), .number (-150) 1, .bool true]) := by rfl

example : read? (utf8 "[1],[2]") = none ∧ read? (utf8 "\"\n\"") = none := ⟨rfl, rfl⟩

theorem spells_quoted (text : Bytes) : Spells (quoted text) (.text text) where
  starts := ⟨0x22, escaped text ++ [0x22], rfl, rfl, by decide⟩
  reads around := ⟨_, reads_quoted text around, .after _⟩

theorem spells_bool (b : Bool) : Spells (utf8 (if b then "true" else "false")) (.bool b) where
  starts := by
    cases b with
    | true => exact ⟨'t'.toUInt8, utf8 "rue", rfl, rfl, by decide⟩
    | false => exact ⟨'f'.toUInt8, utf8 "alse", rfl, rfl, by decide⟩
  reads around := ⟨.after (.bool b), by cases b <;> rfl, .after _⟩

theorem spells_ofInt (i : Int) : Spells (Bytes.ofInt i) (.number i 0) where
  starts := by
    cases i with
    | ofNat n =>
      obtain ⟨b, rest, hcons, hb, -⟩ := Bytes.ofNat_eq_cons n
      refine ⟨b, rest, hcons, (begin_digit hb).1, ?_⟩
      rintro rfl
      cases hb
    | negSucc n => exact ⟨'-'.toUInt8, Bytes.ofNat (n + 1), rfl, rfl, by decide⟩
  reads around := by
    cases i with
    | ofNat n =>
      refine ⟨_, reads_ofNat n around, .number ?_⟩
      by_cases hn : n = 0
      · subst hn; rfl
      · rw [if_neg hn]; rfl
    | negSucc n =>
      have hfirst : State.step ⟨.value, around⟩ '-'.toUInt8 =
          some ⟨.number { negative := true }, around⟩ := rfl
      exact ⟨_, .cons hfirst (.of_inNumber (foldlM_ofNat true (n + 1)) around), .number rfl⟩

/-- Behind the bracket of an array a value is read as one in front of which there are no others. -/
theorem Spells.reads_first {text : Bytes} {v : Json} (h : Spells text v) (around : List Frame) :
    ∃ place, Reads ⟨.firstItem, around⟩ text ⟨place, .array [] :: around⟩ ∧ place.Ends v := by
  obtain ⟨b, rest, rfl, hblank, hbracket⟩ := h.starts
  obtain ⟨place, hread, hends⟩ := h.reads (.array [] :: around)
  refine ⟨place, ?_, hends⟩
  have hstep : State.step ⟨.firstItem, around⟩ b = State.step ⟨.value, .array [] :: around⟩ b := by
    simp only [State.step, hblank, Bool.false_eq_true, if_false, if_neg hbracket]
  rw [Reads, List.foldlM_cons] at hread ⊢
  rwa [hstep]

/-- The rest of an array, behind an item of it. -/
theorem reads_items {texts : List Bytes} {values : List Json} (h : List.Forall₂ Spells texts values)
    (around : List Frame) (items : List Json) {place : Place} {v : Json} (hends : place.Ends v) :
    Reads ⟨place, .array items :: around⟩ (texts.flatMap (utf8 "," ++ ·) ++ utf8 "]")
      ⟨.after (.array (items ++ v :: values)), around⟩ := by
  induction h generalizing items place v with
  | nil => exact .cons (hends.step _ (by decide)) (.nil _)
  | @cons text value texts values hspells _ ih =>
    have hcomma : State.step ⟨place, .array items :: around⟩ 0x2c =
        some ⟨.value, .array (items ++ [v]) :: around⟩ := hends.step _ (by decide)
    obtain ⟨next, hread, hnext⟩ := hspells.reads (.array (items ++ [v]) :: around)
    have hrest := ih (items ++ [v]) hnext
    rw [List.append_assoc, List.singleton_append] at hrest
    rw [List.flatMap_cons, List.append_assoc, List.append_assoc]
    exact .cons hcomma (hread.append hrest)

/-- **An array of values is written with commas between the texts of its items.** -/
theorem spells_array {texts : List Bytes} {values : List Json} (h : List.Forall₂ Spells texts values) :
    Spells (utf8 "[" ++ Bytes.joined (utf8 ",") texts ++ utf8 "]") (.array values) where
  starts := ⟨'['.toUInt8, Bytes.joined (utf8 ",") texts ++ utf8 "]", rfl, rfl, by decide⟩
  reads around := by
    refine ⟨.after (.array values), ?_, .after _⟩
    have hfirst : State.step ⟨.value, around⟩ '['.toUInt8 = some ⟨.firstItem, around⟩ := rfl
    cases h with
    | nil => rfl
    | cons hspells hrest =>
      obtain ⟨place, hread, hends⟩ := hspells.reads_first around
      rw [Bytes.joined_cons, List.append_assoc, List.append_assoc]
      exact .cons hfirst (hread.append (reads_items hrest around [] hends))

/-- A key with a value, the text of which is written already. -/
def member (f : Bytes × Bytes) : Bytes := quoted f.1 ++ utf8 ":" ++ f.2

/-- The field is the member as it is written. -/
def SpellsMember (f : Bytes × Bytes) (m : Bytes × Json) : Prop := f.1 = m.1 ∧ Spells f.2 m.2

theorem spellsMember_quoted (key text : Bytes) : SpellsMember (key, quoted text) (key, .text text) :=
  ⟨rfl, spells_quoted text⟩

/-- A member is read behind others. -/
theorem SpellsMember.reads {f : Bytes × Bytes} {m : Bytes × Json} (h : SpellsMember f m)
    (members : List (Bytes × Json)) (around : List Frame) :
    ∃ place, Reads ⟨.nextKey members, around⟩ (member f) ⟨place, .object members m.1 :: around⟩ ∧
      place.Ends m.2 := by
  obtain ⟨hkey, hspells⟩ := h
  obtain ⟨place, hread, hends⟩ := hspells.reads (.object members m.1 :: around)
  have hcolon : State.step ⟨.colon members m.1, around⟩ ':'.toUInt8 =
      some ⟨.value, .object members m.1 :: around⟩ := rfl
  refine ⟨place, ?_, hends⟩
  rw [member, hkey, List.append_assoc]
  exact (reads_key members m.1 around).append (.cons hcolon hread)

/-- The rest of an object, behind a member of it. -/
theorem reads_members {fields : List (Bytes × Bytes)} {members : List (Bytes × Json)}
    (h : List.Forall₂ SpellsMember fields members) (around : List Frame) (front : List (Bytes × Json))
    (key : Bytes) {place : Place} {v : Json} (hends : place.Ends v) :
    Reads ⟨place, .object front key :: around⟩ ((fields.map member).flatMap (utf8 "," ++ ·) ++ utf8 "\x7d")
      ⟨.after (.object (front ++ (key, v) :: members)), around⟩ := by
  induction h generalizing front key place v with
  | nil => exact .cons (hends.step _ (by decide)) (.nil _)
  | @cons field m fields members hspells _ ih =>
    have hcomma : State.step ⟨place, .object front key :: around⟩ 0x2c =
        some ⟨.nextKey (front ++ [(key, v)]), around⟩ := hends.step _ (by decide)
    obtain ⟨next, hread, hnext⟩ := hspells.reads (front ++ [(key, v)]) around
    have hrest := ih (front ++ [(key, v)]) m.1 hnext
    rw [List.append_assoc, List.singleton_append] at hrest
    rw [List.map_cons, List.flatMap_cons, List.append_assoc, List.append_assoc]
    exact .cons hcomma (hread.append hrest)

/-- **An object is written with commas between the texts of its members.** -/
theorem spells_object {fields : List (Bytes × Bytes)} {members : List (Bytes × Json)}
    (h : List.Forall₂ SpellsMember fields members) : Spells (Audit.object fields) (.object members) where
  starts := ⟨0x7b, Bytes.joined (utf8 ",") (fields.map member) ++ utf8 "\x7d", rfl, rfl, by decide⟩
  reads around := by
    refine ⟨.after (.object members), ?_, .after _⟩
    have hfirst : State.step ⟨.value, around⟩ 0x7b = some ⟨.firstKey, around⟩ := rfl
    show Reads ⟨.value, around⟩ (utf8 "\x7b" ++ Bytes.joined (utf8 ",") (fields.map member) ++ utf8 "\x7d") _
    cases h with
    | nil => rfl
    | @cons field m fields members hspells hrest =>
      obtain ⟨place, hread, hends⟩ := hspells.reads [] around
      -- The first key is read as one behind no other members.
      have hread : Reads ⟨.firstKey, around⟩ (member field) ⟨place, .object [] m.1 :: around⟩ := hread
      rw [List.map_cons, Bytes.joined_cons, List.append_assoc, List.append_assoc]
      exact .cons hfirst (hread.append (reads_members hrest around [] m.1 hends))

end Json

end AccessControl
