import AccessControl.Proofs.Loading
import AccessControl.Proofs.Number.Numerals

/-!
# Settings

The settings of a document are read one after the other, up to the first that cannot be read
(`Setting.read`, `ofSettings_eq_foldlM`).  `Setting.Denotes` says what a node stands for as a setting and does
not mention how it is read.  A node that stands for nothing makes reading fail with an error that names its key,
with one exception: a name that is no scalar is ignored (`Config.settings_denoted`).
-/

namespace AccessControl

theorem LogLevel.ofName?_eq_some_iff {text : Bytes} {level : LogLevel} :
    ofName? text = some level ↔ (text, level) ∈ names := by
  constructor
  · intro h
    obtain ⟨front, back, hnames, -⟩ := List.lookup_eq_some_iff.mp h
    rw [hnames]
    exact List.mem_append_right _ (List.mem_cons_self ..)
  · intro h
    have hall : ∀ entry ∈ names, ofName? entry.1 = some entry.2 := by decide
    exact hall _ h

theorem CheckerKind.ofName?_eq_some_iff {text : Bytes} {kind : CheckerKind} :
    ofName? text = some kind ↔ kind ∈ all ∧ kind.name = text := by
  constructor
  · intro h
    have hname := List.find?_some (p := fun k : CheckerKind => k.name == text) h
    exact ⟨List.mem_of_find?_eq_some h, eq_of_beq hname⟩
  · rintro ⟨hkind, rfl⟩
    have hall : ∀ kind ∈ all, ofName? kind.name = some kind := by decide
    exact hall _ hkind

namespace Config

variable {settings : List (Node × Node)}

/-! ## What a node stands for -/

/-- The settings of a configuration. -/
inductive Setting where
  | logLevel | auditLogPath | compilerCacheSize | guardCacheSize | warmupBatchSize | checker
  deriving DecidableEq

/-- The node is a scalar that is a positive integer of 64 bits. -/
def IsSize (n : Node) (size : Nat) : Prop :=
  ∃ text, n.scalar? = some text ∧ Scalar.Spells text size ∧ 0 < size ∧ size < 2 ^ (63 : Nat)

/-- The integer that is read is the size. -/
theorem IsSize.int? {n : Node} {size : Nat} (h : IsSize n size) :
    ∃ i : Int64, n.scalar?.bind Scalar.int? = some i ∧ i.toInt = size := by
  obtain ⟨text, hscalar, hspells, -, hlt⟩ := h
  have hint : (Int64.ofInt size).toInt = size := Int64.toInt_ofInt_of_le (by omega) (by omega)
  refine ⟨Int64.ofInt size, ?_, hint⟩
  rw [hscalar]
  exact Scalar.int?_eq_some_iff.mpr (hint.symm ▸ hspells)

theorem IsSize.unique {n : Node} {size size' : Nat} (h : IsSize n size) (h' : IsSize n size') :
    size = size' := by
  obtain ⟨i, hi, hsize⟩ := h.int?
  obtain ⟨j, hj, hsize'⟩ := h'.int?
  rw [hi] at hj
  cases hj
  omega

namespace Setting

/-- The settings in the order in which they are read. -/
def all : List Setting :=
  [logLevel, auditLogPath, compilerCacheSize, guardCacheSize, warmupBatchSize, checker]

/-- The key of a setting. -/
def key : Setting → Bytes
  | logLevel => utf8 "log_level"
  | auditLogPath => utf8 "audit_log_path"
  | compilerCacheSize => utf8 "compiler_cache_size"
  | guardCacheSize => utf8 "guard_cache_size"
  | warmupBatchSize => utf8 "warmup_batch_size"
  | checker => utf8 "checker"

/-- What a setting can be. -/
def Value : Setting → Type
  | logLevel => LogLevel
  | auditLogPath => Bytes
  | compilerCacheSize | guardCacheSize => Nat
  | warmupBatchSize => UInt64
  | checker => CheckerKind

/-- The setting of a configuration. -/
def of : (s : Setting) → Config → s.Value
  | logLevel, c => c.logLevel
  | auditLogPath, c => c.auditLogPath
  | compilerCacheSize, c => c.compilerCacheSize
  | guardCacheSize, c => c.guardCacheSize
  | warmupBatchSize, c => c.warmupBatchSize
  | checker, c => c.checker

/-- The node stands for this setting. -/
def Denotes (n : Node) : (s : Setting) → s.Value → Prop
  | logLevel, level => ∃ text, n.scalar? = some text ∧ (text, level) ∈ LogLevel.names
  | auditLogPath, path => n.scalar? = some path
  | compilerCacheSize, size | guardCacheSize, size => IsSize n size
  | warmupBatchSize, size => IsSize n size.toNat
  | checker, kind => ∃ text, n.scalar? = some text ∧ kind ∈ CheckerKind.all ∧ kind.name = text

/-- The node is ignored: the setting is a name, and the node is no scalar. -/
def Ignores (s : Setting) (n : Node) : Prop :=
  s ∈ [logLevel, auditLogPath, checker] ∧ n.scalar? = none

/-- The setting is missing or null. -/
def Absent (settings : List (Node × Node)) (s : Setting) : Prop :=
  ∀ n, Node.lookup s.key settings = some n → n = .null

/-- The setting is there, is not ignored and stands for nothing. -/
def Refused (settings : List (Node × Node)) (s : Setting) : Prop :=
  ∃ n, Node.lookup s.key settings = some n ∧ n ≠ .null ∧ ¬ s.Ignores n ∧ ∀ v, ¬ Denotes n s v

end Setting

/-- The wording of an error names the setting with the key. -/
def SettingError.Names (cause : SettingError) (key : Bytes) : Prop :=
  ∃ front back, cause.message = front ++ (utf8 "global." ++ key ++ back) ∧
    (front = [] ∨ front = utf8 "unknown ")

/-! ## Reading a setting -/

/-- What comes of a setting. -/
inductive Reading (settings : List (Node × Node)) (s : Setting) : Except SettingError s.Value → Prop where
  | absent (h : s.Absent settings) : Reading settings s (.ok (s.of {}))
  | ignored {n : Node} (h : Node.lookup s.key settings = some n) (hn : s.Ignores n) :
      Reading settings s (.ok (s.of {}))
  | denoted {n : Node} {v : s.Value} (h : Node.lookup s.key settings = some n) (hv : s.Denotes n v) :
      Reading settings s (.ok v)
  | refused {cause : SettingError} (h : s.Refused settings) (hcause : cause.Names s.key) :
      Reading settings s (.error cause)

/-- What is read under the key of a name. -/
theorem nameSetting_spec (key usual : Bytes) (settings : List (Node × Node)) :
    (∃ n, Node.lookup key settings = some n ∧ n.scalar? = some (nameSetting key usual settings)) ∨
      (∀ n, Node.lookup key settings = some n → n.scalar? = none) ∧
        nameSetting key usual settings = usual := by
  unfold nameSetting
  cases hlookup : Node.lookup key settings with
  | none => exact .inr ⟨nofun, rfl⟩
  | some n =>
    cases hscalar : n.scalar? with
    | none => exact .inr ⟨fun m hm => Option.some.inj hm ▸ hscalar, by rw [Option.bind_some, hscalar]; rfl⟩
    | some text => exact .inl ⟨n, rfl, by rw [hscalar, Option.bind_some, hscalar]; rfl⟩

/-- What is read under the key of a size. -/
theorem sizeSetting_spec (key : Bytes) (usual : Nat) (settings : List (Node × Node)) :
    ((∀ n, Node.lookup key settings = some n → n = .null) ∧ sizeSetting key usual settings = .ok usual) ∨
      (∃ n size, Node.lookup key settings = some n ∧ IsSize n size ∧
        sizeSetting key usual settings = .ok size) ∨
      ∃ n cause, Node.lookup key settings = some n ∧ n ≠ .null ∧ (∀ size, ¬ IsSize n size) ∧
        sizeSetting key usual settings = .error cause ∧ cause.Names key := by
  unfold sizeSetting
  split
  · next h =>
    refine .inl ⟨fun n hn => ?_, rfl⟩
    rw [h] at hn
    cases hn
  · next h =>
    refine .inl ⟨fun n hn => ?_, rfl⟩
    rw [h] at hn
    exact (Option.some.inj hn).symm
  · next n hnull hlookup =>
    refine .inr ?_
    split
    · next hnone =>
      refine .inr ⟨n, .notInteger key, hlookup, hnull, fun size h => ?_, rfl,
        ⟨[], utf8 " must be an integer", rfl, .inl rfl⟩⟩
      obtain ⟨i, hi, -⟩ := h.int?
      rw [hnone] at hi
      cases hi
    · next i hi =>
      split
      · next hpos =>
        obtain ⟨text, hscalar, hint⟩ := Option.bind_eq_some_iff.mp hi
        have hsize : ((i.toInt.toNat : Nat) : Int) = i.toInt := Int.toNat_of_nonneg (by omega)
        have hlt := i.toInt_lt
        refine .inl ⟨n, i.toInt.toNat, hlookup, ⟨text, hscalar, ?_, by omega, by omega⟩, rfl⟩
        rw [hsize]
        exact Scalar.int?_eq_some_iff.mp hint
      · next hpos =>
        refine .inr ⟨n, .notPositive key i.toInt, hlookup, hnull, fun size h => ?_, rfl,
          ⟨[], utf8 " must be positive (got " ++ Bytes.ofInt i.toInt ++ utf8 ")", ?_, .inl rfl⟩⟩
        · obtain ⟨j, hj, hsize⟩ := h.int?
          obtain ⟨-, -, -, hsizepos, -⟩ := h
          rw [hi] at hj
          cases hj
          omega
        · simp only [SettingError.message, List.append_assoc, List.nil_append]

namespace Setting

/-- What the setting of a document is. -/
def read (settings : List (Node × Node)) : (s : Setting) → Except SettingError s.Value
  | logLevel =>
    let name := nameSetting (utf8 "log_level") (of logLevel {}).name settings
    match LogLevel.ofName? name with
    | some level => .ok level
    | none => .error (.unknownLevel name)
  | auditLogPath => .ok (nameSetting (utf8 "audit_log_path") (of auditLogPath {}) settings)
  | compilerCacheSize => sizeSetting (utf8 "compiler_cache_size") (of compilerCacheSize {}) settings
  | guardCacheSize => sizeSetting (utf8 "guard_cache_size") (of guardCacheSize {}) settings
  | warmupBatchSize =>
    (sizeSetting (utf8 "warmup_batch_size") (of warmupBatchSize {}).toNat settings).map UInt64.ofNat
  | checker =>
    let name := nameSetting (utf8 "checker") (of checker {}).name settings
    match CheckerKind.ofName? name with
    | some kind => .ok kind
    | none => .error (.unknownChecker name)

/-- The configuration with another setting. -/
def put : (s : Setting) → s.Value → Config → Config
  | logLevel, v, c => { c with logLevel := v }
  | auditLogPath, v, c => { c with auditLogPath := v }
  | compilerCacheSize, v, c => { c with compilerCacheSize := v }
  | guardCacheSize, v, c => { c with guardCacheSize := v }
  | warmupBatchSize, v, c => { c with warmupBatchSize := v }
  | checker, v, c => { c with checker := v }

theorem of_put (s : Setting) (v : s.Value) (c : Config) : s.of (s.put v c) = v := by
  cases s <;> rfl

theorem of_put_of_ne {s s' : Setting} (h : s' ≠ s) (v : s.Value) (c : Config) :
    s'.of (s.put v c) = s'.of c := by
  cases s <;> cases s' <;> first | rfl | exact absurd rfl h

theorem denotes_logLevel_iff {n : Node} {level : LogLevel} :
    logLevel.Denotes n level ↔ ∃ text, n.scalar? = some text ∧ LogLevel.ofName? text = some level :=
  exists_congr fun _ => and_congr_right fun _ => LogLevel.ofName?_eq_some_iff.symm

theorem denotes_checker_iff {n : Node} {kind : CheckerKind} :
    checker.Denotes n kind ↔ ∃ text, n.scalar? = some text ∧ CheckerKind.ofName? text = some kind :=
  exists_congr fun _ => and_congr_right fun _ => CheckerKind.ofName?_eq_some_iff.symm

theorem unique_of_name {α : Type} {ofName? : Bytes → Option α} {n : Node} {v w : α}
    (hv : ∃ text, n.scalar? = some text ∧ ofName? text = some v)
    (hw : ∃ text, n.scalar? = some text ∧ ofName? text = some w) : v = w := by
  obtain ⟨text, htext, hname⟩ := hv
  obtain ⟨text', htext', hname'⟩ := hw
  cases htext.symm.trans htext'
  exact Option.some.inj (hname.symm.trans hname')

/-- A node stands for one setting at most. -/
theorem denotes_unique {s : Setting} {n : Node} {v w : s.Value} (hv : s.Denotes n v) (hw : s.Denotes n w) :
    v = w := by
  cases s with
  | logLevel => exact unique_of_name (denotes_logLevel_iff.mp hv) (denotes_logLevel_iff.mp hw)
  | auditLogPath => exact Option.some.inj (hv.symm.trans hw)
  | compilerCacheSize => exact IsSize.unique hv hw
  | guardCacheSize => exact IsSize.unique hv hw
  | warmupBatchSize => exact UInt64.toNat_inj.mp (IsSize.unique hv hw)
  | checker => exact unique_of_name (denotes_checker_iff.mp hv) (denotes_checker_iff.mp hw)

theorem not_denotes_null (s : Setting) (v : s.Value) : ¬ s.Denotes .null v := by
  cases s with
  | auditLogPath => nofun
  | _ => rintro ⟨text, hscalar, -⟩; cases hscalar

theorem of_policies (s : Setting) (c : Config) (ps : List (Option Policy)) :
    s.of { c with policies := ps } = s.of c := by
  cases s <;> rfl

end Setting

namespace Reading

/-- A name that is read and made a setting by `ofName?`. -/
theorem of_name (s : Setting) (usual : Bytes) (ofName? : Bytes → Option s.Value) (unknown : Bytes → SettingError)
    {r : Except SettingError s.Value} (husual : ofName? usual = some (s.of {}))
    (hs : s ∈ [.logLevel, .auditLogPath, .checker])
    (hunknown : ∀ name, ofName? name = none → (unknown name).Names s.key)
    (hdenotes : ∀ n v, s.Denotes n v ↔ ∃ text, n.scalar? = some text ∧ ofName? text = some v)
    (hok : ∀ v, ofName? (nameSetting s.key usual settings) = some v → r = .ok v)
    (herror : ofName? (nameSetting s.key usual settings) = none →
      r = .error (unknown (nameSetting s.key usual settings))) :
    Reading settings s r := by
  rcases nameSetting_spec s.key usual settings with ⟨n, hlookup, hscalar⟩ | ⟨hnone, hname⟩
  · cases hread : ofName? (nameSetting s.key usual settings) with
    | some v =>
      rw [hok v hread]
      exact .denoted hlookup ((hdenotes n v).mpr ⟨_, hscalar, hread⟩)
    | none =>
      rw [herror hread]
      refine .refused ⟨n, hlookup, ?_, fun hignores => ?_, fun v hv => ?_⟩ (hunknown _ hread)
      · rintro rfl
        cases hscalar
      · rw [hignores.2] at hscalar
        cases hscalar
      · obtain ⟨text, htext, hv⟩ := (hdenotes n v).mp hv
        cases hscalar.symm.trans htext
        rw [hread] at hv
        cases hv
  · rw [hok (s.of {}) (by rw [hname, husual])]
    cases hlookup : Node.lookup s.key settings with
    | none =>
      refine .absent fun n hn => ?_
      rw [hlookup] at hn
      cases hn
    | some n => exact .ignored hlookup ⟨hs, hnone n hlookup⟩

/-- A size that is read and made a setting by `f`. -/
theorem of_size (s : Setting) {usual : Nat} (f : Nat → s.Value) {r : Except SettingError s.Value}
    (husual : f usual = s.of {}) (hvalue : ∀ n size, IsSize n size → s.Denotes n (f size))
    (hsize : ∀ n v, s.Denotes n v → ∃ size, IsSize n size) (hs : s ∉ [.logLevel, .auditLogPath, .checker])
    (hok : ∀ size, sizeSetting s.key usual settings = .ok size → r = .ok (f size))
    (herror : ∀ cause, sizeSetting s.key usual settings = .error cause → r = .error cause) :
    Reading settings s r := by
  rcases sizeSetting_spec s.key usual settings with
    ⟨habsent, hread⟩ | ⟨n, size, hlookup, hn, hread⟩ | ⟨n, cause, hlookup, hnull, hnone, hread, hcause⟩
  · rw [hok _ hread, husual]
    exact .absent habsent
  · rw [hok _ hread]
    exact .denoted hlookup (hvalue n size hn)
  · rw [herror _ hread]
    refine .refused ⟨n, hlookup, hnull, fun hignores => hs hignores.1, fun v hv => ?_⟩ hcause
    obtain ⟨size, hn⟩ := hsize n v hv
    exact hnone size hn

end Reading

/-- **What comes of each setting.** -/
theorem Setting.read_spec (settings : List (Node × Node)) (s : Setting) :
    Reading settings s (s.read settings) := by
  cases s with
  | logLevel =>
    refine .of_name logLevel LogLevel.info.name LogLevel.ofName? .unknownLevel rfl (by decide)
      (fun name _ => ⟨utf8 "unknown ", utf8 " " ++ quoted name, rfl, .inr rfl⟩)
      (fun _ _ => denotes_logLevel_iff) (fun v h => ?_) fun h => ?_
    · simp only [read]
      exact h ▸ rfl
    · simp only [read]
      exact h ▸ rfl
  | auditLogPath =>
    refine .of_name auditLogPath [] some .unknownLevel rfl (by decide) nofun (fun n path => ?_)
      (fun _ h => congrArg Except.ok (Option.some.inj h)) nofun
    exact ⟨fun h => ⟨path, h, rfl⟩, fun ⟨_, h, hpath⟩ => Option.some.inj hpath ▸ h⟩
  | compilerCacheSize =>
    exact .of_size compilerCacheSize (fun n => n) rfl (fun _ _ h => h) (fun _ v h => ⟨v, h⟩) (by decide)
      (fun _ h => h) (fun _ h => h)
  | guardCacheSize =>
    exact .of_size guardCacheSize (fun n => n) rfl (fun _ _ h => h) (fun _ v h => ⟨v, h⟩) (by decide)
      (fun _ h => h) (fun _ h => h)
  | warmupBatchSize =>
    refine .of_size warmupBatchSize UInt64.ofNat rfl (fun n size h => ?_) (fun _ v h => ⟨v.toNat, h⟩)
      (by decide) (fun _ h => congrArg (Except.map UInt64.ofNat) h)
      (fun _ h => congrArg (Except.map UInt64.ofNat) h)
    obtain ⟨-, -, -, -, hlt⟩ := id h
    show IsSize n (UInt64.ofNat size).toNat
    rwa [UInt64.toNat_ofNat', Nat.mod_eq_of_lt (by omega)]
  | checker =>
    refine .of_name checker CheckerKind.regex.name CheckerKind.ofName? .unknownChecker rfl (by decide)
      (fun name _ => ⟨utf8 "unknown ", utf8 " " ++ quoted name, rfl, .inr rfl⟩)
      (fun _ _ => denotes_checker_iff) (fun v h => ?_) fun h => ?_
    · simp only [read]
      exact h ▸ rfl
    · simp only [read]
      exact h ▸ rfl

/-! ## Reading all settings -/

/-- The configuration with a further setting of the document. -/
def readInto (settings : List (Node × Node)) (c : Config) (s : Setting) : Except SettingError Config :=
  (s.read settings).map (s.put · c)

/-- The settings are read one after the other. -/
theorem ofSettings_eq_foldlM (settings : List (Node × Node)) :
    ofSettings settings = Setting.all.foldlM (readInto settings) {} := by
  simp only [Setting.all, List.foldlM_cons, List.foldlM_nil, readInto, Setting.read, Setting.of, ofSettings]
  cases LogLevel.ofName? (nameSetting (utf8 "log_level") LogLevel.info.name settings) with
  | none => rfl
  | some level =>
  cases sizeSetting (utf8 "compiler_cache_size") 512 settings with
  | error => rfl
  | ok compiler =>
  cases sizeSetting (utf8 "guard_cache_size") 1024 settings with
  | error => rfl
  | ok guard =>
  cases sizeSetting (utf8 "warmup_batch_size") (UInt64.toNat 10000) settings with
  | error => rfl
  | ok batch =>
  cases CheckerKind.ofName? (nameSetting (utf8 "checker") CheckerKind.regex.name settings) with
  | none => rfl
  | some kind => rfl

/-- A further setting of the document changes no other setting. -/
theorem readInto_spec (settings : List (Node × Node)) (c : Config) (s : Setting) :
    (∃ c', readInto settings c s = .ok c' ∧ Reading settings s (.ok (s.of c')) ∧
        ∀ s', s' ≠ s → s'.of c' = s'.of c) ∨
      ∃ cause, readInto settings c s = .error cause ∧ Reading settings s (.error cause) := by
  have hspec := s.read_spec settings
  unfold readInto
  cases hread : s.read settings with
  | error cause => exact .inr ⟨cause, rfl, hread ▸ hspec⟩
  | ok v =>
    refine .inl ⟨s.put v c, rfl, ?_, fun s' hs' => s.of_put_of_ne hs' v c⟩
    rw [s.of_put]
    exact hread ▸ hspec

/-- **Settings are read in turn**, each as it is in the document, up to the first that is refused.  The induction
is on the settings that are left to read. -/
theorem foldlM_readInto_spec (settings : List (Node × Node)) {ss : List Setting} (hnodup : ss.Nodup)
    (c : Config) :
    (∃ c', ss.foldlM (readInto settings) c = .ok c' ∧ (∀ s ∈ ss, Reading settings s (.ok (s.of c'))) ∧
        ∀ s, s ∉ ss → s.of c' = s.of c) ∨
      ∃ cause front s back, ss.foldlM (readInto settings) c = .error cause ∧ ss = front ++ s :: back ∧
        (∀ s' ∈ front, ∃ v, Reading settings s' (.ok v)) ∧ Reading settings s (.error cause) := by
  induction ss generalizing c with
  | nil => exact .inl ⟨c, rfl, nofun, fun _ _ => rfl⟩
  | cons s rest ih =>
    obtain ⟨hs, hrest⟩ := List.nodup_cons.mp hnodup
    rw [List.foldlM_cons]
    rcases readInto_spec settings c s with ⟨c', hread, hreading, hothers⟩ | ⟨cause, hread, hreading⟩
    · rw [hread]
      rcases ih hrest c' with ⟨c'', hrun, hall, hkept⟩ | ⟨cause, front, s', back, hrun, rfl, hfront, hs'⟩
      · refine .inl ⟨c'', hrun, List.forall_mem_cons.mpr ⟨?_, hall⟩, fun s' hs' => ?_⟩
        · rw [hkept s hs]
          exact hreading
        · obtain ⟨hne, hs'⟩ := not_or.mp (List.mem_cons.not.mp hs')
          rw [hkept s' hs', hothers s' hne]
      · exact .inr ⟨cause, s :: front, s', back, hrun, rfl,
          List.forall_mem_cons.mpr ⟨⟨_, hreading⟩, hfront⟩, hs'⟩
    · exact .inr ⟨cause, [], s, rest, by rw [hread]; rfl, rfl, nofun, hreading⟩

theorem Reading.not_refused {s : Setting} {v : s.Value} (h : Reading settings s (.ok v)) :
    ¬ s.Refused settings := by
  rintro ⟨n, hlookup, hnull, hignores, hnone⟩
  have hsame {m : Node} (hm : Node.lookup s.key settings = some m) : m = n :=
    Option.some.inj (hm.symm.trans hlookup)
  cases h with
  | absent habsent => exact hnull (habsent n hlookup)
  | ignored hm hn => exact hignores (hsame hm ▸ hn)
  | denoted hm hv => exact hnone v (hsame hm ▸ hv)

theorem Reading.names {s : Setting} {cause : SettingError} (h : Reading settings s (.error cause)) :
    s.Refused settings ∧ cause.Names s.key := by
  cases h with
  | refused hrefused hcause => exact ⟨hrefused, hcause⟩

/-- A setting that is read is the one that is in the document. -/
theorem Reading.of_ok {s : Setting} {v : s.Value} (h : Reading settings s (.ok v)) :
    (∀ n, Node.lookup s.key settings = some n → n ≠ .null →
      s.Denotes n v ∨ s.Ignores n ∧ v = s.of {}) ∧ (s.Absent settings → v = s.of {}) := by
  have hsame {m n : Node} (hm : Node.lookup s.key settings = some m)
      (hn : Node.lookup s.key settings = some n) : m = n := Option.some.inj (hm.symm.trans hn)
  cases h with
  | absent habsent => exact ⟨fun n hn hnull => absurd (habsent n hn) hnull, fun _ => rfl⟩
  | ignored hm hignores => exact ⟨fun n hn _ => .inr ⟨hsame hm hn ▸ hignores, rfl⟩, fun _ => rfl⟩
  | denoted hm hv =>
    refine ⟨fun n hn _ => .inl (hsame hm hn ▸ hv), fun habsent => ?_⟩
    rw [habsent _ hm] at hv
    exact absurd hv (s.not_denotes_null v)

variable {sections : List (Node × Node)}

theorem ofDocument_of_settings_error (registry : RuleRegistry) (source : Bytes) {cause : SettingError}
    (hglobal : Node.lookup (utf8 "global") sections = some (.map settings))
    (herror : ofSettings settings = .error cause) :
    ofDocument registry source (some (.map sections)) = .error (.settings source cause) := by
  simp only [ofDocument, hglobal, herror]
  rfl

/-- The policies do not change the settings. -/
theorem ofDocument_of_settings_ok (registry : RuleRegistry) (source : Bytes) {base : Config}
    (hglobal : Node.lookup (utf8 "global") sections = some (.map settings))
    (hok : ofSettings settings = .ok base) :
    (∃ ps, ofDocument registry source (some (.map sections)) = .ok { base with policies := ps }) ∨
      ∃ cause, ofDocument registry source (some (.map sections)) = .error (.policies source cause) := by
  have hbase : globalOf sections = .ok base := by
    rw [globalOf, hglobal]
    exact hok
  rw [ofDocument_of_global hbase]
  split
  · exact .inr ⟨_, rfl⟩
  · next items _ =>
    cases policiesOf registry 0 [] items with
    | ok ps => exact .inl ⟨ps.map some, rfl⟩
    | error cause => exact .inr ⟨cause, rfl⟩

/-- **What becomes of settings.**  In a configuration that is read from a document, a setting is what its node
stands for, or the usual one if there is no node but null, or if a name is no scalar.  If another node stands
for nothing there is no configuration: the error names the first such setting, and settings cause no other
errors. -/
theorem settings_denoted (registry : RuleRegistry) (source : Bytes)
    (hglobal : Node.lookup (utf8 "global") sections = some (.map settings)) :
    (∀ config, ofDocument registry source (some (.map sections)) = .ok config → ∀ s : Setting,
      (∀ n, Node.lookup s.key settings = some n → n ≠ .null →
        s.Denotes n (s.of config) ∨ s.Ignores n ∧ s.of config = s.of {}) ∧
      (s.Absent settings → s.of config = s.of {})) ∧
    ((∃ s : Setting, s.Refused settings) → ∃ front s back cause, Setting.all = front ++ s :: back ∧
      (∀ s' ∈ front, ¬ s'.Refused settings) ∧ s.Refused settings ∧ cause.Names s.key ∧
      ofDocument registry source (some (.map sections)) = .error (.settings source cause)) ∧
    ∀ cause, ofDocument registry source (some (.map sections)) = .error (.settings source cause) →
      ∃ s : Setting, s.Refused settings := by
  have hmem (s : Setting) : s ∈ Setting.all := by cases s <;> decide
  have hrun := ofSettings_eq_foldlM settings
  rcases foldlM_readInto_spec settings (show Setting.all.Nodup by decide) {} with
    ⟨base, hbase, hreading, -⟩ | ⟨cause, front, s, back, herror, hsplit, hfront, hs⟩
  · rw [hbase] at hrun
    have hnone (s : Setting) : ¬ s.Refused settings := (hreading s (hmem s)).not_refused
    refine ⟨fun config hconfig s => ?_, fun ⟨s, hs⟩ => absurd hs (hnone s), fun cause hcause => ?_⟩
    · rcases ofDocument_of_settings_ok registry source hglobal hrun with ⟨ps, hok⟩ | ⟨cause, herror⟩
      · rw [hok] at hconfig
        cases hconfig
        rw [s.of_policies]
        exact (hreading s (hmem s)).of_ok
      · rw [herror] at hconfig
        cases hconfig
    · rcases ofDocument_of_settings_ok registry source hglobal hrun with ⟨ps, hok⟩ | ⟨cause', herror⟩
      · rw [hok] at hcause
        cases hcause
      · rw [herror] at hcause
        cases hcause
  · rw [herror] at hrun
    have hdocument := ofDocument_of_settings_error registry source hglobal hrun
    obtain ⟨hrefused, hnames⟩ := hs.names
    have hbefore : ∀ s' ∈ front, ¬ s'.Refused settings := by
      intro s' hs'
      obtain ⟨v, hv⟩ := hfront s' hs'
      exact hv.not_refused
    refine ⟨fun config hconfig => ?_, fun _ => ?_, fun _ _ => ⟨s, hrefused⟩⟩
    · rw [hdocument] at hconfig
      cases hconfig
    · exact ⟨front, s, back, cause, hsplit, hbefore, hrefused, hnames, hdocument⟩

theorem settings_denoted_sixteen :
    (∃ config, ofDocument .builtin unnamedSource (some (.map [(.plain (utf8 "global"),
        .map [(.plain (utf8 "compiler_cache_size"), .plain (utf8 "0x10"))])])) = .ok config ∧
      IsSize (.plain (utf8 "0x10")) config.compilerCacheSize) ∧
    ∃ s : Setting, s.Refused [(.plain (utf8 "guard_cache_size"), .plain (utf8 "-5"))] := by
  have hsixteen : Node.lookup (utf8 "global") [(.plain (utf8 "global"),
      .map [(.plain (utf8 "compiler_cache_size"), .plain (utf8 "0x10"))])] =
        some (.map [(.plain (utf8 "compiler_cache_size"), .plain (utf8 "0x10"))]) := rfl
  have hnegative : Node.lookup (utf8 "global") [(.plain (utf8 "global"),
      .map [(.plain (utf8 "guard_cache_size"), .plain (utf8 "-5"))])] =
        some (.map [(.plain (utf8 "guard_cache_size"), .plain (utf8 "-5"))]) := rfl
  obtain ⟨hread, -⟩ := settings_denoted .builtin unnamedSource hsixteen
  obtain ⟨-, -, hrefused⟩ := settings_denoted .builtin unnamedSource hnegative
  refine ⟨⟨{ compilerCacheSize := 16 }, rfl, ?_⟩, hrefused (.notPositive (utf8 "guard_cache_size") (-5)) rfl⟩
  rcases (hread _ rfl .compilerCacheSize).1 _ rfl nofun with hdenotes | ⟨hignores, -⟩
  · exact hdenotes
  · exact absurd hignores.1 (by decide)

/-- A checker in brackets is no name of a checker, and the usual checker stands in for it. -/
theorem ofDocument_ignores_checker :
    (∀ v, ¬ Setting.checker.Denotes (.sequence [.plain (utf8 "rules")]) v) ∧
      ∃ config, ofDocument .builtin unnamedSource (some (.map [(.plain (utf8 "global"),
          .map [(.plain (utf8 "checker"), .sequence [.plain (utf8 "rules")])])])) = .ok config ∧
        config.checker = .regex := by
  refine ⟨?_, {}, rfl, rfl⟩
  rintro v ⟨text, hscalar, -⟩
  cases hscalar

end Config

end AccessControl
