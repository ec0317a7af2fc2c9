import AccessControl.Audit.Log
import AccessControl.Checker.Basic
import AccessControl.Policy.Document

/-!
# Configurations

A configuration holds the settings and the policies of an engine.  `Config.ofDocument` reads one from
a map with the settings under `global` and the policies under `policies`, either of which may be
missing or null.  A missing setting has its usual value; so has a name that is no scalar, while a
size has to be a positive integer.  The policies need distinct identifiers.
-/

namespace AccessControl

/-- The settings and the policies of an engine. -/
structure Config where
  logLevel : LogLevel := .info
  /-- The file of the audit log; there is no audit log if it is empty. -/
  auditLogPath : Bytes := []
  /-- How many compiled templates are remembered. -/
  compilerCacheSize : Nat := 512
  /-- How many answers of the store are remembered. -/
  guardCacheSize : Nat := 1024
  /-- How many policies are read at once to fill the cache tier. -/
  warmupBatchSize : UInt64 := 10000
  checker : CheckerKind := .regex
  policies : List (Option Policy) := []

namespace Config

/-- What is wrong with the settings. -/
inductive SettingError where
  | notMap
  | unknownLevel (name : Bytes)
  | notInteger (key : Bytes)
  | notPositive (key : Bytes) (value : Int)
  | unknownChecker (name : Bytes)
  deriving DecidableEq, Repr

/-- What is wrong with the policies. -/
inductive PoliciesError where
  | notSequence
  | invalid (index : Nat) (cause : PolicyError)
  | duplicate (index : Nat) (uid : Bytes)
  deriving DecidableEq, Repr

/-- Why there is no configuration. -/
inductive Error where
  /-- The file is not there. -/
  | unresolved (path : Bytes)
  | notMap (source : Bytes)
  | settings (source : Bytes) (cause : SettingError)
  | policies (source : Bytes) (cause : PoliciesError)
  deriving DecidableEq, Repr

/-- The wording of an error in the settings. -/
def SettingError.message : SettingError → Bytes
  | notMap => utf8 "'global' must be a map"
  | unknownLevel name => utf8 "unknown global.log_level " ++ quoted name
  | notInteger key => utf8 "global." ++ key ++ utf8 " must be an integer"
  | notPositive key value =>
    utf8 "global." ++ key ++ utf8 " must be positive (got " ++ Bytes.ofInt value ++ utf8 ")"
  | unknownChecker name => utf8 "unknown global.checker " ++ quoted name

/-- The wording of an error in the policies. -/
def PoliciesError.message : PoliciesError → Bytes
  | notSequence => utf8 "'policies' must be a sequence"
  | invalid index cause =>
    utf8 "policies[" ++ Bytes.ofNat index ++ utf8 "]: " ++ cause.message ++ utf8 " (" ++
      cause.code.name ++ utf8 ")"
  | duplicate index uid =>
    utf8 "policies[" ++ Bytes.ofNat index ++ utf8 "]: duplicate uid " ++ quoted uid

/-- Why a path leads to no file: it is empty, leads through a file, or names nothing. -/
def pathFault (path : Bytes) : Bytes :=
  if path.isEmpty then utf8 "Invalid argument"
  else if AuditLog.nullDevice.isPrefixOf path then utf8 "Not a directory"
  else utf8 "No such file or directory"

/-- The wording of an error. -/
def Error.message : Error → Bytes
  | unresolved path =>
    utf8 "policy_loader: cannot resolve config path " ++ quoted path ++ utf8 ": " ++ pathFault path
  | notMap source =>
    utf8 "policy_loader: " ++ quoted source ++ utf8 " is not a valid YAML map (top-level)"
  | settings source cause =>
    utf8 "policy_loader: error parsing 'global' section of " ++ quoted source ++ utf8 ": " ++
      cause.message
  | policies source cause =>
    utf8 "policy_loader: error parsing 'policies' section of " ++ quoted source ++ utf8 ": " ++
      cause.message

/-- The name under a key, `usual` if no scalar is there. -/
def nameSetting (key usual : Bytes) (settings : List (Node × Node)) : Bytes :=
  ((Node.lookup key settings).bind Node.scalar?).getD usual

/-- The size under a key, `usual` if it is missing or null. -/
def sizeSetting (key : Bytes) (usual : Nat) (settings : List (Node × Node)) :
    Except SettingError Nat :=
  match Node.lookup key settings with
  | none | some .null => .ok usual
  | some n =>
    match n.scalar?.bind Scalar.int? with
    | none => .error (.notInteger key)
    | some i => if 0 < i.toInt then .ok i.toInt.toNat else .error (.notPositive key i.toInt)

/-- The configuration with the given settings and without policies. -/
def ofSettings (settings : List (Node × Node)) : Except SettingError Config := do
  let usual : Config := {}
  let levelName := nameSetting (utf8 "log_level") usual.logLevel.name settings
  let some logLevel := LogLevel.ofName? levelName | throw (.unknownLevel levelName)
  let auditLogPath := nameSetting (utf8 "audit_log_path") usual.auditLogPath settings
  let compilerCacheSize ←
    sizeSetting (utf8 "compiler_cache_size") usual.compilerCacheSize settings
  let guardCacheSize ← sizeSetting (utf8 "guard_cache_size") usual.guardCacheSize settings
  let batch ← sizeSetting (utf8 "warmup_batch_size") usual.warmupBatchSize.toNat settings
  let checkerName := nameSetting (utf8 "checker") usual.checker.name settings
  let some checker := CheckerKind.ofName? checkerName | throw (.unknownChecker checkerName)
  return {
    logLevel, auditLogPath, compilerCacheSize, guardCacheSize, checker
    warmupBatchSize := UInt64.ofNat batch }

/-- The policies of a sequence from `index` on, when those with the identifiers `seen` stand before
them. -/
def policiesOf (registry : RuleRegistry) (index : Nat) (seen : List Bytes) :
    List Node → Except PoliciesError (List Policy)
  | [] => .ok []
  | n :: rest =>
    match Policy.ofDocument registry (some n) with
    | .error e => .error (.invalid index e)
    | .ok p =>
      if p.uid ∈ seen then .error (.duplicate index p.uid)
      else (policiesOf registry (index + 1) (p.uid :: seen) rest).map (p :: ·)

/-- The configuration that a document describes; `source` is what error messages call it. -/
def ofDocument (registry : RuleRegistry) (source : Bytes) (document : Option Node) :
    Except Error Config :=
  match document with
  | some (.map sections) => do
    let config ← match Node.lookup (utf8 "global") sections with
      | none | some .null => .ok {}
      | some (.map settings) => (ofSettings settings).mapError (.settings source)
      | some _ => .error (.settings source .notMap)
    let policies ← match Node.lookup (utf8 "policies") sections with
      | none | some .null => .ok []
      | some (.sequence items) => (policiesOf registry 0 [] items).mapError (.policies source)
      | some _ => .error (.policies source .notSequence)
    return { config with policies := policies.map some }
  | _ => .error (.notMap source)

/-- What error messages call a document without a name. -/
def unnamedSource : Bytes := utf8 "<memory>"

end Config

end AccessControl
