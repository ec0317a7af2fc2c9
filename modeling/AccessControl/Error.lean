import AccessControl.Text.Bytes

/-!
# Failures

Two kinds of failure are kept apart.  A `PolicyError` is an answer: an operation that refuses its
input says which of the causes below holds, and `PolicyError.code`, `PolicyError.message` and
`PolicyError.context` give its class, wording and subject.  An `Escape` is an exception thrown by a
callable value or a component, which no operation expects; `Guard.evaluate` turns it into a denial.
A `Failure` is one or the other.
-/

namespace AccessControl

/-- The class of a refusal. -/
inductive ErrorCode where
  | policyExists
  | policyNotFound
  | policyUpdate
  | policyCreation
  | policyDeletion
  | invalidPagination
  | malformedTemplate
  | unknownChecker
  | invalidDocument
  | internal
  deriving DecidableEq, Repr

namespace ErrorCode

/-- The classes in the order of their numbers. -/
def all : List ErrorCode :=
  [policyExists, policyNotFound, policyUpdate, policyCreation, policyDeletion, invalidPagination,
    malformedTemplate, unknownChecker, invalidDocument, internal]

/-- The class of a number; any number beyond the classes stands for an internal error. -/
def ofNumber (n : Nat) : ErrorCode := all[n]?.getD internal

/-- The name of a class in answers and messages. -/
def name : ErrorCode → Bytes
  | policyExists => utf8 "policy_exists"
  | policyNotFound => utf8 "policy_not_found"
  | policyUpdate => utf8 "policy_update_error"
  | policyCreation => utf8 "policy_creation_error"
  | policyDeletion => utf8 "policy_deletion_error"
  | invalidPagination => utf8 "invalid_pagination"
  | malformedTemplate => utf8 "malformed_template"
  | unknownChecker => utf8 "unknown_checker_type"
  | invalidDocument => utf8 "invalid_document"
  | internal => utf8 "internal_error"

/-- The class with a name. -/
def ofName? (text : Bytes) : Option ErrorCode := all.find? fun c => c.name == text

end ErrorCode

/-- Why a template is not a pattern. -/
inductive TemplateError where
  /-- An end tag stands where no hole is open. -/
  | strayEnd (tag : UInt8) (position : Nat)
  /-- A hole is open at the end of the template. -/
  | neverClosed (tag : UInt8)
  /-- The text of a hole is not a regular expression. -/
  | invalidHole (inner : Bytes)
  /-- The holes are regular expressions and the pattern made of them is not. -/
  | invalidPattern
  deriving DecidableEq, Repr

/-- Why a document describes no value, rule, policy or inquiry. -/
inductive DocumentError where
  | undefinedValue
  | keyNotScalar
  | ruleNotMap
  | ruleWithoutType
  | unknownRule (tag : Bytes)
  | missingArgument (name : Bytes)
  | notString (name : Bytes)
  | notBoolean (name : Bytes)
  | notSequence (name : Bytes)
  | invalidRegex (pattern : Bytes)
  | policyNotMap
  | invalidEffect (uid : Bytes)
  | fieldNotSequence (field : Bytes)
  | fieldKeyNotScalar (field : Bytes)
  | fieldElement (field : Bytes)
  | tagNotByte (name : Bytes)
  | contextNotMap (uid : Bytes)
  | contextKeyNotScalar (uid : Bytes)
  | typeMismatch (declared actual uid : Bytes)
  | inquiryNotMap
  | inquiryContextNotMap
  deriving DecidableEq, Repr

/-- Why a definition is not a policy. -/
inductive CreationError where
  | uidMissing
  | mixedConditions
  | nullCondition
  | nullContextRule (name : Bytes)
  deriving DecidableEq, Repr

/-- Why an operation refused. -/
inductive PolicyError where
  | exists (uid : Bytes)
  | notFound (uid : Bytes)
  | nullPolicy
  | creation (cause : CreationError) (uid : Bytes)
  | pagination (limit offset : Int)
  | template (cause : TemplateError) (template : Bytes)
  | unknownChecker (kind : Nat)
  | document (cause : DocumentError)
  | auditLog (reason path : Bytes)
  /-- A refusal that a component outside this library gives, in its own words. -/
  | reported (code : ErrorCode) (message context : Bytes)
  deriving DecidableEq, Repr

/-- A text in single quotation marks. -/
def quoted (text : Bytes) : Bytes := utf8 "'" ++ text ++ utf8 "'"

/-- What stands for the wording of a regular expression error. -/
def regexErrorText : Bytes := utf8 "<regex>"

/-- The wording of a template error. -/
def TemplateError.message : TemplateError → Bytes
  | strayEnd tag position =>
    utf8 "unbalanced tags: stray " ++ quoted [tag] ++ utf8 " at " ++ Bytes.ofNat position
  | neverClosed tag => utf8 "unbalanced tags: " ++ quoted [tag] ++ utf8 " is never closed"
  | invalidHole inner => utf8 "invalid regex in hole " ++ quoted inner ++ utf8 ": " ++ regexErrorText
  | invalidPattern => utf8 "compiled pattern is not a valid regex: " ++ regexErrorText

/-- The wording of a document error. -/
def DocumentError.message : DocumentError → Bytes
  | undefinedValue => utf8 "value node is undefined"
  | keyNotScalar => utf8 "map key must be a scalar"
  | ruleNotMap => utf8 "rule must be a map"
  | ruleWithoutType => utf8 "rule has no 'type' tag"
  | unknownRule tag => utf8 "unknown rule type " ++ quoted tag
  | missingArgument name => utf8 "missing " ++ quoted name ++ utf8 " argument"
  | notString name => quoted name ++ utf8 " must be a string"
  | notBoolean name => quoted name ++ utf8 " must be a boolean"
  | notSequence name => quoted name ++ utf8 " must be a sequence"
  | invalidRegex _ => utf8 "invalid regex: " ++ regexErrorText
  | policyNotMap => utf8 "policy must be a map"
  | invalidEffect _ => utf8 "'effect' must be 'allow' or 'deny'"
  | fieldNotSequence field => quoted field ++ utf8 " must be a sequence"
  | fieldKeyNotScalar field => quoted field ++ utf8 " field map key must be a scalar"
  | fieldElement field => quoted field ++ utf8 " element must be a string, rule or field map"
  | tagNotByte name => quoted name ++ utf8 " must be a single character"
  | contextNotMap _ => utf8 "'context' must be a map"
  | contextKeyNotScalar _ => utf8 "context key must be a scalar"
  | typeMismatch declared actual _ =>
    utf8 "declared type " ++ quoted declared ++ utf8 " does not match conditions (" ++
      quoted actual ++ utf8 ")"
  | inquiryNotMap => utf8 "inquiry must be a map"
  | inquiryContextNotMap => utf8 "'context' must be a map"

/-- The subject of a document error: the whole rule document (`none`) where an argument of a rule
is at fault. -/
def DocumentError.context : DocumentError → Option Bytes
  | ruleNotMap | ruleWithoutType | missingArgument _ | notString _ | notBoolean _
  | notSequence _ => none
  | unknownRule tag => some tag
  | invalidRegex pattern => some pattern
  | invalidEffect uid | contextNotMap uid | contextKeyNotScalar uid | typeMismatch _ _ uid =>
    some uid
  | _ => some []

/-- The wording of a creation error. -/
def CreationError.message : CreationError → Bytes
  | uidMissing => utf8 "uid is required"
  | mixedConditions => utf8 "string patterns and rules cannot be mixed in one policy"
  | nullCondition => utf8 "condition rule is null"
  | nullContextRule name => utf8 "context rule " ++ quoted name ++ utf8 " is null"

namespace PolicyError

/-- The class of a refusal. -/
def code : PolicyError → ErrorCode
  | .exists _ => .policyExists
  | notFound _ => .policyNotFound
  | nullPolicy => .policyCreation
  | creation .. => .policyCreation
  | pagination .. => .invalidPagination
  | template .. => .malformedTemplate
  | unknownChecker _ => .unknownChecker
  | document _ => .invalidDocument
  | auditLog .. => .internal
  | reported c _ _ => c

/-- The wording of a refusal. -/
def message : PolicyError → Bytes
  | .exists uid => utf8 "policy " ++ quoted uid ++ utf8 " already exists"
  | notFound uid => utf8 "policy " ++ quoted uid ++ utf8 " not found"
  | nullPolicy => utf8 "policy is null"
  | creation cause _ => cause.message
  | pagination limit offset =>
    utf8 "invalid pagination limit=" ++ Bytes.ofInt limit ++ utf8 " offset=" ++ Bytes.ofInt offset
  | template cause _ => cause.message
  | unknownChecker kind => utf8 "unrecognized checker kind " ++ Bytes.ofNat kind
  | document cause => cause.message
  | auditLog reason _ => utf8 "cannot open audit log: " ++ reason
  | reported _ m _ => m

/-- What a refusal is about; `none` if it is about a whole document. -/
def context : PolicyError → Option Bytes
  | .exists uid => some uid
  | notFound uid => some uid
  | nullPolicy => some []
  | creation _ uid => some uid
  | pagination .. => some []
  | template _ t => some t
  | unknownChecker _ => some []
  | document cause => cause.context
  | auditLog _ path => some path
  | reported _ _ c => some c

end PolicyError

/-- An exception. -/
inductive Escape where
  /-- One that says what happened. -/
  | raised (text : Bytes)
  /-- One that says nothing. -/
  | foreign
  deriving DecidableEq, Repr

/-- Why an operation gives no result. -/
inductive Failure where
  | refused (reason : PolicyError)
  | escaped (escape : Escape)
  deriving DecidableEq, Repr

end AccessControl
