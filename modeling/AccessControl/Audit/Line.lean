import AccessControl.Text.Json
import AccessControl.Text.Timestamp

/-!
# Audit lines

The entries of an audit log and the lines they are written as.  A line is a JSON object with its
keys in a fixed order.
-/

namespace AccessControl.Audit

/-- A decision to be logged; the effect and the parts of the inquiry are texts. -/
structure Decision where
  subject : Bytes := []
  resource : Bytes := []
  action : Bytes := []
  context : Bytes := []
  checker : Bytes := []
  effect : Bytes := []
  /-- The policies that determined the effect. -/
  matched : List Bytes := []
  reason : Bytes := []
  failed : Bool := false
  /-- The time of the decision in nanoseconds since 1970. -/
  time : Int := 0
  /-- How long the decision took, in microseconds. -/
  duration : Int := 0
  deriving DecidableEq, Repr

/-- A change of a policy to be logged. -/
structure Change where
  change : Bytes := []
  uid : Bytes := []
  /-- The time of the change in nanoseconds since 1970. -/
  time : Int := 0
  deriving DecidableEq, Repr

/-- A JSON object of fields whose values are written already. -/
def object (fields : List (Bytes × Bytes)) : Bytes :=
  utf8 "\x7b" ++ Bytes.joined (utf8 ",") (fields.map fun f => Json.quoted f.1 ++ utf8 ":" ++ f.2) ++
    utf8 "\x7d"

/-- A JSON array of texts. -/
def array (texts : List Bytes) : Bytes :=
  utf8 "[" ++ Bytes.joined (utf8 ",") (texts.map Json.quoted) ++ utf8 "]"

/-- The line of a decision. -/
def Decision.line (d : Decision) : Bytes :=
  object
    [(utf8 "event", Json.quoted (utf8 "decision")), (utf8 "effect", Json.quoted d.effect),
      (utf8 "subject", Json.quoted d.subject), (utf8 "resource", Json.quoted d.resource),
      (utf8 "action", Json.quoted d.action), (utf8 "context", Json.quoted d.context),
      (utf8 "checker", Json.quoted d.checker), (utf8 "matched_policies", array d.matched),
      (utf8 "reason", Json.quoted d.reason),
      (utf8 "failed", utf8 (if d.failed then "true" else "false")),
      (utf8 "timestamp", Json.quoted (Timestamp.text d.time)),
      (utf8 "duration_us", Bytes.ofInt d.duration)]

/-- The line of a change. -/
def Change.line (c : Change) : Bytes :=
  object
    [(utf8 "event", Json.quoted (utf8 "policy_change")), (utf8 "change", Json.quoted c.change),
      (utf8 "uid", Json.quoted c.uid), (utf8 "timestamp", Json.quoted (Timestamp.text c.time))]

end AccessControl.Audit
