import AccessControl.Audit.Line

/-!
# Audit logs

An `AuditLog` keeps the lines of the entries whose level reaches its own: a decision to allow and a
change of a policy have the level `info`, any other decision has the level `warn`.  The log has a
clock, from which the entries of guards and stores take their time; whoever drives the log sets it.
-/

namespace AccessControl

/-- The levels of log entries. -/
inductive LogLevel where
  | debug | info | warn | error
  /-- A level beyond these, which no entry reaches. -/
  | other (n : Fin 252)
  deriving DecidableEq, Repr

namespace LogLevel

/-- The number of a level, below 256. -/
def number : LogLevel → Nat
  | debug => 0
  | info => 1
  | warn => 2
  | error => 3
  | other n => n + 4

/-- The level with a number. -/
def ofNumber (n : UInt8) : LogLevel :=
  if h : 4 ≤ n.toNat then other (n.toFin.subNat 4 h)
  else
    match n.toNat with
    | 0 => debug
    | 1 => info
    | 2 => warn
    | _ => error

/-- The name of a level. -/
def name : LogLevel → Bytes
  | debug => utf8 "debug"
  | info | other _ => utf8 "info"
  | warn => utf8 "warn"
  | error => utf8 "error"

/-- The names of levels, one of which is another word for `warn`. -/
def names : List (Bytes × LogLevel) :=
  [(utf8 "debug", debug), (utf8 "info", info), (utf8 "warn", warn), (utf8 "warning", warn),
    (utf8 "error", error)]

/-- The level with a name. -/
def ofName? (text : Bytes) : Option LogLevel := names.lookup text

end LogLevel

/-- A log of decisions and changes. -/
structure AuditLog where
  /-- The least level that is logged. -/
  level : LogLevel
  path : Bytes
  /-- The time of the next entry in nanoseconds since 1970. -/
  time : Int := 0
  /-- How long the next decision takes, in microseconds. -/
  duration : Int := 0
  lines : List Bytes := []
  deriving DecidableEq, Repr

namespace AuditLog

/-- A file that is no directory, and so has nothing under it. -/
def nullDevice : Bytes := utf8 "/dev/null/"

/-- What stands for the wording of a file system error. -/
def fileErrorText : Bytes := utf8 "<io>"

/-- A log without lines at a path, or why there can be none. -/
def openAt (level : LogLevel) (path : Bytes) : Except Bytes AuditLog :=
  if nullDevice.isPrefixOf path then
    .error (utf8 "Audit logger initialization failed: " ++ fileErrorText)
  else .ok { level, path }

/-- Whether entries of a level are logged. -/
def enabled (log : AuditLog) (level : LogLevel) : Bool := decide (log.level.number ≤ level.number)

/-- The level of a decision. -/
def levelOf (d : Audit.Decision) : LogLevel := if d.effect = utf8 "allow" then .info else .warn

/-- The log with the line of an entry of a level, if it is logged. -/
def put (log : AuditLog) (level : LogLevel) (line : Bytes) : AuditLog :=
  if log.enabled level then { log with lines := log.lines ++ [line] } else log

/-- The log with a decision. -/
def decision (log : AuditLog) (d : Audit.Decision) : AuditLog := log.put (levelOf d) d.line

/-- The log with a change. -/
def change (log : AuditLog) (c : Audit.Change) : AuditLog := log.put .info c.line

end AuditLog

end AccessControl
