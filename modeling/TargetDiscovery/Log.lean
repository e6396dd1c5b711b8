import TargetDiscovery.Bytes

/-!
# Log lines

Severities with the names a configuration may use for them, and the line the process logger
takes: a severity and a text.
-/

set_option autoImplicit false

namespace TargetDiscovery

/-- Severities in rising order; `off` silences the logger. -/
inductive LogLevel
  | trace | debug | info | warning | error | critical | off
  deriving DecidableEq, Repr, Inhabited

namespace LogLevel

def name : LogLevel → Bytes
  | trace => ascii "trace"
  | debug => ascii "debug"
  | info => ascii "info"
  | warning => ascii "warning"
  | error => ascii "error"
  | critical => ascii "critical"
  | off => ascii "off"

def all : List LogLevel := [trace, debug, info, warning, error, critical, off]

/-- The severity of a name; `warn` and `err` are short forms, and case matters. -/
def ofName? (s : Bytes) : Option LogLevel :=
  if s = ascii "warn" then some warning
  else if s = ascii "err" then some error
  else all.find? fun l => l.name = s

def admits (threshold level : LogLevel) : Bool :=
  threshold != off && all.idxOf threshold ≤ all.idxOf level

theorem ofName?_name (l : LogLevel) : ofName? l.name = some l := by cases l <;> decide

end LogLevel

structure LogLine where
  level : LogLevel
  text : Bytes
  deriving DecidableEq, Repr, Inhabited

end TargetDiscovery
