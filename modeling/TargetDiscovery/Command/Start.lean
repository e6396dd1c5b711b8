import TargetDiscovery.Definition
import TargetDiscovery.Json.Plain

/-!
# Starting a command

A command takes its arguments, loads the configuration and defines the instances. What goes wrong
on the way keeps it from its work: it says so and ends with a status other than zero. A fault ends
it without a status. Its documents are read by the plain reader unless another one is given.
-/

set_option autoImplicit false

namespace TargetDiscovery.Command

abbrev Exit := Except Fault Nat

inductive Refusal
  | usage (parameters : Bytes)
  | config (cause : ConfigError)
  | unknownInstance (name : Bytes)
  | fault (cause : Fault)

namespace Refusal

def exit : Refusal → Exit
  | usage _ | unknownInstance _ => .ok 2
  | config _ => .ok 1
  | fault cause => .error cause

/-- What a command says on standard error; `program` is its name. -/
def message (program : Bytes) : Refusal → Bytes
  | usage parameters => ascii "usage: " ++ program ++ ascii " " ++ parameters ++ ascii "\n"
  | config cause => program ++ ascii ": configuration error: " ++ cause.message ++ ascii "\n"
  | unknownInstance name =>
    program ++ ascii ": no instance named '" ++ name ++ ascii "'\n"
  | fault _ => []

end Refusal

/-- Where a command starts from: the severity of the log, the lines written on the way, and the
configuration with its definitions. -/
structure Start where
  level : LogLevel
  lines : List LogLine
  result : Except Refusal (Config × List Definition)

namespace Start

def refused (r : Refusal) : Start := ⟨.info, [], .error r⟩

/-- The start from a configuration; `readKey` makes a check from the text of a key file. -/
def ofConfig (readKey : Bytes → Except KeyError Check) (greeting : Config → List LogLine)
    (c : Config) : Start :=
  { level := c.logLevel
    lines := greeting c ++ Definition.warnings readKey c
    result :=
      match Definition.ofConfig readKey c with
      | .ok definitions => .ok (c, definitions)
      | .error cause => .error (.config cause) }

def load [Json.Reader] (readKey : Bytes → Except KeyError Check)
    (greeting : Config → List LogLine) (files : Files) (path : Bytes) : Start :=
  match Config.load files path with
  | .ok (.ok c) => ofConfig readKey greeting c
  | .ok (.error cause) => refused (.config cause)
  | .error cause => refused (.fault cause)

end Start

end TargetDiscovery.Command
