import TargetDiscovery.Config
import TargetDiscovery.Cycle.Conclusion

/-!
# Definitions of instances

What is needed to run an instance: its name, timing, job rules, the registry it asks and the
verifier of what it gets. A configuration defines its instances in order; the first key file that
is of no use ends this.
-/

set_option autoImplicit false

namespace TargetDiscovery

/-- An instance to be run: how its cycles are set up, and the registry that they ask. -/
structure Definition extends Setup where
  endpoint : Endpoint

namespace Definition

def insecureLine (name : Bytes) : LogLine :=
  ⟨.warning,
    name ++ ascii ": certification disabled (insecure), registry state is trusted as fetched"⟩

/-- The verifier of an entry; `readKey` makes a check from the text of a key file. -/
def verifierOf (readKey : Bytes → Except KeyError Check) (e : Entry) :
    Except ConfigError Verifier :=
  match e.trust with
  | .insecure => .ok .insecure
  | .keyFile path text =>
    match readKey text with
    | .ok check => .ok (.checked check)
    | .error cause => .error (.entry e.name (.key path cause))

def ofEntries (readKey : Bytes → Except KeyError Check) (rules : JobRules) :
    List Entry → Except ConfigError (List Definition)
  | [] => .ok []
  | e :: rest =>
    match verifierOf readKey e with
    | .error x => .error x
    | .ok verifier =>
      match ofEntries readKey rules rest with
      | .error x => .error x
      | .ok definitions => .ok (⟨⟨e.name, e.timing, rules, verifier⟩, e.endpoint⟩ :: definitions)

def ofConfig (readKey : Bytes → Except KeyError Check) (c : Config) :
    Except ConfigError (List Definition) :=
  ofEntries readKey c.rules c.entries

def usableEntries (readKey : Bytes → Except KeyError Check) (c : Config) : List Entry :=
  c.entries.takeWhile fun e => (verifierOf readKey e).toOption.isSome

def warnings (readKey : Bytes → Except KeyError Check) (c : Config) : List LogLine :=
  (usableEntries readKey c).filterMap fun e =>
    match e.trust with
    | .insecure => some (insecureLine e.name)
    | .keyFile _ _ => none

end Definition

end TargetDiscovery
