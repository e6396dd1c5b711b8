import TargetDiscovery.Net.Literal

/-!
# Listening

A listener is set up in steps, each of which may be refused by the host. The address has to be an
address literal, which is looked at before the first step; port zero stands for any free port.
-/

set_option autoImplicit false

namespace TargetDiscovery.Web

inductive ListenStep
  | opening | option | binding | listening | naming
  deriving DecidableEq, Repr

namespace ListenStep

def all : List ListenStep := [opening, option, binding, listening, naming]

def name : ListenStep → Bytes
  | opening => ascii "open"
  | option => ascii "set_option"
  | binding => ascii "bind"
  | listening => ascii "listen"
  | naming => ascii "local_endpoint"

end ListenStep

inductive ListenError
  | notLiteral (address : Bytes)
  | refused (step : ListenStep) (address : Bytes) (port : Nat) (reason : Bytes)
  deriving DecidableEq, Repr

namespace ListenError

def message : ListenError → Bytes
  | notLiteral address =>
    ascii "invalid listen address '" ++ address ++ ascii "': Invalid argument"
  | refused .binding address port reason =>
    ascii "bind " ++ address ++ ascii ":" ++ Bytes.decimal port ++ ascii ": " ++ reason
  | refused step _ _ reason => step.name ++ ascii ": " ++ reason

end ListenError

/-- The host of a listener: the reasons for which it refuses steps, and a port that is free. -/
structure Host where
  refusal : ListenStep → Option Bytes
  freePort : Nat

/-- Addresses are literals; they are read up to the first zero byte. -/
def isListenAddress (text : Bytes) : Bool :=
  Literal.isIPv4 (Bytes.toNul text) || Literal.isIPv6 (Bytes.toNul text)

namespace Host

def firstRefusal (h : Host) : Option (ListenStep × Bytes) :=
  ListenStep.all.findSome? fun step => (h.refusal step).map fun reason => (step, reason)

def listen (h : Host) (address : Bytes) (port : Nat) : Except ListenError Nat :=
  if isListenAddress address then
    match h.firstRefusal with
    | some (step, reason) => .error (.refused step address port reason)
    | none => .ok (if port = 0 then h.freePort else port)
  else .error (.notLiteral address)

end Host

end TargetDiscovery.Web
