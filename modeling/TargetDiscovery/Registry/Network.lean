import TargetDiscovery.Registry.Exchange

/-!
# What answers fetches

A network answers the fetches of instances, which are told apart by their position. It may follow
a script for each instance, hold the exchanges of hosts, which all instances share, or leave the
answers to someone else.
-/

set_option autoImplicit false

namespace TargetDiscovery

/-- The answer to a fetch of an instance since a version within a time, and the network then. -/
structure Network (κ : Type) where
  ask : κ → Nat → UInt64 → Nat → Reply × κ

namespace Network

def silent : Network Unit where
  ask _ _ _ _ := (⟨none, .error .foreign⟩, ())

end Network

/-! ## Scripts -/

namespace Reply

def refused : Reply := ⟨some 0, .ok (.error ⟨.transport, ascii "connection refused"⟩)⟩

end Reply

/-- The answers to the fetches of one instance: the first ones, and all after them. -/
structure Script where
  replies : List Reply
  rest : Reply

namespace Script

def next (s : Script) : Reply × Script :=
  match s.replies with
  | r :: more => (r, { s with replies := more })
  | [] => (s.rest, s)

end Script

namespace Network

/-- The scripts of instances by position; an instance without one is refused. -/
def scripted : Network (List Script) where
  ask scripts instanceIndex _ _ :=
    match scripts[instanceIndex]? with
    | some s => (s.next.1, scripts.set instanceIndex s.next.2)
    | none => (.refused, scripts)

end Network

/-! ## Hosts -/

/-- The exchanges that hosts are still good for, and what was asked of them, by host. -/
structure Hosts where
  exchanges : Dict (List Exchange)
  traces : Dict (List Exchange.Trace)

namespace Hosts

/-- The next exchange with a host; none left means that the connection is refused. -/
def next (h : Hosts) (host : Bytes) : Exchange × Hosts :=
  match h.exchanges.get? host with
  | some (x :: more) => (x, { h with exchanges := h.exchanges.insert host more })
  | _ => (Exchange.refused, h)

def note (h : Hosts) (host : Bytes) (t : Exchange.Trace) : Hosts :=
  { h with traces := h.traces.alter host fun old => old.getD [] ++ [t] }

def fetch [Json.Reader] (h : Hosts) (e : Endpoint) (since : UInt64) (timeout : Nat) :
    Reply × Hosts :=
  let (x, h) := h.next e.host
  let r := Exchange.finish x timeout
  (x.reply timeout, h.note e.host (Exchange.trace e since r.state.begun))

end Hosts

namespace Network

def ofEndpoints [Json.Reader] (endpoints : List Endpoint) : Network Hosts where
  ask hosts instanceIndex since timeout :=
    match endpoints[instanceIndex]? with
    | some e => hosts.fetch e since timeout
    | none => (.refused, hosts)

end Network

end TargetDiscovery
