import TargetDiscovery.Net.Address

/-!
# Registry endpoints

A registry is named by `http://host[:port][/base]`. The host may be a bracketed IPv6 literal, a
missing or empty port means 80, and slashes at the end of the base path are dropped.
-/

set_option autoImplicit false

namespace TargetDiscovery

structure Endpoint where
  host : Bytes
  port : Bytes
  basePath : Bytes
  deriving DecidableEq, Repr, Inhabited

inductive EndpointError
  | scheme
  | openLiteral
  | authority
  | host
  | port
  deriving DecidableEq, Repr

namespace EndpointError

def message : EndpointError → Bytes
  | scheme => ascii "registry_url must start with http://"
  | openLiteral => ascii "unterminated IPv6 literal in registry_url"
  | authority => ascii "malformed registry_url authority"
  | host => ascii "registry_url has no host"
  | port => ascii "invalid port in registry_url"

end EndpointError

namespace Endpoint

def defaultPort : Bytes := ascii "80"

def splitAuthority (authority : Bytes) : Except EndpointError (Bytes × Bytes) :=
  match authority with
  | [] => .ok ([], [])
  | first :: rest =>
    if first = byte '[' then
      match Bytes.cut (byte ']') rest with
      | (_, none) => .error .openLiteral
      | (host, some []) => .ok (host, [])
      | (host, some (colon :: port)) =>
        if colon = byte ':' then .ok (host, port) else .error .authority
    else
      match Bytes.cutLast (byte ':') authority with
      | some (host, port) => .ok (host, port)
      | none => .ok (authority, [])

def pathOf (afterSlash : Option Bytes) : Bytes :=
  match afterSlash with
  | none => []
  | some rest => Bytes.dropTrailing (byte '/') (byte '/' :: rest)

def parse (url : Bytes) : Except EndpointError Endpoint :=
  match Bytes.without? (ascii "http://") url with
  | none => .error .scheme
  | some rest =>
    let (authority, afterSlash) := Bytes.cut (byte '/') rest
    match splitAuthority authority with
    | .error e => .error e
    | .ok (host, port) =>
      if host.isEmpty then .error .host
      else if port.isEmpty then .ok ⟨host, defaultPort, pathOf afterSlash⟩
      else if (Address.port? port).isNone then .error .port
      else .ok ⟨host, port, pathOf afterSlash⟩

end Endpoint

end TargetDiscovery
