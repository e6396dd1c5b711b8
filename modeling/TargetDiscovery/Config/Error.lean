import TargetDiscovery.Net.Endpoint
import TargetDiscovery.Timing
import TargetDiscovery.Trust.PublicKey

/-!
# What is wrong with a configuration

Each way in which a configuration is refused is a cause of its own; the text names the place in
the document.
-/

set_option autoImplicit false

namespace TargetDiscovery

inductive TimingPlace
  | supervisor
  | defaults
  | entry (name : Bytes)
  deriving DecidableEq, Repr

namespace TimingPlace

def entryText (name : Bytes) : Bytes := ascii "instance '" ++ name ++ ascii "'"

def text : TimingPlace → Bytes
  | supervisor => ascii "supervisor"
  | defaults => ascii "defaults"
  | entry name => entryText name

end TimingPlace

/-- What is wrong with the entry of a named instance. -/
inductive EntryError
  | urlMissing
  | url (cause : EndpointError)
  | insecureKind
  | trustChoice
  | keyPath
  | keyUnreadable (path : Bytes)
  | key (path : Bytes) (cause : KeyError)
  deriving DecidableEq, Repr

namespace EntryError

def message : EntryError → Bytes
  | urlMissing => ascii "registry_url is required"
  | url cause => cause.message
  | insecureKind => ascii "insecure must be a boolean"
  | trustChoice => ascii "exactly one of public_key_pem or insecure:true is required"
  | keyPath => ascii "public_key_pem must be a path"
  | keyUnreadable path => ascii "cannot open " ++ path
  | key path cause => path ++ ascii ": " ++ cause.message

end EntryError

inductive ConfigError
  | unreadable (path : Bytes)
  | json (report : Bytes)
  | notObject
  | logLevelKind
  | logLevelUnknown (name : Bytes)
  | listenKind
  | listenAddress
  | listenPort
  | threads
  | supervisorKind
  | restartLimit
  | restartRange
  | defaultsKind
  | duration (place : TimingPlace) (member : Bytes)
  | jitterKind (place : TimingPlace)
  | jitterRange (place : TimingPlace)
  | backoffRange (place : TimingPlace)
  | jobsKind
  | job (role : Bytes)
  | noEntries
  | entryKind (index : Nat)
  | entryName (index : Nat)
  | repeatedName (name : Bytes)
  | entry (name : Bytes) (cause : EntryError)
  deriving DecidableEq, Repr

namespace ConfigError

def positionText (index : Nat) : Bytes :=
  ascii "instances[" ++ Bytes.decimal index ++ ascii "]"

def message : ConfigError → Bytes
  | unreadable path => ascii "cannot open " ++ path
  | json report => ascii "invalid JSON: " ++ report
  | notObject => ascii "configuration must be a JSON object"
  | logLevelKind => ascii "log_level must be a string"
  | logLevelUnknown name => ascii "unknown log_level '" ++ name ++ ascii "'"
  | listenKind => ascii "listen must be an object"
  | listenAddress => ascii "listen.address must be a string"
  | listenPort => ascii "listen.port must be in [0, 65535]"
  | threads => ascii "io_threads must be a positive integer"
  | supervisorKind => ascii "supervisor must be an object"
  | restartLimit => ascii "supervisor.max_restarts must be a non-negative integer"
  | restartRange => ascii "supervisor.restart_backoff_ms exceeds restart_backoff_max_ms"
  | defaultsKind => ascii "defaults must be an object"
  | duration place member =>
    place.text ++ ascii "." ++ member ++ ascii " must be an integer in [1, " ++
      Bytes.decimal Timing.longest ++ ascii "]"
  | jitterKind place => place.text ++ ascii ".backoff_jitter must be a number"
  | jitterRange place => place.text ++ ascii ".backoff_jitter must be in [0, 1)"
  | backoffRange place => place.text ++ ascii ".backoff_base_ms exceeds backoff_max_ms"
  | jobsKind => ascii "jobs must be an object of role -> job"
  | job role => ascii "jobs." ++ role ++ ascii " must map a role to a non-empty job name"
  | noEntries => ascii "at least one entry in instances is required"
  | entryKind index => positionText index ++ ascii " must be an object"
  | entryName index =>
    positionText index ++ ascii ".name must match [A-Za-z0-9_-]\x7b2,64\x7d"
  | repeatedName name => ascii "duplicate instance name '" ++ name ++ ascii "'"
  | entry name cause => TimingPlace.entryText name ++ ascii ": " ++ cause.message

end ConfigError

end TargetDiscovery
