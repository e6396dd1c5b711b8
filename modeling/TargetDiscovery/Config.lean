import TargetDiscovery.Config.Error
import TargetDiscovery.Config.Files
import TargetDiscovery.Json.Reader
import TargetDiscovery.Log
import TargetDiscovery.Naming
import TargetDiscovery.Target.Conversion

/-!
# Configurations

A configuration is a JSON document. Members that are missing keep their standard values; the timing
of an instance is layered over the defaults of the document, and those over the standard timing.
Every instance either names its key file or says outright that it is insecure.
-/

set_option autoImplicit false

namespace TargetDiscovery

/-- How the states of an instance are to be trusted. -/
inductive TrustSource
  | insecure
  | keyFile (path text : Bytes)
  deriving DecidableEq, Repr

structure Entry where
  name : Bytes
  url : Bytes
  endpoint : Endpoint
  timing : Timing
  trust : TrustSource

structure Config where
  logName : Bytes
  address : Bytes
  port : Nat
  threads : Nat
  restarts : RestartRule
  rules : JobRules
  entries : List Entry

namespace Config

/-! ## Standard values -/

def standardLogName : Bytes := ascii "info"

def standardAddress : Bytes := ascii "0.0.0.0"

def standardPort : Nat := 8000

def standardThreads : Nat := 2

/-! ## Timing -/

def durationAt (place : TimingPlace) (object : Json) (member : Bytes) (fallback : Nat) :
    Except ConfigError Nat :=
  match object.member? member with
  | none => .ok fallback
  | some v =>
    match v.natBelow? (Timing.longest + 1) with
    | some n => if n = 0 then .error (.duration place member) else .ok n
    | none => .error (.duration place member)

def jitterAt (place : TimingPlace) (object : Json) (fallback : Float) :
    Except ConfigError Float :=
  match object.member? (ascii "backoff_jitter") with
  | none => .ok fallback
  | some (.number n) => .ok n.toFloat
  | some _ => .error (.jitterKind place)

def layer (place : TimingPlace) (object : Json) (under : Timing) : Except ConfigError Timing := do
  let interval ← durationAt place object (ascii "poll_interval_ms") under.interval
  let timeout ← durationAt place object (ascii "fetch_timeout_ms") under.timeout
  let base ← durationAt place object (ascii "backoff_base_ms") under.base
  let max ← durationAt place object (ascii "backoff_max_ms") under.max
  let jitter ← jitterAt place object under.jitter
  if !(0.0 ≤ jitter && jitter < 1.0) then .error (.jitterRange place)
  else if max < base then .error (.backoffRange place)
  else .ok ⟨interval, timeout, base, max, jitter⟩

/-! ## Sections -/

def readLogName (document : Json) : Except ConfigError Bytes :=
  match document.member? (ascii "log_level") with
  | none => .ok standardLogName
  | some v =>
    match v.string? with
    | none => .error .logLevelKind
    | some name =>
      if (LogLevel.ofName? name).isSome then .ok name else .error (.logLevelUnknown name)

def readAddress (listen : Json) : Except ConfigError Bytes :=
  match listen.member? (ascii "address") with
  | none => .ok standardAddress
  | some v =>
    match v.string? with
    | some address => .ok address
    | none => .error .listenAddress

def readPort (listen : Json) : Except ConfigError Nat :=
  match listen.member? (ascii "port") with
  | none => .ok standardPort
  | some v =>
    match v.natBelow? 65536 with
    | some port => .ok port
    | none => .error .listenPort

def readListen (document : Json) : Except ConfigError (Bytes × Nat) :=
  match document.member? (ascii "listen") with
  | none => .ok (standardAddress, standardPort)
  | some listen =>
    if listen.isObject then do
      let address ← readAddress listen
      let port ← readPort listen
      .ok (address, port)
    else .error .listenKind

def readThreads (document : Json) : Except ConfigError Nat :=
  match document.member? (ascii "io_threads") with
  | none => .ok standardThreads
  | some v =>
    match v.natBelow? UInt32.size with
    | some n => if n = 0 then .error .threads else .ok n
    | none => .error .threads

def readLimit (supervisor : Json) : Except ConfigError Nat :=
  match supervisor.member? (ascii "max_restarts") with
  | none => .ok RestartRule.standard.limit
  | some v =>
    match v.natBelow? UInt32.size with
    | some n => .ok n
    | none => .error .restartLimit

def readRestarts (document : Json) : Except ConfigError RestartRule :=
  match document.member? (ascii "supervisor") with
  | none => .ok RestartRule.standard
  | some supervisor =>
    if supervisor.isObject then do
      let standard := RestartRule.standard
      let limit ← readLimit supervisor
      let base ← durationAt .supervisor supervisor (ascii "restart_backoff_ms") standard.base
      let max ← durationAt .supervisor supervisor (ascii "restart_backoff_max_ms") standard.max
      if max < base then .error .restartRange else .ok ⟨limit, base, max, standard.jitter⟩
    else .error .supervisorKind

def readDefaults (document : Json) : Except ConfigError Timing :=
  match document.member? (ascii "defaults") with
  | none => .ok Timing.standard
  | some defaults =>
    if defaults.isObject then layer .defaults defaults Timing.standard
    else .error .defaultsKind

/-- The job of one role; neither may be empty. -/
def readJob (role : Bytes) (v : Json) : Except ConfigError Bytes :=
  match v.string? with
  | some job => if role.isEmpty || job.isEmpty then .error (.job role) else .ok job
  | none => .error (.job role)

def addJobs (rules : JobRules) : List (Bytes × Json) → Except ConfigError JobRules
  | [] => .ok rules
  | (role, v) :: rest =>
    match readJob role v with
    | .ok job => addJobs (rules.insert role job) rest
    | .error e => .error e

def readRules (document : Json) : Except ConfigError JobRules :=
  match document.member? (ascii "jobs") with
  | none => .ok JobRules.standard
  | some jobs =>
    if jobs.isObject then addJobs JobRules.standard jobs.memberDict.entries
    else .error .jobsKind

/-! ## Instances -/

def readName (index : Nat) (object : Json) : Except ConfigError Bytes :=
  match (object.member? (ascii "name")).bind Json.string? with
  | some name => if Naming.isInstanceName name then .ok name else .error (.entryName index)
  | none => .error (.entryName index)

def readUrl (object : Json) : Except EntryError (Bytes × Endpoint) :=
  match (object.member? (ascii "registry_url")).bind Json.string? with
  | none => .error .urlMissing
  | some url =>
    match Endpoint.parse url with
    | .ok endpoint => .ok (url, endpoint)
    | .error e => .error (.url e)

def readInsecure (object : Json) : Except EntryError Bool :=
  match object.member? (ascii "insecure") with
  | none => .ok false
  | some v =>
    match v.bool? with
    | some b => .ok b
    | none => .error .insecureKind

/-- The key file that a member names, read from the directory of the configuration. -/
def readKey (files : Files) (directory : Bytes) (v : Json) : Except EntryError TrustSource :=
  match v.string? with
  | none => .error .keyPath
  | some name =>
    if name.isEmpty then .error .keyPath
    else
      let path := Path.within directory name
      match files.read? path with
      | some text => .ok (.keyFile path text)
      | none => .error (.keyUnreadable path)

/-- The trust of an instance: a key file, or none if it is insecure; one excludes the other. -/
def readTrust (files : Files) (directory : Bytes) (object : Json) :
    Except EntryError TrustSource := do
  let insecure ← readInsecure object
  match object.member? (ascii "public_key_pem"), insecure with
  | none, true => .ok .insecure
  | some v, false => readKey files directory v
  | _, _ => .error .trustChoice

def inEntry {α : Type} (name : Bytes) : Except EntryError α → Except ConfigError α
  | .ok a => .ok a
  | .error e => .error (.entry name e)

def readEntry (files : Files) (directory : Bytes) (defaults : Timing) (index : Nat)
    (object : Json) : Except ConfigError Entry :=
  if object.isObject then do
    let name ← readName index object
    let (url, endpoint) ← inEntry name (readUrl object)
    let timing ← layer (.entry name) object defaults
    let trust ← inEntry name (readTrust files directory object)
    .ok ⟨name, url, endpoint, timing, trust⟩
  else .error (.entryKind index)

/-- The instances of a list from a position on; `seen` holds the names before it. -/
def readEntries (files : Files) (directory : Bytes) (defaults : Timing) :
    Nat → List Bytes → List Json → Except ConfigError (List Entry)
  | _, _, [] => .ok []
  | index, seen, object :: rest =>
    match readEntry files directory defaults index object with
    | .error e => .error e
    | .ok entry =>
      if seen.contains entry.name then .error (.repeatedName entry.name)
      else
        match readEntries files directory defaults (index + 1) (entry.name :: seen) rest with
        | .ok entries => .ok (entry :: entries)
        | .error e => .error e

def readInstances (files : Files) (directory : Bytes) (defaults : Timing) (document : Json) :
    Except ConfigError (List Entry) :=
  match document.member? (ascii "instances") with
  | some (.array (first :: rest)) => readEntries files directory defaults 0 [] (first :: rest)
  | _ => .error .noEntries

/-! ## Documents -/

/-- The configuration of a document; sections are read in a fixed order, and the first error
counts. -/
def ofDocument (files : Files) (directory : Bytes) (document : Json) :
    Except ConfigError Config :=
  if document.isObject then do
    let logName ← readLogName document
    let (address, port) ← readListen document
    let threads ← readThreads document
    let restarts ← readRestarts document
    let defaults ← readDefaults document
    let rules ← readRules document
    let entries ← readInstances files directory defaults document
    .ok ⟨logName, address, port, threads, restarts, rules, entries⟩
  else .error .notObject

/-- The configuration of a text, in which no name may be repeated; key files are looked for in the
directory. -/
def parse [Json.Reader] (files : Files) (directory text : Bytes) :
    Except Fault (Except ConfigError Config) :=
  match Json.Reader.read true text with
  | .ok document => .ok (ofDocument files directory document)
  | .error (.malformed report) => .ok (.error (.json report))
  | .error (.thrown fault) => .error fault

/-- The configuration in a file; its directory is where key files are looked for. -/
def load [Json.Reader] (files : Files) (path : Bytes) : Except Fault (Except ConfigError Config) :=
  match files.read? path with
  | some text => parse files (Path.directory path) text
  | none => .ok (.error (.unreadable path))

def keyPaths [Json.Reader] (directory text : Bytes) : List Bytes :=
  match Json.Reader.read false text with
  | .error _ => []
  | .ok document =>
    match document.member? (ascii "instances") with
    | some (.array items) =>
      items.filterMap fun item =>
        ((item.member? (ascii "public_key_pem")).bind Json.string?).map (Path.within directory)
    | _ => []

def logLevel (c : Config) : LogLevel := (LogLevel.ofName? c.logName).getD .info

end Config

end TargetDiscovery
