import TargetDiscovery.Naming
import TargetDiscovery.Log
import TargetDiscovery.Query.Parameters
import TargetDiscovery.Base64
import TargetDiscovery.Net.Endpoint
import TargetDiscovery.Json.Reader
import TargetDiscovery.Trust.Ed25519
import TargetDiscovery.Trust.PublicKey
import TargetDiscovery.Fault
import TargetDiscovery.Backoff
import TargetDiscovery.Registry.Response
import TargetDiscovery.Trust.Verifier
import TargetDiscovery.Target.Listing
import TargetDiscovery.Query.Answer
import TargetDiscovery.Definition
import TargetDiscovery.Config.Tree
import TargetDiscovery.Registry.Exchange
import TargetDiscovery.Poller
import TargetDiscovery.Poller.Solo
import TargetDiscovery.Supervisor
import TargetDiscovery.Web.Listening
import TargetDiscovery.Web.Standalone
import TargetDiscovery.Command.Probe
import TargetDiscovery.Command.Serve
import TargetDiscovery.Http.Message
import TargetDiscovery.Json.Writer
import TargetDiscovery.Main
import TargetDiscovery.Proofs.IdleTasks
import TargetDiscovery.Proofs.Loop
import TargetDiscovery.Proofs.Supervisor.Chronicle
import TargetDiscovery.Proofs.Supervisor.Strand
import TargetDiscovery.Proofs.Poller.Reaction
import TargetDiscovery.Proofs.Supervisor.Turn
import TargetDiscovery.Proofs.Supervisor.Stage
import TargetDiscovery.Proofs.Supervisor.Activity
import TargetDiscovery.Proofs.Cycle.Ending
import TargetDiscovery.Proofs.Query.Listed
import TargetDiscovery.Proofs.Supervisor.Trust
import TargetDiscovery.Proofs.Cycle.Classification
import TargetDiscovery.Proofs.Poller.Cycle
import TargetDiscovery.Proofs.Supervisor.Timeless
import TargetDiscovery.Proofs.Cycle.Counters
import TargetDiscovery.Proofs.Supervisor.Isolation
import TargetDiscovery.Proofs.Backoff
import TargetDiscovery.Proofs.Clock
import TargetDiscovery.Proofs.Schedule
import TargetDiscovery.Proofs.Scripts
import TargetDiscovery.Proofs.Supervisor.Course
import TargetDiscovery.Proofs.Supervisor.Tally
import TargetDiscovery.Proofs.Supervisor.Pace
import TargetDiscovery.Proofs.Supervisor.Punctual
import TargetDiscovery.Proofs.Poller.Abandoning
import TargetDiscovery.Proofs.Poller.Lateness
import TargetDiscovery.Proofs.Poller.Looping
import TargetDiscovery.Proofs.Supervisor.Polling
import TargetDiscovery.Proofs.Supervisor.Stopping
import TargetDiscovery.Proofs.Supervisor.Restarting
import TargetDiscovery.Proofs.Supervisor.Shutdown
import TargetDiscovery.Proofs.Supervisor.Abandoning
import TargetDiscovery.Proofs.Supervisor.GivingUp
import TargetDiscovery.Proofs.Supervisor.Closing
import TargetDiscovery.Proofs.Cycle.Accounting
import TargetDiscovery.Proofs.Query.Serving
import TargetDiscovery.Proofs.Json.Grammar
import TargetDiscovery.Proofs.Supervisor.Signals
import TargetDiscovery.Proofs.Config.Described
import TargetDiscovery.Proofs.Config.Acceptance
import TargetDiscovery.Proofs.Config.Wiring
import TargetDiscovery.Proofs.Publishing
import TargetDiscovery.Proofs.Target.Building
import TargetDiscovery.Proofs.Query.Filtering
import TargetDiscovery.Proofs.Query.Escapes
import TargetDiscovery.Proofs.Query.Routing
import TargetDiscovery.Proofs.Query.Endpoints
import TargetDiscovery.Proofs.Net.Cleanness
import TargetDiscovery.Proofs.Query.Interleaving
import TargetDiscovery.Proofs.Poller.Phases
import TargetDiscovery.Proofs.Supervisor.Phases
import TargetDiscovery.Proofs.Base64.Encoding
import TargetDiscovery.Proofs.Net.Addresses
import TargetDiscovery.Proofs.Net.Authority
import TargetDiscovery.Proofs.Net.Spelling
import TargetDiscovery.Proofs.Query.Meaning
import TargetDiscovery.Proofs.Registry.Tolerance
import TargetDiscovery.Proofs.Config.Layering
import TargetDiscovery.Proofs.Cycle.Recording
import TargetDiscovery.Proofs.Query.Escaping
import TargetDiscovery.Proofs.Registry.Deadline
import TargetDiscovery.Proofs.Web.Connection
import TargetDiscovery.Proofs.Web.Discipline
import TargetDiscovery.Proofs.Web.Hosting
import TargetDiscovery.Proofs.Ordering
import TargetDiscovery.Proofs.Query.Grouping
import TargetDiscovery.Proofs.Query.Selection
import TargetDiscovery.Proofs.Target.Labelling
import TargetDiscovery.Proofs.Registry.Arrival
import TargetDiscovery.Proofs.Command.Probing
import TargetDiscovery.Proofs.Backoff.Doubling
import TargetDiscovery.Proofs.Base64.Lengths
