import QuickApi.Lib.Transition
import QuickApi.Lib.Ring
import QuickApi.Lib.OrderedDict
import QuickApi.Lib.SortedList
import QuickApi.Lib.Readable
import QuickApi.Lib.DecimalText
import QuickApi.Lib.RowStore
import QuickApi.Lib.Coroutine
import QuickApi.Lib.StackLog
import QuickApi.Lib.IpAddress
import QuickApi.Lib.IpAddressText
import QuickApi.Lib.Calendar
import QuickApi.Lib.Checked
import QuickApi.Lib.Json
import QuickApi.Lib.Base64
import QuickApi.Lib.Worklist
import QuickApi.Lib.DecimalContext
import QuickApi.Lib.IntText
import QuickApi.RateLimit.Policy
import QuickApi.RateLimit.Limiter
import QuickApi.RateLimit.Reference
import QuickApi.RateLimit.Refinement
import QuickApi.RateLimit.RetryAfter
import QuickApi.Fingerprint.Value
import QuickApi.Fingerprint.Encode
import QuickApi.Fingerprint.NumberText
import QuickApi.Fingerprint.Canonical
import QuickApi.Fingerprint.Native
import QuickApi.Fingerprint.Distinct
import QuickApi.DatabasePool.Admission
import QuickApi.DatabasePool.Pool
import QuickApi.DatabasePool.Permits
import QuickApi.DatabasePool.Effect
import QuickApi.DatabasePool.Preservation
import QuickApi.DatabasePool.Leases
import QuickApi.DatabasePool.Conservation
import QuickApi.Items.Model
import QuickApi.Items.Transactions
import QuickApi.Items.Serialization
import QuickApi.Items.NoLostUpdate
import QuickApi.Items.Query
import QuickApi.Items.Pagination
import QuickApi.Price.Validation
import QuickApi.Price.Exact
import QuickApi.RequestTimeout.Activity
import QuickApi.RequestTimeout.Response
import QuickApi.RequestTimeout.Deadline
import QuickApi.RequestTimeout.System
import QuickApi.RequestTimeout.Effect
import QuickApi.RequestTimeout.Forwarding
import QuickApi.RequestTimeout.BodyDelivery
import QuickApi.RequestBody.Limit
import QuickApi.RequestBody.Delivery
import QuickApi.Mutation.Record
import QuickApi.Mutation.Session
import QuickApi.Mutation.Execution
import QuickApi.Mutation.Route
import QuickApi.Mutation.Contract
import QuickApi.Mutation.Bookkeeping
import QuickApi.Mutation.ExecutionSpec
import QuickApi.Cleanup.Service
import QuickApi.Cleanup.Effect
import QuickApi.Cleanup.SingleFlight
import QuickApi.Lifecycle.Handler
import QuickApi.Lifecycle.Ownership
import QuickApi.Lifecycle.Process
import QuickApi.Lifecycle.StopRequest
import QuickApi.Lifecycle.Draining
import QuickApi.Telemetry.ExactlyOnce
import QuickApi.HttpPolicy.Policy
import QuickApi.HttpPolicy.TrustedProxy
import QuickApi.HttpPolicy.Resolution
import QuickApi.HttpPolicy.Consumption
import QuickApi.HttpPolicy.Grammar
import QuickApi.Exposure.Guard
import QuickApi.Exposure.Routes
import QuickApi.Exposure.Coverage
import QuickApi.Routing.Flexible
import QuickApi.Routing.Label
import QuickApi.Release.Evidence
import QuickApi.Release.Gate
import QuickApi.Release.GateSpec
import QuickApi.Release.Soundness
import QuickApi.Release.Candidate
import QuickApi.Release.Inspection
import QuickApi.Release.Integrity
import QuickApi.Release.Catalogue
import QuickApi.Registration.Dependant
import QuickApi.Registration.Completeness
import QuickApi.Mutation.RouteSpec
import QuickApi.Mutation.Server
import QuickApi.Mutation.System
import QuickApi.Mutation.Storage
import QuickApi.Mutation.Linking
import QuickApi.Mutation.RouteIdentity
import QuickApi.Items.Payload
import QuickApi.Items.FieldLaws
import QuickApi.RateLimit.Accounting
import QuickApi.Cleanup.Purge
import QuickApi.Cleanup.PurgeExact
import QuickApi.Lib.CommaList
import QuickApi.Lib.HeaderList
import QuickApi.Cors.Policy
import QuickApi.Cors.Responses
import QuickApi.Readiness.Service
import QuickApi.Readiness.Effect
import QuickApi.Readiness.SingleFlight
import QuickApi.Readiness.Probes
import QuickApi.Logging.Diagnostics
import QuickApi.Logging.Events
import QuickApi.Logging.Privacy
import QuickApi.Lib.SplitLines
import QuickApi.Lib.Weave
import QuickApi.Spacing.Source
import QuickApi.Spacing.Layout
import QuickApi.Spacing.Insertion
import QuickApi.Spacing.BlankLines
import QuickApi.Spacing.Exact
import QuickApi.Mutation.Coherence
import QuickApi.Mutation.Invariance
import QuickApi.Mutation.LockHygiene
import QuickApi.Mutation.Replay
import QuickApi.Mutation.Accounting
import QuickApi.Lib.Ledger
import QuickApi.Mutation.Chronicle
import QuickApi.Mutation.AtMostOnce
import QuickApi.Mutation.Abandonment
import QuickApi.Mutation.Atomicity
import QuickApi.Mutation.Unexpired
import QuickApi.Lib.Interposition
import QuickApi.RequestTimeout.Ownership
import QuickApi.RequestTimeout.Sparing
import QuickApi.Mutation.Interruption
import QuickApi.Stack.Asgi
import QuickApi.Stack.Gates
import QuickApi.Stack.Attempt
import QuickApi.Stack.Admission
import QuickApi.Stack.Edge
import QuickApi.Stack.Stamps
import QuickApi.RequestTimeout.Conclusion
import QuickApi.Stack.Pipeline
import QuickApi.Stack.Answered
import QuickApi.Lib.Distinct
import QuickApi.Config.Fields
import QuickApi.Config.Validation
import QuickApi.Config.Canonical
import QuickApi.Config.Settled
import QuickApi.Config.Environ
import QuickApi.Config.Wiring
