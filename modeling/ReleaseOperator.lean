import ReleaseOperator.Class.Registry
import ReleaseOperator.Cluster.Client
import ReleaseOperator.Cluster.Http
import ReleaseOperator.Cluster.Keyed
import ReleaseOperator.Cluster.Place
import ReleaseOperator.Cluster.Rollout
import ReleaseOperator.Cluster.Typed
import ReleaseOperator.Decimal.Binary64
import ReleaseOperator.Decimal.Shortest
import ReleaseOperator.Digest.Md5
import ReleaseOperator.Helm.Arguments
import ReleaseOperator.Helm.Client
import ReleaseOperator.Helm.Output
import ReleaseOperator.Helm.Shell
import ReleaseOperator.InMemory.Helm
import ReleaseOperator.InMemory.Machine
import ReleaseOperator.InMemory.Store
import ReleaseOperator.InMemory.Table
import ReleaseOperator.InMemory.World
import ReleaseOperator.Json.Compact
import ReleaseOperator.Json.Decode
import ReleaseOperator.Json.Lenient
import ReleaseOperator.Json.Parse
import ReleaseOperator.Json.Patch
import ReleaseOperator.Json.Value
import ReleaseOperator.Lifecycle.Actual
import ReleaseOperator.Lifecycle.Apply
import ReleaseOperator.Lifecycle.Job
import ReleaseOperator.Lifecycle.Readiness
import ReleaseOperator.Lifecycle.Reconcile
import ReleaseOperator.Lifecycle.Record
import ReleaseOperator.Lifecycle.Selection
import ReleaseOperator.Lifecycle.Sources
import ReleaseOperator.Lifecycle.Worker
import ReleaseOperator.Machine.Action
import ReleaseOperator.Machine.Run
import ReleaseOperator.Machine.Script
import ReleaseOperator.Machine.Stage
import ReleaseOperator.Main
import ReleaseOperator.Operator.Config
import ReleaseOperator.Operator.LogFilter
import ReleaseOperator.Operator.Options
import ReleaseOperator.Operator.Owners
import ReleaseOperator.Operator.Routes
import ReleaseOperator.Operator.Startup
import ReleaseOperator.Operator.Watches
import ReleaseOperator.Pass.Call
import ReleaseOperator.Pass.Counter
import ReleaseOperator.Pass.Failure
import ReleaseOperator.Pass.Outcome
import ReleaseOperator.Pass.Program
import ReleaseOperator.Proofs.Alert
import ReleaseOperator.Proofs.Behaviour
import ReleaseOperator.Proofs.Chronicle.Coherence
import ReleaseOperator.Proofs.Chronicle.Runs
import ReleaseOperator.Proofs.Chronicle.Statuses
import ReleaseOperator.Proofs.Commuting.Bare
import ReleaseOperator.Proofs.Commuting.Commons
import ReleaseOperator.Proofs.Commuting.Independence
import ReleaseOperator.Proofs.Commuting.Keys
import ReleaseOperator.Proofs.Commuting.Twins
import ReleaseOperator.Proofs.Commuting.Workers
import ReleaseOperator.Proofs.Commuting.Works
import ReleaseOperator.Proofs.Contention.Exchanges
import ReleaseOperator.Proofs.Contention.Revisions
import ReleaseOperator.Proofs.Contention.SparedEdits
import ReleaseOperator.Proofs.Edits.ObservedGeneration
import ReleaseOperator.Proofs.Edits.OneGeneration
import ReleaseOperator.Proofs.Edits.Passes
import ReleaseOperator.Proofs.Edits.Script
import ReleaseOperator.Proofs.Edits.Steps
import ReleaseOperator.Proofs.Edits.Story
import ReleaseOperator.Proofs.Edits.Writes
import ReleaseOperator.Proofs.Estate.Asked
import ReleaseOperator.Proofs.Estate.Convergence
import ReleaseOperator.Proofs.Estate.Course
import ReleaseOperator.Proofs.Estate.Ground
import ReleaseOperator.Proofs.Estate.Kin
import ReleaseOperator.Proofs.Estate.LatestWins
import ReleaseOperator.Proofs.Estate.Lived
import ReleaseOperator.Proofs.Estate.Passes
import ReleaseOperator.Proofs.Estate.Runs
import ReleaseOperator.Proofs.Estate.Sound
import ReleaseOperator.Proofs.Estate.Steady
import ReleaseOperator.Proofs.Estate.Steps
import ReleaseOperator.Proofs.Estate.Writes
import ReleaseOperator.Proofs.Evidence.Entries
import ReleaseOperator.Proofs.Evidence.Operated
import ReleaseOperator.Proofs.Evidence.Orphans
import ReleaseOperator.Proofs.Evidence.Passes
import ReleaseOperator.Proofs.Evidence.Releases
import ReleaseOperator.Proofs.Evidence.Reports
import ReleaseOperator.Proofs.Evidence.Since
import ReleaseOperator.Proofs.Evidence.Steps
import ReleaseOperator.Proofs.Evidence.Tending
import ReleaseOperator.Proofs.Executions.Passage
import ReleaseOperator.Proofs.Executions.Series
import ReleaseOperator.Proofs.Generations
import ReleaseOperator.Proofs.History
import ReleaseOperator.Proofs.Invariants
import ReleaseOperator.Proofs.Operations
import ReleaseOperator.Proofs.Passes
import ReleaseOperator.Proofs.Pinning.Course
import ReleaseOperator.Proofs.Pinning.Lives
import ReleaseOperator.Proofs.Pinning.Plain
import ReleaseOperator.Proofs.Pinning.Stints
import ReleaseOperator.Proofs.Questions
import ReleaseOperator.Proofs.Renewal.Attuned
import ReleaseOperator.Proofs.Renewal.Contents
import ReleaseOperator.Proofs.Renewal.Reapplied
import ReleaseOperator.Proofs.Renewal.Turns
import ReleaseOperator.Proofs.Renewal.Update
import ReleaseOperator.Proofs.Resumption.Restarts
import ReleaseOperator.Proofs.Resumption.Runs
import ReleaseOperator.Proofs.Resumption.Weather
import ReleaseOperator.Proofs.Selections
import ReleaseOperator.Proofs.StoreRules
import ReleaseOperator.Proofs.Versions
import ReleaseOperator.Proofs.Waking.Minding
import ReleaseOperator.Proofs.Waking.Settling
import ReleaseOperator.Proofs.Waking.Stranded
import ReleaseOperator.Release.Descriptor
import ReleaseOperator.Release.Manifest
import ReleaseOperator.Release.Values
import ReleaseOperator.Release.Workload
import ReleaseOperator.Resource.Basic
import ReleaseOperator.Resource.Codec
import ReleaseOperator.Resource.Condition
import ReleaseOperator.Resource.Definition
import ReleaseOperator.Resource.Metadata
import ReleaseOperator.Resource.Phase
import ReleaseOperator.Resource.Reason
import ReleaseOperator.Resource.Schema
import ReleaseOperator.Resource.Source
import ReleaseOperator.Text.Base64
import ReleaseOperator.Text.Quoted
import ReleaseOperator.Text.Search
import ReleaseOperator.Text.Utf8
import ReleaseOperator.Time.Instant
import ReleaseOperator.Tracker.Basic
import ReleaseOperator.Tracker.Entry
import ReleaseOperator.Tracker.Holding
import ReleaseOperator.Version.Basic
import ReleaseOperator.Version.Parse
import ReleaseOperator.View.Hidden
import ReleaseOperator.View.Outcome
import ReleaseOperator.View.Request
import ReleaseOperator.View.Resource
import ReleaseOperator.View.Scene
import ReleaseOperator.Yaml.Cursor
import ReleaseOperator.Yaml.Event
import ReleaseOperator.Yaml.Lexeme
import ReleaseOperator.Yaml.Node
import ReleaseOperator.Yaml.Printer
import ReleaseOperator.Yaml.Scalar
import ReleaseOperator.Yaml.Strict
import ReleaseOperator.Yaml.Token
import ReleaseOperator.Yaml.Values
import ReleaseOperator.Proofs.DryRun.Untouched
import ReleaseOperator.Proofs.DryRun.Rehearsals
import ReleaseOperator.Proofs.Removal.Convergence
import ReleaseOperator.Proofs.Evidence.Records
import ReleaseOperator.Proofs.Tracking.Entries
import ReleaseOperator.Proofs.Tracking.Holders
import ReleaseOperator.Proofs.Tracking.Latest
import ReleaseOperator.Proofs.Absence.Driven
import ReleaseOperator.Proofs.Absence.Failures
import ReleaseOperator.Proofs.Absence.Missing
import ReleaseOperator.Proofs.Standstill.Echoes
import ReleaseOperator.Proofs.Standstill.Steps
import ReleaseOperator.Proofs.Standstill.Runs
import ReleaseOperator.Proofs.Standstill.Laps
import ReleaseOperator.Proofs.Codec.Records
import ReleaseOperator.Proofs.Retention
import ReleaseOperator.Proofs.Codec.Resources
import ReleaseOperator.Proofs.Errands.Deeds
import ReleaseOperator.Proofs.Errands.Secrets
import ReleaseOperator.Proofs.Errands.Handover
import ReleaseOperator.Proofs.Errands.Calls
import ReleaseOperator.Proofs.Errands.Application
import ReleaseOperator.Proofs.Rollouts
import ReleaseOperator.Proofs.Constancy
import ReleaseOperator.Proofs.Readiness.Manifests
import ReleaseOperator.Proofs.Readiness.Verdicts
import ReleaseOperator.Proofs.Readiness.Spellings
import ReleaseOperator.Proofs.Values.Ordered
import ReleaseOperator.Proofs.Values.Layers
import ReleaseOperator.Proofs.Values.Texts
import ReleaseOperator.Proofs.Values.Sources
import ReleaseOperator.Proofs.Codec.StatusPatch
import ReleaseOperator.Proofs.Delays.Windows
import ReleaseOperator.Proofs.Delays.Requests
