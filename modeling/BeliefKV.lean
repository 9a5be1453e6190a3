import BeliefKV.Lib.Dict
import BeliefKV.Lib.Journal
import BeliefKV.Lib.Forest
import BeliefKV.Lib.Run
import BeliefKV.Protocol
import BeliefKV.PageIndex.Basic
import BeliefKV.PageIndex.Operations
import BeliefKV.PageIndex.Physical
import BeliefKV.PageIndex.Replica
import BeliefKV.PageIndex.Invariant
import BeliefKV.PageIndex.Effect
import BeliefKV.PageIndex.Preservation
import BeliefKV.PageIndex.Publication
import BeliefKV.PageIndex.Delta
import BeliefKV.PageIndex.Validation
import BeliefKV.PageIndex.Agreement
import BeliefKV.PageIndex.Relay
import BeliefKV.PageIndex.RelayRuns
import BeliefKV.JointShadow.Coalesce
import BeliefKV.JointShadow.Lossless
import BeliefKV.JointShadow.Worker
import BeliefKV.Events
import BeliefKV.Lib.Recency
import BeliefKV.Channel.Basic
import BeliefKV.Channel.Codec
import BeliefKV.Channel.Delivery
import BeliefKV.Graph.Basic
import BeliefKV.Graph.Handlers
import BeliefKV.Graph.Lifecycle
import BeliefKV.Graph.Refinement
import BeliefKV.Graph.Runs
import BeliefKV.Graph.Books
import BeliefKV.Graph.Deltas
import BeliefKV.Graph.Writes
import BeliefKV.Graph.Family
import BeliefKV.Graph.Reports
import BeliefKV.Graph.Coverage
import BeliefKV.Consumers.Basic
import BeliefKV.Consumers.Ingestion
import BeliefKV.Consumers.Batching
import BeliefKV.Lib.Call
import BeliefKV.Lib.Atomic
import BeliefKV.Controller.Commands
import BeliefKV.Lib.Walk
import BeliefKV.Lib.Code
import BeliefKV.Arbiter.Closures
import BeliefKV.Arbiter.Bundles
import BeliefKV.Arbiter.Basic
import BeliefKV.PageIndex.Migratable
import BeliefKV.PageIndex.Breakdown
import BeliefKV.PageIndex.Unlock
import BeliefKV.Arbiter.Selection
import BeliefKV.Arbiter.Previews
import BeliefKV.Arbiter.Completeness
import BeliefKV.PageIndex.Transfers
import BeliefKV.PageIndex.OnePage
import BeliefKV.PageIndex.Pins
import BeliefKV.Controller.Basic
import BeliefKV.Controller.Execution
import BeliefKV.Arbiter.Residency
import BeliefKV.Arbiter.Execution
import BeliefKV.Arbiter.Staleness
import BeliefKV.Arbiter.Drops
import BeliefKV.Controller.Events
import BeliefKV.Controller.Queue
import BeliefKV.Lib.Ranked
import BeliefKV.Controller.PriorityQueue
import BeliefKV.Controller.Epochs
import BeliefKV.Controller.Conservation
import BeliefKV.Controller.Settling
import BeliefKV.Controller.Atomicity
import BeliefKV.Policy.Residency
import BeliefKV.Policy.Release
import BeliefKV.Lib.Subtree
import BeliefKV.Radix.Basic
import BeliefKV.Radix.Invariant
import BeliefKV.Radix.Preservation
import BeliefKV.Radix.Calls
import BeliefKV.Radix.Runs
import BeliefKV.Rolling.Runs
import BeliefKV.Admission.Index
import BeliefKV.Admission.Tickets
import BeliefKV.Restore.Lifecycle
import BeliefKV.Restore.Leases
import BeliefKV.Lib.Load
import BeliefKV.Lib.Probe
import BeliefKV.Graph.Snapshot
import BeliefKV.Lib.Components
import BeliefKV.Lib.Kahn
import BeliefKV.Joint.Plan
import BeliefKV.Joint.Online
import BeliefKV.Joint.Groups
import BeliefKV.Joint.Views
import BeliefKV.WhatIf.Demand
import BeliefKV.WhatIf.Packer
import BeliefKV.WhatIf.Choice
import BeliefKV.WhatIf.Replay
import BeliefKV.WhatIf.Agreement
import BeliefKV.WhatIf.Optimal
import BeliefKV.WhatIf.Safety
import BeliefKV.Joint.Planner
import BeliefKV.Joint.Freshness
import BeliefKV.Joint.Planned
import BeliefKV.Joint.Headroom
import BeliefKV.Joint.Charges
import BeliefKV.Lib.Fill
import BeliefKV.Joint.Semantic
import BeliefKV.Lib.Gauge
import BeliefKV.Queue.Workload
import BeliefKV.Queue.Simulation
import BeliefKV.Queue.Transitions
import BeliefKV.Queue.Peak
import BeliefKV.Joint.Reactive
import BeliefKV.Joint.Restores
import BeliefKV.Joint.Prefix
import BeliefKV.Timeline.Evaluation
import BeliefKV.Timeline.Steps
import BeliefKV.Timeline.Runs
import BeliefKV.Timeline.Order
import BeliefKV.Timeline.Ledger
import BeliefKV.Timeline.Settling
import BeliefKV.Timeline.Served
import BeliefKV.Timeline.Causality
import BeliefKV.Retraction.Snapshot
import BeliefKV.Retraction.Planner
import BeliefKV.Retraction.Selection
import BeliefKV.Retraction.Planned
import BeliefKV.Admission.Fairness
import BeliefKV.Admission.Controller
import BeliefKV.Admission.SoftShare
import BeliefKV.PageIndex.Stepwise
import BeliefKV.PageIndex.Atomicity
import BeliefKV.PageIndex.Faithful
import BeliefKV.Lib.Cover
import BeliefKV.Rolling.Room
import BeliefKV.Rolling.Thorough
import BeliefKV.Rolling.Shortfall
import BeliefKV.Admission.Compiled
import BeliefKV.Admission.Rotation
import BeliefKV.Admission.Weights
import BeliefKV.Lib.Precedence
import BeliefKV.Oracle.Orders
import BeliefKV.Oracle.BoundedLag
import BeliefKV.Lib.Tail
import BeliefKV.Risk.Planner
import BeliefKV.Risk.Selection
import BeliefKV.Lib.Incremental
import BeliefKV.Actions.Json
import BeliefKV.Actions.Parser
import BeliefKV.Radix.Checks
import BeliefKV.Lib.Prefixes
import BeliefKV.Radix.Residents
import BeliefKV.Radix.Growing
import BeliefKV.Radix.Preflight
import BeliefKV.Rolling.Evictable
import BeliefKV.Lib.Waves
import BeliefKV.Lib.Base64
import BeliefKV.Frozen.CriticalPath
import BeliefKV.Lib.Conveyor
import BeliefKV.Audit.Snapshots
import BeliefKV.Audit.Runtime
import BeliefKV.Audit.Tokens
import BeliefKV.Guard.Attempts
import BeliefKV.Guard.Suppression
import BeliefKV.Guard.Counts
import BeliefKV.Guard.Breaker
import BeliefKV.Radix.Completion
import BeliefKV.Oracle.Cached
import BeliefKV.Oracle.Scenarios
import BeliefKV.Lib.Rounding
