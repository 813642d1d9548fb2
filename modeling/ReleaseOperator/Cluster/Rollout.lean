import ReleaseOperator.Cluster.Typed
import ReleaseOperator.Release.Workload

/-!
# Rollouts

How far the rollout of a workload is, as the cluster reports it, and when it is
complete: every desired replica is ready and runs what was asked for last. For
replicas, a report about an earlier generation says nothing.
-/

namespace ReleaseOperator

structure ReplicaReport where
  observed : Option Int
  ready : Option Int
  updated : Option Int
  deriving Repr, DecidableEq

/-- The replicas that are asked for, and what is reported about them. -/
structure Replicas where
  generation : Option Int
  wanted : Option Int
  report : Option ReplicaReport
  deriving Repr, DecidableEq

structure NodeReport where
  observed : Option Int
  desired : Int
  ready : Int
  updated : Option Int
  deriving Repr, DecidableEq

/-- What is reported about one replica on each node. -/
structure NodeReplicas where
  generation : Option Int
  report : Option NodeReport
  deriving Repr, DecidableEq

/-- Whether a report is about an earlier generation. -/
def isStale (generation observed : Option Int) : Bool :=
  match generation, observed with
  | some g, some o => decide (o < g)
  | _, _ => false

namespace Replicas

def desired (r : Replicas) : Int := r.wanted.getD 1

/-- Whether the rollout is complete. Without a report it is so only if there is
nothing to roll out. -/
def isReady (r : Replicas) : Bool :=
  match r.report with
  | none => r.desired = 0
  | some s =>
    !isStale r.generation s.observed && decide (r.desired ≤ s.ready.getD 0) &&
      decide (r.desired ≤ s.updated.getD 0)

def report? (numbers : List String) (v : Json) : Option ReplicaReport := do
  let f ← v.fields?
  Json.fitting Json.int32? f numbers
  Json.fitting Json.text? f ["currentRevision", "updateRevision"]
  Json.fitting (Json.list? Typed.condition?) f ["conditions"]
  let observed ← Json.optional Json.int64? (f "observedGeneration")
  let ready ← Json.optional Json.int32? (f "readyReplicas")
  let updated ← Json.optional Json.int32? (f "updatedReplicas")
  return ⟨observed, ready, updated⟩

def spec? (numbers objects : List String) (v : Json) : Option (Option Int) := do
  let f ← v.fields?
  Json.fitting Json.int32? f ("minReadySeconds" :: "revisionHistoryLimit" :: numbers)
  Json.fitting Json.fields? f objects
  Json.fitting Typed.selector? f ["selector"]
  Json.fitting Typed.template? f ["template"]
  Json.optional Json.int32? (f "replicas")

def ofObject? (kind : String) (spec : Json → Option (Option Int))
    (report : Json → Option ReplicaReport) (v : Json) : Option Replicas := do
  let (f, metadata) ← Typed.object? WorkloadKind.apiVersion kind v
  let wanted ← Json.optional spec (f "spec")
  let r ← Json.optional report (f "status")
  return ⟨metadata.generation, wanted.bind id, r⟩

def ofDeployment? : Json → Option Replicas :=
  ofObject? WorkloadKind.deployment.name
    (fun v => do
      let f ← v.fields?
      Json.fitting Json.bool? f ["paused"]
      spec? ["progressDeadlineSeconds"] ["strategy"] v)
    (report? ["availableReplicas", "collisionCount", "replicas", "unavailableReplicas"])

def ofStatefulSet? : Json → Option Replicas :=
  ofObject? WorkloadKind.statefulSet.name
    (fun v => do
      let f ← v.fields?
      Json.fitting Json.text? f ["podManagementPolicy", "serviceName"]
      Json.fitting (Json.list? Json.fields?) f ["volumeClaimTemplates"]
      spec? [] ["ordinals", "persistentVolumeClaimRetentionPolicy", "updateStrategy"] v)
    (report? ["availableReplicas", "collisionCount", "currentReplicas", "replicas"])

end Replicas

namespace NodeReplicas

def isReady (r : NodeReplicas) : Bool :=
  match r.report with
  | none => false
  | some s => decide (s.desired ≤ s.ready) && decide (s.desired ≤ s.updated.getD 0)

/-- What is reported about nodes, read from a value. A number that is missing is
zero. -/
def report? (v : Json) : Option NodeReport := do
  let f ← v.fields?
  Json.fitting Json.int32? f ["collisionCount", "currentNumberScheduled", "numberAvailable",
    "numberMisscheduled", "numberUnavailable"]
  Json.fitting (Json.list? Typed.condition?) f ["conditions"]
  let observed ← Json.optional Json.int64? (f "observedGeneration")
  let desired ← Json.optional Json.int32? (f "desiredNumberScheduled")
  let ready ← Json.optional Json.int32? (f "numberReady")
  let updated ← Json.optional Json.int32? (f "updatedNumberScheduled")
  return ⟨observed, desired.getD 0, ready.getD 0, updated⟩

def ofDaemonSet? (v : Json) : Option NodeReplicas := do
  let (f, metadata) ← Typed.object? WorkloadKind.apiVersion WorkloadKind.daemonSet.name v
  Json.fitting (Replicas.spec? [] ["updateStrategy"]) f ["spec"]
  let r ← Json.optional report? (f "status")
  return ⟨metadata.generation, r⟩

end NodeReplicas

inductive Rollout where
  | deployment (r : Replicas)
  | statefulSet (r : Replicas)
  | daemonSet (r : NodeReplicas)
  deriving Repr, DecidableEq

namespace Rollout

def isReady : Rollout → Bool
  | deployment r => r.isReady
  | statefulSet r => r.isReady
  | daemonSet r => r.isReady

def ofJson? : WorkloadKind → Json → Option Rollout
  | .deployment, v => (Replicas.ofDeployment? v).map deployment
  | .statefulSet, v => (Replicas.ofStatefulSet? v).map statefulSet
  | .daemonSet, v => (NodeReplicas.ofDaemonSet? v).map daemonSet

end Rollout

end ReleaseOperator
