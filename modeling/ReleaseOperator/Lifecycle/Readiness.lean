import ReleaseOperator.Lifecycle.Job
import ReleaseOperator.Release.Manifest

/-!
# Readiness of a release

A release is ready when Helm reports it as deployed at the desired version and every
workload of its manifest is ready. The first thing that is not so decides.
-/

namespace ReleaseOperator

namespace Pass

def unanswered (f : Failure) : Pass (Bool × Outcome) := do
  return (false, ← shortDelayWith f)

/-- Whether all workloads are ready, asked in order until one is not. -/
def workloadsReady : List Workload → Pass (Bool × Outcome)
  | [] => pure (true, .done)
  | w :: rest => do
    match ← cluster (.workloadReady w) with
    | .ok true => workloadsReady rest
    | .ok false => return (false, .done)
    | .error e => unanswered (.cluster e)

def manifestReady (release : Release) : Pass (Bool × Outcome) := do
  match ← helm (.manifest release.name release.namespaceName) with
  | .error e => unanswered (.helm e)
  | .ok manifest =>
    match Manifest.workloads manifest release.namespaceName with
    | .error p => unanswered (.helm (.parse p.message))
    | .ok workloads => workloadsReady workloads

/-- Whether what Helm reports is a release deployed at a desired version. -/
def isDeployedAt (desired : String) (info : ReleaseInfo) : Bool :=
  info.status = .deployed && (desired.isEmpty || Text.trim info.chartVersion = desired)

def releaseReady (release : Release) (desired : String) : Pass (Bool × Outcome) := do
  match ← helm (.releaseInfo release.name release.namespaceName) with
  | .error e => unanswered (.helm e)
  | .ok none => return (false, .done)
  | .ok (some info) =>
    if isDeployedAt desired info then manifestReady release else return (false, .done)

end Pass

/-- Whether the release of a job is ready; nothing is asked in a dry run. -/
def Job.isReady (setup : Setup) (j : Job) : Pass (Bool × Outcome) :=
  if setup.dryRun then pure (true, .done)
  else Pass.releaseReady j.release j.resource.desiredVersion

end ReleaseOperator
