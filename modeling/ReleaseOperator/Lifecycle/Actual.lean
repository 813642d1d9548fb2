import ReleaseOperator.Pass.Call
import ReleaseOperator.Release.Descriptor

/-!
# The actual state of a release

What Helm reports about a release, condensed to a state, and whether the installed
chart is older than a desired version.
-/

namespace ReleaseOperator

inductive ActualState where
  | notInstalled
  | ready
  | reconciling
  | failed
  | unknown
  deriving Repr, DecidableEq

namespace ActualState

def name : ActualState → String
  | notInstalled => "NotInstalled"
  | ready => "Ready"
  | reconciling => "Reconciling"
  | failed => "Failed"
  | unknown => "Unknown"

/-- The state behind a status; no status means that there is no release. -/
def ofStatus : Option ReleaseStatus → ActualState
  | none => notInstalled
  | some .deployed => ready
  | some .failed => failed
  | some .unknown => unknown
  | some _ => reconciling

end ActualState

namespace Pass

/-- Part of what Helm reports about a release, which must exist. -/
def reported (release : Release) (part : ReleaseInfo → α) : Pass (Except HelmError α) := do
  let report ← helm (.releaseInfo release.name release.namespaceName)
  return Report.part release.name release.namespaceName part report

def actualState (release : Release) : Pass (ActualState × Outcome) := do
  match ← reported release ReleaseInfo.status with
  | .ok status => return (.ofStatus (some status), .done)
  | .error (.releaseNotFound _ _) => return (.notInstalled, .done)
  | .error e => return (.unknown, ← shortDelayWith (.helm e))

/-- Whether the installed chart is older than a desired version. A release that does
not exist needs no upgrade. -/
def upgradeNeeded (desired : String) (release : Release) : Pass (Bool × Outcome) := do
  match ← reported release ReleaseInfo.chartVersion with
  | .error (.releaseNotFound _ _) => return (false, .done)
  | .error e => return (false, ← shortDelayWith (.helm e))
  | .ok installed =>
    match Version.compareTexts installed desired with
    | .ok o => return (o = .lt, .done)
    | .error e => return (false, ← shortDelayWith (.versions installed desired e))

end Pass

end ReleaseOperator
