import ReleaseOperator.Machine.Action
import ReleaseOperator.Resource.Basic
import ReleaseOperator.Version.Parse

/-!
# Selecting an action

A module that is kept in line gets its action from its own status. As long as
its newest event says that an installation is under way or has failed, or there
is no event at all, it is installed. After that a desired version above the last
successful one is an upgrade, and anything else an update.
-/

namespace ReleaseOperator

/-- The events of an installation that has not succeeded. -/
def Reason.installPending : List Reason :=
  [.preInstall, .installStarted, .installFailed]

def installPending (cs : List Condition) : Bool :=
  match Condition.latestReady? cs with
  | none => true
  | some c => Reason.installPending.any fun r => c.reason = r.name

/-- The action for a desired version, given the version of the last success. -/
def actionForVersions (desired last : String) : Except VersionError Action := do
  let o ← Version.compareTexts desired last
  return if o = .gt then .upgrade else .update

namespace Resource

def selectAction (r : Resource) : Except VersionError Action :=
  if installPending r.conditions then .ok .install
  else
    match r.lastVersion with
    | some last =>
      if Text.isBlankText last || r.desiredVersion.isEmpty then .ok .update
      else actionForVersions r.desiredVersion last
    | none => .ok .update

/-- Whether a resource has settled: it is kept in line by updates. -/
def selectsUpdate (r : Resource) : Bool :=
  match r.selectAction with
  | .ok .update => true
  | _ => false

end Resource

end ReleaseOperator
