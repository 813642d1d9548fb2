import ReleaseOperator.Lifecycle.Apply
import ReleaseOperator.Lifecycle.Readiness

/-!
# Workers

What is done at each stage for the four actions. Installing, updating and upgrading
differ in the events that they record and in what precedes the applying of the
release; deleting removes the release and waits until it is gone.
-/

namespace ReleaseOperator

namespace Work

def hook (moment : HookMoment) (action : Action) : Work Outcome :=
  about fun j => Pass.hook moment action j.release

def isReady (setup : Setup) : Work (Bool × Outcome) :=
  about fun j => j.isReady setup

/-- The version of the chart found out and written into the resource, so that the
next pass works with it. -/
def pinVersion (setup : Setup) : Work Outcome := do
  match ← about fun j => j.credentials.run with
  | .error e => fail .installFailed (.source e)
  | .ok credentials =>
    match ← about fun j => Pass.helm (.chartVersion j.release credentials) with
    | .error e => fail .installFailed (.helm e)
    | .ok version =>
      changeResource fun r => r.setDesiredVersion version
      let o ← write Pass.persistResource
      if o.requeue then return o
      else
        modify fun j => j.refreshRelease setup
        ask Pass.shortDelay

/-- What precedes an installation: a missing version is pinned, otherwise the class
is asked. -/
def preInstall (setup : Setup) : Work Outcome := do
  if (← get).resource.desiredVersion.isEmpty then pinVersion setup
  else hook .preWork .install

/-- Whether an existing release is left as it is by an installation: all but a failed
one are. -/
def standsAlready : Option ReleaseInfo → Bool
  | some info => info.status ≠ .failed
  | none => false

def install (setup : Setup) : Work Outcome := do
  if setup.dryRun then applyRelease setup .installFailed
  else
    match ← about fun j => Pass.helm (.releaseInfo j.release.name j.release.namespaceName) with
    | .error e => ask (Pass.shortDelayWith (.helm e))
    | .ok info =>
      if standsAlready info then return .done else applyRelease setup .installFailed

/-- The completion of an installation, whose duration is counted if its beginning is
known. -/
def concludeInstall : Work Outcome := do
  let o ← conclude .installSucceeded true
  if !o.requeue && (← get).entry.preInstall.isSome then
    ask (Pass.count .installDuration)
  return o

/-- The announcement of an installation, whose first time is remembered. -/
def announceInstall : Work Outcome := do
  let time ← ask Pass.now
  changeEntry fun e => e.markPreInstall time
  announce .preInstall none

def uninstall (setup : Setup) : Work Outcome := do
  if setup.dryRun then return .done
  else
    let r := (← get).release
    match ← ask (Pass.helm (.releaseInfo r.name r.namespaceName)) with
    | .error e => ask (Pass.shortDelayWith (.helm e))
    | .ok none => return .done
    | .ok (some _) =>
      match ← ask (Pass.helm (.uninstall r.name r.namespaceName false)) with
      | .ok () => return .done
      | .error e => fail .uninstallFailed (.helm e)

/-- Whether the release is no longer deployed. -/
def isGone (setup : Setup) : Work (Bool × Outcome) := do
  if setup.dryRun then return (true, .done)
  else
    let r := (← get).release
    match ← ask (Pass.helm (.releaseInfo r.name r.namespaceName)) with
    | .error e => ask (Pass.unanswered (.helm e))
    | .ok info => return (!info.any fun i => i.status = .deployed, .done)

end Work

namespace Worker

/-- Installs a release. A resource that is left alone for good needs no work. -/
def install (setup : Setup) : Worker Work :=
  { idle Work .install with
    isNeeded := do return (!(← get).resource.isTerminal, .done)
    announcePreWork := Work.announceInstall
    preWork := Work.preInstall setup
    announceWork := Work.announce .installStarted none
    work := Work.install setup
    isDone := Work.isReady setup
    postWork := Work.hook .postWork .install
    complete := Work.concludeInstall }

/-- Applies a release anew; there is no announcement in front of the work. -/
def update (setup : Setup) : Worker Work :=
  { idle Work .update with
    preWork := Work.hook .preWork .update
    announceWork := Work.announce .updateStarted none
    work := Work.applyRelease setup .updateFailed
    isDone := Work.isReady setup
    postWork := Work.hook .postWork .update
    complete := Work.conclude .updateSucceeded true }

def upgrade (setup : Setup) : Worker Work :=
  { idle Work .upgrade with
    announcePreWork := Work.announce .preUpgrade none
    preWork := Work.hook .preWork .upgrade
    announceWork := Work.announce .upgradeStarted none
    work := Work.applyRelease setup .upgradeFailed
    isDone := Work.isReady setup
    postWork := Work.hook .postWork .upgrade
    complete := Work.conclude .upgradeSucceeded true }

def delete (setup : Setup) : Worker Work :=
  { idle Work .delete with
    announcePreWork := Work.announce .preUninstall none
    preWork := Work.hook .preWork .delete
    announceWork := Work.announce .uninstallStarted none
    work := Work.uninstall setup
    isDone := Work.isGone setup
    postWork := Work.hook .postWork .delete
    complete := Work.conclude .uninstallSucceeded false }

def forAction (setup : Setup) : Action → Worker Work
  | .install => install setup
  | .update => update setup
  | .upgrade => upgrade setup
  | .delete => delete setup

end Worker

namespace Work

/-- The run of an action from the stage that the entry has reached. -/
def perform (setup : Setup) (action : Action) : Work Outcome := do
  (Worker.forAction setup action).run surroundings (← get).entry.stage

end Work

end ReleaseOperator
