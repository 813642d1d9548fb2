import ReleaseOperator.Machine.Action
import ReleaseOperator.Pass.Counter
import ReleaseOperator.Pass.Outcome
import ReleaseOperator.Pass.Program
import ReleaseOperator.Release.Workload
import ReleaseOperator.Resource.Basic

/-!
# Calls

What a pass asks of its collaborators: the store of resources, the cluster, Helm,
the hooks of a class, the clock, the dice for delays, and the counters. A `Pass`
is a program made of these calls.
-/

namespace ReleaseOperator

inductive HelmCall where
  | upgradeOrInstall (request : ReleaseRequest)
  | uninstall (name namespaceName : String) (dryRun : Bool)
  | releaseInfo (name namespaceName : String)
  | values (name namespaceName : String)
  | manifest (name namespaceName : String)
  | chartVersion (release : Release) (credentials : Option Credentials)
  deriving Repr

abbrev HelmCall.Answer : HelmCall → Type
  | upgradeOrInstall _ => Except HelmError ReleaseInfo
  | uninstall _ _ _ => Except HelmError Unit
  | releaseInfo _ _ => Except HelmError (Option ReleaseInfo)
  | values _ _ => Except HelmError Json
  | manifest _ _ => Except HelmError String
  | chartVersion _ _ => Except HelmError String

inductive StoreCall where
  | get (kind : Kind) (namespaceName name : String)
  | update (r : Resource)
  | updateStatus (r : Resource)

abbrev StoreCall.Answer : StoreCall → Type
  | get _ _ _ => Except ClusterError (Option Resource)
  | update _ => Except ClusterError Resource
  | updateStatus _ => Except ClusterError Resource

inductive ClusterCall where
  | configMap (namespaceName name key : String)
  | secret (namespaceName name key : String)
  | workloadReady (w : Workload)

abbrev ClusterCall.Answer : ClusterCall → Type
  | configMap _ _ _ => Except ClusterError (Option String)
  | secret _ _ _ => Except ClusterError (Option String)
  | workloadReady _ => Except ClusterError Bool

/-- The moments at which a class is asked. -/
inductive HookMoment where
  | preWork
  | postWork
  deriving Repr, DecidableEq

inductive Call where
  | store (c : StoreCall)
  | cluster (c : ClusterCall)
  | helm (c : HelmCall)
  | hook (moment : HookMoment) (action : Action) (release : Release)
  /-- The time to the second. -/
  | now
  /-- A number between two bounds, both included. -/
  | draw (low high : Nat) (ordered : low ≤ high)
  | count (c : Counter)

abbrev Call.Answer : Call → Type
  | store c => c.Answer
  | cluster c => c.Answer
  | helm c => c.Answer
  | hook _ _ _ => Outcome
  | now => String
  | draw low high _ => { n : Nat // low ≤ n ∧ n ≤ high }
  | count _ => Unit

abbrev Pass := Program Call Call.Answer

namespace Pass

def ask (c : Call) : Pass c.Answer :=
  Program.ask c Program.done

def get (kind : Kind) (namespaceName name : String) :
    Pass (Except ClusterError (Option Resource)) :=
  ask (.store (.get kind namespaceName name))

def update (r : Resource) : Pass (Except ClusterError Resource) :=
  ask (.store (.update r))

def updateStatus (r : Resource) : Pass (Except ClusterError Resource) :=
  ask (.store (.updateStatus r))

def cluster (c : ClusterCall) : Pass c.Answer :=
  ask (.cluster c)

def helm (c : HelmCall) : Pass c.Answer :=
  ask (.helm c)

def hook (moment : HookMoment) (action : Action) (release : Release) : Pass Outcome :=
  ask (.hook moment action release)

def now : Pass String :=
  ask .now

def count (c : Counter) : Pass Unit :=
  ask (.count c)

/-- A delay drawn between multiples of a unit. -/
def drawDelay (min max : Nat) (unit : Duration) : Pass Duration :=
  let w := Outcome.window min max unit
  Program.ask (.draw w.1 w.2 (Outcome.window_le min max unit)) fun n =>
    .done (Duration.ofMillis n.1)

def delay (min max : Nat) (unit : Duration) : Pass Outcome :=
  Outcome.after <$> drawDelay min max unit

def shortDelay : Pass Outcome :=
  delay 1 2 (Duration.ofSecs 1)

/-- Come back after one to two seconds, because of a failure. -/
def shortDelayWith (f : Failure) : Pass Outcome := do
  let d ← drawDelay 1 2 (Duration.ofSecs 1)
  return .failed d f

end Pass

end ReleaseOperator
