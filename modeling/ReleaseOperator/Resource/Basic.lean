import ReleaseOperator.Release.Descriptor
import ReleaseOperator.Resource.Condition
import ReleaseOperator.Resource.Metadata
import ReleaseOperator.Text.Search

/-!
# Resources

The two kinds of resource that are looked after. A *module* declares a release
and is kept in line with its declaration for as long as it lives. A *module
action* asks once for a release to be brought in line or to be removed. Both are
seen through one view: a class, a desired version, overrides, a release, and a
status with its history of conditions.
-/

namespace ReleaseOperator

inductive Kind where
  | module
  | action
  deriving Repr, DecidableEq

namespace Kind

def name : Kind → String
  | module => "Module"
  | action => "ModuleAction"

def ofName? (s : String) : Option Kind :=
  [module, action].find? fun k => k.name = s

def group : String := "platform.verrazzano.io"

def version : Kind → String
  | module => "v1beta2"
  | action => "v1alpha1"

def apiVersion (k : Kind) : String :=
  group ++ "/" ++ k.version

def plural : Kind → String
  | module => "modules"
  | action => "moduleactions"

/-- The finalizer that keeps a resource of a kind until its release is gone. -/
def finalizer : Kind → String
  | module => "module.platform.verrazzano.io/finalizer"
  | action => "moduleaction.platform.verrazzano.io/finalizer"

/-- The phase of success. An action that has succeeded is never looked at again. -/
def successPhase : Kind → Phase
  | module => .ready
  | action => .completed

end Kind

inductive ActionVerb where
  | reconcile
  | delete
  deriving Repr, DecidableEq

namespace ActionVerb

def all : List ActionVerb := [reconcile, delete]

def name : ActionVerb → String
  | reconcile => "reconcile"
  | delete => "delete"

def ofName? (s : String) : Option ActionVerb :=
  all.find? fun a => a.name = s

end ActionVerb

structure ModuleSpec where
  className : String
  version : String
  targetNamespace : String
  overrides : List ValuesSource
  deriving Repr, BEq

structure ActionSpec where
  className : String
  verb : ActionVerb
  version : String
  release : ReleaseSpec
  deriving Repr, BEq

inductive Spec where
  | module (s : ModuleSpec)
  | action (s : ActionSpec)
  deriving Repr, BEq

def Spec.kind : Spec → Kind
  | module _ => .module
  | action _ => .action

/-- How far a resource is. The last success is kept for modules only. -/
structure Status where
  phase : Option Phase
  conditions : List Condition
  observedGeneration : Option Int
  lastVersion : Option String
  lastGeneration : Option Int
  deriving Repr, DecidableEq

def Status.empty : Status := ⟨none, [], none, none, none⟩

structure Resource where
  metadata : Metadata
  spec : Spec
  status : Option Status
  deriving Repr, BEq

inductive Wish where
  /-- Keep the release in line; the right way is chosen each time. -/
  | declarative
  /-- Bring the release in line once. -/
  | reconcile
  /-- Remove the release. -/
  | delete
  deriving Repr, DecidableEq

def Wish.name : Wish → String
  | declarative => "declarative"
  | reconcile => "reconcile"
  | delete => "delete"

/-- Where charts come from when a resource does not say. -/
structure ChartDefaults where
  chartsDir : String
  repository : Repository
  deriving Repr, DecidableEq

/-- A path inside a directory; an absolute path stands for itself. -/
def joinPath (dir path : String) : String :=
  if Text.hasStart path "/" || dir.isEmpty then path
  else if dir.toList.getLast? = some '/' then dir ++ path
  else dir ++ "/" ++ path

/-- The first text unless it is blank, without the blanks around it. -/
def trimmedOr (s other : String) : String :=
  if Text.isBlankText s then other else Text.trim s

namespace Resource

def kind (r : Resource) : Kind := r.spec.kind

def name (r : Resource) : String := r.metadata.anyName

def namespaceName (r : Resource) : String :=
  r.metadata.namespaceName.getD "default"

def generation (r : Resource) : Int := r.metadata.generation.getD 0

def isDeleting (r : Resource) : Bool := r.metadata.deletionTime.isSome

def className (r : Resource) : String :=
  match r.spec with
  | .module s => s.className
  | .action s => s.className

def wish (r : Resource) : Wish :=
  match r.spec with
  | .module _ => .declarative
  | .action s =>
    match s.verb with
    | .reconcile => .reconcile
    | .delete => .delete

def desiredVersion (r : Resource) : String :=
  match r.spec with
  | .module s => Text.trim s.version
  | .action s =>
    let v := Text.trim s.version
    if v.isEmpty then Text.trim s.release.chart.version else v

def setDesiredVersion (r : Resource) (version : String) : Resource :=
  match r.spec with
  | .module s => { r with spec := .module { s with version } }
  | .action s => { r with spec := .action { s with version } }

def overrides (r : Resource) : List ValuesSource :=
  match r.spec with
  | .module s => s.overrides
  | .action s => s.release.overrides

/-- The release that a resource asks for. A module's release bears its own name
and takes the chart that lies under its class in the charts directory. An action
without repository and chart path uses the default repository. -/
def release (r : Resource) (defaults : ChartDefaults) : Release :=
  match r.spec with
  | .module s =>
    { name := r.name
      namespaceName := trimmedOr s.targetNamespace r.namespaceName
      chart :=
        { name := s.className
          version := r.desiredVersion
          path := joinPath defaults.chartsDir s.className }
      repository := defaults.repository }
  | .action s =>
    { name := s.release.name
      namespaceName := trimmedOr s.release.namespaceName r.namespaceName
      chart :=
        { name := s.release.chart.name
          version := r.desiredVersion
          path := s.release.chart.path }
      repository :=
        if Text.isBlankText s.release.repository.uri && s.release.chart.path.isEmpty then
          defaults.repository
        else s.release.repository }

/-- The status of a resource, empty when it has none yet. -/
def statusD (r : Resource) : Status := r.status.getD .empty

def phase (r : Resource) : Option Phase := r.statusD.phase

def conditions (r : Resource) : List Condition := r.statusD.conditions

def observedGeneration (r : Resource) : Option Int := r.statusD.observedGeneration

/-- The version of the last success, which only modules record. -/
def lastVersion (r : Resource) : Option String :=
  match r.kind with
  | .module => r.statusD.lastVersion
  | .action => none

/-- Whether a resource is in a phase in which it is left alone for good. -/
def isTerminal (r : Resource) : Bool := r.phase.any Phase.isTerminal

def setPhase (r : Resource) (p : Phase) : Resource :=
  { r with status := some { r.statusD with phase := some p } }

def setConditions (r : Resource) (cs : List Condition) : Resource :=
  { r with status := some { r.statusD with conditions := cs } }

def setObservedGeneration (r : Resource) (g : Int) : Resource :=
  { r with status := some { r.statusD with observedGeneration := some g } }

/-- The resource with a success recorded, for the kind that records it. -/
def recordSuccess (r : Resource) (version : String) (g : Int) : Resource :=
  match r.kind with
  | .module =>
    { r with status := some { r.statusD with lastVersion := some version, lastGeneration := some g } }
  | .action => r

def copyStatus (r other : Resource) : Resource :=
  { r with status := other.status }

/-- Whether a condition would change the history of a resource. -/
def accepts (r : Resource) (c : Condition) : Bool :=
  !Condition.repeats r.conditions c

def appendCondition (r : Resource) (c : Condition) : Resource :=
  r.setConditions (Condition.append r.conditions c)

/-- The resource with an event recorded: a condition in its history, and the
phase that the event puts it into. -/
def recordReady (r : Resource) (reason : Reason) (message time : String) : Resource :=
  (r.appendCondition (.ofReason reason message time)).setPhase
    (reason.phase r.kind.successPhase)

def finalizers (r : Resource) : List String := r.metadata.finalizers.getD []

def hasFinalizer (r : Resource) : Bool :=
  r.finalizers.contains r.kind.finalizer

def setFinalizers (r : Resource) (fs : List String) : Resource :=
  { r with metadata := { r.metadata with finalizers := some fs } }

/-- The resource with the finalizer of its kind, put last unless it is there. -/
def addFinalizer (r : Resource) : Resource :=
  if r.hasFinalizer then r else r.setFinalizers (r.finalizers ++ [r.kind.finalizer])

def removeFinalizer (r : Resource) : Resource :=
  r.setFinalizers (r.finalizers.filter fun f => f ≠ r.kind.finalizer)

@[simp] theorem spec_recordReady (r : Resource) (reason : Reason) (message time : String) :
    (r.recordReady reason message time).spec = r.spec := rfl

end Resource

end ReleaseOperator
