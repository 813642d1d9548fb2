import ReleaseOperator.Machine.Run
import ReleaseOperator.Pass.Call
import ReleaseOperator.Tracker.Entry

/-!
# Jobs

A job is one resource while a pass works on it: the local copy of the resource, the
release that it asked for when the pass began, and the entry that remembers its
progress. Work reads and changes the job and asks the collaborators.
-/

namespace ReleaseOperator

/-- What is fixed for all passes over resources of one class. -/
structure Setup where
  className : String
  /-- Nothing is done to releases. -/
  dryRun : Bool
  defaults : ChartDefaults
  /-- The values that a class puts under those of a resource. -/
  baseValues : Release → Option Json

/-- A resource that is being worked on. -/
structure Job where
  resource : Resource
  release : Release
  entry : Entry

abbrev Work := StateT Job Pass

namespace Job

def start (setup : Setup) (r : Resource) (e : Entry) : Job :=
  ⟨r, r.release setup.defaults, e⟩

def message (j : Job) (reason : Reason) (detail : Option String) : String :=
  reason.message ⟨j.resource.name, j.release.namespaceName, j.release.name, detail⟩

def refreshRelease (j : Job) (setup : Setup) : Job :=
  { j with release := j.resource.release setup.defaults }

end Job

namespace Work

def ask (p : Pass α) : Work α := StateT.lift p

def about (f : Job → Pass α) : Work α := do
  ask (f (← get))

def changeEntry (f : Entry → Entry) : Work Unit :=
  modify fun j => { j with entry := f j.entry }

def changeResource (f : Resource → Resource) : Work Unit :=
  modify fun j => { j with resource := f j.resource }

/-- A stage entered: it is counted and remembered. -/
def enter (action : Action) (stage : Stage) : Work Unit := do
  ask (Pass.count (.transition stage.label action.workName))
  changeEntry fun e => e.setStage stage

def surroundings : Surroundings Work where
  enter := enter
  shortDelay := ask Pass.shortDelay

end Work

end ReleaseOperator
