import ReleaseOperator.Lifecycle.Selection
import ReleaseOperator.Pass.Counter
import ReleaseOperator.Release.Workload
import ReleaseOperator.Resource.Codec
import ReleaseOperator.Tracker.Basic
import ReleaseOperator.View.Outcome

/-!
# Views of what is kept

Resources, releases and tracker entries as values for an observer.
-/

namespace ReleaseOperator.View

def release (r : Release) : Json :=
  fields [("name", .text r.name), ("namespace", .text r.namespaceName),
    ("chart", r.chart.toJson), ("repository", r.repository.toJson)]

def releaseInfo (i : ReleaseInfo) : Json :=
  fields [("name", .text i.name), ("namespace", .text i.namespaceName),
    ("status", .text i.status.name), ("chart_version", .text i.chartVersion)]

def credentials (c : Option Credentials) : Json :=
  match c with
  | some c => fields [("username", .text c.username), ("password", .text c.password)]
  | none => .null

def workload (w : Workload) : Json :=
  fields [("kind", .text w.kind.name), ("namespace", .text w.namespaceName),
    ("name", .text w.name), ("display", .text w.text)]

def status (s : Option Status) : Json :=
  (s.map fun s => hideMessages s.toJson).getD .null

def resource (r : Resource) : Json :=
  fields [("generation", .ofInt? r.metadata.generation),
    ("resource_version", .ofText? r.metadata.resourceVersion), ("uid", .ofText? r.metadata.uid),
    ("finalizers", .ofTexts r.finalizers), ("deleting", .bool r.isDeleting),
    ("spec", r.spec.toJson), ("status", status r.status)]

def entryFields (e : Entry) : List (String × Json) :=
  [("generation", .whole e.generation), ("state", .text e.stage.label),
    ("action", .ofText? (e.action.map Action.workName)), ("digest", .ofText? e.digest),
    ("pre_install", .bool e.preInstall.isSome)]

def entry (e : Entry) : Json := fields (entryFields e)

def tracker (t : Tracker) : Json :=
  .array (t.sorted.map fun (key, e) => fields (("key", .text key) :: entryFields e))

def tally (t : Tally) : Json := fields (t.map fun (k, n) => (k, .whole n))

def selected (r : Resource) : Json :=
  match r.selectAction with
  | .ok a => .text a.workName
  | .error e => versionError e

end ReleaseOperator.View
