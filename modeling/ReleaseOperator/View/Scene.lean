import ReleaseOperator.InMemory.World
import ReleaseOperator.View.Resource
import ReleaseOperator.Yaml.Values

/-!
# Views of scenes

The calls of a pass and the state of a world as values for an observer.
-/

namespace ReleaseOperator.View

def place (ns name : String) : String := ns ++ "/" ++ name

def storeCall : StoreCall → String
  | .get kind ns name => "store.get " ++ kind.name ++ " " ++ place ns name
  | .update r => "store.update " ++ r.kind.name ++ " " ++ place r.namespaceName r.name
  | .updateStatus r => "store.update_status " ++ r.kind.name ++ " " ++ place r.namespaceName r.name

def clusterCall : ClusterCall → String
  | .configMap ns name key => "cluster.config_map " ++ place ns name ++ "[" ++ key ++ "]"
  | .secret ns name key => "cluster.secret " ++ place ns name ++ "[" ++ key ++ "]"
  | .workloadReady w => "cluster.workload " ++ w.text

/-- A document of values that was handed over as a text. -/
def document (text : String) : Json :=
  match Yaml.readValue? text with
  | .ok v => v
  | .error _ => .null

def helmCall : HelmCall → Json
  | .releaseInfo name ns => .text ("helm.release_info " ++ place ns name)
  | .values name ns => .text ("helm.values " ++ place ns name)
  | .manifest name ns => .text ("helm.manifest " ++ place ns name)
  | .uninstall name ns dryRun =>
    .text ("helm.uninstall " ++ place ns name ++ " dry_run=" ++ (if dryRun then "true" else "false"))
  | .upgradeOrInstall q =>
    fields [("call", .text "helm.upgrade_or_install"), ("release", release q.release),
      ("credentials", credentials q.credentials),
      ("documents", .array (q.documents.map document)), ("wait", .bool q.wait),
      ("dry_run", .bool q.dryRun)]
  | .chartVersion r c =>
    fields [("call", .text "helm.chart_version"), ("release", release r),
      ("credentials", credentials c)]

def moment : HookMoment → String
  | .preWork => "hooks.pre_work"
  | .postWork => "hooks.post_work"

/-- A call; the clock, the dice and the counters are not shown. -/
def call? : Call → Option Json
  | .store c => some (.text (storeCall c))
  | .cluster c => some (.text (clusterCall c))
  | .helm c => some (helmCall c)
  | .hook m action r =>
    some (.text (moment m ++ " " ++ action.workName ++ " " ++ place r.namespaceName r.name))
  | _ => none

def storedRelease (r : InMemory.StoredRelease) : Json :=
  fields [("name", .text r.info.name), ("namespace", .text r.info.namespaceName),
    ("status", .text r.info.status.name), ("chart_version", .text r.info.chartVersion),
    ("values", r.values)]

def placeLe (a b : String × String) : Bool :=
  decide (a.1 < b.1) || (a.1 == b.1 && decide (a.2 ≤ b.2))

/-- The objects of the stores, each under the name that it bears itself. -/
def objects (w : InMemory.World) : Json :=
  fields ([Kind.module, Kind.action].flatMap fun kind =>
    ((w.store kind).objects.mergeSort fun a b => placeLe a.1 b.1).map fun kr =>
      (kind.name ++ " " ++ place kr.2.namespaceName kr.2.name, resource kr.2))

def scene (result : Json) (s : InMemory.Scene) : Json :=
  let w := s.world
  let releases := w.helm.releases.mergeSort fun a b => placeLe a.1 b.1
  fields [("result", result), ("calls", .array (w.log.reverse.filterMap call?)),
    ("objects", objects w), ("tracker", tracker s.memory.lifecycle),
    ("delete_tracker", tracker s.memory.deletion),
    ("releases", .array (releases.map fun kv => storedRelease kv.2)),
    ("applies", .whole w.helm.applies), ("uninstalls", .whole w.helm.uninstalls)]

end ReleaseOperator.View
