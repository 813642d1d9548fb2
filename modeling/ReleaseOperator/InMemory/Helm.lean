import ReleaseOperator.InMemory.Table
import ReleaseOperator.Pass.Call
import ReleaseOperator.Release.Values
import ReleaseOperator.Yaml.Values

/-!
# Helm in memory

Releases that are deployed at once. What is applied is remembered with its documents
of values, and the manifest of a release lists the workloads that were declared for
it.
-/

namespace ReleaseOperator.InMemory

abbrev ReleaseKey := String × String

/-- A release with the documents of values that were applied. -/
structure StoredRelease where
  info : ReleaseInfo
  documents : List String

namespace StoredRelease

def values (r : StoredRelease) : Json :=
  Values.mergeAll (r.documents.map fun d =>
    match Yaml.readValue? d with
    | .ok v => v
    | .error _ => .null)

end StoredRelease

/-- All releases, the workloads, manifests and values laid down for them, the versions
of charts, and how often releases were applied and uninstalled. -/
structure Helm where
  releases : Table ReleaseKey StoredRelease
  workloads : Table ReleaseKey (List Workload)
  manifests : Table ReleaseKey String
  values : Table ReleaseKey Json
  charts : Table String String
  applies : Nat
  uninstalls : Nat

namespace Helm

def empty : Helm := ⟨[], [], [], [], [], 0, 0⟩

/-- A release put there without applying it. -/
def seed (h : Helm) (info : ReleaseInfo) : Helm :=
  { h with releases := h.releases.put (info.namespaceName, info.name) ⟨info, []⟩ }

def versionFor (h : Helm) (r : Release) : String :=
  if r.chart.version.isEmpty then (h.charts.get? r.chart.name).getD "" else r.chart.version

def apply (h : Helm) (request : ReleaseRequest) : ReleaseInfo × Helm :=
  let r := request.release
  let info : ReleaseInfo := ⟨r.name, r.namespaceName, .deployed, h.versionFor r⟩
  (info, { h with
    applies := h.applies + 1
    releases := h.releases.put (r.namespaceName, r.name) ⟨info, request.documents⟩ })

def uninstall (h : Helm) (name namespaceName : String) : Helm :=
  { h with uninstalls := h.uninstalls + 1, releases := h.releases.erase (namespaceName, name) }

def info? (h : Helm) (name namespaceName : String) : Option ReleaseInfo :=
  (h.releases.get? (namespaceName, name)).map StoredRelease.info

def workloadDocument (w : Workload) : String :=
  "apiVersion: " ++ WorkloadKind.apiVersion ++ "\nkind: " ++ w.kind.name ++
    "\nmetadata:\n  name: " ++ w.name ++ "\n  namespace: " ++ w.namespaceName ++ "\n"

def manifest (h : Helm) (name namespaceName : String) : String :=
  (h.manifests.get? (namespaceName, name)).getD
    ("---\n".intercalate
      (((h.workloads.get? (namespaceName, name)).getD []).map workloadDocument))

def valuesOf (h : Helm) (name namespaceName : String) : Except HelmError Json :=
  match h.values.get? (namespaceName, name), h.releases.get? (namespaceName, name) with
  | some v, _ => .ok v
  | none, some r => .ok r.values
  | none, none => .error (.releaseNotFound name namespaceName)

def chartVersion (h : Helm) (r : Release) : Except HelmError String :=
  match h.charts.get? r.chart.name with
  | some v => .ok v
  | none => .error (.commandFailed "show chart" ("chart " ++ r.chart.name ++ " not found"))

def answer (h : Helm) : (c : HelmCall) → c.Answer × Helm
  | .upgradeOrInstall request =>
    let (info, h) := h.apply request
    (.ok info, h)
  | .uninstall name ns _ => (.ok (), h.uninstall name ns)
  | .releaseInfo name ns => (.ok (h.info? name ns), h)
  | .values name ns => (h.valuesOf name ns, h)
  | .manifest name ns => (.ok (h.manifest name ns), h)
  | .chartVersion r _ => (h.chartVersion r, h)

end Helm

end ReleaseOperator.InMemory
