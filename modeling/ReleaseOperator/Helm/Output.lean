import ReleaseOperator.Json.Decode
import ReleaseOperator.Json.Parse
import ReleaseOperator.Pass.Failure
import ReleaseOperator.Release.Descriptor
import ReleaseOperator.Yaml.Node

/-!
# Output of Helm

What Helm prints, as reports about releases and charts. Helm prints records in Json,
of which none may repeat a field that is read here, and describes charts in Yaml.
-/

namespace ReleaseOperator.Helm.Output

open Json

/-- A text that may be missing, and is empty then. -/
def textField (field : Option Json) : Option String :=
  defaulted "" text? field

def namespaceOr (other ns : String) : String :=
  if ns.isEmpty then other else ns

def details? (v : Json) : Option String := do
  let f ← writtenRecord? ["status"] v
  textField (f "status")

def chartMetadata? (v : Json) : Option String := do
  let f ← writtenRecord? ["version"] v
  textField (f "version")

/-- The version of a chart, unless it has no metadata. -/
def chart? (v : Json) : Option (Option String) := do
  let f ← writtenRecord? ["metadata"] v
  optional chartMetadata? (f "metadata")

/-- The release that was installed on a request. Its version is the one asked for if
the chart tells none. -/
def applied? (release : Release) (v : Json) : Option ReleaseInfo := do
  let f ← writtenRecord? ["name", "namespace", "info", "chart"] v
  let name ← required text? (f "name")
  let ns ← textField (f "namespace")
  let status ← optional details? (f "info")
  let version ← optional chart? (f "chart")
  return ⟨name, namespaceOr release.namespaceName ns,
    (status.map ReleaseStatus.parse).getD .unknown,
    (version.bind id).getD release.chart.version⟩

def metadata? (namespaceName : String) (v : Json) : Option ReleaseInfo := do
  let f ← writtenRecord? ["name", "namespace", "version", "status"] v
  let name ← required text? (f "name")
  let ns ← textField (f "namespace")
  let version ← textField (f "version")
  let status ← textField (f "status")
  return ⟨name, namespaceOr namespaceName ns, .parse status, version⟩

/-- The values of a release; no values are an empty map. -/
def values : Json → Json
  | null => object []
  | v => v

def unreadable : HelmError := .parse "unexpected output"

def record (read : Json → Option α) (output : String) : Except HelmError α :=
  match (read? output).bind read with
  | some a => .ok a
  | none => .error unreadable

def value (output : String) : Except HelmError Json :=
  match parse? output with
  | some v => .ok v
  | none => .error unreadable

def versionIn : List (Yaml.Node × Yaml.Node) → Option (List Yaml.Node)
  | [] => some []
  | (.scalar _ _ key, v) :: rest =>
    (versionIn rest).map fun vs => if key = "version" then v :: vs else vs
  | _ :: _ => none

/-- The version in the description of a chart: any scalar, once. -/
def chartVersion? : Yaml.Node → Option String
  | .mapping _ entries =>
    match versionIn entries with
    | some [.scalar _ _ version] => some version
    | _ => none
  | .sequence _ [.scalar _ _ version] => some version
  | _ => none

def chartVersion (output : String) : Except HelmError String :=
  match Yaml.Node.ofText? output with
  | .error p => .error (.parse p.message)
  | .ok node =>
    match chartVersion? node with
    | some version => .ok version
    | none => .error unreadable

end ReleaseOperator.Helm.Output
