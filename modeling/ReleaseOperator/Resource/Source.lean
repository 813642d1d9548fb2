import ReleaseOperator.Json.Decode

/-!
# Charts, repositories and value sources

The parts of a specification that say which chart to install, where it comes
from, and which values override the chart's own.
-/

namespace ReleaseOperator

/-- A chart. An empty version stands for the chart's own; an empty path for a
chart that is pulled from a repository. -/
structure Chart where
  name : String
  version : String
  path : String
  deriving Repr, DecidableEq

/-- A chart repository, with the secret that holds its credentials. -/
structure Repository where
  name : String
  uri : String
  credentialsSecret : Option String
  deriving Repr, DecidableEq

structure KeyRef where
  name : String
  key : String
  optional : Option Bool
  deriving Repr, DecidableEq

/-- One override. Values given in place win over a secret, and a secret over a
config map. -/
structure ValuesSource where
  configMap : Option KeyRef
  secret : Option KeyRef
  values : Option Json
  deriving Repr, BEq

structure ReleaseSpec where
  name : String
  namespaceName : String
  chart : Chart
  repository : Repository
  overrides : List ValuesSource
  deriving Repr, BEq

namespace Chart

def empty : Chart := ⟨"", "", ""⟩

def toJson (c : Chart) : Json :=
  .ofFields [("name", .text c.name), ("version", .text c.version), ("path", .text c.path)]

/-- A chart read from a value; only its name must be given. -/
def ofJson? (v : Json) : Option Chart := do
  let f ← v.record? ["name", "version", "path"]
  let name ← Json.required Json.text? (f "name")
  let version ← Json.defaulted "" Json.text? (f "version")
  let path ← Json.defaulted "" Json.text? (f "path")
  return ⟨name, version, path⟩

end Chart

/-- A field that is written only when it has a value. -/
def Json.given (key : String) : Option Json → List (String × Json)
  | some v => [(key, v)]
  | none => []

namespace Repository

def none : Repository := ⟨"", "", .none⟩

def toJson (r : Repository) : Json :=
  .ofFields ([("name", .text r.name), ("uri", .text r.uri)] ++
    Json.given "credentialsSecret" (r.credentialsSecret.map .text))

def ofJson? (v : Json) : Option Repository := do
  let f ← v.record? ["name", "uri", "credentialsSecret"]
  let name ← Json.defaulted "" Json.text? (f "name")
  let uri ← Json.defaulted "" Json.text? (f "uri")
  let secret ← Json.optional Json.text? (f "credentialsSecret")
  return ⟨name, uri, secret⟩

end Repository

namespace KeyRef

def isOptional (k : KeyRef) : Bool :=
  k.optional.getD false

def toJson (k : KeyRef) : Json :=
  .ofFields ([("name", .text k.name), ("key", .text k.key)] ++
    Json.given "optional" (k.optional.map .bool))

def ofJson? (v : Json) : Option KeyRef := do
  let f ← v.record? ["name", "key", "optional"]
  let name ← Json.required Json.text? (f "name")
  let key ← Json.required Json.text? (f "key")
  let opt ← Json.optional Json.bool? (f "optional")
  return ⟨name, key, opt⟩

end KeyRef

namespace ValuesSource

def toJson (s : ValuesSource) : Json :=
  .ofFields (Json.given "configMapRef" (s.configMap.map KeyRef.toJson) ++
    Json.given "secretRef" (s.secret.map KeyRef.toJson) ++ Json.given "values" s.values)

/-- An override read from a value. Null values are no values. -/
def ofJson? (v : Json) : Option ValuesSource := do
  let f ← v.record? ["configMapRef", "secretRef", "values"]
  let configMap ← Json.optional KeyRef.ofJson? (f "configMapRef")
  let secret ← Json.optional KeyRef.ofJson? (f "secretRef")
  let values ← Json.optional some (f "values")
  return ⟨configMap, secret, values⟩

def listToJson (ss : List ValuesSource) : Json :=
  .array (ss.map toJson)

end ValuesSource

namespace ReleaseSpec

def toJson (r : ReleaseSpec) : Json :=
  .ofFields [("name", .text r.name), ("namespace", .text r.namespaceName),
    ("chart", r.chart.toJson), ("repo", r.repository.toJson),
    ("overrides", ValuesSource.listToJson r.overrides)]

def ofJson? (v : Json) : Option ReleaseSpec := do
  let f ← v.record? ["name", "namespace", "chart", "repo", "overrides"]
  let name ← Json.required Json.text? (f "name")
  let ns ← Json.defaulted "" Json.text? (f "namespace")
  let chart ← Json.required Chart.ofJson? (f "chart")
  let repo ← Json.defaulted .none Repository.ofJson? (f "repo")
  let overrides ← Json.defaulted [] (Json.list? ValuesSource.ofJson?) (f "overrides")
  return ⟨name, ns, chart, repo, overrides⟩

end ReleaseSpec

end ReleaseOperator
