import ReleaseOperator.Resource.Basic

/-!
# Resources as values

How resources are written and read. The written form carries group, version and
kind and all fields that have a default; an optional field without a value is
left out. Reading ignores unknown fields, group, version and kind, so the caller
says which kind is expected.
-/

namespace ReleaseOperator

namespace ModuleSpec

def toJson (s : ModuleSpec) : Json :=
  .ofFields [("moduleName", .text s.className), ("version", .text s.version),
    ("targetNamespace", .text s.targetNamespace),
    ("overrides", ValuesSource.listToJson s.overrides)]

def ofJson? (v : Json) : Option ModuleSpec := do
  let f ← v.record? ["moduleName", "version", "targetNamespace", "overrides"]
  let className ← Json.required Json.text? (f "moduleName")
  let version ← Json.defaulted "" Json.text? (f "version")
  let target ← Json.defaulted "" Json.text? (f "targetNamespace")
  let overrides ← Json.defaulted [] (Json.list? ValuesSource.ofJson?) (f "overrides")
  return ⟨className, version, target, overrides⟩

end ModuleSpec

namespace ActionSpec

def toJson (s : ActionSpec) : Json :=
  .ofFields [("moduleClassName", .text s.className), ("action", .text s.verb.name),
    ("version", .text s.version),
    ("installer", .ofFields [("helmRelease", s.release.toJson)])]

/-- The installer part of an action: nothing but its release. -/
def installer? (v : Json) : Option ReleaseSpec := do
  let f ← v.record? ["helmRelease"]
  Json.required ReleaseSpec.ofJson? (f "helmRelease")

def ofJson? (v : Json) : Option ActionSpec := do
  let f ← v.record? ["moduleClassName", "action", "version", "installer"]
  let className ← Json.required Json.text? (f "moduleClassName")
  let verb ← Json.defaulted .reconcile (Json.choice? ActionVerb.ofName?) (f "action")
  let version ← Json.defaulted "" Json.text? (f "version")
  let release ← Json.required installer? (f "installer")
  return ⟨className, verb, version, release⟩

end ActionSpec

namespace Spec

def toJson : Spec → Json
  | module s => s.toJson
  | action s => s.toJson

def ofJson? (kind : Kind) (v : Json) : Option Spec :=
  match kind with
  | .module => (ModuleSpec.ofJson? v).map module
  | .action => (ActionSpec.ofJson? v).map action

end Spec

namespace Status

def toJson (s : Status) : Json :=
  .ofFields (
    Json.given "state" (s.phase.map fun p => .text p.name) ++
    [("conditions", .array (s.conditions.map Condition.toJson))] ++
    Json.given "observedGeneration" (s.observedGeneration.map .whole) ++
    Json.given "lastSuccessfulVersion" (s.lastVersion.map .text) ++
    Json.given "lastSuccessfulGeneration" (s.lastGeneration.map .whole))

def fieldNames : Kind → List String
  | .module => ["state", "conditions", "observedGeneration", "lastSuccessfulVersion",
      "lastSuccessfulGeneration"]
  | .action => ["state", "conditions", "observedGeneration"]

/-- The status of a kind read from a value; an action has no last success. -/
def ofJson? (kind : Kind) (v : Json) : Option Status := do
  let f ← v.record? (fieldNames kind)
  let phase ← Json.optional Phase.ofJson? (f "state")
  let conditions ← Json.defaulted [] (Json.list? Condition.ofJson?) (f "conditions")
  let observed ← Json.optional Json.int64? (f "observedGeneration")
  match kind with
  | .module =>
    let version ← Json.optional Json.text? (f "lastSuccessfulVersion")
    let generation ← Json.optional Json.int64? (f "lastSuccessfulGeneration")
    return ⟨phase, conditions, observed, version, generation⟩
  | .action => return ⟨phase, conditions, observed, none, none⟩

end Status

namespace Resource

def toJson (r : Resource) : Json :=
  .ofFields ([("apiVersion", .text r.kind.apiVersion), ("kind", .text r.kind.name),
    ("metadata", r.metadata.toJson), ("spec", r.spec.toJson)] ++
    Json.given "status" (r.status.map Status.toJson))

def ofJson? (kind : Kind) (v : Json) : Option Resource := do
  let f ← v.record? ["metadata", "spec", "status"]
  let metadata ← Json.required Metadata.ofJson? (f "metadata")
  let spec ← Json.required (Spec.ofJson? kind) (f "spec")
  let status ← Json.optional (Status.ofJson? kind) (f "status")
  return ⟨metadata, spec, status⟩

end Resource

end ReleaseOperator
