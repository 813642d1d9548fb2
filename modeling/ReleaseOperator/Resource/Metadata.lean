import ReleaseOperator.Json.Decode
import ReleaseOperator.Resource.Source
import ReleaseOperator.Time.Instant

/-!
# Metadata

What every object of a cluster carries besides its own content. All of it may be
missing.
-/

namespace ReleaseOperator

structure Metadata where
  name : Option String
  generateName : Option String
  namespaceName : Option String
  uid : Option String
  generation : Option Int
  resourceVersion : Option String
  finalizers : Option (List String)
  labels : Option (List (String × String))
  annotations : Option (List (String × String))
  creationTime : Option Instant
  deletionTime : Option Instant
  deriving Repr, DecidableEq

namespace Metadata

def empty : Metadata :=
  ⟨none, none, none, none, none, none, none, none, none, none, none⟩

/-- The name, or the start from which one is to be made. -/
def anyName (m : Metadata) : String :=
  (m.name <|> m.generateName).getD ""

def instant? (v : Json) : Option Instant :=
  v.text?.bind Instant.parse?

def tableToJson (table : List (String × String)) : Json :=
  .ofFields (table.map fun (k, s) => (k, .text s))

/-- Metadata as a value; what is missing is left out. -/
def toJson (m : Metadata) : Json :=
  .ofFields (
    Json.given "name" (m.name.map .text) ++
    Json.given "generateName" (m.generateName.map .text) ++
    Json.given "namespace" (m.namespaceName.map .text) ++
    Json.given "uid" (m.uid.map .text) ++
    Json.given "generation" (m.generation.map .whole) ++
    Json.given "resourceVersion" (m.resourceVersion.map .text) ++
    Json.given "finalizers" (m.finalizers.map .ofTexts) ++
    Json.given "labels" (m.labels.map tableToJson) ++
    Json.given "annotations" (m.annotations.map tableToJson) ++
    Json.given "creationTimestamp" (m.creationTime.map fun t => .text t.text) ++
    Json.given "deletionTimestamp" (m.deletionTime.map fun t => .text t.text))

def ofJson? (v : Json) : Option Metadata := do
  let f ← v.fields?
  let name ← Json.optional Json.text? (f "name")
  let generateName ← Json.optional Json.text? (f "generateName")
  let ns ← Json.optional Json.text? (f "namespace")
  let uid ← Json.optional Json.text? (f "uid")
  let generation ← Json.optional Json.int64? (f "generation")
  let resourceVersion ← Json.optional Json.text? (f "resourceVersion")
  let finalizers ← Json.optional (Json.list? Json.text?) (f "finalizers")
  let labels ← Json.optional Json.texts? (f "labels")
  let annotations ← Json.optional Json.texts? (f "annotations")
  let creationTime ← Json.optional instant? (f "creationTimestamp")
  let deletionTime ← Json.optional instant? (f "deletionTimestamp")
  return ⟨name, generateName, ns, uid, generation, resourceVersion, finalizers, labels,
    annotations, creationTime, deletionTime⟩

end Metadata

end ReleaseOperator
