import ReleaseOperator.Resource.Metadata

/-!
# Typed objects

Objects of the kinds that the cluster itself defines. An object may leave out what
kind it is of, but it may not name another. Any of its fields may be missing or
null; a field that is given must fit.
-/

namespace ReleaseOperator.Typed

open Json

/-- A text that must be a certain one. -/
def exactly? (s : String) (v : Json) : Option Unit :=
  if v.text? = some s then some () else none

def table? (read : Json → Option α) : Json → Option (List (String × α))
  | object fields => fields.mapM fun (k, v) => (read v).map fun a => (k, a)
  | _ => none

/-- A part of an object of which some fields are texts. -/
def part? (texts : List String) (v : Json) : Option Record := do
  let f ← v.fields?
  fitting text? f texts
  return f

def condition? (v : Json) : Option Unit := do
  let f ← part? ["message", "reason", "status", "type"] v
  fitting Metadata.instant? f ["lastTransitionTime", "lastUpdateTime"]

def selector? (v : Json) : Option Unit := do
  let f ← v.fields?
  fitting texts? f ["matchLabels"]
  fitting (list? (part? ["key", "operator"])) f ["matchExpressions"]

def template? (v : Json) : Option Unit := do
  let f ← v.fields?
  fitting Metadata.ofJson? f ["metadata"]
  fitting fields? f ["spec"]

/-- The fields of an object of a kind, and its metadata. -/
def object? (apiVersion kind : String) (v : Json) : Option (Record × Metadata) := do
  let f ← v.fields?
  defaulted () (exactly? apiVersion) (f "apiVersion")
  defaulted () (exactly? kind) (f "kind")
  let metadata ← optional Metadata.ofJson? (f "metadata")
  return (f, metadata.getD .empty)

end ReleaseOperator.Typed
