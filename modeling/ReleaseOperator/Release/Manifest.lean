import ReleaseOperator.Release.Workload
import ReleaseOperator.Yaml.Strict

/-!
# Manifests

The manifest of a release lists its objects, one Yaml document each. Its workloads
are the objects of the three kinds that have a name; an object without a namespace
lies in the namespace of the release. One document that cannot be read makes the
whole manifest unreadable.
-/

namespace ReleaseOperator.Manifest

open Yaml

structure Header where
  apiVersion : String
  kind : String
  name : String
  namespaceName : Option String
  deriving Repr, DecidableEq

def textField (fields : List (String × Value)) (name : String) : Except Problem String := do
  match ← Value.field? fields name with
  | none => return ""
  | some v =>
    match v.text? with
    | some s => return s
    | none => .error (.unexpected "invalid type: expected a string")

/-- A text that may be missing or null. -/
def optionalField (fields : List (String × Value)) (name : String) :
    Except Problem (Option String) := do
  match ← Value.field? fields name with
  | none => return none
  | some v => if v.isNull then return none else return some (← textField fields name)

def metadata (v : Option Value) : Except Problem (String × Option String) := do
  match v.map Value.untag with
  | none => return ("", none)
  | some (.atom .null) => return ("", none)
  | some (.mapping entries) =>
    let fields ← Value.fields? entries
    return (← textField fields "name", ← optionalField fields "namespace")
  | some _ => .error (.unexpected "invalid type: expected a map")

/-- The header of a document; a document that is no mapping has none. -/
def header? (v : Value) : Except Problem (Option Header) :=
  match v.untag with
  | .mapping entries => do
    let fields ← Value.fields? entries
    let apiVersion ← textField fields "apiVersion"
    let kind ← textField fields "kind"
    let (name, ns) ← metadata (← Value.field? fields "metadata")
    return some ⟨apiVersion, kind, name, ns⟩
  | _ => return none

def Header.workload? (releaseNamespace : String) (h : Header) : Option Workload :=
  if h.name.isEmpty then none
  else
    (WorkloadKind.ofObject? h.apiVersion h.kind).map fun kind =>
      ⟨kind, (h.namespaceName.filter fun ns => !ns.isEmpty).getD releaseNamespace, h.name⟩

def workloads (manifest releaseNamespace : String) : Except Problem (List Workload) := do
  let documents ← readAll? manifest
  let headers ← documents.mapM header?
  return (headers.filterMap id).filterMap (Header.workload? releaseNamespace)

end ReleaseOperator.Manifest
