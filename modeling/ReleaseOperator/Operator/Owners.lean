import ReleaseOperator.Cluster.Keyed
import ReleaseOperator.Resource.Basic

/-!
# Owners of values

A config map or a secret may carry a label that names the module for which it holds
values. When such an object is created or changed, its owner is looked at again;
when it goes away, its owner is left alone.
-/

namespace ReleaseOperator

inductive HolderKind where
  | configMap
  | secret
  deriving Repr, DecidableEq

namespace HolderKind

def name : HolderKind → String
  | configMap => "ConfigMap"
  | secret => "Secret"

def ofName? (s : String) : Option HolderKind :=
  [configMap, secret].find? fun k => k.name = s

def metadata? (kind : HolderKind) (v : Json) : Option Metadata := do
  match kind with
  | configMap => Cluster.ConfigMap.ofJson? v |>.map fun _ => ()
  | secret => Cluster.Secret.ofJson? v |>.map fun _ => ()
  let (_, metadata) ← Typed.object? "v1" kind.name v
  return metadata

end HolderKind

inductive WatchEvent (α : Type) where
  | init
  | initApply (a : α)
  | initDone
  | apply (a : α)
  | delete (a : α)
  | error
  deriving Repr

/-- What a watch tells of objects that are there: each of them, or that the watch has
failed. -/
def WatchEvent.applied? {α : Type} : WatchEvent α → Option (Except Unit α)
  | init => none
  | initApply a => some (.ok a)
  | initDone => none
  | apply a => some (.ok a)
  | delete _ => none
  | error => some (.error ())

/-- A module that is known to a watch, by its namespace, if it has one, and its name. -/
structure ModuleRef where
  namespaceName : Option String
  name : String
  deriving Repr, DecidableEq

namespace ModuleRef

def ofResource (r : Resource) : ModuleRef :=
  ⟨r.metadata.namespaceName, r.metadata.name.getD ""⟩

def find? (modules : List Resource) (ref : ModuleRef) : Option Resource :=
  modules.reverse.find? fun r => ofResource r = ref

/-- The module of a reference. One without a namespace is found from everywhere. -/
def lookup (modules : List Resource) (ref : ModuleRef) : Option Resource :=
  (ref.find? modules) <|> ({ ref with namespaceName := none } : ModuleRef).find? modules

end ModuleRef

def ownerLabel : String := "verrazzano.io/module-owner"

/-- The module of a class that must be looked at because of an object that holds
values. -/
def owner? (className : String) (modules : List Resource) (holder : Metadata) :
    Option ModuleRef := do
  if holder.deletionTime.isSome then failure
  let name ← (holder.labels.getD []).lookup ownerLabel
  let ns ← holder.namespaceName
  let ref : ModuleRef := ⟨some ns, name⟩
  let r ← ref.lookup modules
  if r.className = className then return ref else failure

end ReleaseOperator
