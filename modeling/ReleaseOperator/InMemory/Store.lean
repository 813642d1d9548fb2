import ReleaseOperator.InMemory.Table
import ReleaseOperator.Json.Patch
import ReleaseOperator.Pass.Failure
import ReleaseOperator.Resource.Codec

/-!
# A store in memory

The resources of one kind with the rules of writing that a cluster has. Every write
takes a new revision, and a write with another revision than the stored one is a
conflict. A changed specification takes a new generation. A resource that is being
deleted goes away with its last finalizer.
-/

namespace ReleaseOperator.InMemory

/-- The resources of one kind by namespace and name, with the revisions and uids that
were given out. -/
structure Store where
  objects : Table (String × String) Resource
  revision : Nat
  uids : Nat

namespace Store

def empty : Store := ⟨[], 0, 0⟩

def keyOf (r : Resource) : String × String := (r.namespaceName, r.name)

def get? (s : Store) (namespaceName name : String) : Option Resource :=
  s.objects.get? (namespaceName, name)

def sameSpec (r other : Resource) : Bool :=
  r.spec.toJson.agrees other.spec.toJson

def withRevision (r : Resource) (n : Nat) : Resource :=
  { r with metadata := { r.metadata with resourceVersion := some (toString n) } }

def withGeneration (r : Resource) (g : Int) : Resource :=
  { r with metadata := { r.metadata with generation := some g } }

/-- A resource created, or replaced by a new one. -/
def insert (s : Store) (r : Resource) : Store :=
  let m := { r.metadata with
    namespaceName := some (r.metadata.namespaceName.getD "default")
    uid := some ("uid-" ++ toString (s.uids + 1))
    resourceVersion := some (toString (s.revision + 1))
    generation := some 1 }
  let r := { r with metadata := m }
  ⟨s.objects.put (keyOf r) r, s.revision + 1, s.uids + 1⟩

def edit (s : Store) (namespaceName name : String) (change : Resource → Option Resource) :
    Option (Option Store) :=
  (s.get? namespaceName name).map fun old =>
    (change old).map fun new =>
      let new := if sameSpec old new then new else withGeneration new (new.generation + 1)
      { s with
        objects := s.objects.put (namespaceName, name) (withRevision new (s.revision + 1))
        revision := s.revision + 1 }

/-- The resource asked to go away. It does so at once when it has no finalizer. -/
def markDeleted (s : Store) (namespaceName name : String) (now : Instant) : Store :=
  let s' := { s with revision := s.revision + 1 }
  match s.get? namespaceName name with
  | none => s'
  | some r =>
    if r.finalizers.isEmpty then { s' with objects := s.objects.erase (namespaceName, name) }
    else
      let r := { r with metadata := { r.metadata with deletionTime := some now } }
      { s' with objects := s.objects.put (namespaceName, name) (withRevision r s'.revision) }

/-- The stored resource that a write is meant for. -/
def current (s : Store) (r : Resource) : Except ClusterError Resource :=
  let (ns, name) := keyOf r
  match s.get? ns name with
  | none => .error (.notFound (ns ++ "/" ++ name))
  | some old =>
    if old.metadata.resourceVersion ≠ r.metadata.resourceVersion then
      .error (.conflict (ns ++ "/" ++ name))
    else .ok old

/-- The resource as it will be stored when it is written as a whole: status, uid and
the request to go away stay as they are. -/
def merged (s : Store) (old r : Resource) : Resource :=
  let r := r.copyStatus old
  let r := { r with metadata := { r.metadata with
    deletionTime := old.metadata.deletionTime
    uid := old.metadata.uid } }
  let r := withGeneration r (if sameSpec r old then old.generation else old.generation + 1)
  withRevision r (s.revision + 1)

def update (s : Store) (r : Resource) : Except ClusterError Resource × Store :=
  match s.current r with
  | .error e => (.error e, s)
  | .ok old =>
    let new := s.merged old r
    let objects :=
      if new.isDeleting && new.finalizers.isEmpty then s.objects.erase (keyOf new)
      else s.objects.put (keyOf new) new
    (.ok new, { s with objects, revision := s.revision + 1 })

def updateStatus (s : Store) (r : Resource) : Except ClusterError Resource × Store :=
  match s.current r with
  | .error e => (.error e, s)
  | .ok old =>
    let new := withRevision (old.copyStatus r) (s.revision + 1)
    (.ok new, { s with objects := s.objects.put (keyOf new) new, revision := s.revision + 1 })

end Store

end ReleaseOperator.InMemory
