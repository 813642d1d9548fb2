import ReleaseOperator.Resource.Basic
import ReleaseOperator.Text.Search
import ReleaseOperator.Tracker.Entry

/-!
# Tracker

The entries of all resources that are being worked on, under keys that spell out
kind, namespace, name, uid and generation. For one object only the highest
generation seen is kept: a higher one takes the place of a lower one, and a
lower one, which can only come from a stale read, gets an entry of its own that
is not kept.
-/

namespace ReleaseOperator

structure ObjectId where
  kind : String
  namespaceName : String
  name : String
  uid : String
  deriving Repr, DecidableEq

namespace ObjectId

def ofResource (r : Resource) : ObjectId :=
  ⟨r.kind.name, r.namespaceName, r.name, r.metadata.uid.getD ""⟩

/-- The start of all keys of objects of one kind, namespace and name. -/
def nameKey (kind namespaceName name : String) : String :=
  kind ++ "/" ++ namespaceName ++ "/" ++ name ++ "/"

def objectKey (id : ObjectId) : String :=
  nameKey id.kind id.namespaceName id.name ++ id.uid ++ "/"

def key (id : ObjectId) (generation : Int) : String :=
  id.objectKey ++ "gen-" ++ toString generation

end ObjectId

structure Tracker where
  entries : List (String × Entry)
  deriving Repr, DecidableEq

namespace Tracker

def empty : Tracker := ⟨[]⟩

def find? (t : Tracker) (key : String) : Option Entry :=
  t.entries.lookup key

def get? (t : Tracker) (id : ObjectId) (generation : Int) : Option Entry :=
  t.find? (id.key generation)

def dropUnder (t : Tracker) (start : String) : Tracker :=
  ⟨t.entries.filter fun kv => !Text.hasStart kv.1 start⟩

/-- Whether a higher generation of an object is kept. -/
def hasNewer (t : Tracker) (id : ObjectId) (generation : Int) : Bool :=
  t.entries.any fun kv => Text.hasStart kv.1 id.objectKey && decide (generation < kv.2.generation)

/-- The entry of a generation, made if need be at a stage; and the tracker that
keeps it, if it is to be kept. -/
def ensure (t : Tracker) (id : ObjectId) (generation : Int) (initial : Stage) : Entry × Tracker :=
  match t.get? id generation with
  | some e => (e, t)
  | none =>
    let e := Entry.fresh generation initial
    if t.hasNewer id generation then (e, t)
    else (e, ⟨(id.key generation, e) :: (t.dropUnder id.objectKey).entries⟩)

/-- The tracker with the entry of a generation as it has become; a generation that
is not kept stays so. -/
def record (t : Tracker) (id : ObjectId) (generation : Int) (e : Entry) : Tracker :=
  ⟨t.entries.map fun kv => if kv.1 = id.key generation then (kv.1, e) else kv⟩

def forget (t : Tracker) (id : ObjectId) : Tracker :=
  t.dropUnder id.objectKey

def forgetNamed (t : Tracker) (kind namespaceName name : String) : Tracker :=
  t.dropUnder (ObjectId.nameKey kind namespaceName name)

def size (t : Tracker) : Nat := t.entries.length

def keys (t : Tracker) : List String :=
  (t.entries.map fun kv => kv.1).mergeSort fun a b => decide (a ≤ b)

def sorted (t : Tracker) : List (String × Entry) :=
  t.entries.mergeSort fun a b => decide (a.1 ≤ b.1)

end Tracker

end ReleaseOperator
