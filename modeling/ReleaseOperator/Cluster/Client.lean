import ReleaseOperator.Cluster.Keyed
import ReleaseOperator.Cluster.Place
import ReleaseOperator.Cluster.Rollout
import ReleaseOperator.Pass.Call
import ReleaseOperator.Resource.Codec

/-!
# The client of the cluster

What a pass asks of the store and of the cluster is answered with one request to the
server. A status is written as a merge patch that names the version that was read, so
a write on top of an unseen change is refused.
-/

namespace ReleaseOperator.Cluster

abbrev Conversation := Program Request fun _ => Answer

/-- One request about an object, and what is read from its answer. -/
def converse (object : String) (request : Except RequestError Request)
    (read : Answer → Except RequestError α) : Conversation (Except ClusterError α) :=
  match request with
  | .error e => pure (.error (e.about object))
  | .ok r => do
    let a ← Program.call r
    return (read a).mapError (RequestError.about object)

def fieldManager : String := "module-operator"

def objectName (kind namespaceName name : String) : String :=
  kind ++ " " ++ namespaceName ++ "/" ++ name

/-- The merge patch that writes the status of a resource. -/
def statusPatch (r : Resource) : Json :=
  .ofFields [
    ("metadata", .ofFields [("resourceVersion", .ofText? r.metadata.resourceVersion)]),
    ("status", (r.status.map Status.toJson).getD .null)]

def storeRequest : StoreCall → Except RequestError Request
  | .get kind ns name => Request.about? .get (.ofKind kind) ns name "" "" .nothing
  | .update r => Request.about? .put (.ofKind r.kind) r.namespaceName r.name "" "" (.object r.toJson)
  | .updateStatus r =>
    Request.about? .patch (.ofKind r.kind) r.namespaceName r.name "/status"
      ("&fieldManager=" ++ fieldManager) (.mergePatch (statusPatch r))

def store : (c : StoreCall) → Conversation c.Answer
  | .get kind ns name =>
    converse (objectName kind.name ns name) (storeRequest (.get kind ns name))
      (Answer.readOptional (Resource.ofJson? kind))
  | .update r =>
    converse (objectName r.kind.name r.namespaceName r.name) (storeRequest (.update r))
      (Answer.read (Resource.ofJson? r.kind))
  | .updateStatus r =>
    converse (objectName r.kind.name r.namespaceName r.name) (storeRequest (.updateStatus r))
      (Answer.read (Resource.ofJson? r.kind))

def readRequest : ClusterCall → Except RequestError Request
  | .configMap ns name _ => Request.about? .get .configMaps ns name "" "" .nothing
  | .secret ns name _ => Request.about? .get .secrets ns name "" "" .nothing
  | .workloadReady w =>
    Request.about? .get (.ofWorkload w.kind) w.namespaceName w.name "" "" .nothing

/-- The value under a key of a secret that may be missing. -/
def secretValue (object key : String) : Option Secret → Except ClusterError (Option String)
  | none => .ok none
  | some s => (s.value? key).mapError fun d => .serialization (object ++ " " ++ d)

def read : (c : ClusterCall) → Conversation c.Answer
  | .configMap ns name key => do
    let r ← converse (objectName "ConfigMap" ns name) (readRequest (.configMap ns name key))
      (Answer.readOptional ConfigMap.ofJson?)
    return r.map fun m => m.bind fun m => m.lookup key
  | .secret ns name key => do
    let object := objectName "Secret" ns name
    let r ← converse object (readRequest (.secret ns name key))
      (Answer.readOptional Secret.ofJson?)
    return r.bind (secretValue object key)
  | .workloadReady w => do
    let r ← converse w.text (readRequest (.workloadReady w))
      (Answer.readOptional (Rollout.ofJson? w.kind))
    return r.map fun rollout => rollout.any Rollout.isReady

end ReleaseOperator.Cluster
