import ReleaseOperator.Json.Compact
import ReleaseOperator.Pass.Call
import ReleaseOperator.Yaml.Printer
import ReleaseOperator.Yaml.Values

/-!
# Sources of values

Each override of a resource names a source of values, and resolving the overrides
gives the documents in the order of the list. Values given in place win over a
secret, and a secret over a config map. A document must be a map; one that is empty
gives nothing, and so does a missing source that is optional.
-/

namespace ReleaseOperator

inductive SourceKind where
  | secret
  | configMap
  deriving Repr, DecidableEq

def SourceKind.name : SourceKind → String
  | secret => "Secret"
  | configMap => "ConfigMap"

/-- A pass that may end with a source that cannot be resolved. -/
abbrev SourcePass := ExceptT SourceError Pass

namespace Sources

/-- The document that a value is: a map. The null value is none. -/
def document? (origin : String) (v : Json) : Except SourceError (Option Json) :=
  match v with
  | .null => .ok none
  | .object fields => .ok (some (.object fields))
  | other => .error (.invalid origin ("expected a map of values, found " ++ other.compact))

def parse (origin text : String) : Except SourceError (Option Json) :=
  match Yaml.readValue? text with
  | .ok v => document? origin v
  | .error p => .error (.invalid origin p.message)

def lookup (kind : SourceKind) (namespaceName name key : String) :
    Pass (Except ClusterError (Option String)) :=
  match kind with
  | .secret => Pass.cluster (.secret namespaceName name key)
  | .configMap => Pass.cluster (.configMap namespaceName name key)

def origin (kind : SourceKind) (namespaceName : String) (ref : KeyRef) : String :=
  kind.name ++ " " ++ namespaceName ++ "/" ++ ref.name ++ "[" ++ ref.key ++ "]"

/-- The document under a key, given what the cluster answered. -/
def ofAnswer (kind : SourceKind) (namespaceName : String) (ref : KeyRef) :
    Except ClusterError (Option String) → Except SourceError (Option Json)
  | .error e => .error (.cluster e)
  | .ok (some text) => parse (origin kind namespaceName ref) text
  | .ok none =>
    if ref.isOptional then .ok none
    else .error (.missing kind.name namespaceName ref.name ref.key)

def resolveKey (kind : SourceKind) (namespaceName : String) (ref : KeyRef) :
    SourcePass (Option Json) :=
  ExceptT.mk (ofAnswer kind namespaceName ref <$> lookup kind namespaceName ref.name ref.key)

def resolveOne (namespaceName : String) (index : Nat) (source : ValuesSource) :
    SourcePass (Option Json) :=
  match source.values with
  | some v =>
    ExceptT.mk (pure (document? ("overrides[" ++ toString index ++ "].values") v))
  | none =>
    match source.secret, source.configMap with
    | some ref, _ => resolveKey .secret namespaceName ref
    | none, some ref => resolveKey .configMap namespaceName ref
    | none, none => pure none

/-- The documents of some overrides, the first of which stands at a place. -/
def resolveFrom (namespaceName : String) : Nat → List ValuesSource → SourcePass (List Json)
  | _, [] => pure []
  | index, source :: rest => do
    let document ← resolveOne namespaceName index source
    let documents ← resolveFrom namespaceName (index + 1) rest
    return document.toList ++ documents

def resolve (namespaceName : String) (sources : List ValuesSource) : SourcePass (List Json) :=
  resolveFrom namespaceName 0 sources

def requiredSecret (namespaceName name key : String) : SourcePass String :=
  ExceptT.mk (do
    match ← Pass.cluster (.secret namespaceName name key) with
    | .error e => return .error (.cluster e)
    | .ok (some s) => return .ok s
    | .ok none => return .error (.missing SourceKind.secret.name namespaceName name key))

/-- The credentials for a repository, if it names a secret for them. -/
def credentials (namespaceName : String) (repository : Repository) :
    SourcePass (Option Credentials) :=
  match repository.credentialsSecret.filter fun s => !s.isEmpty with
  | none => pure none
  | some name => do
    let username ← requiredSecret namespaceName name "username"
    let password ← requiredSecret namespaceName name "password"
    return some ⟨username, password⟩

def render (documents : List Json) : List String :=
  documents.map Yaml.render

end Sources

end ReleaseOperator
