import ReleaseOperator.Cluster.Http
import ReleaseOperator.Release.Workload
import ReleaseOperator.Resource.Basic

/-!
# Places of objects

Where the server keeps the objects of a kind.
-/

namespace ReleaseOperator.Cluster

/-- A kind of object in a group and version; the oldest group has no name. -/
structure Collection where
  group : String
  version : String
  plural : String
  deriving Repr, DecidableEq

namespace Collection

def configMaps : Collection := ⟨"", "v1", "configmaps"⟩

def secrets : Collection := ⟨"", "v1", "secrets"⟩

def ofWorkload : WorkloadKind → Collection
  | .deployment => ⟨"apps", "v1", "deployments"⟩
  | .statefulSet => ⟨"apps", "v1", "statefulsets"⟩
  | .daemonSet => ⟨"apps", "v1", "daemonsets"⟩

def ofKind (k : Kind) : Collection := ⟨Kind.group, k.version, k.plural⟩

def path (c : Collection) (namespaceName : Option String) : String :=
  let root := if c.group.isEmpty then "/api/" else "/apis/" ++ c.group ++ "/"
  let scope := match namespaceName with
    | some ns => "namespaces/" ++ ns ++ "/"
    | none => ""
  root ++ c.version ++ "/" ++ scope ++ c.plural

end Collection

def isPathChar (c : Char) : Bool :=
  let n := c.toNat
  n = 0x21 || n = 0x22 || (0x24 ≤ n && n ≤ 0x3B) || n = 0x3D || (0x40 ≤ n && n ≤ 0x5F) ||
    (0x61 ≤ n && n ≤ 0x7E) || 0x80 ≤ n

/-- A request about one object, whose name must not be empty. What is written behind a
question mark belongs to the query, and a number sign ends the target. -/
def Request.about? (method : Method) (c : Collection) (namespaceName name part query : String)
    (body : Body) : Except RequestError Request :=
  if name.isEmpty then .error (.other "A non-empty name is required")
  else
    let target := (c.path (some namespaceName) ++ "/" ++ name ++ part ++ "?" ++ query).toList
    let target := target.takeWhile fun ch => ch ≠ '#'
    let path := target.takeWhile fun ch => ch ≠ '?'
    let rest := (target.dropWhile fun ch => ch ≠ '?').drop 1
    if path.all isPathChar && rest.all fun ch => ch = '?' || isPathChar ch then
      .ok ⟨method, String.ofList path, String.ofList rest, body⟩
    else .error (.other "invalid uri character")

end ReleaseOperator.Cluster
