import ReleaseOperator.Pass.Failure
import ReleaseOperator.Resource.Source
import ReleaseOperator.Text.Quoted
import ReleaseOperator.Text.Search

/-!
# Releases

What is asked of Helm (the descriptor), what Helm answers about it (the info)
and the status words in that answer.
-/

namespace ReleaseOperator

structure Release where
  name : String
  namespaceName : String
  chart : Chart
  repository : Repository
  deriving Repr, DecidableEq

inductive ReleaseStatus where
  | unknown
  | deployed
  | uninstalled
  | superseded
  | failed
  | uninstalling
  | pendingInstall
  | pendingUpgrade
  | pendingRollback
  deriving Repr, DecidableEq

namespace ReleaseStatus

def all : List ReleaseStatus :=
  [unknown, deployed, uninstalled, superseded, failed, uninstalling, pendingInstall,
    pendingUpgrade, pendingRollback]

def name : ReleaseStatus → String
  | unknown => "unknown"
  | deployed => "deployed"
  | uninstalled => "uninstalled"
  | superseded => "superseded"
  | failed => "failed"
  | uninstalling => "uninstalling"
  | pendingInstall => "pending-install"
  | pendingUpgrade => "pending-upgrade"
  | pendingRollback => "pending-rollback"

def ofName? (s : String) : Option ReleaseStatus :=
  all.find? fun r => r.name = s

/-- The status of a word with blanks around it; a strange word is unknown. -/
def parse (s : String) : ReleaseStatus :=
  (ofName? (Text.trim s)).getD unknown

end ReleaseStatus

structure ReleaseInfo where
  name : String
  namespaceName : String
  status : ReleaseStatus
  chartVersion : String
  deriving Repr, DecidableEq

structure Credentials where
  username : String
  password : String
  deriving Repr, DecidableEq

/-- How messages show credentials: without the password. -/
def Credentials.text (c : Credentials) : String :=
  "RepoCredentials \x7b username: " ++ Text.quote c.username ++ ", password: \"<redacted>\" \x7d"

/-- What is handed to Helm to install or upgrade a release. The overrides are
documents, later ones winning. -/
structure ReleaseRequest where
  release : Release
  credentials : Option Credentials
  documents : List String
  wait : Bool
  dryRun : Bool
  deriving Repr, DecidableEq

/-! ### Reports -/

/-- What Helm reports about a release; it reports nothing when there is none. -/
abbrev Report := Except HelmError (Option ReleaseInfo)

namespace Report

def isInstalled (r : Report) : Except HelmError Bool :=
  r.map Option.isSome

def isDeployed (r : Report) : Except HelmError Bool :=
  r.map fun info => info.any fun i => i.status = .deployed

/-- Part of what is reported about a release of a name, which must be there. -/
def part (name namespaceName : String) (f : ReleaseInfo → α) (r : Report) : Except HelmError α :=
  match r with
  | .ok (some info) => .ok (f info)
  | .ok none => .error (.releaseNotFound name namespaceName)
  | .error e => .error e

end Report

end ReleaseOperator
