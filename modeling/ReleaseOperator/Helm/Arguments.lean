import ReleaseOperator.Release.Descriptor

/-!
# Arguments of Helm

The argument lists of the commands that are run. Passwords are in none of them.
-/

namespace ReleaseOperator.Helm

/-- A chart repository that was registered with credentials for the length of one
call. -/
structure PrivateRepository where
  label : String
  config : String
  cache : String
  deriving Repr, DecidableEq

namespace PrivateRepository

def defaultLabel : String := "module-operator"

def labelOf (repository : Repository) : String :=
  if repository.name.isEmpty then defaultLabel else repository.name

def flags (r : PrivateRepository) : List String :=
  ["--repository-config", r.config, "--repository-cache", r.cache]

end PrivateRepository

namespace Arguments

def unlessEmpty (flag value : String) : List String :=
  if value.isEmpty then [] else [flag, value]

def switch (flag : String) (given : Bool) : List String :=
  if given then [flag] else []

/-- Where the chart is: a path, a name in a registered repository, or a name in a
repository that anyone may read. -/
def chartPlace (release : Release) (registered : Option PrivateRepository) : List String :=
  if release.chart.path.isEmpty then
    match registered with
    | some r => (r.label ++ "/" ++ release.chart.name) :: r.flags
    | none => release.chart.name :: unlessEmpty "--repo" release.repository.uri
  else [release.chart.path]

def chart (release : Release) (registered : Option PrivateRepository) : List String :=
  chartPlace release registered ++ unlessEmpty "--version" release.chart.version

/-- Registers a repository for a user, whose password is read. -/
def repoAdd (r : PrivateRepository) (uri username : String) : List String :=
  ["repo", "add", r.label, uri, "--username", username, "--password-stdin", "--force-update"] ++
    r.flags

/-- Installs or upgrades a release, with one file for each document of values. -/
def upgrade (request : ReleaseRequest) (registered : Option PrivateRepository)
    (files : List String) : List String :=
  ["upgrade", "--install", request.release.name] ++ chart request.release registered ++
    ["--namespace", request.release.namespaceName, "--create-namespace", "--output", "json"] ++
    files.flatMap (fun path => ["-f", path]) ++ switch "--wait" request.wait ++
    switch "--dry-run" request.dryRun

def uninstall (name namespaceName : String) (dryRun : Bool) : List String :=
  ["uninstall", name, "--namespace", namespaceName] ++ switch "--dry-run" dryRun

def get (what name namespaceName : String) : List String :=
  ["get", what, name, "--namespace", namespaceName]

def getJson (what name namespaceName : String) : List String :=
  get what name namespaceName ++ ["--output", "json"]

def showChart (release : Release) (registered : Option PrivateRepository) : List String :=
  ["show", "chart"] ++ chart release registered

/-- Arguments for a cluster of some name. -/
def inContext (context : Option String) (args : List String) : List String :=
  match context with
  | some c => args ++ ["--kube-context", c]
  | none => args

end Arguments

end ReleaseOperator.Helm
