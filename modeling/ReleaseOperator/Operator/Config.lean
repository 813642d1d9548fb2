import ReleaseOperator.Json.Parse
import ReleaseOperator.Resource.Basic

/-!
# Configuration

The settings of the operator. They come from environment variables, blank ones
counting as unset; a setting that cannot be read keeps its default.
-/

namespace ReleaseOperator

structure ControllerConfig where
  classes : List String
  dryRun : Bool
  chartsDir : String
  helmBinary : String
  helmTimeoutSecs : Nat
  repositoryUrl : Option String
  concurrency : Nat
  watchNamespace : Option String
  deriving Repr, DecidableEq

structure ServerConfig where
  metricsPort : Nat
  startupTimeoutSecs : Nat
  pollIntervalMillis : Nat
  deriving Repr, DecidableEq

namespace Config

abbrev Environment := List (String × String)

/-- A variable without the blanks around it, unless nothing is left. -/
def valueOf? (env : Environment) (key : String) : Option String :=
  (env.lookup key).bind fun v =>
    let t := Text.trim v
    if t.isEmpty then none else some t

/-- A natural number below a bound, perhaps with a plus in front. -/
def natBelow? (bound : Nat) (s : String) : Option Nat :=
  let cs := (Text.dropStart? ['+'] s.toList).getD s.toList
  if cs.isEmpty then none
  else if cs.all Char.isDigit then
    let n := cs.foldl (fun acc c => acc * 10 + (c.toNat - 48)) 0
    if n < bound then some n else none
  else none

def bound16 : Nat := Nat.pow 2 16

def bound64 : Nat := Nat.pow 2 64

def bool? (s : String) : Option Bool :=
  if s = "true" then some true else if s = "false" then some false else none

def setting (env : Environment) (key : String) (read : String → Option α) (default : α) : α :=
  ((env.lookup key).bind fun v => read (Text.trim v)).getD default

/-- The classes of a list with commas, without blanks and repetitions. -/
def parseClasses (s : String) : List String :=
  ((Text.splitOn s ',').map Text.trim).foldl
    (fun acc c => if c.isEmpty || acc.contains c then acc else acc ++ [c]) []

end Config

namespace ControllerConfig

def default : ControllerConfig :=
  ⟨["helm"], false, "/charts", "helm", 300, none, 10, none⟩

/-- The settings of an environment. A deadline for Helm is at least one second. -/
def ofEnvironment (env : Config.Environment) : ControllerConfig :=
  let classes := ((Config.valueOf? env "MODULE_CLASSES").map Config.parseClasses).getD []
  { classes := if classes.isEmpty then default.classes else classes
    dryRun := Config.setting env "DRY_RUN" Config.bool? default.dryRun
    chartsDir := (Config.valueOf? env "CHARTS_DIR").getD default.chartsDir
    helmBinary := (Config.valueOf? env "HELM_BINARY").getD default.helmBinary
    helmTimeoutSecs :=
      max 1 (Config.setting env "HELM_TIMEOUT_SECS" (Config.natBelow? Config.bound64)
        default.helmTimeoutSecs)
    repositoryUrl := Config.valueOf? env "DEFAULT_HELM_REPO_URL"
    concurrency :=
      Config.setting env "RECONCILE_CONCURRENCY" (Config.natBelow? Config.bound16) default.concurrency
    watchNamespace := Config.valueOf? env "WATCH_NAMESPACE" }

def chartDefaults (c : ControllerConfig) : ChartDefaults :=
  ⟨c.chartsDir, { Repository.none with uri := c.repositoryUrl.getD "" }⟩

end ControllerConfig

namespace ServerConfig

def default : ServerConfig := ⟨8080, 10, 50⟩

def ofEnvironment (env : Config.Environment) : ServerConfig :=
  { metricsPort :=
      Config.setting env "METRICS_PORT" (Config.natBelow? Config.bound16) default.metricsPort
    startupTimeoutSecs :=
      Config.setting env "SERVER_STARTUP_TIMEOUT_SECS" (Config.natBelow? Config.bound64)
        default.startupTimeoutSecs
    pollIntervalMillis :=
      Config.setting env "SERVER_POLL_INTERVAL_MS" (Config.natBelow? Config.bound64)
        default.pollIntervalMillis }

end ServerConfig

end ReleaseOperator
