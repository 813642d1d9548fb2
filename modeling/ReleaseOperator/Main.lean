import ReleaseOperator.Operator.Startup
import ReleaseOperator.Resource.Definition

/-!
# The command line

The operator as a process. With the single argument `definitions` it prints the
definitions of the kinds of resource; otherwise it starts, and as it has no way to reach
a cluster it ends where it would need one.
-/

open ReleaseOperator

def variableNames : List String :=
  ["MODULE_CLASSES", "DRY_RUN", "CHARTS_DIR", "HELM_BINARY", "HELM_TIMEOUT_SECS",
    "DEFAULT_HELM_REPO_URL", "RECONCILE_CONCURRENCY", "WATCH_NAMESPACE", "METRICS_PORT",
    "SERVER_STARTUP_TIMEOUT_SECS", "SERVER_POLL_INTERVAL_MS", "RUST_LOG"]

def environment : IO Config.Environment :=
  variableNames.filterMapM fun key => do return (← IO.getEnv key).map fun v => (key, v)

def main (arguments : List String) : IO UInt32 := do
  if arguments = ["definitions"] then
    IO.print Kind.definitions
    return 0
  let e := Startup.run (← environment) arguments
  e.lines.forM IO.println
  if let some f := e.failure then IO.eprintln f
  return UInt32.ofNat e.code
