import ReleaseOperator.Operator.LogFilter
import ReleaseOperator.Operator.Options
import ReleaseOperator.Text.Quoted

/-!
# Start of the operator

What the operator does from its command line up to the point where it looks for a
cluster: it reads its settings, tells what they are, and begins to serve counters and
health. Without a cluster it stops there.
-/

namespace ReleaseOperator

structure LogEvent where
  level : LogLevel
  target : String
  text : String
  deriving Repr, DecidableEq

def LogEvent.line (e : LogEvent) : String :=
  e.level.name ++ " " ++ e.target ++ ": " ++ e.text

structure Startup where
  controller : ControllerConfig
  server : ServerConfig
  filter : LogFilter
  kubeContext : Option String
  deriving Repr, DecidableEq

/-- What is left of a process: its exit code, the lines that it has written, and the
line that says why it has failed. -/
structure Exit where
  code : Nat
  lines : List String
  failure : Option String
  deriving Repr, DecidableEq

namespace Startup

def version : String := "0.1.0"

/-- The filter of an environment, in which a filter may be given; the level of the
options counts only when there is none that can be read. -/
def filterOf (env : Config.Environment) (o : Options) : LogFilter :=
  match (env.lookup "RUST_LOG").bind LogFilter.parse? with
  | some f => f
  | none => LogFilter.parseLenient ("module_operator=" ++ o.logLevel.getD "info")

def ofEnvironment (env : Config.Environment) (o : Options) : Startup :=
  { controller := o.applyTo (.ofEnvironment env)
    server := o.applyToServer (.ofEnvironment env)
    filter := filterOf env o
    kubeContext := o.kubeContext }

def event (text : String) : LogEvent :=
  ⟨.info, "module_operator::runtime::initialization", text⟩

def configText (c : ControllerConfig) : String :=
  "Controller configuration loaded classes=" ++ Text.quoteList c.classes ++ " dry_run=" ++
    (if c.dryRun then "true" else "false") ++ " charts_dir=" ++ c.chartsDir

/-- Whether the server is given up. It never answers at the first look, and there is a
second one only if there is time left for it. -/
def givesUp (s : Startup) : Bool := s.server.startupTimeoutSecs = 0

def settingEvents (s : Startup) : List LogEvent :=
  [event ("Starting Module Operator v" ++ version), event (configText s.controller)]

def servingEvents (s : Startup) : List LogEvent :=
  [⟨.info, "module_operator::controller::server",
      "HTTP server listening on 0.0.0.0:" ++ toString s.server.metricsPort⟩,
    event "HTTP server is ready and accepting connections"] ++
    (s.kubeContext.map fun c => event ("Using kubeconfig context " ++ c)).toList

def events (s : Startup) : List LogEvent :=
  s.settingEvents ++ if s.givesUp then [] else s.servingEvents

def failure (s : Startup) : String :=
  if s.givesUp then
    "HTTP server failed to become ready within " ++ toString s.server.startupTimeoutSecs ++
      " seconds"
  else if s.kubeContext.isSome then "Failed to load kubeconfig context"
  else "Failed to infer Kubernetes configuration"

def logged (s : Startup) : List LogEvent :=
  s.events.filter fun e => s.filter.allows e.target e.level

def exit (s : Startup) : Exit :=
  ⟨1, s.logged.map LogEvent.line, some ("Error: " ++ s.failure)⟩

def run (env : Config.Environment) (arguments : List String) : Exit :=
  match Options.parse arguments with
  | .ok o => (ofEnvironment env o).exit
  | .error e => ⟨if e.isHarmless then 0 else 2, [], none⟩

end Startup

end ReleaseOperator
