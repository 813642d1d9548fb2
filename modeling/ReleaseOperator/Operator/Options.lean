import ReleaseOperator.Operator.Config

/-!
# Options

The command line of the operator. It is read from left to right: an option that takes
a value waits for it, and the first thing that is wrong ends the reading. What is set
here takes precedence over the environment.
-/

namespace ReleaseOperator

inductive Flag where
  | logLevel
  | dryRun
  | classes
  | metricsPort
  | kubeContext
  | watchNamespace
  | helmTimeoutSecs
  | help
  deriving Repr, DecidableEq

namespace Flag

def all : List Flag :=
  [logLevel, dryRun, classes, metricsPort, kubeContext, watchNamespace, helmTimeoutSecs, help]

def name : Flag → String
  | logLevel => "log-level"
  | dryRun => "dry-run"
  | classes => "classes"
  | metricsPort => "metrics-port"
  | kubeContext => "kube-context"
  | watchNamespace => "watch-namespace"
  | helmTimeoutSecs => "helm-timeout-secs"
  | help => "help"

def ofName? (s : String) : Option Flag := all.find? fun f => f.name = s

def takesValue : Flag → Bool
  | dryRun => false
  | help => false
  | _ => true

end Flag

structure Options where
  logLevel : Option String
  dryRun : Bool
  classes : Option (List String)
  metricsPort : Option Nat
  kubeContext : Option String
  watchNamespace : Option String
  helmTimeoutSecs : Option Nat
  deriving Repr, DecidableEq

inductive OptionsError where
  /-- An explanation was asked for. -/
  | helpWanted
  | unexpected (argument : String)
  | repeated (flag : Flag)
  | missingValue (flag : Flag)
  | unneededValue (flag : Flag)
  | badValue (flag : Flag) (value : String)
  deriving Repr, DecidableEq

/-- Whether a command line that is not carried out was in order. -/
def OptionsError.isHarmless : OptionsError → Bool
  | helpWanted => true
  | _ => false

namespace Options

def empty : Options := ⟨none, false, none, none, none, none, none⟩

/-- A number of a socket. Zero may have a minus in front. -/
def portNumber? (s : String) : Option Nat :=
  match s.toList with
  | '-' :: ds => if !ds.isEmpty && ds.all fun c => c = '0' then some 0 else none
  | _ => Config.natBelow? Config.bound16 s

def seconds? (s : String) : Option Nat :=
  (Config.natBelow? Config.bound64 s).filter fun n => 0 < n

def once (flag : Flag) (given : Option α) (read : String → Option α) (s : String) :
    Except OptionsError (Option α) :=
  if given.isSome then .error (.repeated flag)
  else
    match read s with
    | some a => .ok (some a)
    | none => .error (.badValue flag s)

/-- The options with a value for one of them. The lists of classes are joined. -/
def setValue (o : Options) (s : String) : Flag → Except OptionsError Options
  | .logLevel => do return { o with logLevel := ← once .logLevel o.logLevel some s }
  | .classes => .ok { o with classes := some (o.classes.getD [] ++ Text.splitOn s ',') }
  | .metricsPort => do
    return { o with metricsPort := ← once .metricsPort o.metricsPort portNumber? s }
  | .kubeContext => do return { o with kubeContext := ← once .kubeContext o.kubeContext some s }
  | .watchNamespace => do
    return { o with watchNamespace := ← once .watchNamespace o.watchNamespace some s }
  | .helmTimeoutSecs => do
    return { o with helmTimeoutSecs := ← once .helmTimeoutSecs o.helmTimeoutSecs seconds? s }
  | flag => .error (.unneededValue flag)

def setFlag (o : Options) : Flag → Except OptionsError Options
  | .dryRun => if o.dryRun then .error (.repeated .dryRun) else .ok { o with dryRun := true }
  | .help => .error .helpWanted
  | flag => .error (.missingValue flag)

/-- How far the reading is: the options so far, the option that waits for its value,
and whether no more options can come. -/
structure Reading where
  options : Options
  waiting : Option Flag
  closed : Bool

namespace Reading

/-- The name of a long option and the value behind an equals sign, if there is one. -/
def long? (argument : String) : Option (String × Option String) :=
  (Text.dropStart? ['-', '-'] argument.toList).map fun cs =>
    let name := cs.takeWhile fun c => c ≠ '='
    (String.ofList name, (cs.dropWhile fun c => c ≠ '=').tail?.map String.ofList)

/-- The letters of short options. A single dash is a value. -/
def short? (argument : String) : Option (List Char) :=
  match argument.toList with
  | '-' :: c :: cs => some (c :: cs)
  | _ => none

def option (r : Reading) (flag : Flag) : Option String → Except OptionsError Reading
  | some s => do return { r with options := ← r.options.setValue s flag }
  | none =>
    if flag.takesValue then .ok { r with waiting := some flag }
    else do return { r with options := ← r.options.setFlag flag }

def optionOf? (r : Reading) (argument : String) : Option (Except OptionsError Reading) :=
  match long? argument, short? argument with
  | some (name, value), _ =>
    match Flag.ofName? name with
    | some flag => some (r.option flag value)
    | none => some (.error (.unexpected argument))
  | none, some (c :: _) =>
    if c = 'h' then some (r.option .help none) else some (.error (.unexpected argument))
  | none, _ => none

def step (r : Reading) (argument : String) : Except OptionsError Reading :=
  if r.closed then .error (.unexpected argument)
  else if argument = "--" then .ok { r with closed := true }
  else
    match r.waiting, r.optionOf? argument with
    | none, some read => read
    | none, none => .error (.unexpected argument)
    | some flag, some _ => .error (.missingValue flag)
    | some flag, none => do
      return { r with options := ← r.options.setValue argument flag, waiting := none }

def finish (r : Reading) : Except OptionsError Options :=
  match r.waiting with
  | some flag => .error (.missingValue flag)
  | none => .ok r.options

end Reading

def parse (arguments : List String) : Except OptionsError Options := do
  (← arguments.foldlM Reading.step ⟨empty, none, false⟩).finish

/-- The settings of the controllers with what the options say. A list without classes
and an empty namespace change nothing. -/
def applyTo (o : Options) (c : ControllerConfig) : ControllerConfig :=
  let classes := Config.parseClasses (",".intercalate (o.classes.getD []))
  { c with
    dryRun := o.dryRun || c.dryRun
    classes := if classes.isEmpty then c.classes else classes
    watchNamespace := (o.watchNamespace.filter fun ns => !ns.isEmpty) <|> c.watchNamespace
    helmTimeoutSecs := o.helmTimeoutSecs.getD c.helmTimeoutSecs }

def applyToServer (o : Options) (s : ServerConfig) : ServerConfig :=
  { s with metricsPort := o.metricsPort.getD s.metricsPort }

end Options

end ReleaseOperator
