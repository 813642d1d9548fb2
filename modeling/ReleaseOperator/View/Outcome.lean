import ReleaseOperator.Pass.Outcome
import ReleaseOperator.View.Hidden

/-!
# Views of outcomes

Outcomes, directives and failures as values for an observer. A delay drawn from the
short window shows only as such.
-/

namespace ReleaseOperator.View

def fields : List (String × Json) → Json := Json.ofFields

def errorName (kind : String) : Json := fields [("error", .text kind)]

def error (kind message : String) : Json :=
  fields [("error", .text kind), ("message", .text message)]

def duration (d : Duration) : Json :=
  if d = 0 then .text "none"
  else if Duration.ofSecs 1 ≤ d ∧ d ≤ Duration.ofSecs 2 then .text "short"
  else .text (toString d)

def outcome (o : Outcome) : Json :=
  fields [("requeue", .bool o.requeue), ("delay", duration o.delay),
    ("error", .ofText? (o.failure.map fun f => hide f.text))]

def directive : Directive → Json
  | .awaitChange => .text "await-change"
  | .requeue d => fields [("requeue", duration d)]

def passError (e : PassError) : Json :=
  let kind := match e with
    | .requeue _ _ => "Requeue"
    | .invariant _ => "Invariant"
  fields [("error", .text kind), ("message", .text (hide e.message)),
    ("delay", (e.delay?.map duration).getD .null)]

/-- What becomes of a pass: a directive, or an error and the directive for it. -/
def directed : Except PassError Directive → Json
  | .ok d => directive d
  | .error e => fields [("failed", passError e), ("policy", directive e.directive)]

def result : Except PassError Outcome → Json
  | .ok o => outcome o
  | .error e => passError e

/-- An error of the cluster. Only an object that it is about is shown. -/
def clusterError (e : ClusterError) : Json :=
  let (kind, message) : String × List (String × Json) :=
    match e with
    | .notFound _ => ("NotFound", [("message", .text e.message)])
    | .conflict _ => ("Conflict", [("message", .text e.message)])
    | .api _ => ("Api", [])
    | .serialization _ => ("Serialization", [])
  fields ([("error", .text kind), ("is_conflict", .bool e.isConflict),
    ("is_not_found", .bool e.isNotFound)] ++ message)

def helmError (e : HelmError) : Json :=
  let kind := match e with
    | .releaseNotFound _ _ => "ReleaseNotFound"
    | .commandFailed _ _ => "CommandFailed"
    | .timedOut _ _ => "TimedOut"
    | .io _ => "Io"
    | .parse _ => "Parse"
  error kind (hide e.message)

def sourceError (e : SourceError) : Json :=
  let kind := match e with
    | .missing _ _ _ _ => "MissingSource"
    | .invalid _ _ => "InvalidValues"
    | .cluster _ => "Cluster"
  error kind (hide e.message)

def versionError (e : VersionError) : Json := error "Semver" e.message

def helmAnswer (f : α → Json) : Except HelmError α → Json
  | .ok a => fields [("ok", f a)]
  | .error e => helmError e

def clusterAnswer (f : α → Json) : Except ClusterError α → Json
  | .ok a => fields [("ok", f a)]
  | .error e => clusterError e

end ReleaseOperator.View
