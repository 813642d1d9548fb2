import ReleaseOperator.Text.Search

/-!
# Routes

What the operator serves over HTTP: its counters for a collector of metrics, and
whether it is alive and ready. All of it can only be read.
-/

namespace ReleaseOperator

inductive Route where
  | metrics
  | healthz
  | readyz
  deriving Repr, DecidableEq

/-- The body of an answer. The counters are written when they are asked for. -/
inductive Page where
  | counters
  | text (s : String)
  deriving Repr, DecidableEq

structure Reply where
  status : Nat
  contentType : String
  page : Page
  deriving Repr, DecidableEq

namespace Reply

def refusal (status : Nat) : Reply := ⟨status, "", .text ""⟩

def plain (status : Nat) (s : String) : Reply :=
  ⟨status, "text/plain; charset=utf-8", .text s⟩

def head (r : Reply) : Reply :=
  match r.page with
  | .counters => r
  | .text _ => { r with page := .text "" }

end Reply

namespace Route

def path : Route → String
  | metrics => "/metrics"
  | healthz => "/healthz"
  | readyz => "/readyz"

def ofPath? (path : String) : Option Route :=
  [metrics, healthz, readyz].find? fun r => r.path = path

def answer (ready : Bool) : Route → Reply
  | metrics => ⟨200, "text/plain; version=0.0.4", .counters⟩
  | healthz => .plain 200 "ok"
  | readyz => if ready then .plain 200 "ok" else .plain 503 "not ready"

def targetPath (target : String) : String :=
  String.ofList (target.toList.takeWhile fun c => c ≠ '?')

def reply (ready : Bool) (method target : String) : Reply :=
  match ofPath? (targetPath target) with
  | none => .refusal 404
  | some r =>
    if method = "GET" then r.answer ready
    else if method = "HEAD" then (r.answer ready).head
    else .refusal 405

end Route

end ReleaseOperator
