import ReleaseOperator.Json.Decode
import ReleaseOperator.Json.Parse
import ReleaseOperator.Pass.Failure

/-!
# Requests and answers

Requests to the server of the cluster, and what its answers mean. An answer with an
error status carries a record that says more; when it carries none, its status is
all that is known.
-/

namespace ReleaseOperator.Cluster

inductive Method where
  | get
  | put
  | patch
  deriving Repr, DecidableEq

def Method.name : Method → String
  | get => "GET"
  | put => "PUT"
  | patch => "PATCH"

inductive Body where
  | nothing
  | object (v : Json)
  | mergePatch (v : Json)
  deriving Repr

namespace Body

def contentType? : Body → Option String
  | nothing => none
  | object _ => some "application/json"
  | mergePatch _ => some "application/merge-patch+json"

def json? : Body → Option Json
  | nothing => none
  | object v => some v
  | mergePatch v => some v

end Body

structure Request where
  method : Method
  path : String
  query : String
  body : Body
  deriving Repr

/-- An answer: its status, and its body as text. -/
structure Answer where
  status : Nat
  body : String
  deriving Repr, DecidableEq

structure ApiStatus where
  status : String
  message : String
  reason : String
  code : Nat
  deriving Repr, DecidableEq

inductive RequestError where
  | api (s : ApiStatus)
  | unreadable (detail : String)
  | other (detail : String)
  deriving Repr, DecidableEq

def RequestError.about (object : String) : RequestError → ClusterError
  | api s =>
    if s.code = 404 then .notFound object
    else if s.code = 409 then .conflict object
    else .api ("ApiError: " ++ s.message ++ ": " ++ s.reason)
  | unreadable d => .serialization d
  | other d => .api d

namespace ApiStatus

def ofJson? (v : Json) : Option ApiStatus := do
  let f ← v.writtenRecord? ["status", "message", "reason", "code"]
  let status ← Json.required Json.text? (f "status")
  let message ← Json.defaulted "" Json.text? (f "message")
  let reason ← Json.defaulted "" Json.text? (f "reason")
  let code ← Json.required (Json.wholeIn? 0 0xFFFF) (f "code")
  return ⟨status, message, reason, code.toNat⟩

/-- What the server said about an error, as far as it can be read. -/
def ofAnswer (a : Answer) : ApiStatus :=
  ((Json.read? a.body).bind ofJson?).getD
    ⟨toString a.status, a.body, "Failed to parse error data", a.status⟩

end ApiStatus

namespace Answer

def isError (a : Answer) : Bool :=
  400 ≤ a.status && a.status < 600

def read (read : Json → Option α) (a : Answer) : Except RequestError α :=
  if a.isError then .error (.api (.ofAnswer a))
  else
    match (Json.parse? a.body).bind read with
    | some v => .ok v
    | none => .error (.unreadable "unexpected answer")

/-- What an answer brings, nothing when the server says that there is no such
object. -/
def readOptional (read : Json → Option α) (a : Answer) : Except RequestError (Option α) :=
  match a.read read with
  | .ok v => .ok (some v)
  | .error (.api s) => if s.reason = "NotFound" then .ok none else .error (.api s)
  | .error e => .error e

end Answer

end ReleaseOperator.Cluster
