import ReleaseOperator.Lifecycle.Job

/-!
# Recording events and writing to the store

There are two ways in which a pass writes. The status is put onto the copy that is
stored at that moment; metadata and specification are written as they are in the
local copy, which the store refuses when it is stale. After a write the local copy is
the stored one. A conflict is no failure: the next pass starts from a fresh copy.

What has happened to a resource is recorded in its status: events on the way, a
failure with its text, and the completion of the work together with the generation
that it was done for.
-/

namespace ReleaseOperator

namespace Pass

def refused (e : ClusterError) : Pass Outcome :=
  if e.isConflict then shortDelay else shortDelayWith (.cluster e)

/-- A resource with what the store answered to its write. -/
def afterWrite (r : Resource) (answer : Except ClusterError Resource) :
    Pass (Outcome × Resource) := do
  match answer with
  | .ok stored => return (.done, stored)
  | .error e => return (← refused e, r)

/-- The status of a resource put onto the stored copy, if that is still the same
object. -/
def persistStatus (r : Resource) : Pass (Outcome × Resource) := do
  match ← get r.kind r.namespaceName r.name with
  | .error e => return (← refused e, r)
  | .ok none => return (← shortDelay, r)
  | .ok (some latest) =>
    if latest.metadata.uid ≠ r.metadata.uid then return (← shortDelay, r)
    else afterWrite r (← updateStatus (latest.copyStatus r))

def persistResource (r : Resource) : Pass (Outcome × Resource) := do
  afterWrite r (← update r)

/-- The finalizer put onto a resource and written, unless it is there. -/
def ensureFinalizer (r : Resource) : Pass (Option Outcome × Resource) := do
  if r.hasFinalizer then return (none, r)
  else
    let (o, r) ← persistResource r.addFinalizer
    if o.requeue then return (some o, r) else return (some (← shortDelay), r)

def removeFinalizer (r : Resource) : Pass (Outcome × Resource) :=
  if r.hasFinalizer then persistResource r.removeFinalizer else pure (.done, r)

end Pass

namespace Work

def write (f : Resource → Pass (Outcome × Resource)) : Work Outcome := do
  let (o, r) ← about fun j => f j.resource
  changeResource fun _ => r
  return o

/-- An event put into the local status. The answer tells whether the history or the
phase changed. -/
def note (reason : Reason) (detail : Option String) : Work Bool := do
  let time ← ask Pass.now
  let j ← get
  let message := j.message reason detail
  let r := j.resource.recordReady reason message time
  set { j with resource := r }
  return j.resource.accepts (.ofReason reason message time) || j.resource.phase ≠ r.phase

def announce (reason : Reason) (detail : Option String) : Work Outcome := do
  if ← note reason detail then write Pass.persistStatus else return .done

/-- A failure recorded. Its outcome is to come back because of it, also when it could
not be recorded. -/
def fail (reason : Reason) (f : Failure) : Work Outcome := do
  let _ ← announce reason (some f.text)
  ask (Pass.shortDelayWith f)

/-- The completion of the work recorded for the generation at hand, and with it, for
work that brings a version about, that version. -/
def conclude (reason : Reason) (reachesVersion : Bool) : Work Outcome := do
  let generation := (← get).resource.generation
  let _ ← note reason none
  changeResource fun r => r.setObservedGeneration generation
  if reachesVersion then
    changeResource fun r => r.recordSuccess r.desiredVersion generation
  write Pass.persistStatus

end Work

end ReleaseOperator
