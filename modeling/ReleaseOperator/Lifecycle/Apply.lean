import ReleaseOperator.Lifecycle.Record
import ReleaseOperator.Lifecycle.Sources
import ReleaseOperator.Release.Values

/-!
# Applying a release

The values of a release are those of its class, and on top of them the overrides of
the resource. Applying hands them to Helm and remembers their digest.
-/

namespace ReleaseOperator

namespace Job

/-- The documents of values of a job, those of its class first. -/
def values (setup : Setup) (j : Job) : SourcePass (List Json) := do
  let documents ← Sources.resolve j.resource.namespaceName j.resource.overrides
  return (setup.baseValues j.release).toList ++ documents

def valuesDigest (setup : Setup) (j : Job) : SourcePass String := do
  return Values.digest (Values.mergeAll (← j.values setup))

def credentials (j : Job) : SourcePass (Option Credentials) :=
  Sources.credentials j.resource.namespaceName j.release.repository

end Job

namespace Work

def handOver (failure : Reason) (documents : List Json) (credentials : Option Credentials) :
    Work Outcome := do
  let j ← get
  match ← ask (Pass.helm (.upgradeOrInstall
      ⟨j.release, credentials, Sources.render documents, false, false⟩)) with
  | .ok _ =>
    changeEntry fun e => e.setDigest (Values.digest (Values.mergeAll documents))
    return .done
  | .error e => fail failure (.helm e)

/-- The release installed or upgraded with the values of the job. -/
def applyRelease (setup : Setup) (failure : Reason) : Work Outcome := do
  match ← about fun j => (j.values setup).run with
  | .error e => fail failure (.source e)
  | .ok documents =>
    if setup.dryRun then
      changeEntry fun e => e.setDigest (Values.digest (Values.mergeAll documents))
      return .done
    else
      match ← about fun j => j.credentials.run with
      | .error e => fail failure (.source e)
      | .ok credentials => handOver failure documents credentials

end Work

end ReleaseOperator
