import ReleaseOperator.Helm.Arguments
import ReleaseOperator.Helm.Output
import ReleaseOperator.Helm.Shell
import ReleaseOperator.Pass.Call
import ReleaseOperator.Text.Search
import ReleaseOperator.Text.Utf8

/-!
# The Helm client

What a pass asks of Helm is answered by running the program. Every run has a
deadline. Documents of values are handed over in files, in order. A repository that
asks for credentials is registered before the chart is fetched from it, under an
label and in files that only this call uses; the password is written to the program
and is no argument.
-/

namespace ReleaseOperator.Helm

structure Client where
  context : Option String
  deadline : Duration
  deriving Repr, DecidableEq

/-- Whether a failure says that there is no such thing. -/
def saysNotFound : HelmError → Bool
  | .commandFailed _ stderr => Text.contains stderr "not found"
  | _ => false

namespace Client

def usual (context : Option String) : Client :=
  ⟨context, Duration.ofSecs 300⟩

/-- The output of a run, which is counted under a label. -/
def run (client : Client) (label : String) (args : List String) (stdin : Option String) :
    Errand String := do
  let invocation : Invocation := ⟨Arguments.inContext client.context args, stdin⟩
  match ← Errand.ask (.run invocation client.deadline) with
  | .broken detail =>
    Errand.count (.helmOperation label "error")
    throw (.io detail)
  | .late =>
    Errand.count (.helmOperation label "timeout")
    throw (.timedOut label client.deadline)
  | .exited code stdout stderr =>
    if code ≠ 0 then
      Errand.count (.helmOperation label "error")
      throw (.commandFailed label (Text.trim (Text.Utf8.decodeMarked stderr)))
    else
      Errand.count (.helmOperation label "success")
      match Text.Utf8.decode? stdout with
      | some output => return output
      | none => throw (.parse "invalid utf-8 sequence")

/-- The use of the repository of a release: registered when credentials are needed
for it, which is never so for a chart with a path. -/
def withRepository (client : Client) (release : Release) (credentials : Option Credentials)
    (use : Option PrivateRepository → Errand α) : Errand α :=
  match credentials with
  | none => use none
  | some c =>
    if !release.chart.path.isEmpty || release.repository.uri.isEmpty then use none
    else
      Errand.withFile "" fun config =>
        Errand.withDirectory fun cache => do
          let r : PrivateRepository :=
            ⟨PrivateRepository.labelOf release.repository, config, cache⟩
          let args := Arguments.repoAdd r release.repository.uri c.username
          discard (client.run "repo-add" args (some c.password))
          use (some r)

def reading (output : Errand String) (read : String → Except HelmError α) : Errand α :=
  ExceptT.mk do return (← output.run).bind read

def upgradeOrInstall (client : Client) (request : ReleaseRequest) : Errand ReleaseInfo :=
  let output := client.withRepository request.release request.credentials fun registered =>
    Errand.withFiles request.documents fun files =>
      client.run "upgrade" (Arguments.upgrade request registered files) none
  reading output (Output.record (Output.applied? request.release))

/-- A release removed. That there is none is no failure. -/
def uninstall (client : Client) (name namespaceName : String) (dryRun : Bool) : Errand Unit :=
  tryCatch (discard (client.run "uninstall" (Arguments.uninstall name namespaceName dryRun) none))
    fun e => if saysNotFound e then pure () else throw e

def releaseInfo (client : Client) (name namespaceName : String) : Errand (Option ReleaseInfo) :=
  ExceptT.mk do
    let args := Arguments.getJson "metadata" name namespaceName
    match ← (client.run "get-metadata" args none).run with
    | .ok output => return (Output.record (Output.metadata? namespaceName) output).map some
    | .error e => return if saysNotFound e then .ok none else .error e

def values (client : Client) (name namespaceName : String) : Errand Json :=
  let args := Arguments.getJson "values" name namespaceName
  reading (client.run "get-values" args none) fun output =>
    (Output.value output).map Output.values

def manifest (client : Client) (name namespaceName : String) : Errand String :=
  client.run "get-manifest" (Arguments.get "manifest" name namespaceName) none

def chartVersion (client : Client) (release : Release) (credentials : Option Credentials) :
    Errand String :=
  let output := client.withRepository release credentials fun registered =>
    client.run "show-chart" (Arguments.showChart release registered) none
  reading output Output.chartVersion

def answer (client : Client) : (c : HelmCall) → Shell c.Answer
  | .upgradeOrInstall request => (client.upgradeOrInstall request).run
  | .uninstall name ns dryRun => (client.uninstall name ns dryRun).run
  | .releaseInfo name ns => (client.releaseInfo name ns).run
  | .values name ns => (client.values name ns).run
  | .manifest name ns => (client.manifest name ns).run
  | .chartVersion release credentials => (client.chartVersion release credentials).run

end Client

end ReleaseOperator.Helm
