import ReleaseOperator.InMemory.Helm
import ReleaseOperator.InMemory.Store
import ReleaseOperator.Lifecycle.Reconcile

/-!
# A world in memory

All collaborators of a pass in memory, with a log of the calls and with faults that
wait for calls. A fault takes effect instead of the call that it waits for; it may
let some calls pass first.
-/

namespace ReleaseOperator.InMemory

/-- What takes the place of a call. -/
inductive Effect where
  | cluster (e : ClusterError)
  | helm (e : HelmError)
  /-- There is no such thing. -/
  | missing
  /-- Another object of the same name is there. -/
  | recreated
  /-- The release is still there after it was removed. -/
  | lingers (status : ReleaseStatus) (chartVersion : String)

/-- A fault that waits for calls of a target, after letting some pass. -/
structure Fault where
  target : String
  skip : Nat
  effect : Effect

abbrev Keys := Table (String × String × String) String

/-- The classes' answers that are still to come. -/
structure Hooks where
  preWork : List Outcome
  postWork : List Outcome

/-- All collaborators. The log has the newest call first. -/
structure World where
  modules : Store
  actions : Store
  configMaps : Keys
  secrets : Keys
  ready : List Workload
  helm : Helm
  hooks : Hooks
  faults : List Fault
  log : List Call
  tally : Tally
  /-- The text of the current time. -/
  time : String

namespace World

def empty (time : String) : World :=
  ⟨.empty, .empty, [], [], [], .empty, ⟨[], []⟩, [], [], [], time⟩

def store (w : World) : Kind → Store
  | .module => w.modules
  | .action => w.actions

def setStore (w : World) (kind : Kind) (s : Store) : World :=
  match kind with
  | .module => { w with modules := s }
  | .action => { w with actions := s }

/-- The first fault of a target: it lets the call pass, or is used up. -/
def meetFault (target : String) : List Fault → Option Effect × List Fault
  | [] => (none, [])
  | f :: rest =>
    if f.target = target then
      match f.skip with
      | 0 => (some f.effect, rest)
      | n + 1 => (none, { f with skip := n } :: rest)
    else
      let (e, rest) := meetFault target rest
      (e, f :: rest)

/-- A call that goes into the log and may meet a fault. -/
def meet (target : String) : StateM World (Option Effect) := fun w =>
  let (e, faults) := meetFault target w.faults
  (e, { w with faults })

def record (c : Call) : StateM World Unit :=
  modify fun w => { w with log := c :: w.log }

def onStore (kind : Kind) (f : Store → α × Store) : StateM World α := fun w =>
  let (a, s) := f (w.store kind)
  (a, w.setStore kind s)

def answerStore : (c : StoreCall) → StateM World c.Answer
  | .get kind ns name => do
    let stored := ((← get).store kind).get? ns name
    match ← meet "store.get" with
    | some (.cluster e) => return .error e
    | some .missing => return .ok none
    | some .recreated =>
      return .ok (stored.map fun r =>
        { r with metadata := { r.metadata with uid := some "recreated" } })
    | _ => return .ok stored
  | .update r => do
    match ← meet "store.update" with
    | some (.cluster e) => return .error e
    | _ => onStore r.kind fun s => s.update r
  | .updateStatus r => do
    match ← meet "store.update_status" with
    | some (.cluster e) => return .error e
    | _ => onStore r.kind fun s => s.updateStatus r

def answerKey (target : String) (keys : World → Keys) (key : String × String × String) :
    StateM World (Except ClusterError (Option String)) := do
  match ← meet target with
  | some (.cluster e) => return .error e
  | some .missing => return .ok none
  | _ => return .ok ((keys (← get)).get? key)

def answerCluster : (c : ClusterCall) → StateM World c.Answer
  | .configMap ns name key => answerKey "cluster.config_map" configMaps (ns, name, key)
  | .secret ns name key => answerKey "cluster.secret" secrets (ns, name, key)
  | .workloadReady workload => do
    match ← meet "cluster.workload" with
    | some (.cluster e) => return .error e
    | _ => return .ok ((← get).ready.contains workload)

def askHelm (c : HelmCall) : StateM World c.Answer := fun w =>
  let (a, helm) := w.helm.answer c
  (a, { w with helm })

def answerHelm : (c : HelmCall) → StateM World c.Answer
  | .upgradeOrInstall request => do
    match ← meet "helm.upgrade_or_install" with
    | some (.helm e) => return .error e
    | _ => askHelm (.upgradeOrInstall request)
  | .uninstall name ns dryRun => do
    match ← meet "helm.uninstall" with
    | some (.helm e) => return .error e
    | _ =>
      let a ← askHelm (.uninstall name ns dryRun)
      if let some (.lingers status version) ← meet "helm.uninstall_lingers" then
        modify fun w => { w with helm := w.helm.seed ⟨name, ns, status, version⟩ }
      return a
  | .releaseInfo name ns => do
    match ← meet "helm.release_info" with
    | some (.helm e) => return .error e
    | _ => askHelm (.releaseInfo name ns)
  | .values name ns => do
    match ← meet "helm.values" with
    | some (.helm e) => return .error e
    | _ => askHelm (.values name ns)
  | .manifest name ns => do
    match ← meet "helm.manifest" with
    | some (.helm e) => return .error e
    | _ => askHelm (.manifest name ns)
  | .chartVersion release credentials => do
    match ← meet "helm.chart_version" with
    | some (.helm e) => return .error e
    | _ => askHelm (.chartVersion release credentials)

def answerHook : HookMoment → StateM World Outcome
  | .preWork => modifyGet fun w =>
    (w.hooks.preWork.headD .done,
      { w with hooks := { w.hooks with preWork := w.hooks.preWork.drop 1 } })
  | .postWork => modifyGet fun w =>
    (w.hooks.postWork.headD .done,
      { w with hooks := { w.hooks with postWork := w.hooks.postWork.drop 1 } })

/-- The answer to any call. Delays are as short as they may be. -/
def answer : (c : Call) → StateM World c.Answer
  | .store c => do
    record (.store c)
    answerStore c
  | .cluster c => do
    record (.cluster c)
    answerCluster c
  | .helm c => do
    record (.helm c)
    answerHelm c
  | .hook moment action release => do
    record (.hook moment action release)
    answerHook moment
  | .now => do return (← get).time
  | .draw low _ ordered => return ⟨low, Nat.le_refl low, ordered⟩
  | .count c => modify fun w => { w with tally := w.tally.add c }

def perform (p : Pass α) : StateM World α := p.run answer

end World

/-- The operator in a world: its memory beside the collaborators. -/
structure Scene where
  world : World
  memory : Memory

namespace Scene

def reconcile (p : Reconcile α) (s : Scene) : α × Scene :=
  let ((a, memory), world) := (World.perform (p.run s.memory)).run s.world
  (a, ⟨world, memory⟩)

def perform (p : Pass α) (s : Scene) : α × Scene :=
  let (a, world) := (World.perform p).run s.world
  (a, { s with world })

end Scene

end ReleaseOperator.InMemory
