import ReleaseOperator.Lifecycle.Actual
import ReleaseOperator.Lifecycle.Selection
import ReleaseOperator.Lifecycle.Worker
import ReleaseOperator.Tracker.Basic

/-!
# Passes

One pass over a resource: it is read from the store and, according to what it asks
for, left alone, given its finalizer, worked on, or cleared away. The memory between
passes is two trackers, one for resources that live and one for those that are being
deleted.
-/

namespace ReleaseOperator

/-- What is remembered between passes. -/
structure Memory where
  lifecycle : Tracker
  deletion : Tracker
  deriving Repr, DecidableEq

namespace Memory

def empty : Memory := ⟨.empty, .empty⟩

def onBoth (m : Memory) (f : Tracker → Tracker) : Memory :=
  ⟨f m.lifecycle, f m.deletion⟩

def forget (m : Memory) (r : Resource) : Memory :=
  m.onBoth fun t => t.forget (.ofResource r)

def forgetNamed (m : Memory) (kind : Kind) (namespaceName name : String) : Memory :=
  m.onBoth fun t => t.forgetNamed kind.name namespaceName name

end Memory

namespace Job

/-- Whether the values that a settled resource asks for differ from those applied.
Where nothing was applied under this entry the values that Helm reports stand in,
and are remembered. -/
def appliedDigest (setup : Setup) (j : Job) (desired : String) :
    Pass (Except Outcome String) := do
  match j.entry.digest with
  | some d => return .ok d
  | none =>
    if setup.dryRun then return .ok desired
    else
      match ← Pass.helm (.values j.release.name j.release.namespaceName) with
      | .ok deployed => return .ok (Values.digest deployed)
      | .error (.releaseNotFound _ _) => return .ok desired
      | .error e => return .error (← Pass.shortDelayWith (.helm e))

/-- The action for what a release is found to be. `none` means to wait. -/
def actionForActual (j : Job) : Pass (Except Outcome Action) := do
  let (state, o) ← Pass.actualState j.release
  if o.requeue then return .error o
  else
    match state with
    | .notInstalled => return .ok .install
    | .ready =>
      let (needed, o) ← Pass.upgradeNeeded j.resource.desiredVersion j.release
      if o.requeue then return .error o
      else return .ok (if needed then .upgrade else .update)
    | _ => return .error .done

def chooseAction (j : Job) : Pass (Except Outcome Action) := do
  match j.resource.wish with
  | .delete => return .ok .delete
  | .declarative =>
    match j.resource.selectAction with
    | .ok a => return .ok a
    | .error e =>
      return .error (← Pass.shortDelayWith (.version j.resource.desiredVersion e))
  | .reconcile => j.actionForActual

end Job

namespace Work

/-- Whether the work of a settled resource is to be done again because of its
values. -/
def valuesChanged (setup : Setup) : Work (Except Outcome Bool) := do
  let j ← get
  if j.resource.wish ≠ .declarative || !j.resource.selectsUpdate then return .ok false
  else
    match ← ask (j.valuesDigest setup).run with
    | .error e => return .error (← ask (Pass.shortDelayWith (.source e)))
    | .ok desired =>
      match ← ask (j.appliedDigest setup desired) with
      | .error o => return .error o
      | .ok applied =>
        changeEntry fun e => e.setDigest applied
        return .ok (applied ≠ desired)

/-- The action of the entry, chosen and pinned if there is none yet. -/
def pinnedAction : Work (Except Outcome Action) := do
  let j ← get
  match j.entry.action with
  | some a => return .ok a
  | none =>
    match ← ask j.chooseAction with
    | .ok a =>
      changeEntry fun e => e.pin a
      return .ok a
    | .error o => return .error o

def runPinned (setup : Setup) : Work Outcome := do
  match ← pinnedAction with
  | .ok a => perform setup a
  | .error o => return o

/-- The work on a resource that lives. Finished work is done again, as an update,
when the values have changed. -/
def live (setup : Setup) : Work Outcome := do
  if (← get).entry.stage = .finish then
    match ← valuesChanged setup with
    | .error o => return o
    | .ok false => return .done
    | .ok true =>
      changeEntry fun e => (e.pin .update).rearm
      runPinned setup
  else runPinned setup

/-- The work on a resource that is being deleted: once its release is gone the
finalizer is taken away. The answer tells whether the resource is to be forgotten. -/
def clear (setup : Setup) : Work (Bool × Outcome) := do
  let o ← perform setup .delete
  if o.requeue then return (false, o)
  else
    let o ← write Pass.removeFinalizer
    if o.requeue then return (false, o) else return (true, .done)

end Work

/-- A pass: it changes the memory. -/
abbrev Reconcile := StateT Memory Pass

namespace Reconcile

/-- Work on the entry of a resource in one of the trackers. -/
def withEntry (r : Resource) (tracker : Memory → Tracker) (put : Tracker → Memory → Memory)
    (work : Entry → Pass (α × Job)) : Reconcile (α × Job) := do
  let id := ObjectId.ofResource r
  let (e, t) := (tracker (← get)).ensure id r.generation .start
  modify (put t)
  let (a, j) ← StateT.lift (work e)
  modify fun m => put ((tracker m).record id r.generation j.entry) m
  return (a, j)

def live (setup : Setup) (r : Resource) : Reconcile Outcome := do
  let (o, _) ← withEntry r Memory.lifecycle (fun t m => { m with lifecycle := t })
    fun e => StateT.run (Work.live setup) (Job.start setup r e)
  return o

/-- The pass over a resource that is being deleted. Without the finalizer there is
nothing left to do for it. -/
def clear (setup : Setup) (r : Resource) : Reconcile Outcome := do
  if r.hasFinalizer then
    let ((forget, o), j) ← withEntry r Memory.deletion (fun t m => { m with deletion := t })
      fun e => StateT.run (Work.clear setup) (Job.start setup r e)
    if forget then modify fun m => m.forget j.resource
    return o
  else
    modify fun m => m.forget r
    return .done

def found (setup : Setup) (r : Resource) : Reconcile Outcome := do
  if r.isDeleting then clear setup r
  else if r.isTerminal then return .done
  else
    match ← StateT.lift (Pass.ensureFinalizer r) with
    | (some o, _) => return o
    | (none, r) => live setup r

end Reconcile

/-- One pass over the resource of a kind, namespace and name. Only a resource of
another class is an error. -/
def reconcile (setup : Setup) (kind : Kind) (namespaceName name : String) :
    Reconcile (Except PassError Outcome) := do
  match ← StateT.lift (Pass.get kind namespaceName name) with
  | .error e => return .ok (← StateT.lift (Pass.shortDelayWith (.cluster e)))
  | .ok none =>
    modify fun m => m.forgetNamed kind namespaceName name
    return .ok .done
  | .ok (some r) =>
    if r.className ≠ setup.className then
      return .error (.invariant (kind.name ++ " " ++ namespaceName ++ "/" ++ name ++
        " is not of class " ++ setup.className))
    else return .ok (← Reconcile.found setup r)

/-- What the caller of a pass does with its end: come back, wait or, after an error,
what the policy says. Both errors and requests to come back are counted. -/
def direct (result : Except PassError Outcome) : Pass (Except PassError Directive) := do
  match result with
  | .error e => return .error e
  | .ok o =>
    let d := o.directive
    if let .ok (.requeue _) := d then Pass.count (.requeue "short-delay")
    return d

/-- The pass that an event about a resource leads to. Resources of other classes are
left to others. -/
def onEvent (setup : Setup) (r : Resource) : Reconcile (Except PassError Directive) := do
  if r.className ≠ setup.className then return .ok .awaitChange
  else
    StateT.lift (Pass.count .reconciliation)
    let result ← reconcile setup r.kind r.namespaceName r.name
    StateT.lift (Pass.count .reconciliationDuration)
    StateT.lift (direct result)

def onError (e : PassError) : Pass Directive := do
  Pass.count .reconciliationError
  if let .requeue _ := e.directive then Pass.count (.requeue "error")
  return e.directive

end ReleaseOperator
