import ReleaseOperator.Proofs.Estate.Ground

/-!
# The course of the work on a module

What the work on a module does, without the questions that it asks. A situation is the
stored module, its release and the entry of its generation. At each stage the work
either advances, which changes the situation in one of a few ways, or halts, and a course
is a sequence of advances up to the end or to a halt. In trouble every stage may halt.
-/

namespace ReleaseOperator

open InMemory

namespace Resource

/-- A resource as it is after its status was written. -/
def Restated (r r' : Resource) : Prop :=
  ∃ n status, r' = ⟨{ r.metadata with resourceVersion := n }, r.spec, status⟩

/-- An event has been recorded in the status. -/
structure Noted (reason : Reason) (r r' : Resource) : Prop where
  restated : r.Restated r'
  ends : endsIn r'.conditions reason
  phase : r'.phase = some (reason.phase .ready)
  lastVersion : r'.lastVersion = r.lastVersion

/-- A completion has been recorded in the status. -/
structure Concluded (reason : Reason) (r r' : Resource) : Prop where
  restated : r.Restated r'
  ends : endsIn r'.conditions reason
  phase : r'.phase = some (reason.phase .ready)
  lastVersion : r'.lastVersion = some r.desiredVersion
  observed : r'.observedGeneration = some r.generation

/-- A resource after it was written as a whole. -/
def Rewritten (r w r' : Resource) : Prop :=
  ∃ n gen, r.generation ≤ gen ∧
    r' = ⟨{ w.metadata with
      deletionTime := r.metadata.deletionTime
      uid := r.metadata.uid
      generation := some gen
      resourceVersion := n }, w.spec, r.status⟩

/-- A resource that says the same but for its finalizers and its generation. -/
structure Alike (r r' : Resource) : Prop where
  spec : r'.spec = r.spec
  status : r'.status = r.status
  namespaceName : r'.namespaceName = r.namespaceName
  name : r'.name = r.name

/-- The key of the release that a resource asks for. -/
def releaseKey (r : Resource) (setup : Setup) : ReleaseKey :=
  ((r.release setup.defaults).namespaceName, (r.release setup.defaults).name)

end Resource

/-- A stored resource, its release and the entry of its generation. -/
structure Situation where
  resource : Resource
  release : Option StoredRelease
  entry : Entry

/-- The event that is announced at a stage. -/
def Action.announced? : Action → Stage → Option Reason
  | .install, .announcePreWork => some .preInstall
  | .install, .announceWork => some .installStarted
  | .update, .announceWork => some .updateStarted
  | .upgrade, .announcePreWork => some .preUpgrade
  | .upgrade, .announceWork => some .upgradeStarted
  | .delete, .announcePreWork => some .preUninstall
  | .delete, .announceWork => some .uninstallStarted
  | _, _ => none

/-- The event of success. -/
def Action.success : Action → Reason
  | .install => .installSucceeded
  | .update => .updateSucceeded
  | .upgrade => .upgradeSucceeded
  | .delete => .uninstallSucceeded

/-- The event of failure. -/
def Action.failure : Action → Reason
  | .install => .installFailed
  | .update => .updateFailed
  | .upgrade => .upgradeFailed
  | .delete => .uninstallFailed

namespace Estate

open Program

variable (g : Ground) (setup : Setup)

/-- The overrides of a resource come to some documents when no call fails. -/
def Resolves (r : Resource) (documents : List Json) : Prop :=
  ∀ s, Always (conduct g False) (Sources.resolve r.namespaceName r.overrides).run s
    fun d _ => d = .ok documents

/-- The credentials for the repository of a resource are found when no call fails. -/
def Credited (r : Resource) : Prop :=
  ∃ c, ∀ s, Always (conduct g False)
    (Sources.credentials r.namespaceName (r.release setup.defaults).repository).run s
    fun d _ => d = .ok c

/-- The documents of values that a resource asks for, those of its class first. -/
def Valued (r : Resource) (documents : List Json) : Prop :=
  ∃ own, Resolves g r own ∧
    documents = (setup.baseValues (r.release setup.defaults)).toList ++ own

/-- All that is handed to Helm for a resource can be found. -/
def Provided (r : Resource) (documents : List Json) : Prop :=
  Credited g setup r ∧ Valued g setup r documents

/-- The release that a resource asks for, as Helm deploys it. -/
def wanted (r : Resource) (documents : List Json) : StoredRelease :=
  g.deployed (r.release setup.defaults) (Sources.render documents)

/-- The digest of the merge of some documents. -/
def digestOf (documents : List Json) : String := Values.digest (Values.mergeAll documents)

/-- The resource asking for the version of its chart. -/
def pinned (r : Resource) : Resource :=
  r.setDesiredVersion (g.chartVersion (r.release setup.defaults))

/-- Whether a release stands that an installation leaves as it is. -/
def stands (release : Option StoredRelease) : Bool :=
  Work.standsAlready (release.map StoredRelease.info)

/-- Whether a release is deployed at the version that a resource asks for. -/
def isAt (r : Resource) (release : Option StoredRelease) : Bool :=
  release.any fun s => Pass.isDeployedAt r.desiredVersion s.info

end Estate

namespace Situation

open Estate

variable (g : Ground) (setup : Setup)

/-- The module is looked after and has to be kept. -/
structure Tended (x : Situation) : Prop where
  acts : setup.dryRun = false
  kind : x.resource.kind = .module
  className : x.resource.className = setup.className
  stays : x.resource.isDeleting = false
  goesOn : x.resource.isTerminal = false
  action : x.entry.action ≠ some .delete

/-- The stage after the one that is done. -/
def entered (x : Situation) : Situation :=
  { x with entry := x.entry.setStage x.entry.stage.next }

/-- The first announcement of an installation is remembered, which makes no difference
to anything else. -/
def marked (x : Situation) (time : Option String) : Situation :=
  { x with entry := { x.entry with preInstall := time } }

/-- At the stage at hand there is nothing to be done. -/
def Idle (a : Action) (x : Situation) : Prop :=
  a.announced? x.entry.stage = none ∧
    (x.entry.stage = .preWork → a = .install → x.resource.desiredVersion.isEmpty = false) ∧
    x.entry.stage ∉ [.work, .awaitWork, .complete, .finish]

theorem idle_of_stage {a : Action} {x : Situation} {st : Stage} (h : x.entry.stage = st)
    (hreason : a.announced? st = none)
    (hst : st ∉ [.preWork, .work, .awaitWork, .complete, .finish]) : x.Idle a := by
  rw [← h] at hreason hst
  refine ⟨hreason, ?_, fun hmem => hst (List.mem_cons_of_mem _ hmem)⟩
  intro hpre
  rw [hpre] at hst
  exact absurd List.mem_cons_self hst

theorem idle_preWork {a : Action} {x : Situation} (h : x.entry.stage = .preWork)
    (hdesired : a = .install → x.resource.desiredVersion.isEmpty = false) : x.Idle a := by
  unfold Idle
  rw [h]
  refine ⟨?_, fun _ => hdesired, by decide⟩
  cases a <;> rfl

/-- What the work of a stage can do to go on. -/
inductive Advance (a : Action) (x : Situation) : Situation → Prop
  | idle (hidle : x.Idle a) : Advance a x x
  | announce {reason : Reason} {r : Resource} (time : Option String)
      (hreason : a.announced? x.entry.stage = some reason) (hnoted : x.resource.Noted reason r) :
      Advance a x (marked { x with resource := r } time)
  | stand (hstage : x.entry.stage = .work) (haction : a = .install)
      (hstands : stands x.release = true) : Advance a x x
  | apply {documents : List Json} (hstage : x.entry.stage = .work)
      (hprovided : Provided g setup x.resource documents)
      (hstands : a = .install → stands x.release = false) :
      Advance a x ⟨x.resource, some (wanted g setup x.resource documents),
        x.entry.setDigest (digestOf documents)⟩
  | await (hstage : x.entry.stage = .awaitWork) (hat : isAt x.resource x.release = true) :
      Advance a x x
  | conclude {r : Resource} (hstage : x.entry.stage = .complete)
      (hconcluded : x.resource.Concluded a.success r) : Advance a x { x with resource := r }

theorem Advance.stage {a : Action} {x y : Situation} (h : Advance g setup a x y) :
    y.entry.stage = x.entry.stage := by
  cases h <;> rfl

/-- What the work of a stage can do without going on. -/
inductive Halt (trouble : Prop) (a : Action) (x : Situation) : Situation → Prop
  | hindered (time : Option String)
      (hwhy : trouble ∨ ¬∃ documents, Provided g setup x.resource documents) :
      Halt trouble a x (x.marked time)
  | failed {r : Resource}
      (hwhy : trouble ∨ ¬∃ documents, Provided g setup x.resource documents)
      (hstage : x.entry.stage = .work ∨ x.entry.stage = .preWork ∧ a = .install)
      (hnoted : x.resource.Noted a.failure r) : Halt trouble a x { x with resource := r }
  | pin {r : Resource} (hstage : x.entry.stage = .preWork) (haction : a = .install)
      (hempty : x.resource.desiredVersion.isEmpty = true)
      (hwritten : x.resource.Rewritten (pinned g setup x.resource) r) :
      Halt trouble a x { x with resource := r }
  | wait (hstage : x.entry.stage = .awaitWork) (hat : isAt x.resource x.release = false) :
      Halt trouble a x x

/-- The work from a situation on: whether it asks to come back, and what it leaves. -/
inductive Course (trouble : Prop) (a : Action) : Situation → Bool → Situation → Prop
  | finish {x : Situation} (hstage : x.entry.stage = .finish) : Course trouble a x false x
  | halt {x y : Situation} (h : Halt g setup trouble a x y) : Course trouble a x true y
  | advance {x y z : Situation} {requeue : Bool} (h : Advance g setup a x y)
      (rest : Course trouble a y.entered requeue z) : Course trouble a x requeue z

/-- The digest of the values applied, as far as it is remembered or Helm knows. -/
def appliedDigest (x : Situation) (documents : List Json) : String :=
  x.entry.digest.getD
    ((x.release.map fun r => Values.digest (g.values r.documents)).getD (digestOf documents))

/-- A situation whose finished work is done again as an update. -/
def rearmed (x : Situation) (digest : String) : Situation :=
  { x with entry := ((x.entry.setDigest digest).pin .update).rearm }

/-- The work on a module that lives. -/
inductive Live (trouble : Prop) (x : Situation) : Bool → Situation → Prop
  | settled (hstage : x.entry.stage = .finish) (hselects : x.resource.selectsUpdate = false) :
      Live trouble x false x
  | hindered (hstage : x.entry.stage = .finish)
      (hwhy : trouble ∨ ¬∃ documents, Provided g setup x.resource documents) :
      Live trouble x true x
  | unchanged {documents : List Json} (hstage : x.entry.stage = .finish)
      (hselects : x.resource.selectsUpdate = true)
      (hvalued : Valued g setup x.resource documents)
      (happlied : trouble ∨ x.appliedDigest g documents = digestOf documents) :
      Live trouble x false { x with entry := x.entry.setDigest (digestOf documents) }
  | changed {documents : List Json} (hstage : x.entry.stage = .finish)
      (hselects : x.resource.selectsUpdate = true)
      (hvalued : Valued g setup x.resource documents)
      (happlied : x.appliedDigest g documents ≠ digestOf documents) {requeue : Bool}
      {y : Situation}
      (hcourse : Course g setup trouble .update (x.rearmed (x.appliedDigest g documents))
        requeue y) :
      Live trouble x requeue y
  | undecided {e : VersionError} (hstage : x.entry.stage ≠ .finish)
      (haction : x.entry.action = none) (hselect : x.resource.selectAction = .error e) :
      Live trouble x true x
  | chosen {a : Action} (hstage : x.entry.stage ≠ .finish) (haction : x.entry.action = none)
      (hselect : x.resource.selectAction = .ok a) {requeue : Bool} {y : Situation}
      (hcourse : Course g setup trouble a { x with entry := x.entry.pin a } requeue y) :
      Live trouble x requeue y
  | kept {a : Action} (hstage : x.entry.stage ≠ .finish) (haction : x.entry.action = some a)
      {requeue : Bool} {y : Situation} (hcourse : Course g setup trouble a x requeue y) :
      Live trouble x requeue y

/-- One pass over a module. -/
inductive Through (trouble : Prop) (x : Situation) : Bool → Situation → Prop
  | hindered (hwhy : trouble) : Through trouble x true x
  | hold {r : Resource} (hfinalizer : x.resource.hasFinalizer = false)
      (hwritten : x.resource.Rewritten x.resource.addFinalizer r) :
      Through trouble x true { x with resource := r }
  | live (hfinalizer : x.resource.hasFinalizer = true) {requeue : Bool} {y : Situation}
      (h : Live g setup trouble x requeue y) : Through trouble x requeue y

/-- The situation that the next pass finds: the entry is the one that was left, unless
it belongs to another generation or was not kept. -/
def Found (x : Situation) (gen : Int) (y : Situation) : Prop :=
  y.resource = x.resource ∧ y.release = x.release ∧
    (y.entry = x.entry ∧ x.resource.generation = gen ∨
      y.entry = .fresh x.resource.generation .start)

end Situation

end ReleaseOperator
