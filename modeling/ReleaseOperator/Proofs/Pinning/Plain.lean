import ReleaseOperator.Proofs.Executions.Series

/-!
# Plain work

Almost all that work asks has nothing to do with the course of the machine: it neither hands a
release over nor enters a stage. Entering is left to the machine, and a release is handed over
at a single stage, the one of the work itself. What asks for no removal of a release either is
modest, and only the work of a deletion is plain without being modest. Most of it is even
oblivious: it does not ask how any release stands.
-/

namespace ReleaseOperator

open Program

/-- A call that neither hands a release over nor counts a transition. -/
def Call.isPlain : Call → Bool
  | .helm (.upgradeOrInstall _) => false
  | .count (.transition _ _) => false
  | _ => true

/-- A call that neither hands a release over, nor has one removed, nor counts a transition. -/
def Call.isModest : Call → Bool
  | .helm (.uninstall _ _ _) => false
  | c => c.isPlain

/-- A modest call that does not ask how a release stands; it may ask for the version of a
chart. -/
def Call.isOblivious : Call → Bool
  | .helm (.chartVersion _ _) => true
  | .helm _ => false
  | c => c.isPlain

theorem Call.isModest_of_isQuiet {c : Call} (hq : c.isQuiet = true)
    (hno : c.isTransition = false) : c.isModest = true := by
  rcases c with _ | _ | (_ | _ | _ | _ | _ | _) | _ | _ | _ | (_ | _) <;>
    first | rfl | exact absurd hq Bool.false_ne_true | exact absurd hno.symm Bool.false_ne_true

theorem Call.isPlain_of_isModest {c : Call} (h : c.isModest = true) : c.isPlain = true := by
  rcases c with _ | _ | (_ | _ | _ | _ | _ | _) | _ | _ | _ | _ <;>
    first | exact h | exact absurd h Bool.false_ne_true

theorem Call.isModest_of_isOblivious {c : Call} (h : c.isOblivious = true) :
    c.isModest = true := by
  rcases c with _ | _ | (_ | _ | _ | _ | _ | _) | _ | _ | _ | _ <;>
    first | exact h | exact absurd h Bool.false_ne_true

theorem Call.isOblivious_of_isAside {c : Call} (h : c.isAside = true) : c.isOblivious = true := by
  rcases c with _ | _ | _ | _ | _ | _ | _ <;> first | rfl | exact absurd h Bool.false_ne_true

namespace Pass

variable {α : Type}

/-- A pass that asks nothing but plain questions. -/
abbrev Plain (p : Pass α) : Prop := Asks (fun c : Call => c.isPlain = true) p

/-- A pass that asks nothing but modest questions. -/
abbrev Modest (p : Pass α) : Prop := Asks (fun c : Call => c.isModest = true) p

/-- A pass that asks nothing but oblivious questions. -/
abbrev Oblivious (p : Pass α) : Prop := Asks (fun c : Call => c.isOblivious = true) p

theorem Quiet.modest {p : Pass α} (hp : Quiet p) : Modest p :=
  hp.mono fun _ hc => Call.isModest_of_isQuiet hc.1 hc.2

theorem Modest.plain {p : Pass α} (hp : Modest p) : Plain p :=
  hp.mono fun _ => Call.isPlain_of_isModest

theorem Quiet.plain {p : Pass α} (hp : Quiet p) : Plain p :=
  hp.modest.plain

theorem Oblivious.modest {p : Pass α} (hp : Oblivious p) : Modest p :=
  hp.mono fun _ => Call.isModest_of_isOblivious

theorem oblivious_now : Oblivious Pass.now := asks_now fun _ => Call.isOblivious_of_isAside

theorem oblivious_hook (moment : HookMoment) (action : Action) (release : Release) :
    Oblivious (Pass.hook moment action release) :=
  asks_hook (fun _ => Call.isOblivious_of_isAside) moment action release

theorem oblivious_shortDelay : Oblivious shortDelay :=
  asks_shortDelay fun _ => Call.isOblivious_of_isAside

theorem oblivious_shortDelayWith (f : Failure) : Oblivious (shortDelayWith f) :=
  asks_shortDelayWith (fun _ => Call.isOblivious_of_isAside) f

theorem oblivious_refused (e : ClusterError) : Oblivious (refused e) :=
  asks_refused (fun _ => Call.isOblivious_of_isAside) e

theorem oblivious_of_asks_lookup {p : Pass α}
    (hp : Asks (fun c : Call => c.isLookup = true) p) : Oblivious p :=
  hp.mono fun _ hc => Call.isOblivious_of_isAside (Call.isAside_of_isLookup hc)

theorem oblivious_chartVersion (release : Release) (credentials : Option Credentials) :
    Oblivious (Pass.helm (.chartVersion release credentials)) :=
  ⟨rfl, fun _ => trivial⟩

theorem plain_removal (name ns : String) : Plain (Pass.helm (.uninstall name ns false)) :=
  ⟨rfl, fun _ => trivial⟩

theorem oblivious_installDuration : Oblivious (Pass.count .installDuration) :=
  ⟨rfl, fun _ => trivial⟩

theorem oblivious_afterWrite (r : Resource) (answer : Except ClusterError Resource) :
    Oblivious (afterWrite r answer) := by
  cases answer with
  | ok stored => exact trivial
  | error e => exact (oblivious_refused e).bind fun _ => trivial

theorem oblivious_persistResource (r : Resource) : Oblivious (persistResource r) :=
  ⟨rfl, fun answer => oblivious_afterWrite r answer⟩

theorem oblivious_ensureFinalizer (r : Resource) : Oblivious (ensureFinalizer r) := by
  unfold ensureFinalizer
  split
  · exact trivial
  · refine (oblivious_persistResource r.addFinalizer).bind fun or => ?_
    dsimp only
    split
    · exact trivial
    · exact oblivious_shortDelay.bind fun _ => trivial

theorem oblivious_removeFinalizer (r : Resource) : Oblivious (removeFinalizer r) := by
  unfold removeFinalizer
  split
  · exact oblivious_persistResource _
  · exact trivial

theorem oblivious_persistStatus (r : Resource) : Oblivious (persistStatus r) := by
  refine ⟨rfl, ?_⟩
  rintro (e | _ | latest)
  · exact (oblivious_refused e).bind fun _ => trivial
  · exact oblivious_shortDelay.bind fun _ => trivial
  · change Oblivious (if _ then _ else _)
    split
    · exact oblivious_shortDelay.bind fun _ => trivial
    · exact ⟨rfl, fun answer => oblivious_afterWrite r answer⟩

end Pass

namespace Work

variable {α β : Type} {setup : Setup} {allowed : Call → Prop}

/-- Whatever the job, every question that the work may come to ask is an allowed one. -/
def AsksOnly (allowed : Call → Prop) (work : Work α) : Prop :=
  ∀ j, Program.Asks allowed (work.run j)

/-- Work that asks nothing but plain questions, whatever the job. -/
abbrev Plain (work : Work α) : Prop := AsksOnly (fun c => c.isPlain = true) work

/-- Work that asks nothing but modest questions, whatever the job. -/
abbrev Modest (work : Work α) : Prop := AsksOnly (fun c => c.isModest = true) work

/-- Work that asks nothing but oblivious questions, whatever the job. -/
abbrev Oblivious (work : Work α) : Prop := AsksOnly (fun c => c.isOblivious = true) work

theorem asksOnly_pure (a : α) : AsksOnly allowed (pure a) := fun _ => trivial

theorem asksOnly_get : AsksOnly allowed get := fun _ => trivial

theorem asksOnly_modify (f : Job → Job) : AsksOnly allowed (modify f) := fun _ => trivial

theorem asksOnly_ask {p : Pass α} (hp : Program.Asks allowed p) : AsksOnly allowed (ask p) :=
  fun _ => hp.bind fun _ => trivial

theorem AsksOnly.bind {work : Work α} {f : α → Work β} (h : AsksOnly allowed work)
    (hf : ∀ a, AsksOnly allowed (f a)) : AsksOnly allowed (work >>= f) :=
  fun j => (h j).bind fun x => hf x.1 x.2

theorem asksOnly_about {f : Job → Pass α} (hf : ∀ j, Program.Asks allowed (f j)) :
    AsksOnly allowed (about f) :=
  asksOnly_get.bind fun j => asksOnly_ask (hf j)

theorem Modest.plain {work : Work α} (h : Modest work) : Plain work :=
  fun j => Pass.Modest.plain (h j)

theorem Oblivious.modest {work : Work α} (h : Oblivious work) : Modest work :=
  fun j => Pass.Oblivious.modest (h j)

theorem oblivious_write {f : Resource → Pass (Outcome × Resource)}
    (hf : ∀ r, Pass.Oblivious (f r)) : Oblivious (write f) :=
  (asksOnly_about fun j => hf j.resource).bind fun _ =>
    (asksOnly_modify _).bind fun _ => asksOnly_pure _

theorem oblivious_note (reason : Reason) (detail : Option String) :
    Oblivious (note reason detail) :=
  (asksOnly_ask Pass.oblivious_now).bind fun _ => asksOnly_get.bind fun _ =>
    (asksOnly_modify _).bind fun _ => asksOnly_pure _

theorem oblivious_announce (reason : Reason) (detail : Option String) :
    Oblivious (announce reason detail) := by
  refine (oblivious_note reason detail).bind fun news => ?_
  split
  · exact oblivious_write Pass.oblivious_persistStatus
  · exact asksOnly_pure _

theorem oblivious_fail (reason : Reason) (f : Failure) : Oblivious (fail reason f) :=
  (oblivious_announce reason _).bind fun _ => asksOnly_ask (Pass.oblivious_shortDelayWith f)

theorem oblivious_conclude (reason : Reason) (reaches : Bool) :
    Oblivious (conclude reason reaches) := by
  refine asksOnly_get.bind fun j => (oblivious_note reason none).bind fun _ =>
    (asksOnly_modify _).bind fun _ => ?_
  split
  · exact (asksOnly_modify _).bind fun _ => oblivious_write Pass.oblivious_persistStatus
  · exact oblivious_write Pass.oblivious_persistStatus

theorem oblivious_announceInstall : Oblivious announceInstall :=
  (asksOnly_ask Pass.oblivious_now).bind fun _ => (asksOnly_modify _).bind fun _ =>
    oblivious_announce .preInstall none

theorem oblivious_hook (moment : HookMoment) (action : Action) : Oblivious (hook moment action) :=
  asksOnly_about fun j => Pass.oblivious_hook moment action j.release

theorem oblivious_pinVersion (setup : Setup) : Oblivious (pinVersion setup) := by
  refine (asksOnly_about fun j => Pass.oblivious_of_asks_lookup
    (Pass.asks_credentials (fun _ h => h) _ _)).bind ?_
  rintro (e | credentials)
  · exact oblivious_fail _ _
  · refine (asksOnly_about fun j => Pass.oblivious_chartVersion j.release credentials).bind ?_
    rintro (e | version)
    · exact oblivious_fail _ _
    · refine (asksOnly_modify _).bind fun _ =>
        (oblivious_write Pass.oblivious_persistResource).bind ?_
      intro o
      split
      · exact asksOnly_pure _
      · exact (asksOnly_modify _).bind fun _ => asksOnly_ask Pass.oblivious_shortDelay

theorem oblivious_preInstall (setup : Setup) : Oblivious (preInstall setup) := by
  refine asksOnly_get.bind fun j => ?_
  split
  · exact oblivious_pinVersion setup
  · exact oblivious_hook .preWork .install

theorem modest_isReady (setup : Setup) : Modest (isReady setup) :=
  asksOnly_about fun j => (Pass.quiet_isReady setup j).modest

theorem modest_isGone (setup : Setup) : Modest (isGone setup) := by
  unfold isGone
  split
  · exact asksOnly_pure _
  · refine asksOnly_get.bind fun j => (asksOnly_ask (Pass.quiet_releaseInfo _ _).modest).bind ?_
    rintro (e | info)
    · exact asksOnly_ask (Pass.quiet_unanswered (.helm e)).modest
    · exact asksOnly_pure _

theorem oblivious_concludeInstall : Oblivious concludeInstall := by
  refine (oblivious_conclude _ _).bind fun o => asksOnly_get.bind fun j => ?_
  split
  · exact (asksOnly_ask Pass.oblivious_installDuration).bind fun _ => asksOnly_pure _
  · exact asksOnly_pure _

theorem plain_uninstall (setup : Setup) : Plain (uninstall setup) := by
  unfold uninstall
  split
  · exact asksOnly_pure _
  · refine asksOnly_get.bind fun j => (asksOnly_ask (Pass.quiet_releaseInfo _ _).plain).bind ?_
    rintro (e | _ | info)
    · exact asksOnly_ask (Pass.quiet_shortDelayWith (.helm e)).plain
    · exact asksOnly_pure _
    · refine (asksOnly_ask (Pass.plain_removal _ _)).bind ?_
      rintro (e | u)
      · exact (oblivious_fail _ _).modest.plain
      · exact asksOnly_pure _

/-! ### The steps of the workers -/

theorem oblivious_isNeeded (setup : Setup) (action : Action) :
    Oblivious (Worker.forAction setup action).isNeeded := by
  cases action <;> exact fun _ => trivial

theorem modest_isDone (setup : Setup) (action : Action) :
    Modest (Worker.forAction setup action).isDone := by
  cases action with
  | delete => exact modest_isGone setup
  | install => exact modest_isReady setup
  | update => exact modest_isReady setup
  | upgrade => exact modest_isReady setup

/-- Only the work itself has to do with how a release stands. -/
theorem oblivious_step {action : Action} {st : Stage} {work : Work Outcome}
    (hmem : (st, work) ∈ (Worker.forAction setup action).steps) (hst : st ≠ .work) :
    Oblivious work := by
  cases action <;>
    simp only [Worker.steps, Worker.forAction, List.mem_cons, Prod.mk.injEq, List.not_mem_nil,
      or_false] at hmem <;>
    rcases hmem with ⟨_, rfl⟩ | ⟨_, rfl⟩ | ⟨_, rfl⟩ | ⟨rfl, _⟩ | ⟨_, rfl⟩ | ⟨_, rfl⟩ | ⟨_, rfl⟩
  case install.inl => exact oblivious_announceInstall
  case install.inr.inl => exact oblivious_preInstall setup
  case install.inr.inr.inr.inr.inr.inr => exact oblivious_concludeInstall
  all_goals first
    | exact absurd rfl hst
    | exact asksOnly_pure _
    | exact oblivious_announce _ none
    | exact oblivious_hook _ _
    | exact oblivious_conclude _ _

end Work

end ReleaseOperator
