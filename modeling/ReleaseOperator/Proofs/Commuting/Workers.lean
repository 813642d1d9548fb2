import ReleaseOperator.Proofs.Commuting.Works

/-!
# Workers in two worlds

The stages of the four workers are twins of themselves, and so is a run along them: the
outcome of each stage asks for the same in both worlds, so both runs stop at the same stage.
-/

namespace ReleaseOperator

open InMemory Program

namespace Work

variable {H α : Type} {rules : Rules H} {x : Site} {s₀ t₀ : Commons H}

/-- Work that is its own twin. -/
abbrev SelfTwin (rules : Rules H) (x : Site) (s₀ t₀ : Commons H) (w : Work α)
    (rel : α → α → Prop) : Prop :=
  Twin rules x s₀ t₀ w w rel

/-- A lookup about the job at hand. -/
theorem twin_lookup {f : Job → Pass α} (hbare : ∀ j, f j.bare = f j)
    (hasks : ∀ j, Asks (fun c : Call => c.isLookup = true) (f j)) :
    SelfTwin rules x s₀ t₀ (about f) Eq := by
  refine twin_about fun j j' hj _ _ => ?_
  rw [Job.eq_of_bare hbare hj.like]
  exact Pass.twin_of_asks_lookup (hasks j')

/-- A question to Helm about the release of the job at hand. -/
theorem twin_helm {j j' : Job} (hj : x.Alike j j') {c : HelmCall} (hc : c.place = j.release.place) :
    SelfTwin rules x s₀ t₀ (ask (Pass.helm c)) Eq :=
  twin_ask fun _ _ => Pass.twin_helm (hj.place.trans (congrArg some hc.symm))

theorem twin_values (setup : Setup) :
    SelfTwin rules x s₀ t₀ (about fun j => (j.values setup).run) Eq :=
  twin_lookup (fun _ => rfl) fun j => Pass.asks_jobValues (fun _ h => h) setup j

theorem twin_credentials : SelfTwin rules x s₀ t₀ (about fun j => j.credentials.run) Eq :=
  twin_lookup (fun _ => rfl) fun _ => Pass.asks_credentials (fun _ h => h) _ _

theorem twin_setDigest (digest : String) :
    SelfTwin rules x s₀ t₀ (changeEntry fun e => e.setDigest digest) Eq :=
  twin_changeEntry fun _ _ h => congrArg (fun e : Entry => e.setDigest digest) h

theorem twin_handOver (failure : Reason) (documents : List Json)
    (credentials : Option Credentials) :
    SelfTwin rules x s₀ t₀ (handOver failure documents credentials) Outcome.Like := by
  refine twin_get fun j j' hj => ?_
  rw [← hj.release]
  refine (twin_helm hj rfl).bind ?_
  rintro (e | info) _ rfl
  · exact twin_fail failure (.helm e)
  · exact (twin_setDigest _).bind fun _ _ _ => twin_pure rfl

theorem twin_applyRelease (setup : Setup) (failure : Reason) :
    SelfTwin rules x s₀ t₀ (applyRelease setup failure) Outcome.Like := by
  refine (twin_values setup).bind ?_
  rintro (e | documents) _ rfl
  · exact twin_fail failure (.source e)
  · dsimp only
    split
    · exact (twin_setDigest _).bind fun _ _ _ => twin_pure rfl
    · refine twin_credentials.bind ?_
      rintro (e | credentials) _ rfl
      · exact twin_fail failure (.source e)
      · exact twin_handOver failure documents credentials

theorem twin_hook (moment : HookMoment) (action : Action) :
    SelfTwin rules x s₀ t₀ (hook moment action) Outcome.Like := by
  refine twin_about fun j j' _ _ _ => ?_
  intro s t hI
  exact (Pass.twin_hook moment action _ _ s t hI).mono fun _ _ _ _ h => ⟨congrArg _ h.1, h.2⟩

theorem twin_isReady (setup : Setup) : SelfTwin rules x s₀ t₀ (isReady setup) LikeAnswer :=
  twin_about fun _ _ hj _ _ => Job.twin_isReady hj.like hj.place setup

theorem twin_isGone (setup : Setup) : SelfTwin rules x s₀ t₀ (isGone setup) LikeAnswer := by
  unfold isGone
  split
  · exact twin_pure ⟨rfl, rfl⟩
  · refine twin_get fun j j' hj => ?_
    dsimp only
    rw [← hj.release]
    refine (twin_helm hj rfl).bind ?_
    rintro (e | info) _ rfl
    · exact twin_ask fun _ _ => Pass.twin_unanswered (.helm e)
    · exact twin_pure ⟨rfl, rfl⟩

theorem twin_setDesiredVersion (version : String) :
    SelfTwin rules x s₀ t₀ (changeResource fun r => r.setDesiredVersion version) Eq := by
  refine twin_changeResource ?_ ?_ ?_ ?_ ?_
  · intro r r' h
    rw [Resource.bare_setDesiredVersion, h, Resource.bare_setDesiredVersion]
  all_goals
    rintro ⟨metadata, s | s, status⟩
    · rfl
    · rfl

theorem twin_refreshRelease (setup : Setup) :
    SelfTwin rules x s₀ t₀ (modify fun j => j.refreshRelease setup) Eq := by
  intro j j' s t hj
  have hrelease : j.resource.release setup.defaults = j'.resource.release setup.defaults :=
    Resource.eq_of_bare (f := fun r => r.release setup.defaults) (fun _ => rfl) hj.alike.resource
  refine ⟨rfl, .mk' hj.alike.resource hrelease hj.alike.entry hj.alike.holds ?_, hj.hand⟩
  exact hj.alike.holds.2.trans (congrArg some (Resource.place_release j.resource _).symm)

theorem twin_pinVersion (setup : Setup) :
    SelfTwin rules x s₀ t₀ (pinVersion setup) Outcome.Like := by
  refine twin_credentials.bind ?_
  rintro (e | credentials) _ rfl
  · exact twin_fail .installFailed (.source e)
  · have hversion : SelfTwin rules x s₀ t₀
        (about fun j => Pass.helm (.chartVersion j.release credentials)) Eq := by
      refine twin_about fun j j' hj _ _ => ?_
      rw [← hj.release]
      exact Pass.twin_helm (c := .chartVersion j.release credentials) hj.place
    refine hversion.bind ?_
    rintro (e | version) _ rfl
    · exact twin_fail .installFailed (.helm e)
    · refine (twin_setDesiredVersion version).bind fun _ _ _ => ?_
      refine (twin_write Pass.twin_persistResource).bind fun o o' ho => ?_
      rw [← Outcome.requeue_eq_of_bare ho]
      split
      · exact twin_pure ho
      · exact (twin_refreshRelease setup).bind fun _ _ _ =>
          twin_ask fun _ _ => Pass.twin_shortDelay

theorem twin_preInstall (setup : Setup) :
    SelfTwin rules x s₀ t₀ (preInstall setup) Outcome.Like := by
  refine twin_get fun j j' hj => ?_
  rw [Resource.eq_of_bare (f := Resource.desiredVersion) (fun _ => rfl) hj.resource]
  split
  · exact twin_pinVersion setup
  · exact twin_hook .preWork .install

theorem twin_releaseInfo :
    SelfTwin rules x s₀ t₀
      (about fun j => Pass.helm (.releaseInfo j.release.name j.release.namespaceName)) Eq := by
  refine twin_about fun j j' hj _ _ => ?_
  rw [← hj.release]
  exact Pass.twin_helm (c := .releaseInfo j.release.name j.release.namespaceName) hj.place

theorem twin_install (setup : Setup) :
    SelfTwin rules x s₀ t₀ (install setup) Outcome.Like := by
  unfold install
  split
  · exact twin_applyRelease setup .installFailed
  · refine twin_releaseInfo.bind ?_
    rintro (e | info) _ rfl
    · exact twin_ask fun _ _ => Pass.twin_shortDelayWith (.helm e)
    · dsimp only
      split
      · exact twin_pure rfl
      · exact twin_applyRelease setup .installFailed

theorem twin_concludeInstall : SelfTwin rules x s₀ t₀ concludeInstall Outcome.Like := by
  refine (twin_conclude .installSucceeded true).bind fun o o' ho => ?_
  refine twin_get fun j j' hj => ?_
  have hmarked : j.entry.preInstall.isSome = j'.entry.preInstall.isSome := by
    have hbare := congrArg (fun e : Entry => e.preInstall.isSome) hj.entry
    simpa only [Entry.bare, Option.isSome_map] using hbare
  rw [← Outcome.requeue_eq_of_bare ho, hmarked]
  split
  · exact (twin_ask fun _ _ => Pass.twin_count .installDuration).bind fun _ _ _ => twin_pure ho
  · exact twin_pure ho

theorem twin_announceInstall : SelfTwin rules x s₀ t₀ announceInstall Outcome.Like := by
  refine (twin_ask fun _ _ => Pass.twin_now).bind fun time time' _ => ?_
  refine (twin_changeEntry ?_).bind fun _ _ _ => twin_announce .preInstall none
  intro e e' h
  rw [Entry.bare_markPreInstall, h, Entry.bare_markPreInstall]

theorem twin_uninstall (setup : Setup) :
    SelfTwin rules x s₀ t₀ (uninstall setup) Outcome.Like := by
  unfold uninstall
  split
  · exact twin_pure rfl
  · refine twin_get fun j j' hj => ?_
    dsimp only
    rw [← hj.release]
    refine (twin_helm hj rfl).bind ?_
    rintro (e | _ | info) _ rfl
    · exact twin_ask fun _ _ => Pass.twin_shortDelayWith (.helm e)
    · exact twin_pure rfl
    · refine (twin_helm hj rfl).bind ?_
      rintro (e | _) _ rfl
      · exact twin_fail .uninstallFailed (.helm e)
      · exact twin_pure rfl

/-! ### Stages and runs -/

theorem twin_enter (action : Action) (st : Stage) :
    SelfTwin rules x s₀ t₀ (enter action st) Eq :=
  (twin_ask fun _ _ => Pass.twin_count (.transition st.label action.workName)).bind fun _ _ _ =>
    twin_changeEntry fun _ _ h => congrArg (fun e : Entry => e.setStage st) h

theorem twin_step (setup : Setup) {action : Action} {st : Stage} {work : Work Outcome}
    (hmem : (st, work) ∈ (Worker.forAction setup action).steps) :
    SelfTwin rules x s₀ t₀ work Outcome.Like := by
  cases action <;>
    simp only [Worker.steps, Worker.forAction, List.mem_cons, Prod.mk.injEq, List.not_mem_nil,
      or_false] at hmem <;>
    rcases hmem with ⟨_, rfl⟩ | ⟨_, rfl⟩ | ⟨_, rfl⟩ | ⟨_, rfl⟩ | ⟨_, rfl⟩ | ⟨_, rfl⟩ | ⟨_, rfl⟩
  case install.inl => exact twin_announceInstall
  case install.inr.inl => exact twin_preInstall setup
  case install.inr.inr.inr.inl => exact twin_install setup
  case install.inr.inr.inr.inr.inr.inr => exact twin_concludeInstall
  case delete.inr.inr.inr.inl => exact twin_uninstall setup
  all_goals first
    | exact twin_pure rfl
    | exact twin_announce _ none
    | exact twin_hook _ _
    | exact twin_applyRelease setup _
    | exact twin_conclude _ _

theorem twin_isNeeded (setup : Setup) (action : Action) :
    SelfTwin rules x s₀ t₀ (Worker.forAction setup action).isNeeded LikeAnswer := by
  cases action with
  | install =>
      refine twin_get fun j j' hj => twin_pure ⟨?_, rfl⟩
      exact congrArg not (Resource.eq_of_bare Resource.isTerminal_bare hj.resource)
  | _ => exact twin_pure ⟨rfl, rfl⟩

theorem twin_isDone (setup : Setup) (action : Action) :
    SelfTwin rules x s₀ t₀ (Worker.forAction setup action).isDone LikeAnswer := by
  cases action with
  | delete => exact twin_isGone setup
  | _ => exact twin_isReady setup

/-- Stages that lead to the same, but for a delay drawn. -/
inductive LikeStage : Stage.Result → Stage.Result → Prop
  | advance : LikeStage .advance .advance
  | skip : LikeStage .skip .skip
  | stop {o o' : Outcome} (h : o.Like o') : LikeStage (.stop o) (.stop o')

theorem likeStage_ofOutcome {o o' : Outcome} (h : o.Like o') :
    LikeStage (.ofOutcome o) (.ofOutcome o') := by
  rw [Stage.Result.ofOutcome, Stage.Result.ofOutcome, ← Outcome.requeue_eq_of_bare h]
  split
  · exact .stop h
  · exact .advance

theorem twin_stage (setup : Setup) (action : Action) (st : Stage) :
    SelfTwin rules x s₀ t₀ ((Worker.forAction setup action).stage surroundings st) LikeStage := by
  have hstep : ∀ {work : Work Outcome}, (st, work) ∈ (Worker.forAction setup action).steps →
      SelfTwin rules x s₀ t₀ (Stage.Result.ofOutcome <$> work) LikeStage := by
    intro work hmem
    rw [← bind_pure_comp]
    exact (twin_step setup hmem).bind fun _ _ ho => twin_pure (likeStage_ofOutcome ho)
  cases st with
  | start => exact twin_pure .advance
  | finish => exact twin_pure .skip
  | checkNeeded =>
      refine (twin_isNeeded setup action).bind ?_
      rintro ⟨needed, o⟩ ⟨_, o'⟩ ⟨rfl, ho⟩
      dsimp only
      rw [← Outcome.requeue_eq_of_bare ho]
      refine twin_pure ?_
      split
      · exact .stop ho
      · split
        · exact .advance
        · exact .skip
  | awaitWork =>
      refine (twin_isDone setup action).bind ?_
      rintro ⟨done, o⟩ ⟨_, o'⟩ ⟨rfl, ho⟩
      dsimp only
      rw [← Outcome.requeue_eq_of_bare ho]
      split
      · exact twin_pure (.stop ho)
      · split
        · exact twin_pure .advance
        · exact (twin_ask fun _ _ => Pass.twin_shortDelay).bind fun _ _ h => twin_pure (.stop h)
  | _ => exact hstep (by simp [Worker.steps])

/-- The runs of an action stop at the same stage with like outcomes. -/
theorem twin_runAlong (setup : Setup) (action : Action) (stages : List Stage) :
    SelfTwin rules x s₀ t₀ ((Worker.forAction setup action).runAlong surroundings stages)
      Outcome.Like := by
  induction stages with
  | nil => exact twin_pure rfl
  | cons st rest ih =>
      refine (twin_stage setup action st).bind ?_
      rintro _ _ (_ | _ | ⟨ho⟩)
      · exact (twin_enter _ _).bind fun _ _ _ => ih
      · exact (twin_enter _ _).bind fun _ _ _ => twin_pure rfl
      · exact twin_pure ho

theorem twin_perform (setup : Setup) (action : Action) :
    SelfTwin rules x s₀ t₀ (perform setup action) Outcome.Like := by
  refine twin_get fun j j' hj => ?_
  rw [← hj.stage]
  exact twin_runAlong setup action _

/-! ### The work of a pass -/

theorem twin_pinnedAction : SelfTwin rules x s₀ t₀ pinnedAction LikeResult := by
  refine twin_get fun j j' hj => ?_
  rw [← hj.action]
  split
  · exact twin_pure (.ok _)
  · refine (twin_ask fun _ _ => Job.twin_chooseAction hj.like hj.place).bind ?_
    rintro _ _ (a | ⟨ho⟩)
    · refine (twin_changeEntry ?_).bind fun _ _ _ => twin_pure (.ok a)
      exact fun _ _ h => congrArg (fun e : Entry => e.pin a) h
    · exact twin_pure (.error ho)

theorem twin_runPinned (setup : Setup) :
    SelfTwin rules x s₀ t₀ (runPinned setup) Outcome.Like := by
  refine twin_pinnedAction.bind ?_
  rintro _ _ (a | ⟨ho⟩)
  · exact twin_perform setup a
  · exact twin_pure ho

theorem twin_valuesChanged (setup : Setup) :
    SelfTwin rules x s₀ t₀ (valuesChanged setup) LikeResult := by
  refine twin_get fun j j' hj => ?_
  have hwish : j.resource.wish = j'.resource.wish :=
    Resource.eq_of_bare (fun _ => rfl) hj.resource
  have hselects : j.resource.selectsUpdate = j'.resource.selectsUpdate :=
    Resource.eq_of_bare Resource.selectsUpdate_bare hj.resource
  have hdigest : j.valuesDigest setup = j'.valuesDigest setup :=
    Job.eq_of_bare (f := fun j => j.valuesDigest setup) (fun _ => rfl) hj.like
  rw [← hwish, ← hselects, ← hdigest]
  split
  · exact twin_pure (.ok false)
  · have hlookup := Pass.asks_valuesDigest (fun _ h => h) setup j
    refine (twin_ask fun _ _ => Pass.twin_of_asks_lookup hlookup).bind ?_
    rintro (e | desired) _ rfl
    · exact (twin_ask fun _ _ => Pass.twin_shortDelayWith (.source e)).bind fun _ _ h =>
        twin_pure (.error h)
    · refine (twin_ask fun _ _ => Job.twin_appliedDigest hj.like hj.place setup desired).bind ?_
      rintro _ _ (applied | ⟨ho⟩)
      · exact (twin_setDigest applied).bind fun _ _ _ => twin_pure (.ok _)
      · exact twin_pure (.error ho)

theorem twin_live (setup : Setup) : SelfTwin rules x s₀ t₀ (live setup) Outcome.Like := by
  refine twin_get fun j j' hj => ?_
  rw [← hj.stage]
  split
  · refine (twin_valuesChanged setup).bind ?_
    rintro _ _ (changed | ⟨ho⟩)
    · cases changed with
      | false => exact twin_pure rfl
      | true =>
          refine (twin_changeEntry ?_).bind fun _ _ _ => twin_runPinned setup
          exact fun _ _ h => congrArg (fun e : Entry => (e.pin .update).rearm) h
    · exact twin_pure ho
  · exact twin_runPinned setup

theorem twin_clear (setup : Setup) : SelfTwin rules x s₀ t₀ (clear setup) LikeAnswer := by
  refine (twin_perform setup .delete).bind fun o o' ho => ?_
  rw [← Outcome.requeue_eq_of_bare ho]
  split
  · exact twin_pure ⟨rfl, ho⟩
  · refine (twin_write Pass.twin_removeFinalizer).bind fun o o' ho => ?_
    rw [← Outcome.requeue_eq_of_bare ho]
    split
    · exact twin_pure ⟨rfl, ho⟩
    · exact twin_pure ⟨rfl, rfl⟩

end Work

end ReleaseOperator
