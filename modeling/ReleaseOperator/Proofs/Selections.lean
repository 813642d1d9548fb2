import ReleaseOperator.Proofs.Estate.Convergence

/-!
# Two ways to an action

A module finds its action in its own status: it holds the version it asks for against the
version of its last success. An action that is to bring a release about asks Helm instead,
and holds the version of the installed chart against the one it asks for. The versions are
read in opposite orders and faults are told in different words, but the two ways come to the
same for every pair of versions. They part where no version is asked for: a module then takes
whatever is installed for what it wants, while an action reads the empty text as a version.
-/

namespace ReleaseOperator

open InMemory Program

/-- The failure of a version that cannot be read. -/
inductive Failure.TellsOfVersion : Failure → Prop
  | desired (version : String) (e : VersionError) : TellsOfVersion (.version version e)
  | compared (installed desired : String) (e : VersionError) :
      TellsOfVersion (.versions installed desired e)

/-- A module whose newest event is a success, which brought a version about. -/
structure Resource.Settled (r : Resource) (version : String) : Prop where
  wish : r.wish = .declarative
  success : ∃ reason ∈ Reason.completions, endsIn r.conditions reason
  version : r.lastVersion = some version

namespace Selections

variable {S S' : Type} {b : Conduct S} {b' : Conduct S'} {s : S} {s' : S'} {j j' : Job}
  {stands : S → Prop} {installed : String} {release : Release}

/-- Helm reports a release as deployed at a chart version for as long as something holds,
and asking does not end it. -/
def Reports (b : Conduct S) (release : Release) (installed : String) (stands : S → Prop) : Prop :=
  ∀ s a t, stands s → b.may s (.helm (.releaseInfo release.name release.namespaceName)) a t →
    stands t ∧ ∃ info : ReleaseInfo,
      a = .ok (some info) ∧ info.status = .deployed ∧ info.chartVersion = installed

/-- Two choices that come to the same: one action, which changes a release that is there, or
twice the fault of a version. -/
inductive Concur : Except Outcome Action → Except Outcome Action → Prop
  | upgrade : Concur (.ok .upgrade) (.ok .upgrade)
  | update : Concur (.ok .update) (.ok .update)
  | fault {o o' : Outcome} {f f' : Failure} (left : o.failure = some f)
      (right : o'.failure = some f') (tells : f.TellsOfVersion) (tells' : f'.TellsOfVersion) :
      Concur (.error o) (.error o')

theorem installPending_of_settled {r : Resource} (h : r.Settled installed) :
    installPending r.conditions = false := by
  obtain ⟨reason, hmem, hends⟩ := h.success
  rw [installPending_of_endsIn hends]
  revert hmem
  cases reason <;> decide

theorem selectAction_of_settled {r : Resource} (h : r.Settled installed)
    (hinstalled : Text.isBlankText installed = false) :
    r.selectAction =
      if r.desiredVersion.isEmpty then .ok .update
      else actionForVersions r.desiredVersion installed := by
  rw [Resource.selectAction, installPending_of_settled h, if_neg Bool.false_ne_true, h.version]
  dsimp only
  rw [hinstalled, Bool.false_or]

theorem actionForVersions_eq (desired last : String) :
    actionForVersions desired last = (Version.compareTexts desired last).map fun o =>
      if o = .gt then .upgrade else .update := by
  unfold actionForVersions
  cases Version.compareTexts desired last with
  | ok o => rfl
  | error e => rfl

/-- What a module chooses from its status. -/
theorem always_chooseAction_of_declarative (h : j.resource.wish = .declarative) :
    Always b j.chooseAction s fun choice _ =>
      match j.resource.selectAction with
      | .ok a => choice = .ok a
      | .error e => ∃ d, choice = .error (.failed d (.version j.resource.desiredVersion e)) := by
  rw [Job.chooseAction, h]
  dsimp only
  cases j.resource.selectAction with
  | ok a => rfl
  | error e =>
      dsimp only
      rw [always_bind]
      exact Pass.always_shortDelayWith fun d _ _ => ⟨d, rfl⟩

theorem always_reported (h : Reports b release installed stands) (hs : stands s)
    (part : ReleaseInfo → α) :
    Always b (Pass.reported release part) s fun v t => stands t ∧ ∃ info : ReleaseInfo,
      v = .ok (part info) ∧ info.status = .deployed ∧ info.chartVersion = installed := by
  rw [Pass.reported, always_bind, Pass.always_helm]
  intro a t hmay
  obtain ⟨ht, info, rfl, hstatus, hversion⟩ := h s a t hs hmay
  exact ⟨ht, info, rfl, hstatus, hversion⟩

theorem always_actualState (h : Reports b release installed stands) (hs : stands s) :
    Always b (Pass.actualState release) s fun r t => stands t ∧ r = (.ready, .done) := by
  rw [Pass.actualState, always_bind]
  refine (always_reported h hs ReleaseInfo.status).mono ?_
  rintro _ t ⟨ht, info, rfl, hstatus, _⟩
  refine ⟨ht, ?_⟩
  rw [hstatus]
  rfl

theorem always_upgradeNeeded (h : Reports b release installed stands) (hs : stands s)
    (desired : String) :
    Always b (Pass.upgradeNeeded desired release) s fun r _ =>
      match Version.compareTexts installed desired with
      | .ok o => r = (decide (o = .lt), .done)
      | .error e => ∃ d, r = (false, .failed d (.versions installed desired e)) := by
  rw [Pass.upgradeNeeded, always_bind]
  refine (always_reported h hs ReleaseInfo.chartVersion).mono ?_
  rintro _ t ⟨_, info, rfl, _, rfl⟩
  dsimp only
  cases Version.compareTexts info.chartVersion desired with
  | ok o => rfl
  | error e =>
      dsimp only
      rw [always_bind]
      exact Pass.always_shortDelayWith fun d _ _ => ⟨d, rfl⟩

/-- What an action chooses when its release is deployed. -/
theorem always_chooseAction_of_deployed (hwish : j.resource.wish = .reconcile)
    (h : Reports b j.release installed stands) (hs : stands s) :
    Always b j.chooseAction s fun choice _ =>
      match Version.compareTexts installed j.resource.desiredVersion with
      | .ok o => choice = .ok (if o = .lt then .upgrade else .update)
      | .error e => ∃ d,
          choice = .error (.failed d (.versions installed j.resource.desiredVersion e)) := by
  rw [Job.chooseAction, hwish]
  dsimp only
  rw [Job.actionForActual, always_bind]
  refine (always_actualState h hs).mono ?_
  rintro _ t ⟨ht, rfl⟩
  dsimp only
  rw [if_neg (by decide), always_bind]
  refine (always_upgradeNeeded h ht j.resource.desiredVersion).mono ?_
  intro r t' hr
  split at hr
  · obtain rfl := hr
    dsimp only
    rw [if_neg (by decide)]
    simp only [decide_eq_true_eq]
    rfl
  · obtain ⟨d, rfl⟩ := hr
    exact ⟨d, rfl⟩

/-- When a version is asked for, a module that has settled and an action whose release is
deployed at the same version come to the same. -/
theorem concur_of_version (hsettled : j.resource.Settled installed)
    (hinstalled : Text.isBlankText installed = false) (hwish : j'.resource.wish = .reconcile)
    (hdesired : j'.resource.desiredVersion = j.resource.desiredVersion)
    {stands : S' → Prop} (hreports : Reports b' j'.release installed stands) (hs : stands s')
    (hasked : j.resource.desiredVersion ≠ "") {choice choice' : Except Outcome Action} {t : S}
    {t' : S'} (hrun : Runs b j.chooseAction s choice t)
    (hrun' : Runs b' j'.chooseAction s' choice' t') : Concur choice choice' := by
  have hchoice := always_iff_runs.1 (always_chooseAction_of_declarative hsettled.wish) _ _ hrun
  rw [selectAction_of_settled hsettled hinstalled, actionForVersions_eq,
    if_neg (by simpa using hasked)] at hchoice
  have hchoice' := always_iff_runs.1 (always_chooseAction_of_deployed hwish hreports hs) _ _ hrun'
  rw [hdesired] at hchoice'
  cases hcompare : Version.compareTexts installed j.resource.desiredVersion with
  | ok o =>
      rw [Version.compareTexts_swap hcompare] at hchoice
      rw [hcompare] at hchoice'
      obtain rfl := hchoice
      obtain rfl := hchoice'
      cases o with
      | lt => exact .upgrade
      | eq => exact .update
      | gt => exact .update
  | error e =>
      obtain ⟨e', hswap⟩ := Version.exists_error_compareTexts_swap hcompare
      rw [hswap] at hchoice
      rw [hcompare] at hchoice'
      obtain ⟨d, rfl⟩ := hchoice
      obtain ⟨d', rfl⟩ := hchoice'
      exact .fault rfl rfl (.desired _ _) (.compared _ _ _)

/-- When no version is asked for, the module is updated, and the action finds that nothing can
be compared. -/
theorem part_without_version (hsettled : j.resource.Settled installed)
    (hinstalled : Text.isBlankText installed = false) (hwish : j'.resource.wish = .reconcile)
    (hdesired : j'.resource.desiredVersion = j.resource.desiredVersion)
    {stands : S' → Prop} (hreports : Reports b' j'.release installed stands) (hs : stands s')
    (hnone : j.resource.desiredVersion = "") {choice choice' : Except Outcome Action} {t : S}
    {t' : S'} (hrun : Runs b j.chooseAction s choice t)
    (hrun' : Runs b' j'.chooseAction s' choice' t') :
    choice = .ok .update ∧ ∃ d e, choice' = .error (.failed d (.versions installed "" e)) := by
  have hchoice := always_iff_runs.1 (always_chooseAction_of_declarative hsettled.wish) _ _ hrun
  rw [selectAction_of_settled hsettled hinstalled, hnone, if_pos (by decide)] at hchoice
  have hchoice' := always_iff_runs.1 (always_chooseAction_of_deployed hwish hreports hs) _ _ hrun'
  rw [hdesired, hnone] at hchoice'
  refine ⟨hchoice, ?_⟩
  cases hcompare : Version.compareTexts installed "" with
  | ok o =>
      obtain ⟨_, w, _, hw, _⟩ := Version.compareTexts_eq_ok.1 hcompare
      cases hw
  | error e =>
      rw [hcompare] at hchoice'
      obtain ⟨d, rfl⟩ := hchoice'
      exact ⟨d, e, rfl⟩

/-- A module that has settled and an action whose release is deployed at the same version come
to the same action, or to the fault of a version, if and only if they ask for a version. -/
theorem concur_iff_version_asked_for (hsettled : j.resource.Settled installed)
    (hinstalled : Text.isBlankText installed = false) (hwish : j'.resource.wish = .reconcile)
    (hdesired : j'.resource.desiredVersion = j.resource.desiredVersion)
    {stands : S' → Prop} (hreports : Reports b' j'.release installed stands) (hs : stands s') :
    (∀ choice t choice' t', Runs b j.chooseAction s choice t →
        Runs b' j'.chooseAction s' choice' t' → Concur choice choice') ↔
      j.resource.desiredVersion ≠ "" := by
  constructor
  · intro hconcur hnone
    obtain ⟨choice, t, hrun⟩ := exists_runs (b := b) j.chooseAction s
    obtain ⟨choice', t', hrun'⟩ := exists_runs (b := b') j'.chooseAction s'
    have hagree := hconcur _ _ _ _ hrun hrun'
    obtain ⟨rfl, d, e, rfl⟩ :=
      part_without_version hsettled hinstalled hwish hdesired hreports hs hnone hrun hrun'
    cases hagree
  · intro hasked choice t choice' t' hrun hrun'
    exact concur_of_version hsettled hinstalled hwish hdesired hreports hs hasked hrun hrun'

/-- On an estate where nothing fails Helm reports what is deployed. -/
theorem reports_deployed {g : Ground} {stored : StoredRelease} (release : Release)
    (h : stored.info.status = .deployed) :
    Reports (Estate.conduct g False) release stored.info.chartVersion fun s =>
      s.releases.get? (release.namespaceName, release.name) = some stored := by
  rintro s a t hs ⟨rfl, ha⟩
  refine ⟨hs, stored.info, ?_, h, rfl⟩
  rw [ha.eq, hs]
  rfl

/-! ### A module and an action to compare -/

/-- The module `web` that was installed at version 0.1.0 and asks for a version. -/
def settledModule (version : String) : Resource :=
  { trialModule with
    spec := trialSpec version 1
    status := some { Status.empty with
      phase := some .ready
      conditions := [⟨Condition.readyType, Reason.installSucceeded.name, .yes, "", none⟩]
      lastVersion := some "0.1.0" } }

/-- An action that is to bring the release `web` to a version. -/
def askingAction (version : String) : Resource :=
  { metadata := trialModule.metadata
    spec := .action ⟨"helm", .reconcile, version, ⟨"web", "default", ⟨"web", "", "/charts/web"⟩,
      .none, []⟩⟩
    status := none }

/-- The release `web` at version 0.1.0. -/
def deployedRelease : StoredRelease := ⟨⟨"web", "default", .deployed, "0.1.0"⟩, []⟩

/-- The estate in which Helm has deployed the release `web`. -/
def deployedEstate : Estate := ⟨trialStore trialModule, [(("default", "web"), deployedRelease)]⟩

/-- Work on the module and on the action from the start. -/
def moduleJob (version : String) : Job :=
  .start trialSetup (settledModule version) (.fresh 1 .start)

@[inherit_doc moduleJob]
def actionJob (version : String) : Job :=
  .start trialSetup (askingAction version) (.fresh 1 .start)

theorem settled_moduleJob (version : String) : (moduleJob version).resource.Settled "0.1.0" :=
  ⟨rfl, ⟨.installSucceeded, by decide, _, rfl, rfl⟩, rfl⟩

theorem wish_actionJob (version : String) : (actionJob version).resource.wish = .reconcile := rfl

theorem reports_deployedRelease (release : Release) :
    Reports (Estate.conduct Estate.trialGround False) release "0.1.0" fun s =>
      s.releases.get? (release.namespaceName, release.name) = some deployedRelease :=
  reports_deployed release rfl

/-- The hypotheses of `concur_iff_version_asked_for` hold of a module and an action that ask
for a newer version, and they come to the same. -/
theorem concur_on_newer_version :
    (moduleJob "v0.2.0").resource.Settled "0.1.0" ∧
      ∀ choice t choice' t',
        Runs (Estate.conduct Estate.trialGround False) (moduleJob "v0.2.0").chooseAction
          deployedEstate choice t →
        Runs (Estate.conduct Estate.trialGround False) (actionJob " v0.2.0").chooseAction
          deployedEstate choice' t' → Concur choice choice' :=
  ⟨settled_moduleJob _,
    (concur_iff_version_asked_for (settled_moduleJob _) (by decide) (wish_actionJob _) (by decide)
      (reports_deployedRelease _) rfl).2 (by decide)⟩

/-- A module and an action that ask for no version do not come to the same: the module is
updated, and the action comes back with the fault of a version. -/
theorem parted_without_version :
    ¬ ∀ choice t choice' t',
      Runs (Estate.conduct Estate.trialGround False) (moduleJob "").chooseAction
        deployedEstate choice t →
      Runs (Estate.conduct Estate.trialGround False) (actionJob "").chooseAction
        deployedEstate choice' t' → Concur choice choice' := by
  intro hconcur
  obtain ⟨choice, t, hrun⟩ := exists_runs (b := Estate.conduct Estate.trialGround False)
    (moduleJob "").chooseAction deployedEstate
  obtain ⟨choice', t', hrun'⟩ := exists_runs (b := Estate.conduct Estate.trialGround False)
    (actionJob "").chooseAction deployedEstate
  have hagree := hconcur _ _ _ _ hrun hrun'
  obtain ⟨rfl, d, e, rfl⟩ := part_without_version (settled_moduleJob "") (by decide)
    (wish_actionJob "") rfl (reports_deployedRelease _) rfl rfl hrun hrun'
  cases hagree

end Selections

end ReleaseOperator
