import ReleaseOperator.Proofs.Estate.Steps

/-!
# Passes on an estate follow their course

The run of an action follows a course from the situation that it starts in, the work on
a module does what `Situation.Live` says, and a pass goes through the module as
`Situation.Through` says. What is proved about courses holds of passes by
`always_reconcile_module`.
-/

namespace ReleaseOperator

open InMemory Program Situation

namespace Estate

variable {g : Ground} {trouble : Prop} {setup : Setup} {ns name : String} {x y z : Situation}
  {j : Job} {s t : Estate} {a : Action} {st : Stage} {m : Memory}

/-! ### Readiness -/

theorem always_unanswered (f : Failure) :
    Always (conduct g trouble) (Pass.unanswered f) s fun r s' => s' = s ∧ r.1 = false := by
  rw [Pass.unanswered, always_bind]
  refine (always_delayWith f).mono ?_
  rintro o s' ⟨_, rfl⟩
  exact ⟨rfl, rfl⟩

theorem always_workloadsReady (workloads : List Workload) :
    Always (conduct g trouble) (Pass.workloadsReady workloads) s fun r s' =>
      s' = s ∧ (r = (true, .done) ∨ trouble ∧ r.1 = false) := by
  induction workloads with
  | nil => exact ⟨rfl, Or.inl rfl⟩
  | cons w rest ih =>
      rw [Pass.workloadsReady, always_bind, Pass.always_cluster]
      rintro answer s' ⟨rfl, hanswer⟩
      rcases answer with e | _ | _
      · have ht : trouble := by
          rcases hanswer with h | h
          · exact absurd h (by simp)
          · exact h
        refine (always_unanswered _).mono ?_
        rintro r s'' ⟨rfl, hr⟩
        exact ⟨rfl, Or.inr ⟨ht, hr⟩⟩
      · have ht : trouble := by
          rcases hanswer with h | h
          · exact absurd h (by simp)
          · exact h
        exact ⟨rfl, Or.inr ⟨ht, rfl⟩⟩
      · exact ih

theorem always_manifestReady (release : Release) :
    Always (conduct g trouble) (Pass.manifestReady release) s fun r s' =>
      s' = s ∧ (r = (true, .done) ∨ trouble ∧ r.1 = false) := by
  rw [Pass.manifestReady, always_bind, Pass.always_helm]
  rintro answer s' ⟨rfl, ⟨text, workloads, rfl, hworkloads⟩ | ⟨ht, e, rfl⟩⟩
  · dsimp only
    rw [hworkloads]
    exact always_workloadsReady workloads
  · refine (always_unanswered _).mono ?_
    rintro r s'' ⟨rfl, hr⟩
    exact ⟨rfl, Or.inr ⟨ht, hr⟩⟩

/-- The release is ready when it is deployed at the version asked for. -/
theorem At.isReady (h : At setup ns name x j s) :
    Always (conduct g trouble) (j.isReady setup) s fun r s' =>
      s' = s ∧ (r = (isAt x.resource x.release, .done) ∨ trouble ∧ r.1 = false) := by
  have hkey : (j.release.namespaceName, j.release.name) = x.resource.releaseKey setup := by
    rw [h.job]
    rfl
  have hdesired : j.resource.desiredVersion = x.resource.desiredVersion := by
    rw [h.job]
    rfl
  rw [Job.isReady, h.tended.acts, if_neg Bool.false_ne_true, Pass.releaseReady, always_bind,
    Pass.always_helm, hdesired]
  rintro answer s' ⟨rfl, hanswer⟩
  rw [hkey, h.release] at hanswer
  cases answer with
  | error e =>
      refine (always_unanswered _).mono ?_
      rintro r s'' ⟨rfl, hr⟩
      exact ⟨rfl, Or.inr ⟨hanswer.trouble, hr⟩⟩
  | ok info =>
      obtain rfl : x.release.map StoredRelease.info = info := Except.ok.inj hanswer.ok
      cases hrelease : x.release with
      | none => exact ⟨rfl, Or.inl rfl⟩
      | some stored =>
          dsimp only [Option.map_some]
          have hat : isAt x.resource (some stored) =
            Pass.isDeployedAt x.resource.desiredVersion stored.info := rfl
          rw [hat]
          split
          · rename_i hdeployed
            rw [hdeployed]
            exact always_manifestReady _
          · rename_i hdeployed
            rw [Bool.eq_false_iff.2 hdeployed]
            exact ⟨rfl, Or.inl rfl⟩

/-! ### The run of an action -/

theorem At.enter (h : At setup ns name x j s) (a : Action) :
    AlwaysFrom (conduct g trouble) (Work.enter a x.entry.stage.next) j s fun _ =>
      At setup ns name x.entered := by
  rw [Work.always_enter]
  rintro u s' rfl
  obtain rfl := h.job
  exact ⟨h.keyed, h.stored, h.release, rfl, h.tended.acts, h.tended.kind, h.tended.className,
    h.tended.stays, h.tended.goesOn, h.tended.action⟩

/-- A run of an action has come to a stage. -/
def Reaches (g : Ground) (setup : Setup) (ns name : String) (trouble : Prop) (a : Action)
    (x : Situation) (st : Stage) (j : Job) (s : Estate) : Prop :=
  ∃ y, y.entry.stage = st ∧ At setup ns name y j s ∧
    ∀ requeue z, Course g setup trouble a y requeue z → Course g setup trouble a x requeue z

/-- A run is over: it asks to come back or is done, and has followed its course. -/
def Ends (setup : Setup) (ns name : String) (course : Bool → Situation → Prop) (o : Outcome)
    (j : Job) (s : Estate) : Prop :=
  (o.requeue = false → o = .done) ∧ ∃ y, course o.requeue y ∧ Left setup ns name y j s

theorem ends_requeue {course : Bool → Situation → Prop} {o : Outcome} (ho : o.requeue = true)
    (hcourse : course true y) (h : Left setup ns name y j s) :
    Ends setup ns name course o j s := by
  refine ⟨fun hno => ?_, y, ?_, h⟩
  · rw [ho] at hno
    exact absurd hno.symm Bool.false_ne_true
  · rw [ho]
    exact hcourse

theorem reaches_entered (hxy : ∀ requeue z, Course g setup trouble a y requeue z →
      Course g setup trouble a x requeue z) (hadvance : Advance g setup a y z)
    (hz : At setup ns name z j s) :
    AlwaysFrom (conduct g trouble) (Work.enter a y.entry.stage.next) j s fun _ =>
      Reaches g setup ns name trouble a x y.entry.stage.next := by
  rw [← hadvance.stage]
  refine (hz.enter a).mono ?_
  intro _ j' s' hentered
  exact ⟨z.entered, rfl, hentered, fun requeue z' h => hxy _ _ (.advance hadvance h)⟩

theorem reaches_of_goes {work : Work Outcome} (hxy : ∀ requeue z,
      Course g setup trouble a y requeue z → Course g setup trouble a x requeue z)
    (h : AlwaysFrom (conduct g trouble) work j s (Goes g setup ns name trouble a y)) :
    AlwaysFrom (conduct g trouble) (Stage.Result.ofOutcome <$> work) j s
      (Worker.After (conduct g trouble) a y.entry.stage (Reaches g setup ns name trouble a x)
        (Ends setup ns name (Course g setup trouble a x))) := by
  rw [Worker.always_ofOutcome]
  refine h.mono ?_
  rintro o j' s' (⟨ho, z, hhalt, hz⟩ | ⟨ho, z, hadvance, hz⟩)
  · rw [if_pos ho]
    exact ends_requeue ho (hxy _ _ (.halt hhalt)) hz
  · rw [ho, if_neg Bool.false_ne_true]
    exact reaches_entered hxy hadvance hz

/-! ### The steps of the workers -/

theorem At.isNeeded (h : At setup ns name x j s) (ha : a ≠ .delete) :
    AlwaysFrom (conduct g trouble) (Worker.forAction setup a).isNeeded j s fun r j' s' =>
      r = (true, .done) ∧ j' = j ∧ s' = s := by
  cases a with
  | install =>
      have hterminal : j.resource.isTerminal = false := by
        rw [h.job]
        exact h.tended.goesOn
      change AlwaysFrom _ (get >>= fun j : Job => pure (!j.resource.isTerminal, Outcome.done)) _ _ _
      rw [alwaysFrom_bind, alwaysFrom_get, alwaysFrom_pure, hterminal]
      exact ⟨rfl, rfl, rfl⟩
  | update => exact ⟨rfl, rfl, rfl⟩
  | upgrade => exact ⟨rfl, rfl, rfl⟩
  | delete => exact absurd rfl ha

theorem At.goes_announcePreWork (h : At setup ns name x j s)
    (hstage : x.entry.stage = .announcePreWork) (ha : a ≠ .delete) :
    AlwaysFrom (conduct g trouble) (Worker.forAction setup a).announcePreWork j s
      (Goes g setup ns name trouble a x) := by
  cases a with
  | install => exact h.announceInstall hstage
  | update => exact h.idle (idle_of_stage hstage rfl (by decide)) rfl
  | upgrade =>
      have hreason : Action.upgrade.announced? x.entry.stage = some .preUpgrade := by
        rw [hstage]
        rfl
      exact h.goes_announce hreason
  | delete => exact absurd rfl ha

theorem At.goes_preWork (h : At setup ns name x j s) (hstage : x.entry.stage = .preWork)
    (ha : a ≠ .delete) :
    AlwaysFrom (conduct g trouble) (Worker.forAction setup a).preWork j s
      (Goes g setup ns name trouble a x) := by
  cases a with
  | install => exact h.preInstall hstage
  | update => exact h.hook (idle_preWork hstage fun h => absurd h (by decide)) _ _
  | upgrade => exact h.hook (idle_preWork hstage fun h => absurd h (by decide)) _ _
  | delete => exact absurd rfl ha

theorem At.goes_announceWork (h : At setup ns name x j s)
    (hstage : x.entry.stage = .announceWork) (ha : a ≠ .delete) :
    AlwaysFrom (conduct g trouble) (Worker.forAction setup a).announceWork j s
      (Goes g setup ns name trouble a x) := by
  have hreason : ∀ reason, a.announced? .announceWork = some reason →
      a.announced? x.entry.stage = some reason := by
    intro reason hsome
    rw [hstage]
    exact hsome
  cases a with
  | install => exact h.goes_announce (hreason _ rfl)
  | update => exact h.goes_announce (hreason _ rfl)
  | upgrade => exact h.goes_announce (hreason _ rfl)
  | delete => exact absurd rfl ha

theorem At.goes_work (h : At setup ns name x j s) (hstage : x.entry.stage = .work)
    (ha : a ≠ .delete) :
    AlwaysFrom (conduct g trouble) (Worker.forAction setup a).work j s
      (Goes g setup ns name trouble a x) := by
  cases a with
  | install => exact h.install hstage
  | update => exact h.applyRelease (a := .update) hstage fun h => absurd h (by decide)
  | upgrade => exact h.applyRelease (a := .upgrade) hstage fun h => absurd h (by decide)
  | delete => exact absurd rfl ha

theorem At.goes_announcePostWork (h : At setup ns name x j s)
    (hstage : x.entry.stage = .announcePostWork) (ha : a ≠ .delete) :
    AlwaysFrom (conduct g trouble) (Worker.forAction setup a).announcePostWork j s
      (Goes g setup ns name trouble a x) := by
  have hidle : x.Idle a := idle_of_stage hstage (by cases a <;> rfl) (by decide)
  cases a with
  | install => exact h.idle hidle rfl
  | update => exact h.idle hidle rfl
  | upgrade => exact h.idle hidle rfl
  | delete => exact absurd rfl ha

theorem At.goes_postWork (h : At setup ns name x j s) (hstage : x.entry.stage = .postWork)
    (ha : a ≠ .delete) :
    AlwaysFrom (conduct g trouble) (Worker.forAction setup a).postWork j s
      (Goes g setup ns name trouble a x) := by
  have hidle : x.Idle a := idle_of_stage hstage (by cases a <;> rfl) (by decide)
  cases a with
  | install => exact h.hook hidle _ _
  | update => exact h.hook hidle _ _
  | upgrade => exact h.hook hidle _ _
  | delete => exact absurd rfl ha

theorem At.goes_complete (h : At setup ns name x j s) (hstage : x.entry.stage = .complete)
    (ha : a ≠ .delete) :
    AlwaysFrom (conduct g trouble) (Worker.forAction setup a).complete j s
      (Goes g setup ns name trouble a x) := by
  have hconclude : AlwaysFrom (conduct g trouble) (Work.conclude a.success true) j s
      (Goes g setup ns name trouble a x) := h.goes_conclude hstage
  cases a with
  | install =>
      refine Work.always_concludeInstall ?_ hconclude
      rintro o j' s' u s'' rfl hpost
      exact hpost
  | update => exact hconclude
  | upgrade => exact hconclude
  | delete => exact absurd rfl ha

theorem isDone_forAction (setup : Setup) (ha : a ≠ .delete) :
    (Worker.forAction setup a).isDone = Work.isReady setup := by
  cases a with
  | install => rfl
  | update => rfl
  | upgrade => rfl
  | delete => exact absurd rfl ha

/-- The wait for the work goes on until the release is at the version asked for. -/
theorem reaches_of_await (ha : a ≠ .delete) (hstage : y.entry.stage = .awaitWork)
    (hy : At setup ns name y j s) (hxy : ∀ requeue z,
      Course g setup trouble a y requeue z → Course g setup trouble a x requeue z) :
    AlwaysFrom (conduct g trouble)
      ((Worker.forAction setup a).stage Work.surroundings .awaitWork) j s
      (Worker.After (conduct g trouble) a .awaitWork (Reaches g setup ns name trouble a x)
        (Ends setup ns name (Course g setup trouble a x))) := by
  rw [Worker.stage, alwaysFrom_bind, isDone_forAction setup ha, Work.always_isReady]
  refine hy.isReady.mono ?_
  rintro r s' ⟨rfl, hr⟩
  rcases hr with rfl | ⟨ht, hfalse⟩
  · cases hat : isAt y.resource y.release with
    | true =>
        have hgo := reaches_entered hxy (.await hstage hat) hy
        rw [hstage] at hgo
        exact hgo
    | false =>
        have hgoes : Outcome.done.requeue = false := rfl
        dsimp only
        rw [if_neg Bool.false_ne_true, hgoes, if_neg Bool.false_ne_true, alwaysFrom_bind]
        refine (Work.always_ask _ _).2 (always_delay.mono ?_)
        rintro o s'' ⟨ho, rfl⟩
        exact ends_requeue ho (hxy _ _ (.halt (.wait hstage hat))) hy.left
  · have hstop : ∀ o : Outcome, o.requeue = true →
        Ends setup ns name (Course g setup trouble a x) o j s' := fun o ho =>
      ends_requeue ho (hxy _ _ (.halt (.hindered y.entry.preInstall (Or.inl ht)))) hy.left
    dsimp only
    split
    · rename_i ho
      exact hstop _ ho
    · rw [hfalse, if_neg Bool.false_ne_true, alwaysFrom_bind]
      refine (Work.always_ask _ _).2 (always_delay.mono ?_)
      rintro o s'' ⟨ho, rfl⟩
      exact hstop o ho

/-- Each stage leads to the next one or ends the run. -/
theorem Reaches.stage (ha : a ≠ .delete) (hst : st ≠ .finish)
    (h : Reaches g setup ns name trouble a x st j s) :
    AlwaysFrom (conduct g trouble) ((Worker.forAction setup a).stage Work.surroundings st) j s
      (Worker.After (conduct g trouble) a st (Reaches g setup ns name trouble a x)
        (Ends setup ns name (Course g setup trouble a x))) := by
  obtain ⟨y, hstage, hy, hxy⟩ := h
  have hwork : ∀ work : Work Outcome,
      AlwaysFrom (conduct g trouble) work j s (Goes g setup ns name trouble a y) →
      AlwaysFrom (conduct g trouble) (Stage.Result.ofOutcome <$> work) j s
        (Worker.After (conduct g trouble) a st (Reaches g setup ns name trouble a x)
          (Ends setup ns name (Course g setup trouble a x))) := by
    intro work hgoes
    rw [← hstage]
    exact reaches_of_goes hxy hgoes
  have hidle : y.Idle a → AlwaysFrom (conduct g trouble) (Work.enter a st.next) j s fun _ =>
      Reaches g setup ns name trouble a x st.next := by
    intro h
    rw [← hstage]
    exact reaches_entered hxy (.idle h) hy
  cases st with
  | start => exact hidle (idle_of_stage hstage (by cases a <;> rfl) (by decide))
  | checkNeeded =>
      rw [Worker.stage, alwaysFrom_bind]
      refine (hy.isNeeded ha).mono ?_
      rintro r j' s' ⟨rfl, rfl, rfl⟩
      exact hidle (idle_of_stage hstage (by cases a <;> rfl) (by decide))
  | announcePreWork => exact hwork _ (hy.goes_announcePreWork hstage ha)
  | preWork => exact hwork _ (hy.goes_preWork hstage ha)
  | announceWork => exact hwork _ (hy.goes_announceWork hstage ha)
  | work => exact hwork _ (hy.goes_work hstage ha)
  | awaitWork => exact reaches_of_await ha hstage hy hxy
  | announcePostWork => exact hwork _ (hy.goes_announcePostWork hstage ha)
  | postWork => exact hwork _ (hy.goes_postWork hstage ha)
  | complete => exact hwork _ (hy.goes_complete hstage ha)
  | finish => exact absurd rfl hst

/-- A run of an action follows its course. -/
theorem At.perform (h : At setup ns name x j s) (ha : a ≠ .delete) :
    AlwaysFrom (conduct g trouble) (Work.perform setup a) j s
      (Ends setup ns name (Course g setup trouble a x)) := by
  have haction : (Worker.forAction setup a).action = a := by cases a <;> rfl
  have hentry : j.entry.stage = x.entry.stage := by
    rw [h.job]
    rfl
  rw [Work.always_perform]
  refine Worker.always_run (Reaches g setup ns name trouble a x) _ ?_ ?_
    ⟨x, hentry.symm, h, fun _ _ hcourse => hcourse⟩
  · intro st j' s' hst hreaches
    rw [haction]
    exact hreaches.stage ha hst
  · rintro j' s' ⟨y, hstage, hy, hxy⟩
    exact ⟨fun _ => rfl, y, hxy _ _ (.finish hstage), hy.left⟩

/-! ### The work on a module that lives -/

theorem actionForVersions_eq_ok {desired last : String}
    (h : actionForVersions desired last = .ok a) : a = .upgrade ∨ a = .update := by
  unfold actionForVersions at h
  cases hcompare : Version.compareTexts desired last with
  | error e =>
      rw [hcompare] at h
      change Except.error e = Except.ok a at h
      exact absurd h (by simp)
  | ok o =>
      rw [hcompare] at h
      obtain rfl : (if o = .gt then Action.upgrade else Action.update) = a := Except.ok.inj h
      split
      · exact Or.inl rfl
      · exact Or.inr rfl

/-- A module is installed as long as an installation is pending, and after that it is
updated or upgraded. -/
theorem selectAction_eq_ok {r : Resource} (h : r.selectAction = .ok a) :
    installPending r.conditions = true ∧ a = .install ∨ a = .upgrade ∨ a = .update := by
  unfold Resource.selectAction at h
  split at h
  · rename_i hpending
    exact Or.inl ⟨hpending, (Except.ok.inj h).symm⟩
  · right
    split at h
    · split at h
      · exact Or.inr (Except.ok.inj h).symm
      · exact actionForVersions_eq_ok h
    · exact Or.inr (Except.ok.inj h).symm

theorem installPending_of_selectAction {r : Resource} (h : r.selectAction = .ok .install) :
    installPending r.conditions = true := by
  rcases selectAction_eq_ok h with ⟨hpending, _⟩ | hother | hother
  · exact hpending
  · exact absurd hother (by decide)
  · exact absurd hother (by decide)

theorem selectsUpdate_iff {r : Resource} :
    r.selectsUpdate = true ↔ r.selectAction = .ok .update := by
  unfold Resource.selectsUpdate
  constructor
  · intro h
    split at h
    · assumption
    · exact absurd h Bool.false_ne_true
  · intro h
    rw [h]

theorem selectAction_ne_delete {r : Resource} (h : r.selectAction = .ok a) : a ≠ .delete := by
  rcases selectAction_eq_ok h with ⟨_, rfl⟩ | rfl | rfl <;> decide

theorem wish_of_kind {r : Resource} (h : r.kind = .module) : r.wish = .declarative := by
  rcases r with ⟨_, _ | _, _⟩
  · rfl
  · exact absurd h (by simp [Resource.kind, Spec.kind])

theorem At.withEntry (h : At setup ns name x j s) (e : Entry) (he : e.action ≠ some .delete) :
    At setup ns name { x with entry := e } { j with entry := e } s := by
  obtain rfl := h.job
  exact ⟨h.keyed, h.stored, h.release, rfl, h.tended.acts, h.tended.kind, h.tended.className,
    h.tended.stays, h.tended.goesOn, he⟩

theorem At.chooseAction (h : At setup ns name x j s) :
    Always (conduct g trouble) j.chooseAction s fun r s' => s' = s ∧
      match x.resource.selectAction with
      | .ok a => r = .ok a
      | .error _ => ∃ o, r = .error o ∧ o.requeue = true := by
  have hresource : j.resource = x.resource := by
    rw [h.job]
    rfl
  rw [Job.chooseAction, hresource, wish_of_kind h.tended.kind]
  dsimp only
  cases x.resource.selectAction with
  | ok a => exact ⟨rfl, rfl⟩
  | error e =>
      dsimp only
      rw [always_bind]
      refine (always_delayWith _).mono ?_
      rintro o s' ⟨ho, rfl⟩
      exact ⟨rfl, o, rfl, ho⟩

/-- The action of the entry is run, or one is chosen. -/
theorem At.runPinned (h : At setup ns name x j s) (hstage : x.entry.stage ≠ .finish) :
    AlwaysFrom (conduct g trouble) (Work.runPinned setup) j s
      (Ends setup ns name (Live g setup trouble x)) := by
  have hentry : j.entry = x.entry := by
    rw [h.job]
    rfl
  rw [Work.always_runPinned, hentry]
  cases haction : x.entry.action with
  | some a =>
      have ha : a ≠ .delete := by
        rintro rfl
        exact h.tended.action haction
      refine (h.perform ha).mono ?_
      rintro o j' s' ⟨ho, y, hcourse, hleft⟩
      exact ⟨ho, y, .kept hstage haction hcourse, hleft⟩
  | none =>
      refine h.chooseAction.mono ?_
      rintro r s' ⟨rfl, hr⟩
      cases hselect : x.resource.selectAction with
      | error e =>
          rw [hselect] at hr
          obtain ⟨o, rfl, ho⟩ := hr
          exact ends_requeue ho (.undecided hstage haction hselect) h.left
      | ok a =>
          rw [hselect] at hr
          obtain rfl := hr
          have ha := selectAction_ne_delete hselect
          have hpinned := h.withEntry (x.entry.pin a) fun hdelete =>
            ha (Option.some.inj hdelete)
          refine (hpinned.perform ha).mono ?_
          rintro o j' s' ⟨ho, y, hcourse, hleft⟩
          exact ⟨ho, y, .chosen hstage haction hselect hcourse, hleft⟩

theorem At.appliedDigest (h : At setup ns name x j s) (documents : List Json) :
    Always (conduct g trouble) (j.appliedDigest setup (digestOf documents)) s fun r s' =>
      s' = s ∧ (r = .ok (x.appliedDigest g documents) ∨
        trouble ∧ (r = .ok (digestOf documents) ∨ ∃ o, r = .error o ∧ o.requeue = true)) := by
  obtain rfl := h.job
  have hentry : (Job.start setup x.resource x.entry).entry = x.entry := rfl
  have hkey : ((Job.start setup x.resource x.entry).release.namespaceName,
      (Job.start setup x.resource x.entry).release.name) = x.resource.releaseKey setup := rfl
  rw [Job.appliedDigest, Situation.appliedDigest, hentry]
  cases x.entry.digest with
  | some d => exact ⟨rfl, Or.inl rfl⟩
  | none =>
      dsimp only
      rw [h.tended.acts, if_neg Bool.false_ne_true, always_bind, Pass.always_helm]
      rintro answer s' ⟨rfl, hanswer⟩
      rw [valuesOf, hkey, h.release] at hanswer
      rcases hanswer with rfl | ⟨ht, e, rfl⟩
      · cases x.release with
        | none => exact ⟨rfl, Or.inl rfl⟩
        | some stored => exact ⟨rfl, Or.inl rfl⟩
      · cases e with
        | releaseNotFound _ _ => exact ⟨rfl, Or.inr ⟨ht, Or.inl rfl⟩⟩
        | _ =>
          rw [always_bind]
          refine (always_delayWith _).mono ?_
          rintro o s'' ⟨ho, rfl⟩
          exact ⟨rfl, Or.inr ⟨ht, Or.inr ⟨o, rfl, ho⟩⟩⟩

/-- The work on a module that lives. -/
theorem At.live (h : At setup ns name x j s) :
    AlwaysFrom (conduct g trouble) (Work.live setup) j s
      (Ends setup ns name (Live g setup trouble x)) := by
  have hresource : j.resource = x.resource := by
    rw [h.job]
    rfl
  have hentry : j.entry = x.entry := by
    rw [h.job]
    rfl
  rw [Work.always_live, hentry]
  by_cases hstage : x.entry.stage = .finish
  · rw [if_pos hstage, Work.always_valuesChanged, hresource, wish_of_kind h.tended.kind]
    cases hselects : x.resource.selectsUpdate with
    | false => exact ⟨fun _ => rfl, x, .settled hstage hselects, h.left⟩
    | true =>
        obtain ⟨v, hyields, hvalued⟩ := exists_valued g setup x.resource x.entry
        rw [← h.job] at hyields
        rw [if_neg (by decide), Job.valuesDigest_run]
        change Always _ ((fun d => d.map digestOf) <$> (j.values setup).run) s _
        rw [always_map]
        refine (hyields trouble s).mono ?_
        rintro d s₁ ⟨rfl, hd⟩
        cases d with
        | error e =>
            refine (always_delayWith _).mono ?_
            rintro o s₂ ⟨ho, rfl⟩
            refine ends_requeue ho (.hindered hstage (hd.error.imp_right ?_)) h.left
            rintro rfl ⟨documents, _, hdocuments⟩
            exact absurd ((hvalued documents).2 hdocuments) (by simp)
        | ok documents =>
            have hdocuments := (hvalued documents).1 hd.ok
            refine (h.appliedDigest documents).mono ?_
            rintro r s₂ ⟨rfl, hr⟩
            have hunchanged : (trouble ∨ x.appliedDigest g documents = digestOf documents) →
                Ends setup ns name (Live g setup trouble x) .done
                  { j with entry := j.entry.setDigest (digestOf documents) } s₂ := by
              intro happlied
              rw [hentry]
              exact ⟨fun _ => rfl, _, .unchanged hstage hselects hdocuments happlied,
                (h.withEntry (x.entry.setDigest (digestOf documents)) h.tended.action).left⟩
            rcases hr with rfl | ⟨ht, rfl | ⟨o, rfl, ho⟩⟩
            · by_cases happlied : x.appliedDigest g documents = digestOf documents
              · dsimp only
                rw [happlied, decide_eq_false fun hne => hne rfl, ← hresource]
                exact hunchanged (Or.inr happlied)
              · have hrearmed := h.withEntry (x.rearmed (x.appliedDigest g documents)).entry
                  fun hdelete => absurd (Option.some.inj hdelete) (by decide)
                dsimp only
                rw [decide_eq_true happlied, hentry, ← hresource]
                refine (Work.always_runPinned _ _).2 ((hrearmed.perform (by decide)).mono ?_)
                rintro o j' s' ⟨ho, y, hcourse, hleft⟩
                exact ⟨ho, y, .changed hstage hselects hdocuments happlied hcourse, hleft⟩
            · dsimp only
              rw [decide_eq_false fun hne => hne rfl, ← hresource]
              exact hunchanged (Or.inl ht)
            · exact ends_requeue ho (.hindered hstage (Or.inl ht)) h.left
  · rw [if_neg hstage]
    exact h.runPinned hstage

end Estate

end ReleaseOperator
