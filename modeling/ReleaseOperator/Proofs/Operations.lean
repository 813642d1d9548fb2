import ReleaseOperator.Proofs.Questions

/-!
# What each operation asks

One equation for each operation of a pass: what has to hold of it is spelled out as what
has to hold of its questions, in their order. The equations hold under every behaviour,
so the proofs about a particular one start here and do not open the operations.
-/

namespace ReleaseOperator

/-!
## Stage by stage

The run of a worker goes along the stages that are left. A condition for each stage is
carried along it: the work of a stage, and the entering of the next one, has to lead
from the condition of the one to that of the other.
-/

open Program

variable {S α : Type} {b : Conduct S} {j : Job} {s : S}

namespace Worker

/-- What a stage has to lead to: to the condition of the stage entered next, or to the
one for the end of the run. -/
def After (b : Conduct S) (action : Action) (st : Stage) (next : Stage → Job → S → Prop)
    (stop : Outcome → Job → S → Prop) : Stage.Result → Job → S → Prop
  | .advance, j, s => AlwaysFrom b (Work.enter action st.next) j s fun _ => next st.next
  | .skip, j, s => AlwaysFrom b (Work.enter action .finish) j s fun _ => stop .done
  | .stop o, j, s => stop o j s

theorem headD_upcoming {st : Stage} : st.upcoming.headD .finish = st := by
  by_cases h : st = .finish
  · rw [h]
    rfl
  · rw [Stage.upcoming_eq_cons h]
    rfl

/-- The loop behind a run, whatever the worker works in. -/
theorem run_of_ne_finish {m : Type → Type} [Monad m] {w : Worker m} {around : Surroundings m}
    {st : Stage} (h : st ≠ .finish) :
    w.run around st = (do
      match ← w.stage around st with
      | .stop o => return o
      | .skip =>
        around.enter w.action .finish
        return .done
      | .advance =>
        around.enter w.action st.next
        w.run around st.next) := by
  rw [Worker.run, Stage.upcoming_eq_cons h, runAlong, headD_upcoming]
  rfl

variable {w : Worker Work}

/-- A condition that each stage hands on to the next one holds wherever a run gets. -/
theorem always_run (next : Stage → Job → S → Prop) (stop : Outcome → Job → S → Prop)
    (hstage : ∀ st j s, st ≠ .finish → next st j s →
      AlwaysFrom b (w.stage Work.surroundings st) j s (After b w.action st next stop))
    (hfinish : ∀ j s, next .finish j s → stop .done j s) {st : Stage} {j : Job} {s : S}
    (h : next st j s) :
    AlwaysFrom b (w.run Work.surroundings st) j s stop := by
  by_cases hst : st = .finish
  · subst hst
    exact hfinish j s h
  · rw [run_of_ne_finish hst, alwaysFrom_bind]
    refine (hstage st j s hst h).mono ?_
    rintro (_ | _ | o) j' s' hres
    · rw [alwaysFrom_bind]
      have henter : AlwaysFrom b (Work.enter w.action st.next) j' s' fun _ => next st.next := hres
      refine henter.mono ?_
      intro _ j'' s'' hnext
      have : st.next.rank = st.rank + 1 := Stage.rank_next hst
      exact always_run next stop hstage hfinish hnext
    · rw [alwaysFrom_bind]
      exact hres
    · exact hres
termination_by 10 - st.rank
decreasing_by
  have h10 : st.rank < 10 := by
    cases st <;> first | decide | exact absurd rfl hst
  omega

/-- Work that ends in an outcome stops the run or goes on. -/
theorem always_ofOutcome {action : Action} {st : Stage} {next : Stage → Job → S → Prop}
    {stop : Outcome → Job → S → Prop} (work : Work Outcome) :
    AlwaysFrom b (Stage.Result.ofOutcome <$> work) j s (After b action st next stop) ↔
      AlwaysFrom b work j s fun o j' s' =>
        if o.requeue then stop o j' s'
        else AlwaysFrom b (Work.enter action st.next) j' s' fun _ => next st.next := by
  rw [alwaysFrom_map]
  refine alwaysFrom_congr fun o j' s' => ?_
  unfold Stage.Result.ofOutcome
  split
  · exact Iff.rfl
  · exact Iff.rfl

end Worker

/-! ## One equation for each operation -/

namespace Pass

/-- A refused write is tried again later. -/
theorem always_refused_requeue (e : ClusterError) :
    Always b (refused e) s fun o _ => o.requeue = true := by
  unfold refused
  split
  · exact always_shortDelay fun _ _ _ => rfl
  · exact always_shortDelayWith fun _ _ _ => rfl

theorem always_afterWrite (r : Resource) (answer : Except ClusterError Resource)
    (post : Outcome × Resource → S → Prop) :
    Always b (afterWrite r answer) s post ↔
      match answer with
      | .ok stored => post (.done, stored) s
      | .error e => Always b (refused e) s fun o s' => post (o, r) s' := by
  cases answer with
  | ok stored => exact Iff.rfl
  | error e =>
      unfold afterWrite
      rw [always_bind]
      exact Iff.rfl

/-- The status is put onto what the store holds, unless that is another object. -/
theorem always_persistStatus (r : Resource) (post : Outcome × Resource → S → Prop) :
    Always b (persistStatus r) s post ↔
      ∀ a s', b.may s (.store (.get r.kind r.namespaceName r.name)) a s' →
        match a with
        | .error e => Always b (refused e) s' fun o s'' => post (o, r) s''
        | .ok none => Always b shortDelay s' fun o s'' => post (o, r) s''
        | .ok (some latest) =>
          if latest.metadata.uid ≠ r.metadata.uid then
            Always b shortDelay s' fun o s'' => post (o, r) s''
          else
            ∀ a' s'', b.may s' (.store (.updateStatus (latest.copyStatus r))) a' s'' →
              Always b (afterWrite r a') s'' post := by
  rw [persistStatus, always_bind, always_get]
  refine forall_congr' fun a => forall_congr' fun s' => imp_congr_right fun _ => ?_
  rcases a with e | _ | latest
  · dsimp only
    rw [always_bind]
    exact Iff.rfl
  · dsimp only
    rw [always_bind]
    exact Iff.rfl
  · dsimp only
    split
    · rw [always_bind]
      exact Iff.rfl
    · rw [always_bind, always_updateStatus]

theorem always_persistResource (r : Resource) (post : Outcome × Resource → S → Prop) :
    Always b (persistResource r) s post ↔
      ∀ a s', b.may s (.store (.update r)) a s' → Always b (afterWrite r a) s' post := by
  rw [persistResource, always_bind, always_update]

/-- A pass that puts the finalizer on ends there, whether it could be written or not. -/
theorem always_ensureFinalizer (r : Resource) (post : Option Outcome × Resource → S → Prop) :
    Always b (ensureFinalizer r) s post ↔
      if r.hasFinalizer then post (none, r) s
      else
        Always b (persistResource r.addFinalizer) s fun or s' =>
          if or.1.requeue then post (some or.1, or.2) s'
          else Always b shortDelay s' fun o s'' => post (some o, or.2) s'' := by
  unfold ensureFinalizer
  split
  · exact Iff.rfl
  · rw [always_bind]
    refine always_congr fun or s' => ?_
    dsimp only
    split
    · exact Iff.rfl
    · rw [always_bind]
      exact Iff.rfl

theorem always_removeFinalizer (r : Resource) (post : Outcome × Resource → S → Prop) :
    Always b (removeFinalizer r) s post ↔
      if r.hasFinalizer then Always b (persistResource r.removeFinalizer) s post
      else post (.done, r) s := by
  unfold removeFinalizer
  split
  · exact Iff.rfl
  · exact Iff.rfl

end Pass

namespace Job

/-- The resource of a job with an event recorded. -/
def noted (j : Job) (reason : Reason) (detail : Option String) (time : String) : Resource :=
  j.resource.recordReady reason (j.message reason detail) time

/-- Whether an event is news for the status of a job. -/
def isNews (j : Job) (reason : Reason) (detail : Option String) (time : String) : Bool :=
  j.resource.accepts (.ofReason reason (j.message reason detail) time) ||
    j.resource.phase ≠ (j.noted reason detail time).phase

theorem values_run (setup : Setup) (j : Job) :
    (j.values setup).run =
      (fun d => d.map fun documents => (setup.baseValues j.release).toList ++ documents) <$>
        (Sources.resolve j.resource.namespaceName j.resource.overrides).run := by
  rw [Job.values, ExceptT.run_bind, map_eq_pure_bind]
  congr 1
  funext d
  cases d with
  | ok documents => rfl
  | error e => rfl

theorem valuesDigest_run (setup : Setup) (j : Job) :
    (j.valuesDigest setup).run =
      (fun d => d.map fun documents => Values.digest (Values.mergeAll documents)) <$>
        (j.values setup).run := by
  rw [Job.valuesDigest, ExceptT.run_bind, map_eq_pure_bind]
  congr 1
  funext d
  cases d with
  | ok documents => rfl
  | error e => rfl

end Job

namespace Work

theorem always_note (reason : Reason) (detail : Option String) (post : Bool → Job → S → Prop) :
    AlwaysFrom b (note reason detail) j s post ↔
      Always b Pass.now s fun time s' =>
        post (j.isNews reason detail time) { j with resource := j.noted reason detail time }
          s' := by
  rw [note, alwaysFrom_bind, Work.always_ask]
  exact Iff.rfl

theorem always_write (f : Resource → Pass (Outcome × Resource)) (post : Outcome → Job → S → Prop) :
    AlwaysFrom b (write f) j s post ↔
      Always b (f j.resource) s fun or s' => post or.1 { j with resource := or.2 } s' := by
  rw [write, alwaysFrom_bind, Work.always_about]
  exact Iff.rfl

/-- An event is written only when it is news. -/
theorem always_announce (reason : Reason) (detail : Option String)
    (post : Outcome → Job → S → Prop) :
    AlwaysFrom b (announce reason detail) j s post ↔
      Always b Pass.now s fun time s' =>
        if j.isNews reason detail time then
          Always b (Pass.persistStatus (j.noted reason detail time)) s' fun or s'' =>
            post or.1 { j with resource := or.2 } s''
        else post .done { j with resource := j.noted reason detail time } s' := by
  rw [announce, alwaysFrom_bind, always_note]
  refine always_congr fun time s' => ?_
  split
  · rw [always_write]
  · exact Iff.rfl

/-- A failure is told whether or not it could be written. -/
theorem always_fail (reason : Reason) (f : Failure) (post : Outcome → Job → S → Prop) :
    AlwaysFrom b (fail reason f) j s post ↔
      AlwaysFrom b (announce reason (some f.text)) j s fun _ j' s' =>
        Always b (Pass.shortDelayWith f) s' fun o s'' => post o j' s'' := by
  rw [fail, alwaysFrom_bind]
  exact Iff.rfl

/-- The resource of a job with its completion recorded. -/
def concluded (j : Job) (reason : Reason) (reachesVersion : Bool) (time : String) : Resource :=
  let r := (j.noted reason none time).setObservedGeneration j.resource.generation
  if reachesVersion then r.recordSuccess r.desiredVersion j.resource.generation else r

theorem always_conclude (reason : Reason) (reachesVersion : Bool)
    (post : Outcome → Job → S → Prop) :
    AlwaysFrom b (conclude reason reachesVersion) j s post ↔
      Always b Pass.now s fun time s' =>
        Always b (Pass.persistStatus (concluded j reason reachesVersion time)) s' fun or s'' =>
          post or.1 { j with resource := or.2 } s'' := by
  rw [conclude, alwaysFrom_bind, alwaysFrom_get, alwaysFrom_bind, always_note]
  refine always_congr fun time s' => ?_
  rw [alwaysFrom_bind, always_changeResource]
  cases reachesVersion with
  | true =>
      simp only [↓reduceIte]
      rw [alwaysFrom_bind, always_changeResource, always_write]
      exact Iff.rfl
  | false => exact always_write _ _

/-! ### Applying and removing -/

theorem always_handOver (failure : Reason) (documents : List Json)
    (credentials : Option Credentials) (post : Outcome → Job → S → Prop) :
    AlwaysFrom b (handOver failure documents credentials) j s post ↔
      ∀ a s', b.may s (.helm (.upgradeOrInstall
          ⟨j.release, credentials, Sources.render documents, false, false⟩)) a s' →
        match a with
        | .ok _ =>
          post .done { j with
            entry := j.entry.setDigest (Values.digest (Values.mergeAll documents)) } s'
        | .error e => AlwaysFrom b (fail failure (.helm e)) j s' post := by
  rw [handOver, alwaysFrom_bind, alwaysFrom_get, alwaysFrom_bind, Work.always_ask,
    Pass.always_helm]
  refine forall_congr' fun a => forall_congr' fun s' => imp_congr_right fun _ => ?_
  cases a with
  | ok info => exact Iff.rfl
  | error e => exact Iff.rfl

/-- Values and credentials are looked up before a release is handed over. -/
theorem always_applyRelease (setup : Setup) (failure : Reason) (post : Outcome → Job → S → Prop) :
    AlwaysFrom b (applyRelease setup failure) j s post ↔
      Always b (j.values setup).run s fun v s' =>
        match v with
        | .error e => AlwaysFrom b (fail failure (.source e)) j s' post
        | .ok documents =>
          if setup.dryRun then
            post .done { j with
              entry := j.entry.setDigest (Values.digest (Values.mergeAll documents)) } s'
          else
            Always b j.credentials.run s' fun c s'' =>
              match c with
              | .error e => AlwaysFrom b (fail failure (.source e)) j s'' post
              | .ok credentials =>
                AlwaysFrom b (handOver failure documents credentials) j s'' post := by
  rw [applyRelease, alwaysFrom_bind, Work.always_about]
  refine always_congr fun v s' => ?_
  cases v with
  | error e => exact Iff.rfl
  | ok documents =>
      dsimp only
      split
      · exact Iff.rfl
      · rw [alwaysFrom_bind, Work.always_about]
        refine always_congr fun c s'' => ?_
        cases c with
        | error e => exact Iff.rfl
        | ok credentials => exact Iff.rfl

/-- A version that was looked up is written, and the work stops there. -/
theorem always_pinVersion (setup : Setup) (post : Outcome → Job → S → Prop) :
    AlwaysFrom b (pinVersion setup) j s post ↔
      Always b j.credentials.run s fun c s' =>
        match c with
        | .error e => AlwaysFrom b (fail .installFailed (.source e)) j s' post
        | .ok credentials =>
          ∀ a s'', b.may s' (.helm (.chartVersion j.release credentials)) a s'' →
            match a with
            | .error e => AlwaysFrom b (fail .installFailed (.helm e)) j s'' post
            | .ok version =>
              Always b (Pass.persistResource (j.resource.setDesiredVersion version)) s''
                fun or t =>
                  if or.1.requeue then post or.1 { j with resource := or.2 } t
                  else Always b Pass.shortDelay t fun o t' =>
                    post o (Job.refreshRelease { j with resource := or.2 } setup) t' := by
  rw [pinVersion, alwaysFrom_bind, Work.always_about]
  refine always_congr fun c s' => ?_
  cases c with
  | error e => exact Iff.rfl
  | ok credentials =>
      dsimp only
      rw [alwaysFrom_bind, Work.always_about, Pass.always_helm]
      refine forall_congr' fun a => forall_congr' fun s'' => imp_congr_right fun _ => ?_
      cases a with
      | error e => exact Iff.rfl
      | ok version =>
          dsimp only
          rw [alwaysFrom_bind, always_changeResource, alwaysFrom_bind, always_write]
          refine always_congr fun or t => ?_
          split
          · exact Iff.rfl
          · rw [alwaysFrom_bind, alwaysFrom_modify, Work.always_ask]

theorem always_preInstall (setup : Setup) (post : Outcome → Job → S → Prop) :
    AlwaysFrom b (preInstall setup) j s post ↔
      if j.resource.desiredVersion.isEmpty then AlwaysFrom b (pinVersion setup) j s post
      else AlwaysFrom b (hook .preWork .install) j s post := by
  rw [preInstall, alwaysFrom_bind, alwaysFrom_get]
  split
  · exact Iff.rfl
  · exact Iff.rfl

theorem always_install (setup : Setup) (post : Outcome → Job → S → Prop) :
    AlwaysFrom b (install setup) j s post ↔
      if setup.dryRun then AlwaysFrom b (applyRelease setup .installFailed) j s post
      else
        ∀ a s', b.may s (.helm (.releaseInfo j.release.name j.release.namespaceName)) a s' →
          match a with
          | .error e => Always b (Pass.shortDelayWith (.helm e)) s' fun o s'' => post o j s''
          | .ok info =>
            if standsAlready info then post .done j s'
            else AlwaysFrom b (applyRelease setup .installFailed) j s' post := by
  unfold install
  split
  · exact Iff.rfl
  · rw [alwaysFrom_bind, Work.always_about, Pass.always_helm]
    refine forall_congr' fun a => forall_congr' fun s' => imp_congr_right fun _ => ?_
    cases a with
    | error e => exact Work.always_ask _ _
    | ok info =>
        dsimp only
        split
        · exact Iff.rfl
        · exact Iff.rfl

theorem always_announceInstall (post : Outcome → Job → S → Prop) :
    AlwaysFrom b announceInstall j s post ↔
      Always b Pass.now s fun time s' =>
        AlwaysFrom b (announce .preInstall none)
          { j with entry := j.entry.markPreInstall time } s' post := by
  rw [announceInstall, alwaysFrom_bind, Work.always_ask]
  exact Iff.rfl

/-- What is counted after an installation makes no difference to an invariant that
counting keeps. -/
theorem always_concludeInstall {post : Outcome → Job → S → Prop}
    (hcount : ∀ o j' s' u s'', b.may s' (.count .installDuration) u s'' → post o j' s' →
      post o j' s'')
    (h : AlwaysFrom b (conclude .installSucceeded true) j s post) :
    AlwaysFrom b concludeInstall j s post := by
  rw [concludeInstall, alwaysFrom_bind]
  refine h.mono ?_
  intro o j' s' hpost
  rw [alwaysFrom_bind, alwaysFrom_get]
  split
  · rw [alwaysFrom_bind, Work.always_ask, Pass.always_count]
    intro u s'' hu
    exact hcount o j' s' u s'' hu hpost
  · exact hpost

theorem always_uninstall (setup : Setup) (post : Outcome → Job → S → Prop) :
    AlwaysFrom b (uninstall setup) j s post ↔
      if setup.dryRun then post .done j s
      else
        ∀ a s', b.may s (.helm (.releaseInfo j.release.name j.release.namespaceName)) a s' →
          match a with
          | .error e => Always b (Pass.shortDelayWith (.helm e)) s' fun o s'' => post o j s''
          | .ok none => post .done j s'
          | .ok (some _) =>
            ∀ a' s'', b.may s'
                (.helm (.uninstall j.release.name j.release.namespaceName false)) a' s'' →
              match a' with
              | .ok _ => post .done j s''
              | .error e => AlwaysFrom b (fail .uninstallFailed (.helm e)) j s'' post := by
  unfold uninstall
  split
  · exact Iff.rfl
  · rw [alwaysFrom_bind, alwaysFrom_get, alwaysFrom_bind, Work.always_ask, Pass.always_helm]
    refine forall_congr' fun a => forall_congr' fun s' => imp_congr_right fun _ => ?_
    rcases a with e | _ | info
    · exact Work.always_ask _ _
    · exact Iff.rfl
    · dsimp only
      rw [alwaysFrom_bind, Work.always_ask, Pass.always_helm]
      refine forall_congr' fun a' => forall_congr' fun s'' => imp_congr_right fun _ => ?_
      cases a' with
      | ok u => exact Iff.rfl
      | error e => exact Iff.rfl

theorem always_isReady (setup : Setup) (post : Bool × Outcome → Job → S → Prop) :
    AlwaysFrom b (isReady setup) j s post ↔
      Always b (j.isReady setup) s fun r s' => post r j s' :=
  Work.always_about _ _

end Work

end ReleaseOperator
