import ReleaseOperator.Proofs.History
import ReleaseOperator.Proofs.Passes

/-!
# Invariants of work

Most of what a pass does is of a few kinds: it looks around, it records an event, it
hands a release over or has it removed, it writes a version down. A condition on the job
and the surroundings that each of these keeps is kept by every operation made of them,
and so by whole passes. `Upheld` collects what has to be known of the kinds; the rest of
this file goes through the operations, for any behaviour of the collaborators.
-/

namespace ReleaseOperator

open Program

/-- The events that are recorded on the way, before the work is complete. -/
def Reason.underway : List Reason :=
  [.preInstall, .installStarted, .installFailed, .updateStarted, .updateFailed, .preUpgrade,
    .upgradeStarted, .upgradeFailed, .preUninstall, .uninstallStarted, .uninstallFailed]

/-- The resource of a job with an event recorded, on the way or as the completion of the
work. -/
inductive Job.Recorded (j : Job) (reason : Reason) : Resource → Prop
  | noted (detail : Option String) (time : String) :
      Recorded j reason (j.noted reason detail time)
  | concluded (reaches : Bool) (time : String) :
      Recorded j reason (Work.concluded j reason reaches time)

namespace Job.Recorded

variable {j : Job} {reason : Reason} {w : Resource}

theorem metadata (h : j.Recorded reason w) : w.metadata = j.resource.metadata := by
  cases h with
  | noted detail time => exact j.metadata_noted reason detail time
  | concluded reaches time => exact Work.metadata_concluded j reason reaches time

theorem spec (h : j.Recorded reason w) : w.spec = j.resource.spec := by
  cases h with
  | noted detail time => exact j.spec_noted reason detail time
  | concluded reaches time => exact Work.spec_concluded j reason reaches time

theorem kind (h : j.Recorded reason w) : w.kind = j.resource.kind := by
  rw [Resource.kind, h.spec]
  rfl

theorem namespaceName (h : j.Recorded reason w) : w.namespaceName = j.resource.namespaceName := by
  rw [Resource.namespaceName, h.metadata]
  rfl

theorem name (h : j.Recorded reason w) : w.name = j.resource.name := by
  rw [Resource.name, h.metadata]
  rfl

theorem endsIn (h : j.Recorded reason w) : endsIn w.conditions reason := by
  cases h with
  | noted detail time => exact j.endsIn_noted reason detail time
  | concluded reaches time => exact Work.endsIn_concluded j reason reaches time

end Job.Recorded

theorem Program.AlwaysFrom.and {Q : Type} {A : Q → Type} {S σ α : Type} {b : Behaviour Q A S}
    {w : StateT σ (Program Q A) α} {x : σ} {s : S} {post post' : α → σ → S → Prop}
    (h : AlwaysFrom b w x s post) (h' : AlwaysFrom b w x s post') :
    AlwaysFrom b w x s fun a x' s' => post a x' s' ∧ post' a x' s' :=
  Always.and h h'

/-! ### Runs by their steps -/

namespace Worker

variable {S : Type} {b : Conduct S} {m : Type → Type}

/-- The work that ends in an outcome, by its stage. -/
def steps (w : Worker m) : List (Stage × m Outcome) :=
  [(.announcePreWork, w.announcePreWork), (.preWork, w.preWork), (.announceWork, w.announceWork),
    (.work, w.work), (.announcePostWork, w.announcePostWork), (.postWork, w.postWork),
    (.complete, w.complete)]

@[simp] theorem action_forAction (setup : Setup) (action : Action) :
    (forAction setup action).action = action := by
  cases action <;> rfl

/-- What a step has to lead to: to a stop, or to the condition of the next stage once that
is entered. -/
def Onward (b : Conduct S) (action : Action) (st : Stage) (next : Stage → Job → S → Prop)
    (stop : Outcome → Job → S → Prop) (o : Outcome) (j : Job) (s : S) : Prop :=
  if o.requeue then stop o j s
  else AlwaysFrom b (Work.enter action st.next) j s fun _ => next st.next

/-- A run whose steps lead from the condition of each stage to that of the next one. -/
theorem always_run_of_steps {w : Worker Work} {action : Action} (haction : w.action = action)
    {next : Stage → Job → S → Prop}
    {stop : Outcome → Job → S → Prop}
    (start : ∀ j s, next .start j s → Onward b action .start next stop .done j s)
    (isNeeded : ∀ j s, next .checkNeeded j s → AlwaysFrom b w.isNeeded j s fun no j' s' =>
      if no.1 || no.2.requeue then Onward b action .checkNeeded next stop no.2 j' s'
      else AlwaysFrom b (Work.enter action .finish) j' s' fun _ => stop .done)
    (isDone : ∀ j s, next .awaitWork j s → AlwaysFrom b w.isDone j s fun r j' s' =>
      if r.1 || r.2.requeue then Onward b action .awaitWork next stop r.2 j' s'
      else Always b Pass.shortDelay s' fun o t => stop o j' t)
    (step : ∀ st work, (st, work) ∈ w.steps → ∀ j s, next st j s →
      AlwaysFrom b work j s (Onward b action st next stop))
    (finish : ∀ j s, next .finish j s → stop .done j s) {st : Stage} {j : Job} {s : S}
    (h : next st j s) : AlwaysFrom b (w.run Work.surroundings st) j s stop := by
  refine always_run next stop ?_ finish h
  subst haction
  intro st j s hst h
  have hstep : ∀ work, (st, work) ∈ w.steps →
      AlwaysFrom b (Stage.Result.ofOutcome <$> work) j s (After b w.action st next stop) :=
    fun work hmem => (always_ofOutcome work).2 (step st work hmem j s h)
  cases st with
  | start => exact start j s h
  | checkNeeded =>
      rw [Worker.stage, alwaysFrom_bind]
      refine (isNeeded j s h).mono ?_
      rintro ⟨needed, o⟩ j' s' hres
      rw [alwaysFrom_pure]
      unfold Onward at hres
      cases ho : o.requeue with
      | true => simpa [ho, After] using hres
      | false => cases needed <;> simpa [ho, After] using hres
  | awaitWork =>
      rw [Worker.stage, alwaysFrom_bind]
      refine (isDone j s h).mono ?_
      rintro ⟨done, o⟩ j' s' hres
      unfold Onward at hres
      cases ho : o.requeue with
      | true => simpa [ho, After, alwaysFrom_pure] using hres
      | false =>
          cases done with
          | true => simpa [ho, After, alwaysFrom_pure] using hres
          | false =>
              simp only [ho, Bool.or_self, Bool.false_eq_true, ↓reduceIte] at hres ⊢
              rw [alwaysFrom_bind]
              exact (Work.always_ask _ _).2 hres
  | finish => exact absurd rfl hst
  | _ => exact hstep _ (by simp [steps])

end Worker

namespace Work

variable {S α : Type} {b : Conduct S} {setup : Setup} {records : Reason → Prop}
  {on : Job → S → Prop} {halted : Entry → S → Prop} {j : Job} {s t : S} {o : Outcome}
  {reason : Reason}

/-- After a step: the work has stopped, or it goes on. -/
def Proceeds (on : Job → S → Prop) (halted : Entry → S → Prop) (o : Outcome) (j : Job) (s : S) :
    Prop :=
  if o.requeue then halted j.entry s else on j s

/-- A status that is written: what is left when work stops is left when a call fails or another
object has come into the place, and the work goes on with the copy that the store gives back. -/
theorem proceeds_persistStatus {w : Resource}
    (hkept : ∀ {s c a t}, c.isQuiet = true → halted j.entry s → b.may s c a t → halted j.entry t)
    (hread : ∀ a t, b.may s (.store (.get w.kind w.namespaceName w.name)) a t →
      halted j.entry t ∧ ∀ latest, a = .ok (some latest) → latest.metadata.uid = w.metadata.uid →
        ∀ a' t', b.may t (.store (.updateStatus (latest.copyStatus w))) a' t' →
          halted j.entry t' ∧ ∀ new, a' = .ok new → on { j with resource := new } t') :
    Always b (Pass.persistStatus w) s fun or t =>
      Proceeds on halted or.1 { j with resource := or.2 } t := by
  have hrefused : ∀ {p : Pass Outcome} {x : S}, Pass.Quiet p → halted j.entry x →
      Always b p x (fun o _ => o.requeue = true) →
      Always b p x fun o t => Proceeds on halted o { j with resource := w } t := by
    intro p x hp hx hrequeue
    refine (hrequeue.and (hp.always (fun _ _ _ _ hq hmay h => hkept hq h hmay) hx)).mono ?_
    rintro o t ⟨ho, ht⟩
    rw [Proceeds, if_pos ho]
    exact ht
  rw [Pass.always_persistStatus]
  intro a s₁ hmay
  obtain ⟨h₁, hwrite⟩ := hread a s₁ hmay
  rcases a with e | _ | latest
  · exact hrefused (Pass.quiet_refused e) h₁ (Pass.always_refused_requeue e)
  · exact hrefused Pass.quiet_shortDelay h₁ (Pass.always_shortDelay fun _ _ _ => rfl)
  · dsimp only
    split
    · exact hrefused Pass.quiet_shortDelay h₁ (Pass.always_shortDelay fun _ _ _ => rfl)
    · rename_i huid
      intro a s₂ hmay₂
      obtain ⟨h₂, hnew⟩ := hwrite latest rfl (Decidable.not_not.1 huid) a s₂ hmay₂
      rw [Pass.always_afterWrite]
      cases a with
      | ok new => exact hnew new rfl
      | error e => exact hrefused (Pass.quiet_refused e) h₂ (Pass.always_refused_requeue e)

/-- The values of a job have come to some documents. -/
def Resolved (b : Conduct S) (setup : Setup) (j : Job) (documents : List Json) : Prop :=
  ∃ s t, Runs b (j.values setup).run s (.ok documents) t

/-- A condition of work under way that is kept by whatever the work asks, with what is
left of it when the work stops. Only some events are recorded. -/
structure Upheld (b : Conduct S) (setup : Setup) (records : Reason → Prop)
    (on : Job → S → Prop) (halted : Entry → S → Prop) : Prop where
  stop : ∀ {j s}, on j s → halted j.entry s
  look : ∀ {j s c a t}, c.isQuiet = true → on j s → b.may s c a t → on j t
  draw : ∀ {e s low high ordered n t}, halted e s → b.may s (.draw low high ordered) n t →
    halted e t
  entry : ∀ {j s} (e : Entry), e.stage = j.entry.stage → e.action = j.entry.action →
    e.digest = j.entry.digest → on j s → on { j with entry := e } s
  status : ∀ {j s w reason}, on j s → j.Recorded reason w → records reason →
    Always b (Pass.persistStatus w) s fun or t =>
      Proceeds on halted or.1 { j with resource := or.2 } t
  pin : ∀ {j s t credentials version}, on j s → j.resource.desiredVersion.isEmpty = true →
    b.may s (.helm (.chartVersion j.release credentials)) (.ok version) t →
    Always b (Pass.persistResource (j.resource.setDesiredVersion version)) t fun _ t' =>
      halted j.entry t'
  apply : ∀ {j s request e t}, on j s → request.release = j.release →
    b.may s (.helm (.upgradeOrInstall request)) (.error e) t → on j t
  applied : ∀ {j s request documents info t}, on j s → request.release = j.release →
    Resolved b setup j documents → b.may s (.helm (.upgradeOrInstall request)) (.ok info) t →
    on { j with entry := j.entry.setDigest (Values.digest (Values.mergeAll documents)) } t
  rehearsed : ∀ {j s} (documents : List Json), setup.dryRun = true → on j s →
    on { j with entry := j.entry.setDigest (Values.digest (Values.mergeAll documents)) } s
  remove : ∀ {j s a t}, on j s →
    b.may s (.helm (.uninstall j.release.name j.release.namespaceName false)) a t → on j t

namespace Upheld

theorem proceeds (U : Upheld b setup records on halted) (h : on j s) :
    Proceeds on halted o j s := by
  unfold Proceeds
  split
  · exact U.stop h
  · exact h

theorem halted_of_proceeds (U : Upheld b setup records on halted) (h : Proceeds on halted o j s) :
    halted j.entry s := by
  unfold Proceeds at h
  split at h
  · exact h
  · exact U.stop h

theorem quiet (U : Upheld b setup records on halted) {p : Pass α} (hp : Pass.Quiet p)
    (h : on j s) : Always b p s fun _ t => on j t :=
  hp.always (fun _ _ _ _ hq hmay h₁ => U.look hq h₁ hmay) h

theorem quietProceeds (U : Upheld b setup records on halted) {p : Pass Outcome} (hp : Pass.Quiet p)
    (h : on j s) : Always b p s fun o t => Proceeds on halted o j t :=
  (U.quiet hp h).mono fun _ _ ht => U.proceeds ht

/-! ### Recording -/

theorem announce (U : Upheld b setup records on halted) (h : on j s) (hr : records reason)
    (detail : Option String) :
    AlwaysFrom b (Work.announce reason detail) j s (Proceeds on halted) := by
  rw [Work.always_announce]
  refine (U.quiet Pass.quiet_now h).mono ?_
  intro time t ht
  split
  · exact U.status ht (.noted detail time) hr
  · rename_i hnews
    rw [Job.noted_eq_self (Bool.not_eq_true _ ▸ hnews)]
    exact U.proceeds ht

/-- A failure stops the work, recorded or not. -/
theorem stopped_fail (U : Upheld b setup records on halted) (h : on j s) (hr : records reason)
    (f : Failure) :
    AlwaysFrom b (Work.fail reason f) j s fun o j' t => o.requeue = true ∧ halted j'.entry t := by
  rw [Work.always_fail]
  refine (U.announce h hr _).mono ?_
  intro o j' t ht
  refine Pass.always_shortDelayWith ?_
  rintro d t' ⟨n, hn⟩
  exact ⟨rfl, U.draw (U.halted_of_proceeds ht) hn⟩

theorem fail (U : Upheld b setup records on halted) (h : on j s) (hr : records reason)
    (f : Failure) : AlwaysFrom b (Work.fail reason f) j s (Proceeds on halted) := by
  refine (U.stopped_fail h hr f).mono ?_
  rintro o j' t ⟨ho, ht⟩
  rw [Proceeds, if_pos ho]
  exact ht

theorem conclude (U : Upheld b setup records on halted) (h : on j s) (hr : records reason)
    (reaches : Bool) : AlwaysFrom b (Work.conclude reason reaches) j s (Proceeds on halted) := by
  rw [Work.always_conclude]
  refine (U.quiet Pass.quiet_now h).mono ?_
  intro time t ht
  exact U.status ht (.concluded reaches time) hr

theorem announceInstall (U : Upheld b setup records on halted) (h : on j s)
    (hr : records .preInstall) : AlwaysFrom b Work.announceInstall j s (Proceeds on halted) := by
  rw [Work.always_announceInstall]
  refine (U.quiet Pass.quiet_now h).mono ?_
  intro time t ht
  exact U.announce (U.entry (j.entry.markPreInstall time) rfl rfl rfl ht) hr none

/-! ### Asking -/

theorem hook (U : Upheld b setup records on halted) (h : on j s) (moment : HookMoment)
    (action : Action) : AlwaysFrom b (Work.hook moment action) j s (Proceeds on halted) := by
  rw [Work.hook, Work.always_about]
  exact U.quietProceeds (Pass.quiet_hook moment action j.release) h

theorem isReady (U : Upheld b setup records on halted) (h : on j s) :
    AlwaysFrom b (Work.isReady setup) j s fun _ j' t => on j' t := by
  rw [Work.always_isReady]
  exact U.quiet (Pass.quiet_isReady setup j) h

theorem isGone (U : Upheld b setup records on halted) (h : on j s) :
    AlwaysFrom b (Work.isGone setup) j s fun _ j' t => on j' t := by
  unfold Work.isGone
  split
  · exact h
  · rw [alwaysFrom_bind, alwaysFrom_get, alwaysFrom_bind, Work.always_ask]
    refine (U.quiet (Pass.quiet_releaseInfo _ _) h).mono ?_
    intro a t ht
    cases a with
    | error e =>
        rw [Work.always_ask]
        exact U.quiet (Pass.quiet_unanswered (.helm e)) ht
    | ok info => exact ht

/-! ### Applying and removing a release -/

theorem handOver (U : Upheld b setup records on halted) (h : on j s) (hr : records reason)
    {documents : List Json} (hdocuments : Resolved b setup j documents)
    (credentials : Option Credentials) :
    AlwaysFrom b (Work.handOver reason documents credentials) j s (Proceeds on halted) := by
  rw [Work.always_handOver]
  intro a t hmay
  cases a with
  | ok info => exact U.proceeds (U.applied h rfl hdocuments hmay)
  | error e => exact U.fail (U.apply h rfl hmay) hr _

theorem applyRelease (U : Upheld b setup records on halted) (h : on j s) (hr : records reason) :
    AlwaysFrom b (Work.applyRelease setup reason) j s (Proceeds on halted) := by
  rw [Work.always_applyRelease]
  refine ((U.quiet (Pass.quiet_jobValues setup j) h).and
    (always_iff_runs.2 fun _ _ hrun => hrun)).mono ?_
  rintro v t ⟨ht, hrun⟩
  cases v with
  | error e => exact U.fail ht hr _
  | ok documents =>
      dsimp only
      split
      · rename_i hdry
        exact U.proceeds (U.rehearsed documents hdry ht)
      · refine (U.quiet (Pass.quiet_credentials _ _) ht).mono ?_
        intro c t' ht'
        cases c with
        | error e => exact U.fail ht' hr _
        | ok credentials => exact U.handOver ht' hr ⟨_, _, hrun⟩ credentials

theorem pinVersion (U : Upheld b setup records on halted) (h : on j s)
    (hblank : j.resource.desiredVersion.isEmpty = true) (hr : records .installFailed) :
    AlwaysFrom b (Work.pinVersion setup) j s (Proceeds on halted) := by
  rw [Work.always_pinVersion]
  refine (U.quiet (Pass.quiet_credentials _ _) h).mono ?_
  intro c t ht
  cases c with
  | error e => exact U.fail ht hr _
  | ok credentials =>
      intro a t' hmay
      cases a with
      | error e => exact U.fail (U.look rfl ht hmay) hr _
      | ok version =>
          refine (U.pin ht hblank hmay).mono ?_
          rintro ⟨o, r⟩ x hx
          dsimp only
          split
          · rename_i ho
            rw [Proceeds, if_pos ho]
            exact hx
          · refine Pass.always_shortDelay ?_
            rintro d y ⟨n, hn⟩
            exact U.draw hx hn

theorem preInstall (U : Upheld b setup records on halted) (h : on j s)
    (hr : records .installFailed) :
    AlwaysFrom b (Work.preInstall setup) j s (Proceeds on halted) := by
  rw [Work.always_preInstall]
  split
  · rename_i hblank
    exact U.pinVersion h hblank hr
  · exact U.hook h .preWork .install

theorem install (U : Upheld b setup records on halted) (h : on j s)
    (hr : records .installFailed) :
    AlwaysFrom b (Work.install setup) j s (Proceeds on halted) := by
  rw [Work.always_install]
  split
  · exact U.applyRelease h hr
  · intro a t hmay
    have ht := U.look rfl h hmay
    cases a with
    | error e => exact U.quietProceeds (Pass.quiet_shortDelayWith _) ht
    | ok info =>
        dsimp only
        split
        · exact U.proceeds ht
        · exact U.applyRelease ht hr

theorem uninstall (U : Upheld b setup records on halted) (h : on j s)
    (hr : records .uninstallFailed) :
    AlwaysFrom b (Work.uninstall setup) j s (Proceeds on halted) := by
  rw [Work.always_uninstall]
  split
  · exact U.proceeds h
  · intro a t hmay
    have ht := U.look rfl h hmay
    rcases a with e | _ | info
    · exact U.quietProceeds (Pass.quiet_shortDelayWith _) ht
    · exact U.proceeds ht
    · intro a' t' hmay'
      have ht' := U.remove ht hmay'
      cases a' with
      | ok u => exact U.proceeds ht'
      | error e => exact U.fail ht' hr _

theorem concludeInstall (U : Upheld b setup records on halted) (h : on j s)
    (hr : records .installSucceeded) :
    AlwaysFrom b Work.concludeInstall j s (Proceeds on halted) := by
  rw [Work.concludeInstall, alwaysFrom_bind]
  refine (U.conclude h hr true).mono ?_
  intro o j' s' hgoes
  rw [alwaysFrom_bind, alwaysFrom_get]
  split
  · rename_i hcond
    rw [Bool.and_eq_true, Bool.not_eq_true'] at hcond
    rw [Proceeds, if_neg (by rw [hcond.1]; exact Bool.false_ne_true)] at hgoes
    rw [alwaysFrom_bind, Work.always_ask, Pass.always_count]
    intro u t hu
    exact U.proceeds (U.look rfl hgoes hu)
  · exact hgoes

/-! ### Whole runs

Where the condition does not look at the stage it is kept by the entering of stages too, and
so by all four actions from beginning to end. -/

/-- The condition does not look at the entry of a job. -/
def Free (on : Job → S → Prop) : Prop :=
  ∀ j s e, on j s → on { j with entry := e } s

/-- The condition does not look at the stage of the entry. -/
def Unstaged (on : Job → S → Prop) : Prop :=
  ∀ j s st, on j s → on { j with entry := j.entry.setStage st } s

theorem Free.unstaged (hfree : Free on) : Unstaged on :=
  fun j s st => hfree j s (j.entry.setStage st)

theorem enter (U : Upheld b setup records on halted) (hstage : Unstaged on) (h : on j s)
    (action : Action) (stage : Stage) :
    AlwaysFrom b (Work.enter action stage) j s fun _ j' t => on j' t := by
  rw [Work.always_enter]
  intro u t hmay
  exact hstage j t _ (U.look rfl h hmay)

theorem onward (U : Upheld b setup records on halted) (hstage : Unstaged on)
    (h : Proceeds on halted o j s) (action : Action) (st : Stage) :
    Worker.Onward b action st (fun _ => on) (Proceeds on halted) o j s := by
  unfold Worker.Onward
  split
  · exact h
  · rename_i ho
    rw [Proceeds, if_neg ho] at h
    exact U.enter hstage h action st.next

/-- Every step before the last one records events of its own. -/
theorem step (U : Upheld b setup records on halted)
    (hr : ∀ reason ∈ Reason.underway, records reason) (action : Action) {st : Stage}
    {work : Work Outcome}
    (hmem : (st, work) ∈ (Worker.forAction setup action).steps) (hst : st ≠ .complete)
    (h : on j s) : AlwaysFrom b work j s (Proceeds on halted) := by
  have hidle : AlwaysFrom b (pure .done : Work Outcome) j s (Proceeds on halted) :=
    (alwaysFrom_pure _ _).2 (U.proceeds h)
  cases action <;>
    simp only [Worker.steps, Worker.forAction, List.mem_cons, Prod.mk.injEq, List.not_mem_nil,
      or_false] at hmem <;>
    rcases hmem with ⟨_, rfl⟩ | ⟨_, rfl⟩ | ⟨_, rfl⟩ | ⟨_, rfl⟩ | ⟨_, rfl⟩ | ⟨_, rfl⟩ | ⟨rfl, _⟩
  case install.inl => exact U.announceInstall h (hr _ (by decide))
  case install.inr.inl => exact U.preInstall h (hr _ (by decide))
  case install.inr.inr.inr.inl => exact U.install h (hr _ (by decide))
  all_goals first
    | exact absurd rfl hst
    | exact hidle
    | exact U.announce h (hr _ (by decide)) none
    | exact U.hook h _ _
    | exact U.applyRelease h (hr _ (by decide))
    | exact U.uninstall h (hr _ (by decide))

theorem complete (U : Upheld b setup records on halted)
    (hr : ∀ reason ∈ Reason.completions, records reason) (action : Action) (h : on j s) :
    AlwaysFrom b (Worker.forAction setup action).complete j s (Proceeds on halted) := by
  cases action with
  | install => exact U.concludeInstall h (hr _ (by decide))
  | update => exact U.conclude h (hr _ (by decide)) true
  | upgrade => exact U.conclude h (hr _ (by decide)) true
  | delete => exact U.conclude h (hr _ (by decide)) false

/-- All events that work records may be recorded. -/
def RecordsAll (records : Reason → Prop) : Prop :=
  (∀ reason ∈ Reason.underway, records reason) ∧ ∀ reason ∈ Reason.completions, records reason

theorem recordsAll_true : RecordsAll fun _ => True :=
  ⟨fun _ _ => trivial, fun _ _ => trivial⟩

theorem anyStep (U : Upheld b setup records on halted) (hr : RecordsAll records) (action : Action)
    {st : Stage} {work : Work Outcome}
    (hmem : (st, work) ∈ (Worker.forAction setup action).steps) (h : on j s) :
    AlwaysFrom b work j s (Proceeds on halted) := by
  by_cases hst : st = .complete
  · subst hst
    have hcomplete : work = (Worker.forAction setup action).complete := by
      simpa [Worker.steps] using hmem
    rw [hcomplete]
    exact U.complete hr.2 action h
  · exact U.step hr.1 action hmem hst h

theorem perform (U : Upheld b setup records on halted) (hr : RecordsAll records)
    (hstage : Unstaged on) (h : on j s) (action : Action) :
    AlwaysFrom b (Work.perform setup action) j s (Proceeds on halted) := by
  rw [Work.always_perform]
  refine Worker.always_run_of_steps rfl (fun _ _ h => U.onward hstage (U.proceeds h) _ _) ?_ ?_ ?_
    (fun _ _ h => U.proceeds h) h
  · intro j s h
    have hneeded : AlwaysFrom b (Worker.forAction setup action).isNeeded j s
        fun _ j' t => on j' t := by
      cases action <;> exact h
    refine hneeded.mono ?_
    rintro ⟨needed, o⟩ j' t ht
    split
    · exact U.onward hstage (U.proceeds ht) _ _
    · exact (U.enter hstage ht _ _).mono fun _ _ _ ht' => U.proceeds ht'
  · intro j s h
    have hdone : AlwaysFrom b (Worker.forAction setup action).isDone j s
        fun _ j' t => on j' t := by
      cases action with
      | delete => exact U.isGone h
      | install => exact U.isReady h
      | update => exact U.isReady h
      | upgrade => exact U.isReady h
    refine hdone.mono ?_
    rintro ⟨done, o⟩ j' t ht
    split
    · exact U.onward hstage (U.proceeds ht) _ _
    · exact U.quietProceeds Pass.quiet_shortDelay ht
  · intro st work hmem j s h
    exact (U.anyStep hr action hmem h).mono fun _ _ _ hgoes => U.onward hstage hgoes _ _

theorem runPinned (U : Upheld b setup records on halted) (hr : RecordsAll records)
    (hfree : Free on) (h : on j s) :
    AlwaysFrom b (Work.runPinned setup) j s (Proceeds on halted) := by
  rw [Work.always_runPinned]
  split
  · exact U.perform hr hfree.unstaged h _
  · refine (U.quiet (Pass.quiet_chooseAction j) h).mono ?_
    rintro (o | a) t ht
    · exact U.proceeds ht
    · exact U.perform hr hfree.unstaged (hfree j t (j.entry.pin a) ht) a

theorem live (U : Upheld b setup records on halted) (hr : RecordsAll records)
    (hfree : Free on) (h : on j s) :
    AlwaysFrom b (Work.live setup) j s (Proceeds on halted) := by
  rw [Work.always_live]
  split
  · rw [Work.always_valuesChanged]
    split
    · exact U.proceeds h
    · refine (U.quiet (Pass.quiet_valuesDigest setup j) h).mono ?_
      rintro (e | desired) t ht
      · exact U.quietProceeds (Pass.quiet_shortDelayWith _) ht
      · refine (U.quiet (Pass.quiet_appliedDigest setup j desired) ht).mono ?_
        rintro (o | applied) t' ht'
        · exact U.proceeds ht'
        · dsimp only
          split
          · exact U.proceeds (hfree j t' _ ht')
          · exact U.proceeds (hfree j t' _ ht')
          · exact U.runPinned hr hfree (hfree j t' _ ht')
  · exact U.runPinned hr hfree h

end Upheld

end Work

end ReleaseOperator
