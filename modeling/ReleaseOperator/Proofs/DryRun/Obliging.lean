import ReleaseOperator.Proofs.DryRun.Shadows
import ReleaseOperator.Proofs.Estate.Sound
import ReleaseOperator.Proofs.DryRun.Untouched

/-!
# Obliging collaborators

The stores accept every write of a copy that is not stale. Helm deploys a release at once, at
exactly the version asked for and with all its workloads ready, and removes it at once. What
Helm keeps about a release is its own affair, as long as it can be read what it reports. In the
middle of a pass the copy in hand is the stored resource, so no write of it fails, and a pass
records all that it has to tell.
-/

namespace ReleaseOperator

open InMemory Program

variable {H α : Type} {rules : Rules H} {info : H → Option ReleaseInfo} {s t : Commons H}

/-- The collaborators do what they are asked, at once and exactly. `info` is what Helm reports
of what it keeps about a release. -/
structure Rules.Obliging (rules : Rules H) (info : H → Option ReleaseInfo) : Prop where
  accepts : ∀ verb y, rules.refusal verb y = none
  reports : ∀ name ns h, rules.helm (.releaseInfo name ns) h = (.ok (info h), h)
  deploys : ∀ request h, ∃ answer h' i,
    rules.helm (.upgradeOrInstall request) h = (.ok answer, h') ∧ info h' = some i ∧
      i.status = .deployed ∧ (request.release.chart.version.isEmpty = false →
        i.chartVersion = request.release.chart.version)
  removes : ∀ name ns keep h, ∃ h',
    rules.helm (.uninstall name ns keep) h = (.ok (), h') ∧ info h' = none
  manifest : ∀ name ns h i, info h = some i → ∃ text workloads,
    rules.helm (.manifest name ns) h = (.ok text, h) ∧ Manifest.workloads text ns = .ok workloads
  ready : ∀ w, rules.cluster (.workloadReady w) = .ok true
  impartial : rules.Impartial

/-- The credentials for a repository are found. -/
def Rules.Credits (rules : Rules H) (ns : String) (repository : Repository) : Prop :=
  ∀ s, Always rules.conduct (Sources.credentials ns repository).run s fun c _ =>
    ∃ credentials, c = .ok credentials

/-- A call beside the point changes nothing. -/
theorem Rules.always_aside {p : Pass α} (hp : Asks (fun c : Call => c.isAside = true) p) :
    Always rules.conduct p s fun _ t => t = s := by
  refine hp.always (I := fun t => t = s) ?_ rfl
  rintro t c a u hc hmay rfl
  have hmay : rules.Answered t c a u := hmay
  rcases c with _ | _ | _ | _ | _ | _ | _
  case cluster => exact hmay.2
  case hook => exact hmay.2
  case now => exact hmay
  case draw => exact hmay
  all_goals exact absurd hc Bool.false_ne_true

/-- A call to Helm that leaves the release as it is. -/
theorem Rules.answered_kept {c : HelmCall} {a answer : c.Answer}
    (hkept : rules.helm c (s.releases c.place) = (answer, s.releases c.place))
    (h : rules.conduct.may s (.helm c) a t) : a = answer ∧ t = s := by
  obtain ⟨ha, ht⟩ := h
  rw [hkept] at ha ht
  exact ⟨ha, ht.trans (s.setRelease_self _)⟩

namespace Rules.Obliging

variable (hrules : rules.Obliging info)

include hrules

/-! ### Helm -/

theorem answered_releaseInfo {name ns : String} {a : Except HelmError (Option ReleaseInfo)}
    (h : rules.conduct.may s (.helm (.releaseInfo name ns)) a t) :
    a = .ok (info (s.releases (name, ns))) ∧ t = s :=
  Rules.answered_kept (hrules.reports _ _ _) h

/-- A release that is handed over is deployed at the version asked for. -/
theorem answered_upgradeOrInstall {request : ReleaseRequest} {a : Except HelmError ReleaseInfo}
    (h : rules.conduct.may s (.helm (.upgradeOrInstall request)) a t) :
    (∃ answer, a = .ok answer) ∧ t.store = s.store ∧
      ∃ i, info (t.releases request.release.place) = some i ∧ i.status = .deployed ∧
        (request.release.chart.version.isEmpty = false →
          i.chartVersion = request.release.chart.version) := by
  obtain ⟨answer, h', i, hdeploys, hinfo, hdeployed⟩ :=
    hrules.deploys request (s.releases request.release.place)
  obtain ⟨ha, rfl⟩ := h
  have hcall : rules.helm (.upgradeOrInstall request)
      (s.releases (HelmCall.upgradeOrInstall request).place) = (.ok answer, h') := hdeploys
  rw [hcall] at ha ⊢
  refine ⟨⟨answer, ha⟩, rfl, i, ?_, hdeployed⟩
  rw [← hinfo]
  exact congrArg info (if_pos rfl)

/-- A release that is to be removed is gone. -/
theorem answered_uninstall {name ns : String} {keep : Bool} {a : Except HelmError Unit}
    (h : rules.conduct.may s (.helm (.uninstall name ns keep)) a t) :
    a = .ok () ∧ t.store = s.store ∧ info (t.releases (name, ns)) = none := by
  obtain ⟨h', hremoves, hinfo⟩ := hrules.removes name ns keep (s.releases (name, ns))
  obtain ⟨ha, rfl⟩ := h
  have hcall : rules.helm (.uninstall name ns keep)
      (s.releases (HelmCall.uninstall name ns keep).place) = (.ok (), h') := hremoves
  rw [hcall] at ha ⊢
  refine ⟨ha, rfl, ?_⟩
  rw [← hinfo]
  exact congrArg info (if_pos rfl)

theorem always_workloadsReady (workloads : List Workload) :
    Always rules.conduct (Pass.workloadsReady workloads) s fun r t =>
      r = (true, .done) ∧ t = s := by
  induction workloads with
  | nil => exact ⟨rfl, rfl⟩
  | cons w rest ih =>
      rw [Pass.workloadsReady, always_bind, Pass.always_cluster]
      rintro a t ⟨ha, rfl⟩
      rw [hrules.ready] at ha
      subst ha
      exact ih

/-- A release that is deployed at the version asked for is ready. -/
theorem always_isReady {setup : Setup} {j : Job} {i : ReleaseInfo}
    (hinfo : info (s.releases j.release.place) = some i)
    (hat : Pass.isDeployedAt j.resource.desiredVersion i = true) :
    Always rules.conduct (j.isReady setup) s fun r t => r = (true, .done) ∧ t = s := by
  unfold Job.isReady
  split
  · exact ⟨rfl, rfl⟩
  · rw [Pass.releaseReady, always_bind, Pass.always_helm]
    rintro a t hmay
    obtain ⟨rfl, rfl⟩ := hrules.answered_releaseInfo hmay
    rw [Release.place] at hinfo
    rw [hinfo]
    dsimp only
    rw [if_pos hat, Pass.manifestReady, always_bind, Pass.always_helm]
    obtain ⟨text, workloads, htext, hworkloads⟩ :=
      hrules.manifest j.release.name j.release.namespaceName _ i hinfo
    rintro a u hmay
    obtain ⟨rfl, rfl⟩ := Rules.answered_kept htext hmay
    dsimp only
    rw [hworkloads]
    exact hrules.always_workloadsReady workloads

/-! ### The store -/

/-- A status is put onto the stored resource. -/
theorem always_persistStatus {o w : Resource} (hstored : s.find o.address = some o)
    (hmeta : w.metadata = o.metadata) (hspec : w.spec = o.spec) :
    Always rules.conduct (Pass.persistStatus w) s fun or t =>
      or.1 = .done ∧ t.find o.address = some or.2 ∧ o.Restated or.2 ∧
        or.2.status = w.status := by
  have haddress : (⟨w.kind, w.namespaceName, w.name⟩ : Address) = o.address := by
    rw [Resource.kind, Resource.namespaceName, Resource.name, hmeta, hspec]
    rfl
  rw [Pass.always_persistStatus]
  rintro a s₁ ⟨ha, rfl⟩
  rw [hrules.accepts, haddress, hstored] at ha
  subst ha
  dsimp only
  rw [hmeta, if_neg fun hne => hne rfl]
  intro a t hmay
  have hmay : (a, t) = _ := hmay
  have hget : (s₁.store (o.copyStatus w).kind).get? (o.copyStatus w).namespaceName
      (o.copyStatus w).name = some o := hstored
  rw [hrules.accepts, Store.updateStatus_eq_revise, Store.revise_of_get? hget rfl] at hmay
  injection hmay with ha ht
  subst ha
  refine ⟨rfl, ?_, ⟨_, _, rfl⟩, rfl⟩
  have hland : t = s₁.land (Store.withStatusOf o (o.copyStatus w)
    ((s₁.store o.kind).revision + 1)) false := ht
  rw [hland, Commons.find_land]
  exact if_pos rfl

/-- A copy that is not stale is written as a whole. -/
theorem always_persistResource {o w : Resource} (hstored : s.find w.address = some o)
    (hrev : o.metadata.resourceVersion = w.metadata.resourceVersion) :
    Always rules.conduct (Pass.persistResource w) s fun or t =>
      or.1 = .done ∧ o.Rewritten w or.2 ∧ t.find w.address =
        if or.2.isDeleting && or.2.finalizers.isEmpty then none else some or.2 := by
  rw [Pass.always_persistResource]
  intro a t hmay
  have hmay : (a, t) = _ := hmay
  have hget : (s.store w.kind).get? w.namespaceName w.name = some o := hstored
  rw [hrules.accepts, Store.update_eq_revise, Store.revise_of_get? hget hrev] at hmay
  injection hmay with ha ht
  subst ha
  refine ⟨rfl, ⟨_, _, Store.le_generation_merged (s.store w.kind) o w, rfl⟩, ?_⟩
  have hland : t = s.land ((s.store w.kind).merged o w)
    (((s.store w.kind).merged o w).isDeleting &&
      ((s.store w.kind).merged o w).finalizers.isEmpty) := ht
  rw [hland, Commons.find_land]
  exact if_pos rfl

end Rules.Obliging

/-! ### Jobs with the stored resource in hand -/

namespace Job

/-- The copy in hand is the resource that is stored at an address, and the release is the one
that it asks for. -/
structure UpToDate (setup : Setup) (x : Address) (j : Job) (s : Commons H) : Prop where
  stored : s.find x = some j.resource
  address : j.resource.address = x
  release : j.release = j.resource.release setup.defaults

/-- An event has been recorded of the resource of a job, which is up to date again. -/
structure Advised (setup : Setup) (x : Address) (j : Job) (reason : Reason) (j' : Job)
    (t : Commons H) : Prop where
  entry : j'.entry = j.entry
  restated : j.resource.Restated j'.resource
  ends : endsIn j'.resource.conditions reason
  current : j'.UpToDate setup x t

namespace UpToDate

variable {setup : Setup} {x : Address} {j : Job} {reason : Reason}

theorem place (h : j.UpToDate setup x s) : j.release.place = j.resource.releasePlace := by
  rw [h.release, Resource.place_release]

theorem withEntry (h : j.UpToDate setup x s) (e : Entry) :
    Job.UpToDate setup x { j with entry := e } s :=
  ⟨h.stored, h.address, h.release⟩

variable (hrules : rules.Obliging info)

include hrules

theorem record (h : j.UpToDate setup x s) {w : Resource} (hw : j.Recorded reason w) :
    Always rules.conduct (Pass.persistStatus w) s fun or t =>
      or.1 = .done ∧ j.Advised setup x reason { j with resource := or.2 } t := by
  have hstored : s.find j.resource.address = some j.resource := h.address ▸ h.stored
  refine (hrules.always_persistStatus hstored hw.metadata hw.spec).mono ?_
  rintro ⟨o, r⟩ t ⟨rfl, hr, hrestated, hstatus⟩
  have hends : endsIn r.conditions reason := by
    have hw' := hw.endsIn
    rw [Resource.conditions, Resource.statusD, ← hstatus] at hw'
    exact hw'
  have haddress : r.address = j.resource.address := by
    obtain ⟨n, status, rfl⟩ := hrestated
    rfl
  refine ⟨rfl, rfl, hrestated, hends, ?_, haddress.trans h.address, ?_⟩
  · rw [← h.address]
    exact hr
  · exact h.release.trans (hrestated.release _).symm

theorem announce (h : j.UpToDate setup x s) (reason : Reason) (detail : Option String) :
    AlwaysFrom rules.conduct (Work.announce reason detail) j s fun o j' t =>
      o = .done ∧ j.Advised setup x reason j' t := by
  rw [Work.always_announce]
  refine (Rules.always_aside (Pass.asks_now fun _ h => h)).mono ?_
  rintro time t rfl
  split
  · exact h.record hrules (.noted detail time)
  · rename_i hnews
    have hself : j.noted reason detail time = j.resource :=
      Job.noted_eq_self (Bool.not_eq_true _ ▸ hnews)
    have hends := j.endsIn_noted reason detail time
    rw [hself] at hends ⊢
    exact ⟨rfl, rfl, .refl _, hends, h⟩

theorem fail (h : j.UpToDate setup x s) (reason : Reason) (f : Failure) :
    AlwaysFrom rules.conduct (Work.fail reason f) j s fun o j' t =>
      o.requeue = true ∧ j.Advised setup x reason j' t := by
  rw [Work.always_fail]
  refine (h.announce hrules reason (some f.text)).mono ?_
  rintro _ j' t ⟨-, hj'⟩
  have hagain : Always rules.conduct (Pass.shortDelayWith f) t fun o _ => o.requeue = true :=
    Pass.always_shortDelayWith fun _ _ _ => rfl
  refine (hagain.and (Rules.always_aside (Pass.asks_shortDelayWith (fun _ h => h) f))).mono ?_
  rintro o u ⟨ho, rfl⟩
  exact ⟨ho, hj'⟩

theorem conclude (h : j.UpToDate setup x s) (reason : Reason) (reaches : Bool) :
    AlwaysFrom rules.conduct (Work.conclude reason reaches) j s fun o j' t =>
      o = .done ∧ j.Advised setup x reason j' t := by
  rw [Work.always_conclude]
  refine (Rules.always_aside (Pass.asks_now fun _ h => h)).mono ?_
  rintro time t rfl
  exact h.record hrules (.concluded reaches time)

end UpToDate

end Job

/-!
## Performances in earnest and as a rehearsal

A worker that acts and one that does not differ at two stages only, the work itself and the wait
for it, and all the rest is oblivious. So what has to be shown of an action is how its work is
shadowed and that the wait for it is over at once.
-/

variable {setup : Setup} {a : Action} {st : Stage} {j : Job}

/-- The same setup, with nothing done to releases. -/
def Setup.dry (setup : Setup) : Setup := { setup with dryRun := true }

namespace Worker

theorem stage_dry (hwork : st ≠ .work) (hawait : st ≠ .awaitWork) :
    (forAction setup.dry a).stage Work.surroundings st =
      (forAction setup a).stage Work.surroundings st := by
  cases a <;> cases st <;>
    first | rfl | exact absurd rfl hwork | exact absurd rfl hawait

theorem oblivious_stage (hwork : st ≠ .work) (hawait : st ≠ .awaitWork) :
    Work.Oblivious ((forAction setup a).stage Work.surroundings st) := by
  have hstep : ∀ work, (st, work) ∈ (forAction setup a).steps →
      Work.Oblivious (Stage.Result.ofOutcome <$> work) := by
    intro work hmem
    rw [← bind_pure_comp]
    exact (Work.oblivious_step hmem hwork).bind fun _ => Work.asksOnly_pure _
  cases st with
  | start => exact Work.asksOnly_pure _
  | checkNeeded => exact (Work.oblivious_isNeeded setup a).bind fun _ => Work.asksOnly_pure _
  | awaitWork => exact absurd rfl hawait
  | finish => exact Work.asksOnly_pure _
  | _ => exact hstep _ (by simp [steps])

end Worker

/-- What an outcome leads to: the run stops, or the next stage is entered. -/
def Passes (next : Stage → Job → Commons H → Prop) (stop : Outcome → Job → Commons H → Prop)
    (st : Stage) (o : Outcome) (j : Job) (s : Commons H) : Prop :=
  if o.requeue then stop o j s else next st.next (j.enter st.next) s

variable {next : Stage → Job → Commons H → Prop} {stop : Outcome → Job → Commons H → Prop}

theorem leads_ofOutcome {o : Outcome} :
    (Stage.Result.ofOutcome o).Leads next stop st j s ↔ Passes next stop st o j s := by
  unfold Stage.Result.ofOutcome Passes
  split
  · exact Iff.rfl
  · exact Iff.rfl

/-- An action that is performed in earnest is rehearsed when its work is and the wait for it is
over at once. -/
theorem shadowed_perform (hrules : rules.Impartial)
    (start : ∀ j s, next .start j s → next .checkNeeded (j.enter .checkNeeded) s)
    (needed : ∀ j s, next .checkNeeded j s →
      AlwaysFrom rules.conduct (Worker.forAction setup a).isNeeded j s fun no j' t =>
        no = (true, .done) ∧ next .announcePreWork (j'.enter .announcePreWork) t)
    (step : ∀ st work, (st, work) ∈ (Worker.forAction setup a).steps → st ≠ .work →
      ∀ j s, next st j s → AlwaysFrom rules.conduct work j s fun o j' t =>
        t.releases = s.releases → Passes next stop st o j' t)
    (work : ∀ j s, next .work j s →
      ShadowedFrom rules (Worker.forAction setup a).work (Worker.forAction setup.dry a).work j s
        (Passes next stop .work))
    (awaited : ∀ j s, next .awaitWork j s →
      AlwaysFrom rules.conduct (Worker.forAction setup a).isDone j s fun r j' t =>
        r = (true, .done) ∧ j' = j ∧ t = s ∧
          next .announcePostWork (j.enter .announcePostWork) s)
    (finish : ∀ j s, next .finish j s → stop .done j s) (h : next j.entry.stage j s) :
    ShadowedFrom rules (Work.perform setup a) (Work.perform setup.dry a) j s stop := by
  refine shadowedFrom_get (shadowed_run ?_ ?_ finish h)
  · rw [Worker.action_forAction, Worker.action_forAction]
  clear h
  intro st j s hst h
  have hplain : st ≠ .work → st ≠ .awaitWork →
      AlwaysFrom rules.conduct ((Worker.forAction setup a).stage Work.surroundings st) j s
        (fun result j' t => t.releases = s.releases → result.Leads next stop st j' t) →
      ShadowedFrom rules ((Worker.forAction setup a).stage Work.surroundings st)
        ((Worker.forAction setup.dry a).stage Work.surroundings st) j s
        (Stage.Result.Leads next stop st) := by
    intro hwork hawait hpost
    rw [Worker.stage_dry hwork hawait]
    refine (shadowedFrom_of_oblivious hrules (Worker.oblivious_stage hwork hawait j) hpost).mono ?_
    exact fun _ _ _ hres => hres.1 hres.2
  have hstep : ∀ w, (st, w) ∈ (Worker.forAction setup a).steps → st ≠ .work →
      AlwaysFrom rules.conduct (Stage.Result.ofOutcome <$> w) j s
        fun result j' t => t.releases = s.releases → result.Leads next stop st j' t := by
    intro w hmem hwork
    rw [alwaysFrom_map]
    refine (step st w hmem hwork j s h).mono ?_
    exact fun _ _ _ hres hkept => leads_ofOutcome.2 (hres hkept)
  cases st with
  | start => exact shadowedFrom_pure Stage.Result.advance (start j s h)
  | checkNeeded =>
      refine hplain (by decide) (by decide) ?_
      rw [Worker.stage, alwaysFrom_bind]
      refine (needed j s h).mono ?_
      rintro _ j' t ⟨rfl, hnext⟩ -
      exact hnext
  | work =>
      exact shadowedFrom_map _ ((work j s h).mono fun _ _ _ hres => leads_ofOutcome.2 hres)
  | awaitWork =>
      have hdry : setup.dry.dryRun = true := rfl
      rw [Worker.stage, Worker.stage, Work.isDone_of_dryRun hdry]
      refine shadowedFrom_ahead ((awaited j s h).mono ?_)
      rintro _ j' t ⟨rfl, rfl, rfl, hnext⟩
      exact ⟨rfl, rfl, shadowedFrom_pure Stage.Result.advance hnext⟩
  | finish => exact absurd rfl hst
  | _ => exact hplain (by decide) (by decide) (hstep _ (by simp [Worker.steps]) (by decide))

end ReleaseOperator
