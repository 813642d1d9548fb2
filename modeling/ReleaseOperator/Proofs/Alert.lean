import ReleaseOperator.Proofs.Evidence.Since
import ReleaseOperator.Proofs.Executions.Passage
import ReleaseOperator.Proofs.Invariants

/-!
# No failure goes unheeded

Whatever an operation of a pass meets with, either its outcome asks to come back or nothing
has failed. `Alert` says what has to be known of the collaborators for this: a condition
`calm` that only failures can break, and outcomes `back` that count as asking to come back.
From there it goes through the operations one by one, up to whole runs of an action, which
moreover end at the last stage when they do not ask to come back.
-/

namespace ReleaseOperator

open Program

/-- The outcome asks to come back after one to two seconds. -/
structure Outcome.IsSoon (o : Outcome) : Prop where
  requeue : o.requeue = true
  short : o.delay.IsShort

namespace Pass

variable {S : Type} {b : Conduct S} {s : S}

theorem soon_shortDelay : Always b shortDelay s fun o _ => o.IsSoon := by
  rw [shortDelay, delay, always_map, always_drawDelay]
  intro n _ _
  exact ⟨rfl, Duration.isShort_drawn n⟩

theorem soon_shortDelayWith (f : Failure) : Always b (shortDelayWith f) s fun o _ => o.IsSoon := by
  rw [shortDelayWith, always_bind, always_drawDelay]
  intro n _ _
  exact ⟨rfl, Duration.isShort_drawn n⟩

theorem soon_refused (e : ClusterError) : Always b (refused e) s fun o _ => o.IsSoon := by
  unfold refused
  split
  · exact soon_shortDelay
  · exact soon_shortDelayWith (.cluster e)

theorem soon_unanswered (f : Failure) : Always b (unanswered f) s fun r _ => r.2.IsSoon := by
  rw [unanswered, always_bind]
  exact soon_shortDelayWith f

end Pass

variable {S α β : Type} {b : Conduct S} {calm : S → Prop} {back : Outcome → Prop} {setup : Setup}
  {j : Job} {s t : S} {o : Outcome} {reason : Reason}

/-- A condition on the surroundings that only failures can break, under collaborators whose
class asks to come back whenever it has something to complain of. -/
structure Alert (b : Conduct S) (calm : S → Prop) (back : Outcome → Prop) : Prop where
  call : ∀ {s c a t}, calm s → b.may s c a t → ¬ c.Fails a → calm t
  hook : ∀ {s moment action release o t}, calm s → b.may s (.hook moment action release) o t →
    back o ∨ o.requeue = false ∧ calm t
  soon : ∀ {o}, o.IsSoon → back o
  requeues : ∀ {o}, back o → o.requeue = true

/-- Either the outcome asks to come back, or the work goes on and all is calm. -/
def Heeds (calm : S → Prop) (back : Outcome → Prop) (o : Outcome) (s : S) : Prop :=
  back o ∨ o.requeue = false ∧ calm s

/-- All is calm unless there was an error. -/
def CalmIfOk (calm : S → Prop) {ε : Type} (v : Except ε α) (s : S) : Prop :=
  ∀ a, v = .ok a → calm s

theorem Heeds.goesOn (h : Heeds calm back o s) (ho : ¬ o.requeue = true)
    (hback : back o → o.requeue = true) : calm s :=
  (h.resolve_left fun hsoon => ho (hback hsoon)).2

theorem Heeds.comesBack (h : Heeds calm back o s) (ho : o.requeue = true) : back o :=
  h.resolve_right fun hno => absurd (ho.symm.trans hno.1) (by decide)

theorem heeds_done (h : calm s) : Heeds calm back .done s := Or.inr ⟨rfl, h⟩

theorem calmIfOk_error {ε : Type} (e : ε) : CalmIfOk calm (.error e : Except ε α) s :=
  fun _ h => absurd h (by simp)

theorem calmIfOk_ok {ε : Type} {a : α} (h : calm s) : CalmIfOk calm (.ok a : Except ε α) s :=
  fun _ _ => h

namespace Alert

theorem shortDelay (A : Alert b calm back) : Always b Pass.shortDelay s (Heeds calm back) :=
  Pass.soon_shortDelay.mono fun _ _ ho => Or.inl (A.soon ho)

theorem shortDelayWith (A : Alert b calm back) (f : Failure) :
    Always b (Pass.shortDelayWith f) s (Heeds calm back) :=
  (Pass.soon_shortDelayWith f).mono fun _ _ ho => Or.inl (A.soon ho)

theorem unanswered (A : Alert b calm back) (f : Failure) :
    Always b (Pass.unanswered f) s fun r => Heeds calm back r.2 :=
  (Pass.soon_unanswered f).mono fun _ _ ho => Or.inl (A.soon ho)

theorem refused (A : Alert b calm back) (e : ClusterError) :
    Always b (Pass.refused e) s (Heeds calm back) :=
  (Pass.soon_refused e).mono fun _ _ ho => Or.inl (A.soon ho)

theorem now (A : Alert b calm back) (h : calm s) : Always b Pass.now s fun _ t => calm t :=
  fun _ _ hmay => A.call h hmay id

/-! ### Sources -/

/-- A step that may fail, followed by another. -/
theorem bindExcept {ε : Type} {x : ExceptT ε Pass α} {f : α → ExceptT ε Pass β}
    (hx : Always b x.run s (CalmIfOk calm))
    (hf : ∀ a t, calm t → Always b (f a).run t (CalmIfOk calm)) :
    Always b (x >>= f).run s (CalmIfOk calm) := by
  rw [ExceptT.run_bind, always_bind]
  refine hx.mono ?_
  intro v t hv
  cases v with
  | ok a => exact hf a t (hv a rfl)
  | error e => exact calmIfOk_error e

theorem lookup (A : Alert b calm back) (h : calm s) (kind : SourceKind) (ns name key : String) :
    Always b (Sources.lookup kind ns name key) s (CalmIfOk calm) := by
  cases kind with
  | secret =>
      rintro a t hmay found rfl
      exact A.call h hmay not_error_ok
  | configMap =>
      rintro a t hmay found rfl
      exact A.call h hmay not_error_ok

theorem resolveKey (A : Alert b calm back) (h : calm s) (kind : SourceKind) (ns : String)
    (ref : KeyRef) : Always b (Sources.resolveKey kind ns ref).run s (CalmIfOk calm) := by
  change Always b (Sources.ofAnswer kind ns ref <$> Sources.lookup kind ns ref.name ref.key) s _
  rw [always_map]
  refine (A.lookup h kind ns ref.name ref.key).mono ?_
  intro a t ha
  cases a with
  | error e => exact calmIfOk_error _
  | ok found => exact fun _ _ => ha found rfl

theorem resolveOne (A : Alert b calm back) (h : calm s) (ns : String) (index : Nat)
    (source : ValuesSource) :
    Always b (Sources.resolveOne ns index source).run s (CalmIfOk calm) := by
  unfold Sources.resolveOne
  split
  · exact fun _ _ => h
  · split
    · exact A.resolveKey h _ _ _
    · exact A.resolveKey h _ _ _
    · exact calmIfOk_ok h

theorem resolveFrom (A : Alert b calm back) (h : calm s) (ns : String) (index : Nat)
    (sources : List ValuesSource) :
    Always b (Sources.resolveFrom ns index sources).run s (CalmIfOk calm) := by
  induction sources generalizing index s with
  | nil => exact calmIfOk_ok h
  | cons source rest ih =>
      refine bindExcept (A.resolveOne h ns index source) ?_
      intro document t ht
      exact bindExcept (ih ht (index + 1)) fun _ _ ht' => calmIfOk_ok ht'

theorem requiredSecret (A : Alert b calm back) (h : calm s) (ns name key : String) :
    Always b (Sources.requiredSecret ns name key).run s (CalmIfOk calm) := by
  change Always b (Pass.cluster (.secret ns name key) >>= _) s _
  rw [always_bind, Pass.always_cluster]
  intro a t hmay
  rcases a with e | _ | secret
  · exact calmIfOk_error _
  · exact calmIfOk_error _
  · exact calmIfOk_ok (A.call h hmay not_error_ok)

theorem credentials (A : Alert b calm back) (h : calm s) (ns : String) (repository : Repository) :
    Always b (Sources.credentials ns repository).run s (CalmIfOk calm) := by
  unfold Sources.credentials
  split
  · exact calmIfOk_ok h
  · refine bindExcept (A.requiredSecret h _ _ _) ?_
    intro username t ht
    exact bindExcept (A.requiredSecret ht _ _ _) fun _ _ ht' => calmIfOk_ok ht'

theorem jobValues (A : Alert b calm back) (h : calm s) (setup : Setup) (j : Job) :
    Always b (j.values setup).run s (CalmIfOk calm) :=
  bindExcept (A.resolveFrom h _ 0 _) fun _ _ ht => calmIfOk_ok ht

theorem valuesDigest (A : Alert b calm back) (h : calm s) (setup : Setup) (j : Job) :
    Always b (j.valuesDigest setup).run s (CalmIfOk calm) :=
  bindExcept (A.jobValues h setup j) fun _ _ ht => calmIfOk_ok ht

/-! ### Writing -/

theorem afterWrite (A : Alert b calm back) (r : Resource) {a : Except ClusterError Resource}
    (h : ∀ stored, a = .ok stored → calm s) :
    Always b (Pass.afterWrite r a) s fun or => Heeds calm back or.1 := by
  rw [Pass.always_afterWrite]
  cases a with
  | ok stored => exact heeds_done (h stored rfl)
  | error e => exact A.refused e

theorem persistStatus (A : Alert b calm back) (h : calm s) (r : Resource) :
    Always b (Pass.persistStatus r) s fun or => Heeds calm back or.1 := by
  rw [Pass.always_persistStatus]
  intro a s₁ hmay
  rcases a with e | _ | latest
  · exact A.refused e
  · exact A.shortDelay
  · have h₁ : calm s₁ := A.call h hmay not_error_ok
    dsimp only
    split
    · exact A.shortDelay
    · intro a s₂ hmay₂
      refine A.afterWrite r ?_
      rintro stored rfl
      exact A.call h₁ hmay₂ not_error_ok

theorem persistResource (A : Alert b calm back) (h : calm s) (r : Resource) :
    Always b (Pass.persistResource r) s fun or => Heeds calm back or.1 := by
  rw [Pass.always_persistResource]
  intro a t hmay
  refine A.afterWrite r ?_
  rintro stored rfl
  exact A.call h hmay not_error_ok

/-- A pass that puts the finalizer on asks to come back, whether it could be written or not. -/
theorem ensureFinalizer (A : Alert b calm back) (h : calm s) {r : Resource}
    (hbare : r.hasFinalizer = false) :
    Always b (Pass.ensureFinalizer r) s fun or _ => ∃ o, or.1 = some o ∧ back o := by
  rw [Pass.always_ensureFinalizer, if_neg (by rw [hbare]; exact Bool.false_ne_true)]
  refine (A.persistResource h _).mono ?_
  rintro ⟨o, r'⟩ t ho
  dsimp only at ho ⊢
  split
  · rename_i hrequeue
    exact ⟨o, rfl, ho.comesBack hrequeue⟩
  · exact Pass.soon_shortDelay.mono fun o' _ ho' => ⟨o', rfl, A.soon ho'⟩

theorem removeFinalizer (A : Alert b calm back) (h : calm s) (r : Resource) :
    Always b (Pass.removeFinalizer r) s fun or => Heeds calm back or.1 := by
  rw [Pass.always_removeFinalizer]
  split
  · exact A.persistResource h _
  · exact heeds_done h

/-! ### Readiness -/

theorem workloadsReady (A : Alert b calm back) (h : calm s) (workloads : List Workload) :
    Always b (Pass.workloadsReady workloads) s fun r => Heeds calm back r.2 := by
  induction workloads generalizing s with
  | nil => exact heeds_done h
  | cons w rest ih =>
      rw [Pass.workloadsReady, always_bind, Pass.always_cluster]
      intro a t hmay
      rcases a with e | _ | _
      · exact A.unanswered _
      · exact heeds_done (A.call h hmay not_error_ok)
      · exact ih (A.call h hmay not_error_ok)

theorem manifestReady (A : Alert b calm back) (h : calm s) (release : Release) :
    Always b (Pass.manifestReady release) s fun r => Heeds calm back r.2 := by
  rw [Pass.manifestReady, always_bind, Pass.always_helm]
  intro a t hmay
  cases a with
  | error e => exact A.unanswered _
  | ok manifest =>
      dsimp only
      split
      · exact A.unanswered _
      · exact A.workloadsReady (A.call h hmay not_error_ok) _

theorem jobReady (A : Alert b calm back) (h : calm s) (setup : Setup) (j : Job) :
    Always b (j.isReady setup) s fun r => Heeds calm back r.2 := by
  unfold Job.isReady
  split
  · exact heeds_done h
  · rw [Pass.releaseReady, always_bind, Pass.always_helm]
    intro a t hmay
    rcases a with e | _ | info
    · exact A.unanswered _
    · exact heeds_done (A.call h hmay not_error_ok)
    · have ht : calm t := A.call h hmay not_error_ok
      dsimp only
      split
      · exact A.manifestReady ht _
      · exact heeds_done ht

/-! ### Recording -/

/-- Work whose outcome heeds what it meets with. -/
abbrev Heeding (b : Conduct S) (calm : S → Prop) (back : Outcome → Prop) (work : Work Outcome)
    (j : Job) (s : S) : Prop :=
  AlwaysFrom b work j s fun o _ => Heeds calm back o

theorem announce (A : Alert b calm back) (h : calm s) (reason : Reason) (detail : Option String) :
    Heeding b calm back (Work.announce reason detail) j s := by
  rw [Heeding, Work.always_announce]
  refine (A.now h).mono ?_
  intro time t ht
  split
  · exact A.persistStatus ht _
  · exact heeds_done ht

/-- What has failed once brings the operator back, whatever happens to the record of it. -/
theorem fail (A : Alert b calm back) (reason : Reason) (f : Failure) :
    Heeding b calm back (Work.fail reason f) j s := by
  rw [Heeding, Work.always_fail]
  have hany : AlwaysFrom b (Work.announce reason (some f.text)) j s fun _ _ _ => True :=
    always_iff_runs.2 fun _ _ _ => trivial
  exact hany.mono fun _ _ _ _ => A.shortDelayWith f

theorem conclude (A : Alert b calm back) (h : calm s) (reason : Reason) (reaches : Bool) :
    Heeding b calm back (Work.conclude reason reaches) j s := by
  rw [Heeding, Work.always_conclude]
  refine (A.now h).mono ?_
  intro time t ht
  exact A.persistStatus ht _

theorem concludeInstall (A : Alert b calm back) (h : calm s) :
    Heeding b calm back Work.concludeInstall j s := by
  refine Work.always_concludeInstall ?_ (A.conclude h .installSucceeded true)
  rintro o j' s' u s'' hmay (hback | ⟨ho, hcalm⟩)
  · exact Or.inl hback
  · exact Or.inr ⟨ho, A.call hcalm hmay id⟩

theorem announceInstall (A : Alert b calm back) (h : calm s) :
    Heeding b calm back Work.announceInstall j s := by
  rw [Heeding, Work.always_announceInstall]
  refine (A.now h).mono ?_
  intro time t ht
  exact A.announce ht .preInstall none

/-! ### The work on a release -/

theorem workHook (A : Alert b calm back) (h : calm s) (moment : HookMoment) (action : Action) :
    Heeding b calm back (Work.hook moment action) j s := by
  rw [Heeding, Work.hook, Work.always_about, Pass.always_hook]
  exact fun _ _ hmay => A.hook h hmay

theorem handOver (A : Alert b calm back) (h : calm s) (reason : Reason) (documents : List Json)
    (credentials : Option Credentials) :
    Heeding b calm back (Work.handOver reason documents credentials) j s := by
  rw [Heeding, Work.always_handOver]
  intro a t hmay
  cases a with
  | ok info => exact heeds_done (A.call h hmay not_error_ok)
  | error e => exact A.fail _ _

theorem applyRelease (A : Alert b calm back) (h : calm s) (reason : Reason) :
    Heeding b calm back (Work.applyRelease setup reason) j s := by
  rw [Heeding, Work.always_applyRelease]
  refine (A.jobValues h setup j).mono ?_
  intro v t hv
  cases v with
  | error e => exact A.fail _ _
  | ok documents =>
      have ht : calm t := hv documents rfl
      dsimp only
      split
      · exact heeds_done ht
      · refine (A.credentials ht _ _).mono ?_
        intro c t' hc
        cases c with
        | error e => exact A.fail _ _
        | ok credentials => exact A.handOver (hc credentials rfl) _ _ _

theorem pinVersion (A : Alert b calm back) (h : calm s) :
    Heeding b calm back (Work.pinVersion setup) j s := by
  rw [Heeding, Work.always_pinVersion]
  refine (A.credentials h _ _).mono ?_
  intro c t hc
  cases c with
  | error e => exact A.fail _ _
  | ok credentials =>
      intro a t' hmay
      cases a with
      | error e => exact A.fail _ _
      | ok version =>
          refine (A.persistResource (A.call (hc credentials rfl) hmay not_error_ok) _).mono ?_
          rintro ⟨o, r⟩ x hx
          dsimp only
          split
          · exact hx
          · exact A.shortDelay

theorem preInstall (A : Alert b calm back) (h : calm s) :
    Heeding b calm back (Work.preInstall setup) j s := by
  rw [Heeding, Work.always_preInstall]
  split
  · exact A.pinVersion h
  · exact A.workHook h .preWork .install

theorem install (A : Alert b calm back) (h : calm s) :
    Heeding b calm back (Work.install setup) j s := by
  rw [Heeding, Work.always_install]
  split
  · exact A.applyRelease h .installFailed
  · intro a t hmay
    cases a with
    | error e => exact A.shortDelayWith _
    | ok info =>
        have ht : calm t := A.call h hmay not_error_ok
        dsimp only
        split
        · exact heeds_done ht
        · exact A.applyRelease ht .installFailed

theorem uninstall (A : Alert b calm back) (h : calm s) :
    Heeding b calm back (Work.uninstall setup) j s := by
  rw [Heeding, Work.always_uninstall]
  split
  · exact heeds_done h
  · intro a t hmay
    rcases a with e | _ | info
    · exact A.shortDelayWith _
    · exact heeds_done (A.call h hmay not_error_ok)
    · intro a' t' hmay'
      cases a' with
      | ok u => exact heeds_done (A.call (A.call h hmay not_error_ok) hmay' not_error_ok)
      | error e => exact A.fail _ _

theorem isGone (A : Alert b calm back) (h : calm s) :
    AlwaysFrom b (Work.isGone setup) j s fun gone _ => Heeds calm back gone.2 := by
  unfold Work.isGone
  split
  · exact heeds_done h
  · rw [alwaysFrom_bind, alwaysFrom_get, alwaysFrom_bind, Work.always_ask, Pass.always_helm]
    intro a t hmay
    cases a with
    | error e =>
        rw [Work.always_ask]
        exact A.unanswered _
    | ok info => exact heeds_done (A.call h hmay not_error_ok)

/-! ### Whole runs -/

theorem step (A : Alert b calm back) (h : calm s) (action : Action) {st : Stage}
    {work : Work Outcome} (hmem : (st, work) ∈ (Worker.forAction setup action).steps) :
    Heeding b calm back work j s := by
  have hidle : Heeding b calm back (pure .done) j s := (alwaysFrom_pure _ _).2 (heeds_done h)
  cases action <;>
    simp only [Worker.steps, Worker.forAction, List.mem_cons, Prod.mk.injEq, List.not_mem_nil,
      or_false] at hmem <;>
    rcases hmem with ⟨_, rfl⟩ | ⟨_, rfl⟩ | ⟨_, rfl⟩ | ⟨_, rfl⟩ | ⟨_, rfl⟩ | ⟨_, rfl⟩ | ⟨_, rfl⟩
  case install.inl => exact A.announceInstall h
  case install.inr.inl => exact A.preInstall h
  case install.inr.inr.inr.inl => exact A.install h
  case install.inr.inr.inr.inr.inr.inr => exact A.concludeInstall h
  all_goals first
    | exact hidle
    | exact A.announce h _ none
    | exact A.workHook h _ _
    | exact A.applyRelease h _
    | exact A.uninstall h
    | exact A.conclude h _ _

/-- A run that does not ask to come back has come to its end without any failure. -/
def Ends (calm : S → Prop) (back : Outcome → Prop) (o : Outcome) (j : Job) (s : S) : Prop :=
  back o ∨ o = .done ∧ calm s ∧ j.entry.stage = .finish

theorem enter (A : Alert b calm back) (h : calm s) (action : Action) (stage : Stage) :
    AlwaysFrom b (Work.enter action stage) j s fun _ j' t => calm t ∧ j'.entry.stage = stage := by
  rw [Work.always_enter]
  exact fun _ _ hmay => ⟨A.call h hmay id, rfl⟩

theorem onward (A : Alert b calm back) (h : Heeds calm back o s) (action : Action)
    (st : Stage) :
    Worker.Onward b action st (fun st j s => calm s ∧ j.entry.stage = st)
      (Ends calm back) o j s := by
  unfold Worker.Onward
  split
  · rename_i ho
    exact Or.inl (h.comesBack ho)
  · rename_i ho
    exact A.enter (h.goesOn ho A.requeues) action st.next

theorem perform (A : Alert b calm back) (h : calm s) (action : Action) :
    AlwaysFrom b (Work.perform setup action) j s (Ends calm back) := by
  rw [Work.always_perform]
  refine Worker.always_run_of_steps (Worker.action_forAction setup action)
    (fun _ _ h => A.onward (heeds_done h.1) _ _) ?_ ?_
    (fun _ _ hmem _ _ h => (A.step h.1 action hmem).mono fun _ _ _ ht => A.onward ht _ _)
    (fun _ _ h => Or.inr ⟨rfl, h⟩) ⟨h, rfl⟩
  · intro j s h
    have hneeded : AlwaysFrom b (Worker.forAction setup action).isNeeded j s
        fun no _ t => no.2 = .done ∧ calm t := by
      cases action <;> exact ⟨rfl, h.1⟩
    refine hneeded.mono ?_
    rintro ⟨needed, o⟩ j' t ⟨rfl, ht⟩
    split
    · exact A.onward (heeds_done ht) _ _
    · exact (A.enter ht _ _).mono fun _ _ _ hend => Or.inr ⟨rfl, hend⟩
  · intro j s h
    have hdone : AlwaysFrom b (Worker.forAction setup action).isDone j s
        fun r _ => Heeds calm back r.2 := by
      cases action with
      | delete => exact A.isGone h.1
      | install => exact (Work.always_isReady setup _).2 (A.jobReady h.1 setup j)
      | update => exact (Work.always_isReady setup _).2 (A.jobReady h.1 setup j)
      | upgrade => exact (Work.always_isReady setup _).2 (A.jobReady h.1 setup j)
    refine hdone.mono ?_
    rintro ⟨done, o⟩ j' t ht
    split
    · exact A.onward ht _ _
    · exact Pass.soon_shortDelay.mono fun _ _ ho => Or.inl (A.soon ho)

end Alert

end ReleaseOperator
